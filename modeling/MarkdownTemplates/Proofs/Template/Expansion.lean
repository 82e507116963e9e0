import MarkdownTemplates.Proofs.Dict
import MarkdownTemplates.Template.Expansion

/-!
# Expansion is substitution

Expansion succeeds exactly when all ids that the root leads to are defined, none of them leads back to itself and no chain of
references is longer than the limit. The result is then the content of the root with every reference substituted, and the used
ids are those that the root leads to.
-/

namespace MarkdownTemplates

open Relation (ReflTransGen TransGen)

/-- Is the node a reference to the id `y`, with or without `src`? -/
def Node.RefersTo (n : Node) (y : String) : Prop := n.isReference = true ∧ n.attribute? "id" = some y

namespace Definitions

variable {ds : Definitions} {limit depth : Nat} {x y : String}

/-- Does the content of `x` have a reference to `y` among its direct members? -/
def Uses (ds : Definitions) (x y : String) : Prop := ∃ d, ds.get? x = some d ∧ ∃ n ∈ d.content, n.RefersTo y

/-- The second list is the first one with the substituted content in the place of each reference. -/
inductive Substitutes (ds : Definitions) : List Node → List Node → Prop
  | nil : Substitutes ds [] []
  | keep {n : Node} {ns ms : List Node} : n.isReference = false → Substitutes ds ns ms →
      Substitutes ds (n :: ns) (n :: ms)
  | drop {n : Node} {ns ms : List Node} : n.isReference = true → n.attribute? "id" = none → Substitutes ds ns ms →
      Substitutes ds (n :: ns) ms
  | replace {n : Node} {y : String} {d : TemplateDefinition} {ns first ms : List Node} : n.RefersTo y →
      ds.get? y = some d → Substitutes ds d.content first → Substitutes ds ns ms →
      Substitutes ds (n :: ns) (first ++ ms)

/-- Are the nodes the content of `x`, with every reference substituted? -/
def IsSubstitution (ds : Definitions) (x : String) (nodes : List Node) : Prop :=
  ∃ d, ds.get? x = some d ∧ ds.Substitutes d.content nodes

theorem Substitutes.unique {ns ms₁ ms₂ : List Node} (h₁ : ds.Substitutes ns ms₁) (h₂ : ds.Substitutes ns ms₂) :
    ms₁ = ms₂ := by
  induction h₁ generalizing ms₂ with
  | nil => cases h₂; rfl
  | keep hn _ ih =>
    cases h₂ with
    | keep _ h => rw [ih h]
    | drop hr => simp [hn] at hr
    | replace hr => simp [hr.1] at hn
  | drop hr hi _ ih =>
    cases h₂ with
    | keep hn => simp [hr] at hn
    | drop _ _ h => exact ih h
    | replace hr' => simp [hr'.2] at hi
  | replace hr hd _ _ ih₁ ih₂ =>
    cases h₂ with
    | keep hn => simp [hr.1] at hn
    | drop _ hi => simp [hr.2] at hi
    | replace hr' hd' h h' =>
      obtain rfl := Option.some.inj (hr.2.symm.trans hr'.2)
      obtain rfl := Option.some.inj (hd.symm.trans hd')
      rw [ih₁ h, ih₂ h']

theorem IsSubstitution.unique {a b : List Node} (ha : ds.IsSubstitution x a) (hb : ds.IsSubstitution x b) : a = b := by
  obtain ⟨d, hd, ha⟩ := ha
  obtain ⟨d', hd', hb⟩ := hb
  obtain rfl := Option.some.inj (hd.symm.trans hd')
  exact ha.unique hb

/-! ## What may stand below an id -/

/-- Everything below `x` is defined and at most `limit` deep, when `x` itself is at the given depth. -/
def Fits (ds : Definitions) (limit depth : Nat) (x : String) : Prop :=
  (∀ y, ReflTransGen ds.Uses x y → ds.contains y = true) ∧
    ∀ path, (x :: path).IsChain ds.Uses → depth + path.length ≤ limit

theorem fits_iff : ds.Fits limit depth x ↔
    depth ≤ limit ∧ ds.contains x = true ∧ ∀ y, ds.Uses x y → ds.Fits limit (depth + 1) y := by
  constructor
  · rintro ⟨hk, hp⟩
    refine ⟨by simpa using hp [] (.singleton x), hk x .refl, fun y hy => ⟨fun z hz => hk z (.head hy hz), fun path h => ?_⟩⟩
    have := hp (y :: path) (List.isChain_cons_cons.mpr ⟨hy, h⟩)
    simp only [List.length_cons] at this
    omega
  · rintro ⟨hd, hx, h⟩
    refine ⟨fun z hz => ?_, fun path hp => ?_⟩
    · rcases ReflTransGen.cases_head hz with rfl | ⟨y, hy, hz⟩
      · exact hx
      · exact (h y hy).1 z hz
    · cases path with
      | nil => simpa using hd
      | cons y path =>
        obtain ⟨hy, hp⟩ := List.isChain_cons_cons.mp hp
        have := (h y hy).2 path hp
        simp only [List.length_cons]
        omega

theorem Fits.of_transGen (h : ds.Fits limit depth x) (hy : TransGen ds.Uses x y) :
    ∃ d, depth < d ∧ ds.Fits limit d y := by
  induction hy with
  | single hu => exact ⟨depth + 1, Nat.lt_succ_self _, (fits_iff.mp h).2.2 _ hu⟩
  | tail _ hu ih =>
    obtain ⟨d, hd, hf⟩ := ih
    exact ⟨d + 1, by omega, (fits_iff.mp hf).2.2 _ hu⟩

/-- An id that leads back to itself would fit ever deeper. -/
theorem Fits.not_transGen (h : ds.Fits limit depth x) : ¬ TransGen ds.Uses x x := by
  intro hc
  induction hk : limit - depth using Nat.strong_induction_on generalizing depth with
  | _ k ih =>
    obtain ⟨d, hd, hf⟩ := h.of_transGen hc
    have hl : d ≤ limit := (fits_iff.mp hf).1
    exact ih (limit - d) (by omega) hf rfl

theorem Fits.not_transGen_of_reflTransGen (h : ds.Fits limit depth x) (hy : ReflTransGen ds.Uses x y) :
    ¬ TransGen ds.Uses y y := by
  rcases Relation.reflTransGen_iff_eq_or_transGen.mp hy with rfl | hy
  · exact h.not_transGen
  · obtain ⟨d, -, hf⟩ := h.of_transGen hy
    exact hf.not_transGen

end Definitions

namespace Expansion

open Definitions

variable {ds : Definitions} {limit : Nat} {ancestors : List String} {used : NameSet} {x : String} {e : Expansion}

/-- What a successful expansion of `x` says about `x`. -/
structure IdExpanded (ds : Definitions) (limit depth : Nat) (used : NameSet) (x : String) (e : Expansion) : Prop where
  fits : ds.Fits limit depth x
  nodes : ds.IsSubstitution x e.nodes
  used : ∀ z, e.used.contains z = true ↔ used.contains z = true ∨ ReflTransGen ds.Uses x z

/-- What a successful expansion of nodes says about the ids to which they refer. -/
structure NodesExpanded (ds : Definitions) (limit depth : Nat) (used : NameSet) (ns : List Node) (e : Expansion) : Prop where
  fits : ∀ n ∈ ns, ∀ y, n.RefersTo y → ds.Fits limit depth y
  nodes : ds.Substitutes ns e.nodes
  used : ∀ z, e.used.contains z = true ↔
    used.contains z = true ∨ ∃ n ∈ ns, ∃ y, n.RefersTo y ∧ ReflTransGen ds.Uses y z

theorem expandId_eq_ok (h : expandId ds limit ancestors used x = .ok e) : x ∉ ancestors ∧ ancestors.length ≤ limit ∧
    ∃ d, ds.get? x = some d ∧ expandNodes ds limit (x :: ancestors) (used.insert x) d.content = .ok e := by
  rw [expandId] at h
  split at h
  · cases h
  · rename_i hx
    split at h
    · cases h
    · rename_i hl
      cases hd : ds.get? x with
      | none => simp [hd] at h
      | some d => exact ⟨hx, by omega, d, rfl, by simpa [hd] using h⟩

theorem expandId_of_get? {d : TemplateDefinition} (hx : x ∉ ancestors) (hl : ancestors.length ≤ limit)
    (hd : ds.get? x = some d) :
    expandId ds limit ancestors used x = expandNodes ds limit (x :: ancestors) (used.insert x) d.content := by
  rw [expandId]
  simp [hx, Nat.not_lt.mpr hl, hd]

theorem expandNodes_cons_eq_ok {n : Node} {ns : List Node}
    (h : expandNodes ds limit ancestors used (n :: ns) = .ok e) :
    (n.isReference = false ∧ ∃ rest, expandNodes ds limit ancestors used ns = .ok rest ∧
      e = ⟨n :: rest.nodes, rest.used⟩) ∨
    (n.isReference = true ∧ n.attribute? "id" = none ∧ expandNodes ds limit ancestors used ns = .ok e) ∨
    ∃ y first rest, n.RefersTo y ∧ expandId ds limit ancestors used y = .ok first ∧
      expandNodes ds limit ancestors first.used ns = .ok rest ∧ e = ⟨first.nodes ++ rest.nodes, rest.used⟩ := by
  rw [expandNodes] at h
  cases hr : n.isReference with
  | false =>
    left
    cases hrest : expandNodes ds limit ancestors used ns with
    | error p => simp [hr, hrest, Except.map] at h
    | ok rest => exact ⟨rfl, rest, rfl, by simpa [hr, hrest, Except.map, eq_comm] using h⟩
  | true =>
    right
    cases hi : n.attribute? "id" with
    | none => exact .inl ⟨rfl, rfl, by simpa [hr, hi] using h⟩
    | some y =>
      cases hf : expandId ds limit ancestors used y with
      | error p => simp [hr, hi, hf] at h
      | ok first =>
        cases hrest : expandNodes ds limit ancestors first.used ns with
        | error p => simp [hr, hi, hf, hrest, Except.map] at h
        | ok rest =>
          exact .inr ⟨y, first, rest, ⟨hr, hi⟩, hf, hrest, by simpa [hr, hi, hf, hrest, Except.map, eq_comm] using h⟩

/-! ## A successful expansion is a substitution -/

/-- Nodes are expanded as the ids to which they refer are. -/
theorem nodesExpanded_of_expandNodes
    (ih : ∀ used y e, expandId ds limit ancestors used y = .ok e → IdExpanded ds limit ancestors.length used y e)
    {ns : List Node} (h : expandNodes ds limit ancestors used ns = .ok e) :
    NodesExpanded ds limit ancestors.length used ns e := by
  induction ns generalizing used e with
  | nil =>
    rw [expandNodes] at h
    cases h
    exact ⟨by simp, .nil, by simp⟩
  | cons n ns ihn =>
    rcases expandNodes_cons_eq_ok h with ⟨hr, rest, hrest, rfl⟩ | ⟨hr, hi, hrest⟩ | ⟨y, first, rest, hn, hf, hrest, rfl⟩
    · have hno : ∀ y, ¬ n.RefersTo y := fun y hy => by simp [Node.RefersTo, hr] at hy
      obtain ⟨hfit, hsub, hused⟩ := ihn hrest
      exact ⟨by simpa [hno] using hfit, .keep hr hsub, by simpa [hno] using hused⟩
    · have hno : ∀ y, ¬ n.RefersTo y := fun y hy => by simp [Node.RefersTo, hi] at hy
      obtain ⟨hfit, hsub, hused⟩ := ihn hrest
      exact ⟨by simpa [hno] using hfit, .drop hr hi hsub, by simpa [hno] using hused⟩
    · have honly : ∀ z, n.RefersTo z ↔ z = y := fun z => by simp [Node.RefersTo, hn.1, hn.2, eq_comm]
      obtain ⟨hfit₁, ⟨d, hd, hsub₁⟩, hused₁⟩ := ih used y first hf
      obtain ⟨hfit₂, hsub₂, hused₂⟩ := ihn hrest
      refine ⟨?_, .replace hn hd hsub₁ hsub₂, fun z => ?_⟩
      · simpa [honly, hfit₁] using hfit₂
      · rw [hused₂, hused₁]
        simp [honly, or_assoc]

theorem idExpanded_of_expandId (h : expandId ds limit ancestors used x = .ok e) :
    IdExpanded ds limit ancestors.length used x e := by
  induction hk : limit + 1 - ancestors.length using Nat.strong_induction_on generalizing ancestors used x e with
  | _ k ih =>
    obtain ⟨-, hl, d, hd, hns⟩ := expandId_eq_ok h
    have hbelow : ∀ used y e, expandId ds limit (x :: ancestors) used y = .ok e →
        IdExpanded ds limit (x :: ancestors).length used y e := fun used y e he =>
      ih (limit + 1 - (x :: ancestors).length) (by simp only [List.length_cons]; omega) he rfl
    obtain ⟨hfit, hsub, hused⟩ := nodesExpanded_of_expandNodes hbelow hns
    have huses : ∀ y, ds.Uses x y ↔ ∃ n ∈ d.content, n.RefersTo y := fun y => by simp [Uses, hd]
    refine ⟨fits_iff.mpr ⟨hl, Dict.contains_iff.mpr ⟨d, hd⟩, fun y hy => ?_⟩, ⟨d, hd, hsub⟩, fun z => ?_⟩
    · obtain ⟨n, hn, hr⟩ := (huses y).mp hy
      exact hfit n hn y hr
    · have hreach : ReflTransGen ds.Uses x z ↔ z = x ∨ ∃ n ∈ d.content, ∃ y, n.RefersTo y ∧ ReflTransGen ds.Uses y z := by
        rw [ReflTransGen.cases_head_iff, eq_comm]
        simp only [huses]
        refine or_congr_right ⟨?_, ?_⟩
        · rintro ⟨y, ⟨n, hn, hr⟩, hz⟩
          exact ⟨n, hn, y, hr, hz⟩
        · rintro ⟨n, hn, y, hr, hz⟩
          exact ⟨y, ⟨n, hn, hr⟩, hz⟩
      rw [hused, NameSet.contains_insert, hreach, or_comm (a := z = x), or_assoc]

/-! ## What fits is expanded -/

theorem exists_expandNodes
    {ns : List Node} (ih : ∀ n ∈ ns, ∀ y, n.RefersTo y → ∀ used, ∃ e, expandId ds limit ancestors used y = .ok e) :
    ∃ e, expandNodes ds limit ancestors used ns = .ok e := by
  induction ns generalizing used with
  | nil => exact ⟨⟨[], used⟩, by rw [expandNodes]⟩
  | cons n ns ihn =>
    have ihn := fun used => @ihn used fun m hm => ih m (List.mem_cons_of_mem _ hm)
    rw [expandNodes]
    cases hr : n.isReference with
    | false =>
      obtain ⟨rest, hrest⟩ := ihn used
      exact ⟨_, by simp [hrest, Except.map]; rfl⟩
    | true =>
      cases hi : n.attribute? "id" with
      | none => simpa using ihn used
      | some y =>
        obtain ⟨first, hf⟩ := ih n (by simp) y ⟨hr, hi⟩ used
        obtain ⟨rest, hrest⟩ := ihn first.used
        exact ⟨_, by simp [hf, hrest, Except.map]; rfl⟩

/-- The ancestors lead to `x`, so `x` is none of them unless it leads back to itself. -/
theorem exists_expandId (hf : ds.Fits limit ancestors.length x) (ha : ∀ a ∈ ancestors, TransGen ds.Uses a x) :
    ∃ e, expandId ds limit ancestors used x = .ok e := by
  induction hk : limit + 1 - ancestors.length using Nat.strong_induction_on generalizing ancestors used x with
  | _ k ih =>
    obtain ⟨hl, hx, hbelow⟩ := fits_iff.mp hf
    obtain ⟨d, hd⟩ := Dict.contains_iff.mp hx
    rw [expandId_of_get? (fun hm => hf.not_transGen (ha x hm)) hl hd]
    refine exists_expandNodes fun n hn y hy used => ?_
    have hu : ds.Uses x y := ⟨d, hd, n, hn, hy⟩
    refine ih (limit + 1 - (x :: ancestors).length) (by simp only [List.length_cons]; omega) (hbelow y hu) ?_ rfl
    intro a hm
    rcases List.mem_cons.mp hm with rfl | hm
    · exact .single hu
    · exact (ha a hm).tail hu

end Expansion

namespace Definitions

theorem expand_eq_ok {ds : Definitions} {limit : Nat} {x : String} {e : Expansion} :
    ds.expand limit x = .ok e ↔ Expansion.expandId ds limit [] ∅ x = .ok e := by
  rw [expand]
  cases Expansion.expandId ds limit [] ∅ x <;> simp [Except.mapError]

/-- What a successful expansion says about an id without ancestors. -/
theorem idExpanded_of_expand {ds : Definitions} {limit : Nat} {x : String} {e : Expansion} (h : ds.expand limit x = .ok e) :
    Expansion.IdExpanded ds limit 0 ∅ x e :=
  Expansion.idExpanded_of_expandId (expand_eq_ok.mp h)

/-- Expansion succeeds exactly for what fits. -/
theorem exists_expand_iff {ds : Definitions} {limit : Nat} {x : String} :
    (∃ e, ds.expand limit x = .ok e) ↔ ds.Fits limit 0 x := by
  constructor
  · rintro ⟨e, he⟩
    exact (idExpanded_of_expand he).fits
  · intro hf
    have hf : ds.Fits limit ([] : List String).length x := hf
    simp only [expand_eq_ok]
    exact Expansion.exists_expandId hf (by simp)

/-- The used ids are those that the root leads to. -/
theorem contains_used_iff {ds : Definitions} {limit : Nat} {x y : String} {e : Expansion} (h : ds.expand limit x = .ok e) :
    e.used.contains y = true ↔ ReflTransGen ds.Uses x y := by
  simpa [Dict.contains] using (idExpanded_of_expand h).used y

theorem contains_of_contains_used {ds : Definitions} {limit : Nat} {x y : String} {e : Expansion} (h : ds.expand limit x = .ok e)
    (hy : e.used.contains y = true) : ds.contains y = true :=
  (idExpanded_of_expand h).fits.1 y ((contains_used_iff h).mp hy)

/-- Expansion succeeds exactly when every id that the root leads to is defined, none of them leads back to itself, and no chain
of references from the root has more than `limit` links. Then the nodes are the only substitution of the root, and the used ids
are those that it leads to. -/
theorem expand_eq_substitution (ds : Definitions) (limit : Nat) (root : String) :
    ((∃ e, ds.expand limit root = .ok e) ↔
      (∀ y, ReflTransGen ds.Uses root y → ds.contains y = true) ∧
      (∀ y, ReflTransGen ds.Uses root y → ¬ TransGen ds.Uses y y) ∧
      ∀ path, (root :: path).IsChain ds.Uses → path.length ≤ limit) ∧
    ∀ e, ds.expand limit root = .ok e →
      (∀ nodes, ds.IsSubstitution root nodes ↔ nodes = e.nodes) ∧
      ∀ y, e.used.contains y = true ↔ ReflTransGen ds.Uses root y := by
  refine ⟨⟨fun h => ?_, fun ⟨hk, _, hp⟩ => ?_⟩, fun e he => ⟨fun nodes => ?_, fun y => contains_used_iff he⟩⟩
  · have hf := exists_expand_iff.mp h
    exact ⟨hf.1, fun y hy => hf.not_transGen_of_reflTransGen hy, by simpa using hf.2⟩
  · exact exists_expand_iff.mpr ⟨hk, by simpa using hp⟩
  · have hsub := (idExpanded_of_expand he).nodes
    exact ⟨fun h => h.unique hsub, fun h => h ▸ hsub⟩

end Definitions

end MarkdownTemplates
