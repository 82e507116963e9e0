import MarkdownTemplates.Document
import MarkdownTemplates.Proofs.Template.Expansion

/-!
# The walk to a failure

An expansion that fails has gone from the root along references, and everything in front of each of them was expanded. It fails
where the walk ends: at an id that stands on the walk, at one that is too deep below the root, or at one without a definition.
-/

namespace MarkdownTemplates

open Relation (ReflTransGen TransGen)

namespace Problem

variable (p : Problem) (key key' value : String) (value? : Option String)

theorem get?_withDetail :
    (p.withDetail key value).details.get? key' = if key' = key then some value else p.details.get? key' :=
  p.details.get?_insert key key' value

theorem get?_withDetail? : (p.withDetail? key value?).details.get? key' =
    if key' = key then value?.or (p.details.get? key') else p.details.get? key' := by
  cases value? with
  | none => simp [withDetail?]
  | some v => simp [withDetail?, get?_withDetail]

theorem kind_withDetail? : (p.withDetail? key value?).kind = p.kind := by
  cases value? <;> rfl

end Problem

/-- Why an expansion fails. -/
inductive ExpansionFault where
  | circular
  | tooDeep
  | undefined

namespace ExpansionFault

def kind : ExpansionFault → ProblemKind
  | circular => .circularReference
  | tooDeep => .maxDepthExceeded
  | undefined => .undefinedReference

theorem kind_injective : Function.Injective kind := by
  intro fault fault' h
  cases fault <;> cases fault' <;> first | rfl | cases h

/-- The problem at the end of a walk. -/
def problem (limit : Nat) (path : List String) (last : String) : ExpansionFault → Problem
  | circular => .circular last path.reverse
  | tooDeep => .tooDeep last limit
  | undefined => .undefined last path.getLast?

end ExpansionFault

/-- Does the problem name the fault, with the ids of a walk in its details? -/
def Problem.Reports (p : Problem) (path : List String) (last : String) : ExpansionFault → Prop
  | .circular => p.kind = .circularReference ∧ p.details.get? "templateId" = some last ∧
      p.details.get? "path" = some (formatCycle (path ++ [last]))
  | .tooDeep => p.kind = .maxDepthExceeded
  | .undefined => p.kind = .undefinedReference ∧ p.details.get? "templateId" = some last ∧
      p.details.get? "referencedFrom" = path.getLast?

theorem Problem.Reports.kind_eq {p : Problem} {path : List String} {last : String} {fault : ExpansionFault}
    (h : p.Reports path last fault) : p.kind = fault.kind := by
  cases fault with
  | circular => exact h.1
  | tooDeep => exact h
  | undefined => exact h.1

theorem ExpansionFault.reports_problem (limit : Nat) (path : List String) (last root : String) (fault : ExpansionFault) :
    ((fault.problem limit path last).withDetail "rootTemplateId" root).Reports path last fault := by
  cases fault with
  | circular =>
    refine ⟨rfl, ?_, ?_⟩ <;>
      simp [problem, Problem.circular, Problem.get?_withDetail]
  | tooDeep => rfl
  | undefined =>
    refine ⟨?_, ?_, ?_⟩
    · exact Problem.kind_withDetail? _ _ _
    · simp [problem, Problem.undefined, Problem.get?_withDetail, Problem.get?_withDetail?]
    · simp [problem, Problem.undefined, Problem.get?_withDetail, Problem.get?_withDetail?]

namespace Definitions

variable {ds : Definitions} {limit : Nat} {root x y last : String} {path : List String} {d : TemplateDefinition}

/-- Is the end of a walk at fault in this way? -/
def FailsAt (ds : Definitions) (limit : Nat) (path : List String) (last : String) : ExpansionFault → Prop
  | .circular => last ∈ path
  | .tooDeep => path.length = limit + 1 ∧ last ∉ path
  | .undefined => path.length ≤ limit ∧ ds.contains last = false

/-- A walk from the root over `path` to an id. Each step goes to the first reference that is not expanded: those in front of it are,
at the depth at which they stand. -/
inductive FirstWalk (ds : Definitions) (limit : Nat) (root : String) : List String → String → Prop
  | start : FirstWalk ds limit root [] root
  | step {path : List String} {x y : String} {d : TemplateDefinition} {before after : List Node} {n : Node} :
      FirstWalk ds limit root path x → x ∉ path → ds.get? x = some d → d.content = before ++ n :: after → n.RefersTo y →
      (∀ m ∈ before, ∀ z, m.RefersTo z → ∀ used, ∃ e, Expansion.expandId ds limit (path ++ [x]).reverse used z = .ok e) →
      FirstWalk ds limit root (path ++ [x]) y

namespace FirstWalk

theorem nodup (h : FirstWalk ds limit root path x) : path.Nodup := by
  induction h with
  | start => exact .nil
  | step _ hx _ _ _ _ ih => exact List.nodup_append_comm.mp (List.nodup_cons.mpr ⟨hx, ih⟩)

theorem defined (h : FirstWalk ds limit root path x) : ∀ a ∈ path, ds.contains a = true := by
  induction h with
  | start => simp
  | step _ _ hd _ _ _ ih =>
    intro a ha
    rcases List.mem_append.mp ha with ha | ha
    · exact ih a ha
    · obtain rfl := List.mem_singleton.mp ha
      exact Dict.contains_iff.mpr ⟨_, hd⟩

theorem head? (h : FirstWalk ds limit root path x) : (path ++ [x]).head? = some root := by
  induction h with
  | start => rfl
  | step _ _ _ _ _ _ ih => rw [List.head?_append, ih, Option.some_or]

theorem isChain (h : FirstWalk ds limit root path x) : (path ++ [x]).IsChain ds.Uses := by
  induction h with
  | start => exact .singleton _
  | step _ _ hd hc hn _ ih =>
    refine List.isChain_append.mpr ⟨ih, .singleton _, ?_⟩
    rintro a ha b hb
    obtain rfl : _ = a := by simpa using ha
    obtain rfl : _ = b := by simpa using hb
    exact ⟨_, hd, _, by simp [hc], hn⟩

theorem transGen (h : FirstWalk ds limit root path x) : ∀ a ∈ path, TransGen ds.Uses a x := by
  have hpairs : (path ++ [x]).Pairwise (TransGen ds.Uses) :=
    List.isChain_iff_pairwise.mp (h.isChain.imp fun _ _ => TransGen.single)
  intro a ha
  exact (List.pairwise_append.mp hpairs).2.2 a ha x (List.mem_singleton_self x)

/-- The ids of the walk are different, so there are not more of them than definitions. -/
theorem length_le (h : FirstWalk ds limit root path x) : path.length ≤ ds.size := by
  rw [← Dict.length_keys]
  exact h.nodup.length_le_of_subset fun a ha => Dict.mem_keys.mpr (h.defined a ha)

end FirstWalk

end Definitions

namespace Expansion

open Definitions

variable {ds : Definitions} {limit : Nat} {ancestors path : List String} {used : NameSet} {root x : String} {p : Problem}

/-- Where nodes are not expanded, a first one of them is not. -/
theorem exists_first_of_expandNodes_eq_error {ns : List Node} (h : expandNodes ds limit ancestors used ns = .error p) :
    ∃ before n after y, ns = before ++ n :: after ∧ n.RefersTo y ∧
      (∀ m ∈ before, ∀ z, m.RefersTo z → ∃ used e, expandId ds limit ancestors used z = .ok e) ∧
      ∃ used, expandId ds limit ancestors used y = .error p := by
  induction ns generalizing used with
  | nil =>
    rw [expandNodes] at h
    cases h
  | cons n ns ih =>
    -- Where the first node is expanded, the failure is behind it.
    have htail : ∀ used, (∀ z, n.RefersTo z → ∃ used e, expandId ds limit ancestors used z = .ok e) →
        expandNodes ds limit ancestors used ns = .error p →
        ∃ before m after y, n :: ns = before ++ m :: after ∧ m.RefersTo y ∧
          (∀ m ∈ before, ∀ z, m.RefersTo z → ∃ used e, expandId ds limit ancestors used z = .ok e) ∧
          ∃ used, expandId ds limit ancestors used y = .error p := by
      intro used hn h
      obtain ⟨before, m, after, y, rfl, hm, hb, hy⟩ := ih h
      exact ⟨n :: before, m, after, y, rfl, hm, List.forall_mem_cons.mpr ⟨hn, hb⟩, hy⟩
    rw [expandNodes] at h
    cases hr : n.isReference with
    | false =>
      have hno : ∀ z, n.RefersTo z → ∃ used e, expandId ds limit ancestors used z = .ok e := fun z hz => by
        simp [Node.RefersTo, hr] at hz
      cases hrest : expandNodes ds limit ancestors used ns with
      | error q => exact htail used hno (by simpa [hr, hrest, Except.map] using h)
      | ok rest => simp [hr, hrest, Except.map] at h
    | true =>
      cases hi : n.attribute? "id" with
      | none => exact htail used (fun z hz => by simp [Node.RefersTo, hi] at hz) (by simpa [hr, hi] using h)
      | some y =>
        cases hf : expandId ds limit ancestors used y with
        | error q =>
          obtain rfl : q = p := by simpa [hr, hi, hf] using h
          exact ⟨[], n, ns, y, rfl, ⟨hr, hi⟩, by simp, used, hf⟩
        | ok first =>
          have hy : ∀ z, n.RefersTo z → ∃ used e, expandId ds limit ancestors used z = .ok e := by
            rintro z ⟨-, hz⟩
            obtain rfl := Option.some.inj (hi.symm.trans hz)
            exact ⟨used, first, hf⟩
          cases hrest : expandNodes ds limit ancestors first.used ns with
          | error q => exact htail first.used hy (by simpa [hr, hi, hf, hrest, Except.map] using h)
          | ok rest => simp [hr, hi, hf, hrest, Except.map] at h

/-- A walk to an id that is not expanded goes on to a fault. -/
theorem exists_firstWalk (hw : FirstWalk ds limit root path x) (hl : path.length ≤ limit + 1)
    (h : expandId ds limit path.reverse used x = .error p) :
    ∃ path last fault, FirstWalk ds limit root path last ∧ ds.FailsAt limit path last fault ∧
      p = fault.problem limit path last := by
  induction hk : limit + 1 - path.length using Nat.strong_induction_on generalizing path used x with
  | _ k ih =>
    rw [expandId] at h
    split at h
    · rename_i hx
      cases h
      exact ⟨path, x, .circular, hw, List.mem_reverse.mp hx, rfl⟩
    · rename_i hx
      rw [List.mem_reverse] at hx
      split at h
      · rename_i hd
        rw [List.length_reverse] at hd
        cases h
        exact ⟨path, x, .tooDeep, hw, ⟨by omega, hx⟩, rfl⟩
      · rename_i hd
        rw [List.length_reverse] at hd
        cases hg : ds.get? x with
        | none =>
          obtain rfl : Problem.undefined x path.getLast? = p := by simpa [hg] using h
          exact ⟨path, x, .undefined, hw, ⟨by omega, by simp [Dict.contains, hg]⟩, rfl⟩
        | some d =>
          have hns : expandNodes ds limit (path ++ [x]).reverse (used.insert x) d.content = .error p := by
            simpa [hg] using h
          obtain ⟨before, n, after, y, hc, hn, hb, used', hy⟩ := exists_first_of_expandNodes_eq_error hns
          have hbefore : ∀ m ∈ before, ∀ z, m.RefersTo z → ∀ used, ∃ e,
              expandId ds limit (path ++ [x]).reverse used z = .ok e := by
            intro m hm z hz used
            obtain ⟨_, _, hok⟩ := hb m hm z hz
            have hu : ds.Uses x z := ⟨d, hg, m, by simp [hc, hm], hz⟩
            refine exists_expandId (idExpanded_of_expandId hok).fits fun a ha => ?_
            rcases List.mem_append.mp (List.mem_reverse.mp ha) with ha | ha
            · exact (hw.transGen a ha).tail hu
            · obtain rfl := List.mem_singleton.mp ha
              exact .single hu
          have hlength : (path ++ [x]).length = path.length + 1 := List.length_append
          exact ih (limit + 1 - (path ++ [x]).length) (by omega) (hw.step hx hg hc hn hbefore) (by omega) hy rfl

end Expansion

namespace Definitions

variable {ds : Definitions} {limit : Nat} {root x : String} {p : Problem} {path : List String} {last : String}

theorem exists_firstWalk_of_expand (h : ds.expand limit root = .error p) :
    ∃ path last fault, FirstWalk ds limit root path last ∧ ds.FailsAt limit path last fault ∧
      p = (fault.problem limit path last).withDetail "rootTemplateId" root := by
  rw [expand] at h
  cases he : Expansion.expandId ds limit [] ∅ root with
  | ok e => simp [he, Except.mapError] at h
  | error q =>
    obtain rfl : q.withDetail "rootTemplateId" root = p := by simpa [he, Except.mapError] using h
    obtain ⟨path, last, fault, hw, hf, rfl⟩ := Expansion.exists_firstWalk .start (Nat.zero_le _) he
    exact ⟨path, last, fault, hw, hf, rfl⟩

/-- An expansion ends with nodes or with a problem, and it goes down no further than there are definitions. With a problem, there is
a walk along references from the root over different defined ids, in front of which everything is expanded, and the problem names
the one fault at its end. With a limit of at least the number of definitions that fault is never the depth. -/
theorem expand_fails_first (ds : Definitions) (limit : Nat) (root : String) :
    ((∃ e, ds.expand limit root = .ok e) ∨ ∃ p, ds.expand limit root = .error p) ∧
    (∀ path x, FirstWalk ds limit root path x → path.length ≤ ds.size) ∧
    (∀ p, ds.expand limit root = .error p → ∃ path last, FirstWalk ds limit root path last ∧
      (path ++ [last]).head? = some root ∧ (path ++ [last]).IsChain ds.Uses ∧
      path.Nodup ∧ (∀ x ∈ path, ds.contains x = true) ∧
      ∃! fault, ds.FailsAt limit path last fault ∧ p.Reports path last fault) ∧
    (ds.size ≤ limit → ∀ p, ds.expand limit root = .error p → p.kind ≠ .maxDepthExceeded) := by
  refine ⟨?_, fun _ _ => FirstWalk.length_le, fun p hp => ?_, fun hl p hp hk => ?_⟩
  · cases ds.expand limit root with
    | ok e => exact .inl ⟨e, rfl⟩
    | error p => exact .inr ⟨p, rfl⟩
  · obtain ⟨path, last, fault, hw, hf, rfl⟩ := exists_firstWalk_of_expand hp
    have hr := fault.reports_problem limit path last root
    refine ⟨path, last, hw, hw.head?, hw.isChain, hw.nodup, hw.defined, fault, ⟨hf, hr⟩, fun _ ⟨_, hr'⟩ => ?_⟩
    exact ExpansionFault.kind_injective (hr'.kind_eq.symm.trans hr.kind_eq)
  · obtain ⟨path, last, fault, hw, hf, rfl⟩ := exists_firstWalk_of_expand hp
    have hkind := (fault.reports_problem limit path last root).kind_eq.symm.trans hk
    obtain rfl : fault = .tooDeep := ExpansionFault.kind_injective hkind
    have hlength : path.length = limit + 1 := hf.1
    have hle := hw.length_le
    omega

/-- The templates `a` and `b` use each other, and `a` uses `c` first. -/
def mutualDocument : Document :=
  .parse (":::template\x7bid=\"a\"\x7d\n::template\x7bid=\"c\"\x7d\n::template\x7bid=\"b\"\x7d\n:::\n" ++
    ":::template\x7bid=\"b\"\x7d\n::template\x7bid=\"a\"\x7d\n:::\n:::template\x7bid=\"c\"\x7d\n:::\n").toList

theorem exists_collect_mutual : ∃ ds, TemplateDefinition.collect none mutualDocument.root = .ok ds ∧ ds.size = 3 ∧
    (∀ x, ds.contains x = true ↔ x ∈ ["a", "b", "c"]) ∧
    ∀ x y, ds.Uses x y ↔ (x, y) ∈ [("a", "c"), ("a", "b"), ("b", "a")] := by
  have hread : (TemplateDefinition.collect none mutualDocument.root).toOption.map (fun ds =>
      ds.entries.map fun e => (e.1, e.2.content.map fun n => (n.isReference, n.attribute? "id"))) =
      some [("a", [(true, some "c"), (true, some "b")]), ("b", [(true, some "a")]), ("c", [])] := by decide +kernel
  cases hds : TemplateDefinition.collect none mutualDocument.root with
  | error p => simp [hds, Except.toOption] at hread
  | ok ds =>
    simp only [hds, Except.toOption, Option.map_some, Option.some.injEq] at hread
    have hkeys : ds.keys = ["a", "b", "c"] := by
      simpa [Dict.keys, Function.comp_def] using congrArg (List.map Prod.fst) hread
    refine ⟨ds, rfl, by rw [← Dict.length_keys, hkeys]; rfl, fun x => by rw [← Dict.mem_keys, hkeys], fun x y => ?_⟩
    have huses : ds.Uses x y ↔ ∃ refs, (x, refs) ∈ ds.entries.map (fun e =>
        (e.1, e.2.content.map fun n => (n.isReference, n.attribute? "id"))) ∧ (true, some y) ∈ refs := by
      simp [Uses, Node.RefersTo, ← Dict.mem_entries]
    rw [huses, hread]
    simp only [List.mem_cons, Prod.mk.injEq, List.not_mem_nil, or_false]
    grind

/-- All ids are defined and a limit of three is not reached, so the walk from `a` ends where it comes back to itself. -/
theorem expand_fails_first_mutual : ∃ ds p path last, TemplateDefinition.collect none mutualDocument.root = .ok ds ∧
    ds.expand 3 "a" = .error p ∧ FirstWalk ds 3 "a" path last ∧ last ∈ path ∧ p.kind = .circularReference := by
  obtain ⟨ds, hds, hsize, hkeys, huses⟩ := exists_collect_mutual
  obtain ⟨hreturns, -, hfails, hdeep⟩ := expand_fails_first ds 3 "a"
  have hnot : ¬ ∃ e, ds.expand 3 "a" = .ok e := by
    rw [exists_expand_iff]
    intro hf
    have hab : ds.Uses "a" "b" := (huses "a" "b").mpr (by decide)
    have hba : ds.Uses "b" "a" := (huses "b" "a").mpr (by decide)
    exact hf.not_transGen ((TransGen.single hab).tail hba)
  obtain ⟨p, hp⟩ := hreturns.resolve_left hnot
  obtain ⟨path, last, hw, -, -, -, -, fault, ⟨hfault, hreports⟩, -⟩ := hfails p hp
  refine ⟨ds, p, path, last, hds, hp, hw, ?_⟩
  cases fault with
  | circular => exact ⟨hfault, hreports.1⟩
  | tooDeep => exact absurd hreports (hdeep hsize.le p hp)
  | undefined =>
    have hlast : ds.contains last = true := by
      cases hw with
      | start => exact (hkeys "a").mpr (by decide)
      | step _ _ hd hc hn _ =>
        have hu := (huses _ _).mp ⟨_, hd, _, by simp [hc], hn⟩
        rw [hkeys]
        simp only [List.mem_cons, Prod.mk.injEq, List.not_mem_nil, or_false] at hu ⊢
        grind
    exact absurd (hlast.symm.trans hfault.2) (by decide)

end Definitions

end MarkdownTemplates
