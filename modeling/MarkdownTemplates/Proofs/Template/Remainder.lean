import MarkdownTemplates.Document
import MarkdownTemplates.Proofs.Template.Expansion

/-!
# What expansion leaves

The expanded template has the direct members of all contents that it uses, but for the references among them. What stands
below a member stays as it is, so the references that are left are those below members that are no references themselves.
-/

namespace MarkdownTemplates

open Relation (ReflTransGen)

namespace Definitions

variable {ds : Definitions} {limit : Nat} {root x : String} {d : TemplateDefinition} {n : Node} {e : Expansion}

/-- Is the node a direct member of the content of `x`, or of an id to which `x` leads? -/
def HasMember (ds : Definitions) (x : String) (n : Node) : Prop :=
  ∃ y d, ReflTransGen ds.Uses x y ∧ ds.get? y = some d ∧ n ∈ d.content

theorem hasMember_iff (hd : ds.get? x = some d) :
    ds.HasMember x n ↔ n ∈ d.content ∨ ∃ m ∈ d.content, ∃ y, m.RefersTo y ∧ ds.HasMember y n := by
  constructor
  · rintro ⟨z, dz, hz, hdz, hn⟩
    rcases ReflTransGen.cases_head hz with rfl | ⟨y, ⟨d', hd', m, hm, hy⟩, hz⟩
    · obtain rfl := Option.some.inj (hd.symm.trans hdz)
      exact .inl hn
    · obtain rfl := Option.some.inj (hd.symm.trans hd')
      exact .inr ⟨m, hm, y, hy, z, dz, hz, hdz, hn⟩
  · rintro (hn | ⟨m, hm, y, hy, z, dz, hz, hdz, hn⟩)
    · exact ⟨x, d, .refl, hd, hn⟩
    · exact ⟨z, dz, .head ⟨d, hd, m, hm, hy⟩ hz, hdz, hn⟩

/-- Nodes that are no references stay, and every reference brings the members of the id to which it refers. -/
theorem Substitutes.mem_iff {ns ms : List Node} (h : ds.Substitutes ns ms) :
    n ∈ ms ↔ n.isReference = false ∧ (n ∈ ns ∨ ∃ m ∈ ns, ∃ y, m.RefersTo y ∧ ds.HasMember y n) := by
  induction h with
  | nil => simp
  | @keep m ns ms hm _ ih =>
    have hno : ∀ y, ¬ m.RefersTo y := fun y hy => by simp [Node.RefersTo, hm] at hy
    rw [List.mem_cons, ih]
    constructor
    · rintro (rfl | ⟨hn, h⟩)
      · exact ⟨hm, .inl List.mem_cons_self⟩
      · exact ⟨hn, h.imp (List.mem_cons_of_mem _) (Exists.imp fun _ => And.imp_left (List.mem_cons_of_mem _))⟩
    · simp only [List.mem_cons, exists_eq_or_imp, hno, false_and, exists_false, false_or]
      rintro ⟨hn, (rfl | h) | h⟩
      · exact .inl rfl
      · exact .inr ⟨hn, .inl h⟩
      · exact .inr ⟨hn, .inr h⟩
  | @drop m ns ms hm hi _ ih =>
    have hno : ∀ y, ¬ m.RefersTo y := fun y hy => by simp [Node.RefersTo, hi] at hy
    simp only [ih, List.mem_cons, exists_eq_or_imp, hno, false_and, exists_false, false_or]
    refine and_congr_right fun hn => or_congr_left ⟨.inr, ?_⟩
    rintro (rfl | h)
    · simp [hm] at hn
    · exact h
  | @replace m y d ns first ms hm hd _ _ ih₁ ih₂ =>
    have honly : ∀ z, m.RefersTo z ↔ z = y := fun z => by simp [Node.RefersTo, hm.1, hm.2, eq_comm]
    simp only [List.mem_append, ih₁, ih₂, List.mem_cons, exists_eq_or_imp, honly, exists_eq_left, ← hasMember_iff hd,
      ← and_or_left]
    refine and_congr_right fun hn => ?_
    have hne : n ≠ m := by
      rintro rfl
      simp [hm.1] at hn
    simp only [hne, false_or]
    exact or_left_comm

/-- The expanded template has the members to which the root leads, but for the references. -/
theorem mem_expand (h : ds.expand limit root = .ok e) : n ∈ e.nodes ↔ n.isReference = false ∧ ds.HasMember root n := by
  obtain ⟨d, hd, hs⟩ := (Expansion.idExpanded_of_expandId (expand_eq_ok.mp h)).nodes
  rw [hs.mem_iff, ← hasMember_iff hd]

/-! ## Contents without references among their members -/

theorem eq_of_reflTransGen (hd : ds.get? x = some d) (hr : ∀ n ∈ d.content, n.isReference = false) {y : String}
    (h : ReflTransGen ds.Uses x y) : x = y := by
  rcases ReflTransGen.cases_head h with rfl | ⟨z, ⟨d', hd', n, hn, hz⟩, -⟩
  · rfl
  · obtain rfl := Option.some.inj (hd.symm.trans hd')
    simp [Node.RefersTo, hr n hn] at hz

theorem exists_expand_of_get? (hd : ds.get? x = some d) (hr : ∀ n ∈ d.content, n.isReference = false) :
    ∃ e, ds.expand limit x = .ok e := by
  refine exists_expand_iff.mpr (fits_iff.mpr ⟨Nat.zero_le _, Dict.contains_iff.mpr ⟨d, hd⟩, ?_⟩)
  rintro y ⟨d', hd', n, hn, hy⟩
  obtain rfl := Option.some.inj (hd.symm.trans hd')
  simp [Node.RefersTo, hr n hn] at hy

/-! ## References that are left -/

/-- Expansion leaves no reference in the result exactly when none stands below a member of a used content that is no reference
itself. -/
theorem expand_leaves_no_reference_iff (h : ds.expand limit root = .ok e) :
    (∀ n ∈ e.nodes, Reference.all n = []) ↔
      ∀ x d, ReflTransGen ds.Uses root x → ds.get? x = some d → ∀ n ∈ d.content, n.isReference = false →
        Reference.all n = [] := by
  constructor
  · intro hnone x d hx hd n hn hr
    exact hnone n ((mem_expand h).mpr ⟨hr, x, d, hx, hd, hn⟩)
  · intro hnone n hn
    obtain ⟨hr, x, d, hx, hd, hn⟩ := (mem_expand h).mp hn
    exact hnone x d hx hd n hn hr

/-- The reference to `b` stands in a container inside the template `a`. -/
def taggedDocument : Document :=
  .parse (":::template\x7bid=\"a\"\x7d\n:::tag\n::template\x7bid=\"b\"\x7d\n:::\n:::\n\n" ++
    ":::template\x7bid=\"b\"\x7d\n:::tag\n:::\n:::\n").toList

/-- The templates of the document have no references among their direct members. In `a` there is one further below, in `b`
there is none. -/
theorem exists_collect_tagged : ∃ ds, TemplateDefinition.collect none taggedDocument.root = .ok ds ∧
    (∃ d, ds.get? "a" = some d ∧ (∀ n ∈ d.content, n.isReference = false) ∧ ∃ n ∈ d.content, Reference.all n ≠ []) ∧
    ∃ d, ds.get? "b" = some d ∧ ∀ n ∈ d.content, n.isReference = false ∧ Reference.all n = [] := by
  have ha : (((TemplateDefinition.collect none taggedDocument.root).toOption.bind (·.get? "a")).any fun d =>
      d.content.all (!·.isReference) && d.content.any (Reference.all · ≠ [])) = true := by decide +kernel
  have hb : (((TemplateDefinition.collect none taggedDocument.root).toOption.bind (·.get? "b")).any fun d =>
      d.content.all fun n => !n.isReference && Reference.all n = []) = true := by decide +kernel
  cases hds : TemplateDefinition.collect none taggedDocument.root with
  | error p => simp [hds, Except.toOption] at ha
  | ok ds =>
    simp only [hds, Except.toOption, Option.bind_some, Option.any_eq_true] at ha hb
    exact ⟨ds, rfl, by simpa using ha, by simpa using hb⟩

/-- Everything to which `b` leads is `b` itself, and no reference stands in it. -/
theorem expand_leaves_no_reference_tagged : ∃ ds e, TemplateDefinition.collect none taggedDocument.root = .ok ds ∧
    ds.expand 8 "b" = .ok e ∧ ∀ n ∈ e.nodes, Reference.all n = [] := by
  obtain ⟨ds, hds, -, d, hd, hb⟩ := exists_collect_tagged
  obtain ⟨e, he⟩ : ∃ e, ds.expand 8 "b" = .ok e := exists_expand_of_get? hd fun n hn => (hb n hn).1
  refine ⟨ds, e, hds, he, (expand_leaves_no_reference_iff he).mpr fun x d' hx hd' n hn _ => ?_⟩
  obtain rfl := eq_of_reflTransGen hd (fun n hn => (hb n hn).1) hx
  obtain rfl := Option.some.inj (hd.symm.trans hd')
  exact (hb n hn).2

/-- The container in `a` is no reference, so it stays as it is, with the reference in it. -/
theorem not_expand_leaves_no_reference : ¬ ∀ (ds : Definitions) (limit : Nat) (root : String) (e : Expansion),
    ds.expand limit root = .ok e → ∀ n ∈ e.nodes, Reference.all n = [] := by
  intro h
  obtain ⟨ds, -, ⟨d, hd, hr, n, hn, hleft⟩, -⟩ := exists_collect_tagged
  obtain ⟨e, he⟩ : ∃ e, ds.expand 8 "a" = .ok e := exists_expand_of_get? hd hr
  exact hleft (h ds 8 "a" e he n ((mem_expand he).mpr ⟨hr n hn, "a", d, .refl, hd, hn⟩))

end Definitions

end MarkdownTemplates
