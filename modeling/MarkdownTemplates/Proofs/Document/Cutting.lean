import MarkdownTemplates.Proofs.Document.OwnLines
import MarkdownTemplates.Proofs.Position

/-!
# Where directives stand in a text

The segments of a text are the text again when they are put one behind the other. The place of a directive is counted from that of its
text over the segments in front, character by character, and the directive keeps its own characters.
-/

namespace MarkdownTemplates

namespace Head

variable {s rest : List Char}

theorem suffix_of_takeLabel? {label : Option (List Char)} (h : takeLabel? s = some (label, rest)) : rest <:+ s := by
  unfold takeLabel? at h
  split at h
  · rename_i s
    split at h
    · cases h
    · rename_i c behind hbehind
      obtain ⟨-, rfl⟩ := Prod.mk.inj (Option.some.inj h)
      have hdropped : c :: behind <:+ s := hbehind ▸ List.dropWhile_suffix _
      exact ((List.suffix_cons c behind).trans hdropped).trans (List.suffix_cons _ _)
  · obtain ⟨-, rfl⟩ := Prod.mk.inj (Option.some.inj h)
    exact List.suffix_refl _

theorem suffix_of_takeBlock? {quote : Option Char} {inner : List Char} (h : takeBlock? quote s = some (inner, rest)) : rest <:+ s := by
  fun_induction takeBlock? quote s generalizing inner with
  | case1 | case2 | case6 => cases h
  | case5 =>
    obtain ⟨-, rfl⟩ := Prod.mk.inj (Option.some.inj h)
    exact List.suffix_cons _ _
  | case3 e r q ih =>
    simp only [Option.map_eq_some_iff, Prod.exists, Prod.mk.injEq] at h
    obtain ⟨_, _, hp, -, rfl⟩ := h
    exact (ih hp).trans ((List.suffix_cons _ _).trans (List.suffix_cons _ _))
  | case4 | case7 =>
    rename_i ih
    simp only [Option.map_eq_some_iff, Prod.exists, Prod.mk.injEq] at h
    obtain ⟨_, _, hp, -, rfl⟩ := h
    exact (ih hp).trans (List.suffix_cons _ _)

theorem suffix_of_takeAttributes? {attributes : Attributes} (h : takeAttributes? s = some (attributes, rest)) : rest <:+ s := by
  unfold takeAttributes? at h
  split at h
  · simp only [Option.map_eq_some_iff, Prod.exists, Prod.mk.injEq] at h
    obtain ⟨_, _, hp, -, rfl⟩ := h
    exact (suffix_of_takeBlock? hp).trans (List.suffix_cons _ _)
  · obtain ⟨-, rfl⟩ := Prod.mk.inj (Option.some.inj h)
    exact List.suffix_refl _

theorem suffix_of_parse? {head : Head} (h : parse? s = some (head, rest)) : rest <:+ s := by
  cases s with
  | nil => cases h
  | cons c r =>
    rw [parse?] at h
    split_ifs at h
    simp only [Option.bind_eq_bind, Option.bind_eq_some_iff, Prod.exists, Option.pure_def, Option.some.injEq, Prod.mk.injEq] at h
    obtain ⟨label, behind, hlabel, attributes, rest', hattributes, -, rfl⟩ := h
    exact (suffix_of_takeAttributes? hattributes).trans
      ((suffix_of_takeLabel? hlabel).trans ((List.dropWhile_suffix _).trans (List.suffix_cons _ _)))

end Head

namespace Segment

variable {kind : NodeKind} {head : Head} {text rest : List Char} {start stop : Option Point} {segments : List Segment} {n : Node}

theorem suffix_of_directive? (h : directive? text = some (kind, head, rest)) : rest <:+ text := by
  simp only [directive?, Option.bind_eq_bind, Option.bind_eq_some_iff, Prod.exists, Option.pure_def, Option.some.injEq,
    Prod.mk.injEq] at h
  obtain ⟨head', rest', hhead, kind', -, -, -, rfl⟩ := h
  exact (Head.suffix_of_parse? hhead).trans (List.dropWhile_suffix _)

theorem flatMap_source_addPlain (pending : List Char) (segments : List Segment) :
    (addPlain pending segments).flatMap source = pending.reverse ++ segments.flatMap source := by
  rw [addPlain]
  split_ifs with h
  · rw [List.isEmpty_iff.mp h]
    rfl
  · rfl

theorem flatMap_source_cut (previous : Option Char) (pending text : List Char) :
    (cut previous pending text).flatMap source = pending.reverse ++ text := by
  fun_induction cut previous pending text with
  | case1 => exact flatMap_source_addPlain _ _
  | case2 previous pending c r _ kind head rest hd written ih =>
    have hwritten : written ++ rest = c :: r := List.suffix_iff_eq_append.mp (suffix_of_directive? hd)
    rw [flatMap_source_addPlain, List.flatMap_cons, ih, List.reverse_nil, List.nil_append]
    exact congrArg _ hwritten
  | case3 previous pending c r _ _ ih => rw [ih, List.reverse_cons, List.append_assoc, List.singleton_append]
  | case4 previous pending c r _ ih => rw [ih, List.reverse_cons, List.append_assoc, List.singleton_append]

/-- The segments of a text make up the text. -/
theorem flatMap_source_ofText (text : List Char) : (ofText text).flatMap source = text := flatMap_source_cut none [] text

/-- The node of a directive among segments, with the segments in front of it. -/
theorem exists_append_of_mem_toNodes (h : n ∈ toNodes stop start segments) (hkind : n.kind.isDirective = true) :
    ∃ front written behind, segments = front ++ written :: behind ∧ n.raw = some (String.ofList written.source) ∧
      n.span = start.map fun p => ⟨p.advance (front.flatMap source), p.advance (front.flatMap source ++ written.source)⟩ := by
  fun_induction toNodes stop start segments with
  | case1 => cases h
  | case2 start s =>
    obtain rfl := List.mem_singleton.mp h
    cases hkind
  | case3 start s rest _ ih =>
    rcases List.mem_cons.mp h with rfl | h
    · cases s with
      | plain s => cases hkind
      | directive kind head s => exact ⟨[], .directive kind head s, rest, rfl, rfl, rfl⟩
    · obtain ⟨front, written, behind, rfl, hraw, hspan⟩ := ih h
      refine ⟨s :: front, written, behind, rfl, hraw, hspan.trans ?_⟩
      cases start with
      | none => rfl
      | some p => simp [Point.advance_append]

end Segment

namespace Node

variable {n t : Node} {ns : List Node}

/-- Was the node cut out of a node of text, whose characters were counted up to its place? -/
def IsCutOf (t n : Node) : Prop :=
  ∃ value before written behind, t.kind = .text ∧ t.value = some value ∧ value.toList = before ++ written ++ behind ∧
    n.raw = some (String.ofList written) ∧
      n.span = t.span.map fun s => ⟨s.start.advance before, s.start.advance (before ++ written)⟩

theorem isCutOf_of_mem_splitText (ht : t.kind = .text) (hplain : ArePlain [t]) (h : n ∈ preorderList t.splitText)
    (hkind : n.kind.isDirective = true) : t.IsCutOf n := by
  have huncut : n ∉ preorderList [t] := fun hm => by simp [hplain n hm] at hkind
  rw [splitText] at h
  cases hvalue : t.value with
  | none =>
    rw [hvalue] at h
    exact absurd h huncut
  | some value =>
    simp only [hvalue] at h
    split_ifs at h
    · rw [preorderList_of_leaves fun m hm => (Segment.of_mem_toNodes m hm).1] at h
      obtain ⟨front, written, behind, hsegments, hraw, hspan⟩ := Segment.exists_append_of_mem_toNodes h hkind
      refine ⟨value, front.flatMap Segment.source, written.source, behind.flatMap Segment.source, ht, hvalue, ?_, hraw, ?_⟩
      · rw [← Segment.flatMap_source_ofText value.toList, hsegments]
        simp
      · rw [hspan, Option.map_map]
        rfl
    · exact absurd h huncut

end Node

end MarkdownTemplates
