import MarkdownTemplates.Proofs.Path.Inside

/-!
# Normal forms of paths

A normal form is its own normal form, and its parts determine it. So the order of paths tells different normal forms apart.
-/

namespace MarkdownTemplates

namespace Path

open FileTree (IsName)

variable {p q : Path} {base : List PathPart} {names : List String} {ps : List PathPart}

/-- Parts between slashes that do not start at the root can be read back from the path. -/
theorem parts_ofParts_relative (hne : ps ≠ []) (hread : ∀ part ∈ ps, part ≠ .root ∧ '/' ∉ part.text.toList ∧
    PathPart.ofSegment? part.text.toList = some part) : (ofParts ps).parts = ps := by
  have hroot : PathPart.root ∉ ps := fun hm => (hread _ hm).1 rfl
  have hsegments := FileTree.segments_ofParts hne hroot fun part hm => (hread part hm).2.1
  have hkept : (ps.map (·.text.toList)).filterMap PathPart.ofSegment? = ps := by
    rw [List.filterMap_map]
    exact (List.filterMap_congr fun part hm => (hread part hm).2.2).trans List.filterMap_some
  obtain ⟨part, rest, rfl⟩ := List.exists_cons_of_ne_nil hne
  have hfirst := (hread part List.mem_cons_self).2.2
  have hhead : (ofParts (part :: rest)).segments.head? ≠ some [] := by
    rw [hsegments, List.map_cons, List.head?_cons]
    rintro he
    rw [Option.some.inj he] at hfirst
    cases hfirst
  have habsolute := isAbsolute_eq_false_of_segments hhead
  have hcurrent : (ofParts (part :: rest)).segments.head? ≠ some ['.'] := by
    rw [hsegments, List.map_cons, List.head?_cons]
    rintro he
    rw [Option.some.inj he] at hfirst
    cases hfirst
  rw [parts, habsolute, if_neg Bool.false_ne_true, if_neg hcurrent, hsegments, hkept]

theorem parts_ofNormal (hb : base ∈ bases) (hn : ∀ s ∈ names, IsName s) (hne : base ++ names.map PathPart.name ≠ []) :
    (ofNormal base names).parts = base ++ names.map PathPart.name := by
  have hnames : ∀ part ∈ names.map PathPart.name, part ≠ .root ∧ '/' ∉ part.text.toList ∧
      PathPart.ofSegment? part.text.toList = some part := by
    rw [List.forall_mem_map]
    exact fun s hs => ⟨by simp, (hn s hs).plain, (hn s hs).ofSegment?⟩
  rw [ofNormal, if_neg (by simpa using hne)]
  simp only [bases, List.mem_cons, List.not_mem_nil, or_false] at hb
  rcases hb with rfl | rfl | rfl | rfl
  · exact parts_ofParts_relative hne hnames
  · exact parts_ofParts_rooted (by simp [rootedBases]) hn
  · exact parts_ofParts_relative hne (List.forall_mem_cons.mpr ⟨⟨by decide, by decide, rfl⟩, hnames⟩)
  · exact parts_ofParts_rooted (by simp [rootedBases]) hn

theorem foldl_push_normal (hb : base ∈ bases) :
    (base ++ names.map PathPart.name).foldl push [] = (base ++ names.map PathPart.name).reverse := by
  have hnames : ∀ (names : List String) (stack : List PathPart),
      (names.map PathPart.name).foldl push stack = (names.map PathPart.name).reverse ++ stack := by
    intro names
    induction names with
    | nil => exact fun _ => rfl
    | cons s names ih =>
      intro stack
      rw [List.map_cons, List.foldl_cons, ih, List.reverse_cons, List.append_assoc]
      rfl
  have hbase : base.foldl push [] = base.reverse := by
    simp only [bases, List.mem_cons, List.not_mem_nil, or_false] at hb
    rcases hb with rfl | rfl | rfl | rfl <;> rfl
  rw [List.foldl_append, hbase, hnames, List.reverse_append]

theorem normalize_ofNormal (hb : base ∈ bases) (hn : ∀ s ∈ names, IsName s) :
    (ofNormal base names).normalize = ofNormal base names := by
  by_cases hne : base ++ names.map PathPart.name = []
  · have hdot : ofNormal base names = ⟨"."⟩ := by rw [ofNormal, hne]; rfl
    rw [hdot]
    rfl
  · rw [normalize, parts_ofNormal hb hn hne, foldl_push_normal hb, List.reverse_reverse]
    rfl

theorem normalize_normalize (p : Path) : p.normalize.normalize = p.normalize := by
  obtain ⟨base, hb, names, hn, hp⟩ := exists_ofNormal p
  rw [hp, normalize_ofNormal hb hn]

/-- Different normal forms are in different places in the order of paths. -/
theorem normalize_eq_of_positions (h : p.normalize.positions = q.normalize.positions) : p.normalize = q.normalize := by
  have hparts : p.normalize.parts = q.normalize.parts := List.map_injective_iff.mpr PathPart.position_injective h
  rw [← normalize_normalize p, ← normalize_normalize q, normalize, normalize.eq_1 q.normalize, hparts]

end Path

end MarkdownTemplates
