import MarkdownTemplates.Proofs.FileTree.Counting
import MarkdownTemplates.Proofs.Text

/-!
# What the text of a path means

Without a look at links, two dots take away the name in front of them, and lead from the root to itself. The normal form of an
absolute path means the same as the path, so that one normal form stands at the front of another only if it means a directory
above.
-/

namespace MarkdownTemplates

namespace Path

open FileTree (IsName)

variable {cwd d p q : Path} {place : Place} {base : List PathPart} {names : List String}

/-- Where a part leads from a place. -/
def goAlong (place : Place) : PathPart → Place
  | .root => []
  | .current => place
  | .parent => place.tail
  | .name s => s :: place

/-- Where the text of a path leads from the directory `cwd`. -/
def lexicalPlace (cwd p : Path) : Place := (cwd.parts ++ p.parts).foldl goAlong []

/-! ## Parts -/

/-- The parts between slashes. -/
def innerParts (p : Path) : List PathPart := p.segments.filterMap PathPart.ofSegment?

theorem parts_of_isAbsolute (h : p.isAbsolute = true) : p.parts = .root :: p.innerParts := by
  simp [parts, h, innerParts]

theorem foldl_goAlong_parts (h : p.isAbsolute = false) (place : Place) :
    p.parts.foldl goAlong place = p.innerParts.foldl goAlong place := by
  simp only [parts, h, Bool.false_eq_true, if_false]
  split_ifs <;> rfl

theorem foldl_goAlong_of_isAbsolute (h : p.isAbsolute = true) (place : Place) :
    p.parts.foldl goAlong place = p.innerParts.foldl goAlong [] := by
  rw [parts_of_isAbsolute h]
  rfl

/-- A path in a directory has its segments behind those of the directory, but for an empty one at their end. -/
theorem exists_segments_join (hd : d.text.isEmpty = false) : ∃ ss, (d.segments = ss ∨ d.segments = ss ++ [[]]) ∧
    ∀ q : Path, q.isAbsolute = false → (d.join q).segments = ss ++ q.segments := by
  by_cases hl : d.text.toList.getLast? = some '/'
  · obtain ⟨s, hs⟩ := List.getLast?_eq_some_iff.mp hl
    refine ⟨Text.splitOn (· == '/') s, .inr ?_, fun q hq => ?_⟩
    · rw [segments, hs, Text.splitOn_append s List.not_mem_nil]
    · rw [join, if_neg (by simp [hd, hq]), if_pos hl, segments, String.toList_append, hs, List.append_assoc]
      exact Text.splitOn_slash _ _
  · refine ⟨d.segments, .inl rfl, fun q hq => ?_⟩
    rw [join, if_neg (by simp [hd, hq]), if_neg hl, segments, String.toList_append, String.toList_append, List.append_assoc]
    exact Text.splitOn_slash _ _

theorem innerParts_join (d : Path) (hq : q.isAbsolute = false) : (d.join q).innerParts = d.innerParts ++ q.innerParts := by
  cases hd : d.text.isEmpty with
  | false =>
    obtain ⟨ss, hss, hjoin⟩ := exists_segments_join hd
    rw [innerParts, innerParts, innerParts, hjoin q hq, List.filterMap_append]
    rcases hss with hss | hss <;> simp [hss, PathPart.ofSegment?]
  | true =>
    have hempty : d = ⟨""⟩ := congrArg Path.mk (String.isEmpty_iff.mp hd)
    subst hempty
    rw [join, if_pos (.inr rfl)]
    rfl

theorem isAbsolute_iff : p.isAbsolute = true ↔ ∃ r, p.text.toList = '/' :: r := by
  simp [isAbsolute, Text.startsWith, Option.isSome_iff_exists, Text.dropStart?_eq_some]

theorem text_ne_empty_of_isAbsolute (h : p.isAbsolute = true) : p.text.isEmpty = false := by
  obtain ⟨r, hr⟩ := isAbsolute_iff.mp h
  rw [Bool.eq_false_iff]
  intro he
  simp [String.isEmpty_iff.mp he] at hr

theorem isAbsolute_join (hd : d.isAbsolute = true) (q : Path) : (d.join q).isAbsolute = true := by
  have hne := text_ne_empty_of_isAbsolute hd
  have hfront : ∀ s, isAbsolute ⟨d.text ++ s⟩ = true := by
    intro s
    obtain ⟨r, hr⟩ := isAbsolute_iff.mp hd
    exact isAbsolute_iff.mpr ⟨r ++ s.toList, by rw [String.toList_append, hr, List.cons_append]⟩
  rw [join]
  split_ifs with hq
  · exact hq.resolve_right (by simp [hne])
  · exact hfront _
  · rw [String.append_assoc]
    exact hfront _

/-- A path in a directory leads where it leads from there. -/
theorem lexicalPlace_join (hd : d.isAbsolute = true) (q : Path) : lexicalPlace cwd (d.join q) = lexicalPlace d q := by
  rw [lexicalPlace, lexicalPlace, List.foldl_append, List.foldl_append]
  cases hq : q.isAbsolute with
  | true =>
    rw [join, if_pos (.inl hq), foldl_goAlong_of_isAbsolute hq, foldl_goAlong_of_isAbsolute hq]
  | false =>
    rw [foldl_goAlong_of_isAbsolute (isAbsolute_join hd q), innerParts_join d hq,
      List.foldl_append, foldl_goAlong_of_isAbsolute hd, foldl_goAlong_parts hq]

/-! ## Normal forms -/

/-- What may stand in front of the names of an absolute path in normal form. -/
def rootedBases : List (List PathPart) := [[.root], [.root, .parent]]

/-- Parts put on a stack that starts at the root leave the names of the place to which they lead. -/
theorem foldl_push_rooted {ps : List PathPart} (hr : .root ∉ ps) (hb : base ∈ rootedBases) (place : Place) :
    ∃ base' ∈ rootedBases, ps.foldl push (place.map PathPart.name ++ base.reverse) =
      (ps.foldl goAlong place).map PathPart.name ++ base'.reverse := by
  induction ps generalizing place base with
  | nil => exact ⟨base, hb, rfl⟩
  | cons part ps ih =>
    obtain ⟨hpart, hps⟩ : .root ≠ part ∧ .root ∉ ps := by simpa [not_or] using hr
    have hstep : ∃ base' ∈ rootedBases, push (place.map PathPart.name ++ base.reverse) part =
        (goAlong place part).map PathPart.name ++ base'.reverse := by
      cases part with
      | root => exact absurd rfl hpart
      | current => exact ⟨base, hb, rfl⟩
      | name s => exact ⟨base, hb, rfl⟩
      | parent =>
        cases place with
        | cons s place => exact ⟨base, hb, rfl⟩
        | nil =>
          -- At the root the dots are kept, and the next ones take them away again.
          simp only [rootedBases, List.mem_cons, List.not_mem_nil, or_false] at hb
          rcases hb with rfl | rfl
          · exact ⟨[.root, .parent], by simp [rootedBases], rfl⟩
          · exact ⟨[.root], by simp [rootedBases], rfl⟩
    obtain ⟨base', hb', hstep⟩ := hstep
    rw [List.foldl_cons, List.foldl_cons, hstep]
    exact ih hps hb' _

theorem isName_of_mem_foldl {ps : List PathPart} (hps : ∀ part ∈ ps, ∀ s, part = .name s → IsName s)
    (hplace : ∀ s ∈ place, IsName s) : ∀ s ∈ ps.foldl goAlong place, IsName s := by
  induction ps generalizing place with
  | nil => exact hplace
  | cons part ps ih =>
    obtain ⟨hpart, hps⟩ := List.forall_mem_cons.mp hps
    refine ih hps fun s hs => ?_
    cases part with
    | root => cases hs
    | current => exact hplace s hs
    | parent => exact hplace s (List.mem_of_mem_tail hs)
    | name s' =>
      rcases List.mem_cons.mp hs with rfl | hs
      · exact hpart s rfl
      · exact hplace s hs

theorem parts_ofParts_rooted (hb : base ∈ rootedBases) (hn : ∀ s ∈ names, IsName s) :
    (ofParts (base ++ names.map PathPart.name)).parts = base ++ names.map PathPart.name := by
  have hrooted : ∀ ps : List PathPart, (∀ part ∈ ps, '/' ∉ part.text.toList) →
      (∀ part ∈ ps, PathPart.ofSegment? part.text.toList = some part) → (ofParts (.root :: ps)).parts = .root :: ps := by
    intro ps hplain hread
    have habsolute : (ofParts (.root :: ps)).isAbsolute = true := by
      simp [ofParts, isAbsolute, Text.startsWith, Text.dropStart?]
    rw [parts_of_isAbsolute habsolute, innerParts]
    cases ps with
    | nil => rfl
    | cons part ps =>
      have hkept : ((part :: ps).map (·.text.toList)).filterMap PathPart.ofSegment? = part :: ps := by
        rw [List.filterMap_map]
        exact (List.filterMap_congr hread).trans List.filterMap_some
      rw [FileTree.segments_ofParts_root (by simp) hplain, List.filterMap_cons_none rfl, hkept]
  have hplain : ∀ part ∈ names.map PathPart.name, '/' ∉ part.text.toList := by
    simpa [PathPart.text] using fun s hs => (hn s hs).plain
  have hread : ∀ part ∈ names.map PathPart.name, PathPart.ofSegment? part.text.toList = some part := by
    simpa [PathPart.text] using fun s hs => (hn s hs).ofSegment?
  simp only [rootedBases, List.mem_cons, List.not_mem_nil, or_false] at hb
  rcases hb with rfl | rfl
  · exact hrooted _ hplain hread
  · exact hrooted (.parent :: _) (List.forall_mem_cons.mpr ⟨by decide, hplain⟩) (List.forall_mem_cons.mpr ⟨rfl, hread⟩)

/-- The normal form of an absolute path holds the names of the place to which the path leads. -/
theorem exists_parts_normalize (h : p.isAbsolute = true) (cwd : Path) :
    ∃ base ∈ rootedBases, p.normalize.parts = base ++ (lexicalPlace cwd p).reverse.map PathPart.name := by
  have hinner : ∀ part ∈ p.innerParts, part ≠ .root ∧ ∀ s, part = .name s → IsName s := fun _ hm => of_mem_segments hm
  have hplace : lexicalPlace cwd p = p.innerParts.foldl goAlong [] := by
    rw [lexicalPlace, List.foldl_append, foldl_goAlong_of_isAbsolute h]
  have hroot : PathPart.root ∉ p.innerParts := fun hm => (hinner _ hm).1 rfl
  have hbase : [PathPart.root] ∈ rootedBases := by simp [rootedBases]
  obtain ⟨base, hb, hstack⟩ := foldl_push_rooted hroot hbase []
  have hnames : ∀ s ∈ (lexicalPlace cwd p).reverse, IsName s := by
    rw [hplace]
    exact fun s hs => isName_of_mem_foldl (fun part hm => (hinner part hm).2) (by simp) s (List.mem_reverse.mp hs)
  have hps : (p.parts.foldl push []).reverse = base ++ (lexicalPlace cwd p).reverse.map PathPart.name := by
    have hreversed := congrArg List.reverse hstack
    rw [List.reverse_append, List.reverse_reverse, ← List.map_reverse, ← hplace] at hreversed
    rw [parts_of_isAbsolute h, ← hreversed]
    rfl
  have hne : (base ++ (lexicalPlace cwd p).reverse.map PathPart.name).isEmpty = false := by
    simp only [rootedBases, List.mem_cons, List.not_mem_nil, or_false] at hb
    rcases hb with rfl | rfl <;> rfl
  refine ⟨base, hb, ?_⟩
  rw [normalize, hps]
  simp only [hne, Bool.false_eq_true, if_false]
  exact parts_ofParts_rooted hb hnames

/-- The normal form of an absolute path leads where the path leads. -/
theorem lexicalPlace_normalize (h : p.isAbsolute = true) : lexicalPlace cwd p.normalize = lexicalPlace cwd p := by
  obtain ⟨base, hb, hparts⟩ := exists_parts_normalize h cwd
  have hnames : ∀ (names : List String) (place : Place), (names.map PathPart.name).foldl goAlong place = names.reverse ++ place := by
    intro names
    induction names with
    | nil => exact fun _ => rfl
    | cons s names ih =>
      intro place
      rw [List.map_cons, List.foldl_cons, ih, List.reverse_cons, List.append_assoc]
      rfl
  have hbase : ∀ place : Place, base.foldl goAlong place = [] := by
    simp only [rootedBases, List.mem_cons, List.not_mem_nil, or_false] at hb
    rcases hb with rfl | rfl <;> exact fun _ => rfl
  rw [lexicalPlace, hparts, List.foldl_append, List.foldl_append, hbase, hnames, List.reverse_reverse, List.append_nil]

/-! ## Paths below a directory -/

theorem isBelow_iff : p.isBelow q = true ↔ q.parts <+: p.parts := by
  have hgo : ∀ bs ps : List PathPart, (partsBelow?.go bs ps).isSome = true ↔ bs <+: ps := by
    intro bs ps
    fun_induction partsBelow?.go bs ps with
    | case1 => simp
    | case2 b bs ps ih => simp [ih, List.cons_prefix_cons]
    | case3 b bs c ps hne => simp [List.cons_prefix_cons, hne]
    | case4 => simp
  exact hgo _ _

/-- A normal form that starts with another one means a place below that of the other. -/
theorem lexicalPlace_suffix_of_isBelow (hp : p.isAbsolute = true) (hq : q.isAbsolute = true)
    (h : p.normalize.isBelow q.normalize = true) : lexicalPlace cwd q <:+ lexicalPlace cwd p := by
  obtain ⟨base, hb, hparts⟩ := exists_parts_normalize hp cwd
  obtain ⟨base', hb', hparts'⟩ := exists_parts_normalize hq cwd
  rw [isBelow_iff, hparts, hparts'] at h
  have hinjective : Function.Injective PathPart.name := fun _ _ => PathPart.name.inj
  have hnames : ∀ ns ms : List String, ns.map PathPart.name <+: ms.map PathPart.name → ns <+: ms := by
    intro ns ms hm
    exact (List.prefix_map_iff_of_injective hinjective).mp hm
  simp only [rootedBases, List.mem_cons, List.not_mem_nil, or_false] at hb hb'
  rcases hb with rfl | rfl <;> rcases hb' with rfl | rfl
  · exact List.reverse_prefix.mp (hnames _ _ (by simpa [List.cons_prefix_cons] using h))
  · -- No name is two dots.
    cases hl : (lexicalPlace cwd p).reverse with
    | nil => simp [hl, List.cons_prefix_cons] at h
    | cons s names => simp [hl, List.cons_prefix_cons] at h
  · cases hl : (lexicalPlace cwd q).reverse with
    | nil => rw [List.reverse_eq_nil_iff.mp hl]; exact List.nil_suffix
    | cons s names => simp [hl, List.cons_prefix_cons] at h
  · exact List.reverse_prefix.mp (hnames _ _ (by simpa [List.cons_prefix_cons] using h))

end Path

end MarkdownTemplates
