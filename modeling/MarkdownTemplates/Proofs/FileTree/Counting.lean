import MarkdownTemplates.Proofs.FileTree.Reading

/-!
# Counting the paths to files

A normal path is a list of names behind a short base. On the way to a file every name leads deeper into the tree until a link
leads elsewhere, so there are only as many normal paths to files as lists of that many names.
-/

namespace MarkdownTemplates

namespace Text

theorem splitOn_slash (s r : List Char) :
    splitOn (· == '/') (s ++ '/' :: r) = splitOn (· == '/') s ++ splitOn (· == '/') r := by
  induction s with
  | nil => simp [splitOn]
  | cons c s ih =>
    rw [List.cons_append, splitOn, splitOn, ih]
    split
    · rfl
    · cases hs : splitOn (· == '/') s with
      | nil => exact absurd hs (splitOn_ne_nil s)
      | cons p ps => rfl

theorem splitOn_slash_cons (s : List Char) : splitOn (· == '/') ('/' :: s) = [] :: splitOn (· == '/') s := by
  simp [splitOn]

theorem splitOn_intercalate {names : List String} (hne : names ≠ []) (h : ∀ s ∈ names, '/' ∉ s.toList) :
    splitOn (· == '/') ("/".intercalate names).toList = names.map String.toList := by
  induction names with
  | nil => exact absurd rfl hne
  | cons s names ih =>
    have hs : '/' ∉ s.toList := h s List.mem_cons_self
    cases names with
    | nil => simp [splitOn_of_notMem hs]
    | cons s' names =>
      have ih := ih (by simp) fun r hr => h r (List.mem_cons_of_mem _ hr)
      have htext : ("/".intercalate (s :: s' :: names)).toList = s.toList ++ '/' :: ("/".intercalate (s' :: names)).toList := by
        rw [String.intercalate_cons_cons]
        simp
      rw [htext, splitOn_slash, splitOn_of_notMem hs, ih]
      rfl

end Text

namespace Path

open FileTree (IsName)

/-- What may stand in front of the names of a normal path. -/
def bases : List (List PathPart) := [[], [.root], [.parent], [.root, .parent]]

/-- The normal path with these names behind a base. -/
def ofNormal (base : List PathPart) (names : List String) : Path :=
  if (base ++ names.map PathPart.name).isEmpty then ⟨"."⟩ else ofParts (base ++ names.map PathPart.name)

/-- Do the parts on the stack stand in a normal path? -/
def IsNormalStack (stack : List PathPart) : Prop :=
  ∃ base ∈ bases, ∃ names : List String, (∀ s ∈ names, IsName s) ∧ stack.reverse = base ++ names.map PathPart.name

theorem isNormalStack_of_mem_bases (base : List PathPart) (h : base ∈ bases) : IsNormalStack base.reverse :=
  ⟨base, h, [], by simp, by simp⟩

theorem IsNormalStack.push {stack : List PathPart} (h : IsNormalStack stack) {part : PathPart} (hr : part ≠ .root)
    (hn : ∀ s, part = .name s → IsName s) : IsNormalStack (push stack part) := by
  obtain ⟨base, hb, names, hnames, hs⟩ := h
  obtain rfl : stack = (base ++ names.map PathPart.name).reverse := by rw [← hs, List.reverse_reverse]
  cases part with
  | root => exact absurd rfl hr
  | current => exact ⟨base, hb, names, hnames, by simp [Path.push]⟩
  | name s =>
    refine ⟨base, hb, names ++ [s], fun r hr => ?_, by simp [Path.push]⟩
    rcases List.mem_append.mp hr with hr | hr
    · exact hnames r hr
    · exact List.mem_singleton.mp hr ▸ hn s rfl
  | parent =>
    rcases List.eq_nil_or_concat names with rfl | ⟨names, s, rfl⟩
    · simp only [bases, List.mem_cons, List.not_mem_nil, or_false] at hb
      rcases hb with rfl | rfl | rfl | rfl
      · exact isNormalStack_of_mem_bases [.parent] (by simp [bases])
      · exact isNormalStack_of_mem_bases [.root, .parent] (by simp [bases])
      · exact isNormalStack_of_mem_bases [] (by simp [bases])
      · exact isNormalStack_of_mem_bases [.root] (by simp [bases])
    · refine ⟨base, hb, names, fun r hr => hnames r (by simp [hr]), ?_⟩
      simp [Path.push]

theorem isNormalStack_foldl {stack : List PathPart} (h : IsNormalStack stack) {ps : List PathPart}
    (hps : ∀ part ∈ ps, part ≠ .root ∧ ∀ s, part = .name s → IsName s) : IsNormalStack (ps.foldl Path.push stack) := by
  induction ps generalizing stack with
  | nil => exact h
  | cons part ps ih =>
    obtain ⟨⟨hr, hn⟩, hps⟩ := List.forall_mem_cons.mp hps
    exact ih (h.push hr hn) hps

theorem of_mem_segments {p : Path} {part : PathPart} (h : part ∈ p.segments.filterMap PathPart.ofSegment?) :
    part ≠ .root ∧ ∀ s, part = .name s → IsName s := by
  obtain ⟨segment, hm, hp⟩ := List.mem_filterMap.mp h
  have hplain := Text.notMem_of_mem_splitOn hm
  unfold PathPart.ofSegment? at hp
  split at hp
  · cases hp
  · cases hp
  · cases hp
    simp
  · obtain rfl := Option.some.inj hp
    refine ⟨by simp, fun s hs => ?_⟩
    obtain rfl := PathPart.name.inj hs
    exact ⟨by simpa using ‹_›, by simpa using hplain, by simpa using ‹_›, by simpa using ‹_›⟩

theorem exists_ofNormal (p : Path) :
    ∃ base ∈ bases, ∃ names : List String, (∀ s ∈ names, IsName s) ∧ p.normalize = ofNormal base names := by
  have hstack : IsNormalStack (p.parts.foldl Path.push []) := by
    have hempty : IsNormalStack [] := isNormalStack_of_mem_bases [] (by simp [bases])
    unfold parts
    simp only
    split
    · exact isNormalStack_foldl (isNormalStack_of_mem_bases [.root] (by simp [bases])) fun _ => of_mem_segments
    · split
      · exact isNormalStack_foldl hempty (List.forall_mem_cons.mpr ⟨by simp, fun _ => of_mem_segments⟩)
      · exact isNormalStack_foldl hempty fun _ => of_mem_segments
  obtain ⟨base, hb, names, hn, hs⟩ := hstack
  exact ⟨base, hb, names, hn, by simp only [normalize, ofNormal, hs]⟩

end Path

namespace FileTree

variable {t : FileTree} {n m : Nat} {here there place : Place} {names : List String} {s : String} {e : Entry}

/-! ## The steps along normal paths -/

theorem segments_ofParts {ps : List PathPart} (hne : ps ≠ []) (hr : .root ∉ ps)
    (hp : ∀ part ∈ ps, '/' ∉ part.text.toList) : (Path.ofParts ps).segments = ps.map (·.text.toList) := by
  have hparts : Path.ofParts ps = ⟨"/".intercalate (ps.map PathPart.text)⟩ := by
    unfold Path.ofParts
    split
    · simp at hr
    · rfl
  rw [hparts, Path.segments, Text.splitOn_intercalate (by simpa using hne) (by simpa using hp), List.map_map]
  rfl

theorem segments_ofParts_root {ps : List PathPart} (hne : ps ≠ []) (hp : ∀ part ∈ ps, '/' ∉ part.text.toList) :
    (Path.ofParts (.root :: ps)).segments = [] :: ps.map (·.text.toList) := by
  have htext : (Path.ofParts (.root :: ps)).text.toList = '/' :: ("/".intercalate (ps.map PathPart.text)).toList := by
    simp [Path.ofParts]
  rw [Path.segments, htext, Text.splitOn_slash_cons, Text.splitOn_intercalate (by simpa using hne) (by simpa using hp), List.map_map]
  rfl

theorem exists_segments_ofNormal {base : List PathPart} (hb : base ∈ Path.bases) (hne : names ≠ [])
    (hn : ∀ s ∈ names, IsName s) : ∃ before, (Path.ofNormal base names).segments = before ++ names.map String.toList := by
  have hplain : ∀ s ∈ names, '/' ∉ s.toList := fun s hs => (hn s hs).plain
  have hparent : '/' ∉ PathPart.parent.text.toList := by decide
  have hparts : Path.ofNormal base names = .ofParts (base ++ names.map PathPart.name) := by
    simp [Path.ofNormal, hne]
  have htexts : (names.map PathPart.name).map (·.text.toList) = names.map String.toList := by
    rw [List.map_map]
    rfl
  rw [hparts]
  simp only [Path.bases, List.mem_cons, List.not_mem_nil, or_false] at hb
  rcases hb with rfl | rfl | rfl | rfl
  · refine ⟨[], ?_⟩
    rw [List.nil_append, segments_ofParts (by simpa using hne) (by simp) (by simpa [PathPart.text] using hplain), htexts]
    rfl
  · refine ⟨[[]], ?_⟩
    rw [List.singleton_append, segments_ofParts_root (by simpa using hne) (by simpa [PathPart.text] using hplain), htexts]
    rfl
  · refine ⟨[['.', '.']], ?_⟩
    rw [segments_ofParts (by simp) (by simp) (by simpa [PathPart.text] using hplain), List.map_append, htexts]
    rfl
  · refine ⟨[[], ['.', '.']], ?_⟩
    rw [List.cons_append, segments_ofParts_root (by simp) (by simpa [PathPart.text] using hplain), List.map_append, htexts]
    rfl

/-- The steps along a path in a directory end with those along the path. -/
theorem exists_steps_append (d p : Path) : ∃ before, steps (d.join p) = before ++ steps p := by
  have hsegments : ∃ before, (d.join p).segments = before ++ p.segments := by
    rw [Path.join]
    split_ifs with hq hl
    · exact ⟨[], rfl⟩
    · obtain ⟨s, hs⟩ := List.getLast?_eq_some_iff.mp hl
      exact ⟨_, by rw [Path.segments, String.toList_append, hs, List.append_assoc]; exact Text.splitOn_slash _ _⟩
    · exact ⟨_, by rw [Path.segments, String.toList_append, String.toList_append, List.append_assoc]; exact Text.splitOn_slash _ _⟩
  obtain ⟨before, hb⟩ := hsegments
  have hne : p.segments ≠ [] := Text.splitOn_ne_nil _
  exact ⟨_, by rw [steps, steps, hb, List.filterMap_append, List.getLast?_append_of_ne_nil _ hne, List.append_assoc]⟩

/-- Behind a dot there is no file. -/
theorem readText_join_current_ne_ok (d : Path) (text : String) : t.readText (d.join ⟨"."⟩) ≠ .ok text := by
  intro hread
  obtain ⟨b, hb, -⟩ := readText_eq_ok.mp hread
  obtain ⟨place, modified, hl, he⟩ := readBytes_eq_ok.mp hb
  obtain ⟨before, hsteps⟩ := exists_steps_append d ⟨"."⟩
  obtain ⟨m, hr⟩ := walk_true_iff.mp (locate_eq_ok.mp hl).2
  have hdot : steps ⟨"."⟩ = [.current] := by decide
  rw [hsteps, hdot] at hr
  obtain ⟨k, mid, -, hlast⟩ := Reaches.append_iff.mp hr
  cases hlast with
  | move hd hm hdone =>
    cases hm
    cases hdone
    cases he.symm.trans hd

theorem exists_steps_ofNormal (d : Path) {base : List PathPart} (hb : base ∈ Path.bases) (hn : ∀ s ∈ names, IsName s) :
    ∃ before, steps (d.join (.ofNormal base names)) = before ++ names.map PathPart.name := by
  obtain ⟨before, hd⟩ := exists_steps_append d (.ofNormal base names)
  by_cases hne : names = []
  · exact ⟨_, by rw [hne]; exact (List.append_nil _).symm⟩
  · obtain ⟨segments, hs⟩ := exists_segments_ofNormal hb hne hn
    have hlast : (segments ++ names.map String.toList).getLast? ≠ some [] := by
      rw [List.getLast?_append_of_ne_nil _ (by simpa using hne), List.getLast?_map]
      intro he
      obtain ⟨s, hs, he⟩ := Option.map_eq_some_iff.mp he
      exact (hn s (List.mem_of_getLast? hs)).ne_empty he
    have hnames : (names.map String.toList).filterMap (fun segment =>
        if segment = ['.'] then some .current else PathPart.ofSegment? segment) = names.map PathPart.name := by
      rw [List.filterMap_map, ← List.filterMap_eq_map, List.filterMap_congr]
      intro s hs
      simp [(hn s hs).ne_current, (hn s hs).ofSegment?]
    have hsteps : steps (.ofNormal base names) = segments.filterMap (fun segment =>
        if segment = ['.'] then some .current else PathPart.ofSegment? segment) ++ names.map PathPart.name := by
      rw [steps, hs, if_neg hlast, List.filterMap_append, hnames, List.append_nil]
    exact ⟨_, by rw [hd, hsteps, List.append_assoc]⟩

/-! ## Names on the way to an entry -/

/-- The names of the entries. -/
def entryNames (t : FileTree) : List String :=
  t.entries.keys.map fun key => String.ofList ((Text.splitOn (· == '/') key.toList).getLastD [])

/-- The keys of the entries that are deeper in the tree than a place can be that leads to `here`. -/
def deeper (t : FileTree) (here : Place) : Finset String := t.entries.keys.toFinset.filter (here.text.length < ·.length)

theorem card_deeper_le (t : FileTree) (here : Place) : (t.deeper here).card ≤ t.entries.size := by
  calc (t.deeper here).card ≤ t.entries.keys.toFinset.card := Finset.card_filter_le _ _
    _ ≤ t.entries.keys.length := List.toFinset_card_le _
    _ = t.entries.size := by simp [Dict.keys, Dict.size]

theorem mem_keys_of_lookup? (h : t.lookup? (s :: here) = some e) : (Place.text (s :: here)) ∈ t.entries.keys :=
  Dict.mem_keys.mpr (Dict.contains_iff.mpr ⟨e, by simpa [lookup?] using h⟩)

theorem length_text_lt (s : String) (here : Place) : (Place.text here).length < (Place.text (s :: here)).length := by
  have hslash : "/".length = 1 := rfl
  rw [Place.text_cons, String.length_append, String.length_append]
  omega

theorem card_deeper_cons_lt (h : t.lookup? (s :: here) = some e) : (t.deeper (s :: here)).card < (t.deeper here).card := by
  have hsub : t.deeper (s :: here) ⊆ t.deeper here := by
    intro key hkey
    obtain ⟨hm, hlt⟩ := Finset.mem_filter.mp hkey
    exact Finset.mem_filter.mpr ⟨hm, (length_text_lt s here).trans hlt⟩
  refine Finset.card_lt_card ((Finset.ssubset_iff_of_subset hsub).mpr ⟨Place.text (s :: here), ?_, ?_⟩)
  · exact Finset.mem_filter.mpr ⟨List.mem_toFinset.mpr (mem_keys_of_lookup? h), length_text_lt s here⟩
  · exact fun hm => lt_irrefl _ (Finset.mem_filter.mp hm).2

theorem mem_entryNames (h : t.lookup? (s :: here) = some e) (hs : '/' ∉ s.toList) : s ∈ t.entryNames := by
  refine List.mem_map.mpr ⟨_, mem_keys_of_lookup? h, ?_⟩
  have htext : (Place.text (s :: here)).toList = (Place.text here).toList ++ '/' :: s.toList := by simp [Place.text_cons]
  rw [htext, Text.splitOn_append _ hs, List.getLastD_concat, String.ofList_toList]

theorem Reaches.links_le {ps : List PathPart} (h : t.Reaches n here ps m there) : m ≤ n := by
  induction h with
  | done => exact le_refl _
  | move _ _ _ ih => exact ih
  | name _ _ _ _ ih => exact ih
  | link _ _ _ _ ih => exact ih.trans (Nat.le_succ _)

/-- Every name leads to an entry. Until a link leads elsewhere, each one is deeper in the tree than the one before it. -/
theorem Reaches.names_of_entry (h : t.Reaches n here (names.map PathPart.name) m there) (he : t.lookup? there = some e)
    (hn : ∀ s ∈ names, '/' ∉ s.toList) :
    names.length ≤ (t.deeper here).card + n * t.entries.size ∧ ∀ s ∈ names, s ∈ t.entryNames := by
  induction n using Nat.strong_induction_on generalizing here names with
  | _ n ihn =>
  induction names generalizing here with
  | nil => simp
  | cons s names ih =>
    obtain ⟨hs, hn⟩ := List.forall_mem_cons.mp hn
    rw [List.map_cons] at h
    cases h with
    | move _ hm => cases hm
    | name _ _ _ hr =>
      obtain ⟨e', he'⟩ : ∃ e', t.lookup? (s :: here) = some e' := by
        rcases hr.eq_or_directory with ⟨-, rfl⟩ | hd
        · exact ⟨e, he⟩
        · exact ⟨_, hd⟩
      obtain ⟨hlen, hmem⟩ := ih hr hn
      have hlt := card_deeper_cons_lt he'
      exact ⟨by simp only [List.length_cons]; omega, List.forall_mem_cons.mpr ⟨mem_entryNames he' hs, hmem⟩⟩
    | @link k _ _ _ _ x _ _ _ hl hr =>
      -- From where the link leads the names may go as deep again, which the links still to follow pay for.
      obtain ⟨k', mid, hto, hfrom⟩ := Reaches.append_iff.mp hr
      have hk : k' ≤ k := hto.links_le
      obtain ⟨hlen, hmem⟩ := ihn k' (Nat.lt_succ_of_le hk) hfrom hn
      have hlt := card_deeper_cons_lt hl
      have hmid := t.card_deeper_le mid
      have hmul : k' * t.entries.size ≤ k * t.entries.size := Nat.mul_le_mul_right _ hk
      refine ⟨?_, List.forall_mem_cons.mpr ⟨mem_entryNames hl hs, hmem⟩⟩
      rw [List.length_cons, Nat.succ_mul]
      omega

/-! ## The number of normal paths -/

/-- The lists of at most so many of these names. -/
def words (names : List String) : (length : Nat) → List (List String)
  | 0 => [[]]
  | n + 1 => [] :: names.flatMap fun s => (words names n).map (s :: ·)

theorem mem_words {word : List String} (hl : word.length ≤ n) (hm : ∀ s ∈ word, s ∈ names) : word ∈ words names n := by
  induction n generalizing word with
  | zero => simpa [words] using hl
  | succ n ih =>
    cases word with
    | nil => simp [words]
    | cons s word =>
      obtain ⟨hs, hm⟩ := List.forall_mem_cons.mp hm
      refine List.mem_cons_of_mem _ (List.mem_flatMap.mpr ⟨s, hs, List.mem_map.mpr ⟨word, ?_, rfl⟩⟩)
      exact ih (by simpa using hl) hm

theorem length_words_le (names : List String) (n : Nat) : (words names n).length ≤ (names.length + 1) ^ n := by
  induction n with
  | zero => simp [words]
  | succ n ih =>
    have hlen : (words names (n + 1)).length = names.length * (words names n).length + 1 := by
      simp [words, List.length_flatMap]
    have hpos : 0 < (names.length + 1) ^ n := by positivity
    calc (words names (n + 1)).length ≤ names.length * (names.length + 1) ^ n + (names.length + 1) ^ n := by
          rw [hlen]
          exact Nat.add_le_add (Nat.mul_le_mul_left _ ih) hpos
      _ = (names.length + 1) ^ (n + 1) := by ring

/-- The normal paths that may lead to a file. -/
def candidates (t : FileTree) : List Path :=
  Path.bases.flatMap fun base => (words t.entryNames ((maxLinks + 1) * t.entries.size)).map (.ofNormal base)

/-- A normal path that leads to a file is one of the candidates. -/
theorem mem_candidates {d p : Path} {b : ByteArray} (h : t.readBytes (d.join p.normalize) = .ok b) :
    p.normalize ∈ t.candidates := by
  obtain ⟨base, hb, names, hn, hp⟩ := p.exists_ofNormal
  obtain ⟨place, modified, hloc, he⟩ := readBytes_eq_ok.mp h
  obtain ⟨before, hsteps⟩ := exists_steps_ofNormal d hb hn
  rw [hp] at hloc ⊢
  obtain ⟨m, hr⟩ := walk_true_iff.mp (locate_eq_ok.mp hloc).2
  obtain ⟨k, mid, hto, hfrom⟩ := Reaches.append_iff.mp (hsteps ▸ hr)
  obtain ⟨hlen, hmem⟩ := hfrom.names_of_entry he fun s hs => (hn s hs).plain
  have hk : k * t.entries.size ≤ maxLinks * t.entries.size := Nat.mul_le_mul_right _ hto.links_le
  have hmid := t.card_deeper_le mid
  refine List.mem_flatMap.mpr ⟨base, hb, List.mem_map.mpr ⟨names, mem_words ?_ hmem, rfl⟩⟩
  rw [Nat.succ_mul]
  omega

theorem length_candidates_le (t : FileTree) (hne : t.entries.size ≠ 0) : t.candidates.length ≤ t.pathBound := by
  have hnames : t.entryNames.length = t.entries.size := by simp [entryNames, Dict.keys, Dict.size]
  have hwords := length_words_le t.entryNames ((maxLinks + 1) * t.entries.size)
  rw [hnames] at hwords
  have hfour : 4 ≤ (t.entries.size + 1) ^ 2 := by nlinarith [Nat.one_le_iff_ne_zero.mpr hne]
  calc t.candidates.length = 4 * (words t.entryNames ((maxLinks + 1) * t.entries.size)).length := by
        simp [candidates, Path.bases]
        omega
    _ ≤ (t.entries.size + 1) ^ 2 * (t.entries.size + 1) ^ ((maxLinks + 1) * t.entries.size) := Nat.mul_le_mul hfour hwords
    _ = (t.entries.size + 1) ^ ((maxLinks + 1) * t.entries.size + 2) := by rw [← Nat.pow_add, Nat.add_comm 2]
    _ ≤ t.pathBound := by
      refine Nat.pow_le_pow_right (Nat.succ_pos _) ?_
      rw [Nat.mul_succ]
      simp [maxLinks]

/-- The normal paths that lead to a file from a directory. -/
def filePaths (t : FileTree) (d : Path) : List Path := t.candidates.filter fun p => (t.readBytes (d.join p)).toOption.isSome

theorem mem_filePaths {d p : Path} {b : ByteArray} (h : t.readBytes (d.join p.normalize) = .ok b) :
    p.normalize ∈ t.filePaths d :=
  List.mem_filter.mpr ⟨mem_candidates h, by simp [h, Except.toOption]⟩

/-- No more paths lead to files than the bound says. -/
theorem length_filePaths_le (t : FileTree) (d : Path) : (t.filePaths d).length ≤ t.pathBound := by
  by_cases hne : t.entries.size = 0
  · have hnone : t.filePaths d = [] := by
      refine List.filter_eq_nil_iff.mpr fun p _ hp => ?_
      cases hb : t.readBytes (d.join p) with
      | error e => simp [hb, Except.toOption] at hp
      | ok b =>
        obtain ⟨place, modified, -, he⟩ := readBytes_eq_ok.mp hb
        have hentries : t.entries.entries = [] := List.length_eq_zero_iff.mp hne
        rw [lookup?] at he
        split at he
        · cases he
        · simp [Dict.get?, hentries] at he
    simp [hnone]
  · exact (List.length_filter_le _ _).trans (t.length_candidates_le hne)

end FileTree

end MarkdownTemplates
