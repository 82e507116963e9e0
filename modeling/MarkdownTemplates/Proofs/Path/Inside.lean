import MarkdownTemplates.Proofs.Path.Lexical

/-!
# Paths inside a directory

Names lead from a directory to the paths below it. The key of such a path is made of the names, so that it leads back to the path
unless a backslash in it is taken for a slash.
-/

namespace MarkdownTemplates

/-! ## The order of paths -/

namespace PathPart

variable {a b : PathPart}

/-- Where a part stands among all parts. -/
def position : PathPart → ℕ ×ₗ String
  | name s => toLex (3, s)
  | part => toLex (part.rank, "")

theorem before_iff : a.before b = true ↔ a.position < b.position := by
  cases a <;> cases b <;> simp [before, position, rank, Prod.Lex.toLex_lt_toLex]

theorem position_injective : Function.Injective position := by
  intro a b h
  cases a <;> cases b <;> simp_all [position, rank]

end PathPart

namespace Path

open FileTree (IsName)

variable {p q r dir : Path} {names names' : List String} {s : String}

def positions (p : Path) : List (ℕ ×ₗ String) := p.parts.map PathPart.position

/-- Paths are in the order of their parts. -/
theorem before_iff : p.before q = true ↔ p.positions < q.positions := by
  have hgo : ∀ as bs : List PathPart, before.go as bs = true ↔ as.map PathPart.position < bs.map PathPart.position := by
    intro as bs
    fun_induction before.go as bs with
    | case1 => simp
    | case2 => simp
    | case3 a as b bs ih =>
      rw [Bool.or_eq_true, Bool.and_eq_true, beq_iff_eq, PathPart.before_iff, ih, List.map_cons, List.map_cons,
        List.cons_lt_cons_iff, PathPart.position_injective.eq_iff]
  exact hgo _ _

theorem before_eq_false_iff : q.before p = false ↔ p.positions ≤ q.positions := by
  rw [← Bool.not_eq_true, before_iff, not_lt]

/-- Sorted paths are in their order. -/
theorem pairwise_mergeSort (paths : List Path) :
    (paths.mergeSort fun p q => !q.before p).Pairwise fun p q => q.before p = false := by
  have hle : ∀ p q : Path, (!q.before p) = true ↔ p.positions ≤ q.positions := by simp [before_eq_false_iff]
  have hsorted : (paths.mergeSort fun p q => !q.before p).Pairwise fun p q => (!q.before p) = true :=
    List.pairwise_mergeSort (fun p q r hpq hqr => (hle p r).mpr (((hle p q).mp hpq).trans ((hle q r).mp hqr)))
      (fun p q => by simpa only [Bool.or_eq_true, hle] using le_total _ _) paths
  exact hsorted.imp fun h => by simpa using h

/-- Sorted paths of different positions are in strict order. -/
theorem pairwise_before_mergeSort {paths : List Path} (hn : paths.Nodup)
    (hi : ∀ p ∈ paths, ∀ q ∈ paths, p.positions = q.positions → p = q) :
    (paths.mergeSort fun p q => !q.before p).Pairwise fun p q => p.before q = true := by
  have hperm := List.mergeSort_perm paths fun p q => !q.before p
  have hsorted := (pairwise_mergeSort paths).and (hperm.nodup_iff.mpr hn)
  refine hsorted.imp_of_mem fun {p q} hp hq ⟨hle, hne⟩ => ?_
  rw [before_iff]
  refine (before_eq_false_iff.mp hle).lt_of_ne fun he => hne ?_
  exact hi p (hperm.mem_iff.mp hp) q (hperm.mem_iff.mp hq) he

/-- Lists in strict order that have the same members are equal. -/
theorem eq_of_pairwise_before {paths paths' : List Path} (h : paths.Pairwise fun p q => p.before q = true)
    (h' : paths'.Pairwise fun p q => p.before q = true) (hm : ∀ p, p ∈ paths ↔ p ∈ paths') : paths = paths' := by
  have : Std.Irrefl fun p q : Path => p.before q = true := ⟨fun p hp => lt_irrefl _ (before_iff.mp hp)⟩
  have : Std.Antisymm fun p q : Path => p.before q = true :=
    ⟨fun p q hpq hqp => absurd (before_iff.mp hpq) (before_iff.mp hqp).asymm⟩
  exact h.eq_of_mem_iff h' hm

/-! ## Names that lead from a directory -/

theorem join_of_isAbsolute (h : q.isAbsolute = true) (p : Path) : p.join q = q := if_pos (.inl h)

theorem join_of_relative (hd : dir.text.isEmpty = false) (hq : q.isAbsolute = false) : dir.join q =
    if dir.text.toList.getLast? = some '/' then ⟨dir.text ++ q.text⟩ else ⟨dir.text ++ "/" ++ q.text⟩ :=
  if_neg (by simp [hd, hq])

/-- What a directory puts in front of all paths from there is its text with a slash at the end. -/
theorem exists_join_eq (hd : dir.text.isEmpty = false) : ∃ front : String, (∃ s, front = dir.text ++ s) ∧
    front.toList.getLast? = some '/' ∧ ∀ q : Path, q.isAbsolute = false → dir.join q = ⟨front ++ q.text⟩ := by
  by_cases hl : dir.text.toList.getLast? = some '/'
  · exact ⟨dir.text, ⟨"", by simp⟩, hl, fun q hq => by rw [join_of_relative hd hq, if_pos hl]⟩
  · exact ⟨dir.text ++ "/", ⟨_, rfl⟩, by simp, fun q hq => by rw [join_of_relative hd hq, if_neg hl]⟩

theorem isAbsolute_append (h : p.text.isEmpty = false) (s : String) : isAbsolute ⟨p.text ++ s⟩ = p.isAbsolute := by
  obtain ⟨c, cs, hcs⟩ := List.exists_cons_of_ne_nil (mt String.toList_eq_nil_iff.mp (by simpa [String.isEmpty_iff] using h))
  simp only [isAbsolute, Text.startsWith, String.toList_append, hcs, List.cons_append, Text.dropStart?]
  split <;> rfl

theorem isAbsolute_join_of_relative (hd : dir.text.isEmpty = false) (hq : q.isAbsolute = false) :
    (dir.join q).isAbsolute = dir.isAbsolute := by
  obtain ⟨front, ⟨s, rfl⟩, -, hjoin⟩ := exists_join_eq hd
  rw [hjoin q hq, String.append_assoc, isAbsolute_append hd]

/-- Directories can be put in front one after the other or together. -/
theorem join_join (p q r : Path) : p.join (q.join r) = (p.join q).join r := by
  cases hr : r.isAbsolute with
  | true => rw [join_of_isAbsolute hr, join_of_isAbsolute hr, join_of_isAbsolute hr]
  | false =>
    cases hq : q.isAbsolute with
    | true => rw [join_of_isAbsolute (isAbsolute_join hq r), join_of_isAbsolute hq]
    | false =>
      cases hp : p.text.isEmpty with
      | true => rw [join, if_pos (.inr hp), join.eq_1 p q, if_pos (.inr hp)]
      | false =>
        obtain ⟨front, -, hlast, hjoin⟩ := exists_join_eq hp
        have hfront : (front ++ q.text).isEmpty = false := by
          refine Bool.eq_false_iff.mpr fun he => ?_
          rw [String.isEmpty_iff, String.append_eq_empty_iff] at he
          simp [he.1] at hlast
        cases hempty : q.text.isEmpty with
        | true =>
          have hq' : q.text = "" := String.isEmpty_iff.mp hempty
          rw [hjoin q hq, join_of_relative hfront hr, join.eq_1 q r, if_pos (.inr hempty), hjoin r hr]
          simp [hq', hlast]
        | false =>
          have hsame : (front ++ q.text).toList.getLast? = q.text.toList.getLast? := by
            rw [String.toList_append, List.getLast?_append_of_ne_nil]
            simpa [String.isEmpty_iff] using hempty
          rw [hjoin q hq, hjoin (q.join r) (by rw [isAbsolute_join_of_relative hempty hr, hq]), join_of_relative hfront hr, hsame,
            join_of_relative hempty hr]
          split <;> simp [String.append_assoc]

/-- The path to which names lead from a directory, one after the other. -/
def inside (dir : Path) (names : List String) : Path := names.foldl (fun d s => d.join ⟨s⟩) dir

theorem inside_concat (dir : Path) (names : List String) (s : String) :
    dir.inside (names ++ [s]) = (dir.inside names).join ⟨s⟩ := by
  simp [inside]

theorem isAbsolute_inside (hd : dir.isAbsolute = true) (names : List String) : (dir.inside names).isAbsolute = true := by
  induction names using List.reverseRecOn with
  | nil => exact hd
  | append_singleton names s ih =>
    rw [inside_concat]
    exact isAbsolute_join ih _

theorem segments_name (hs : IsName s) : segments ⟨s⟩ = [s.toList] := Text.splitOn_of_notMem hs.plain

theorem parts_of_relative (h : p.isAbsolute = false) :
    p.parts = (if p.segments.head? = some ['.'] then [.current] else []) ++ p.innerParts := by
  rw [parts, h, if_neg Bool.false_ne_true]
  split_ifs <;> rfl

/-- A name in a directory is one more part. -/
theorem parts_join_name (dir : Path) (hs : IsName s) : (dir.join ⟨s⟩).parts = dir.parts ++ [.name s] := by
  have hinner : (dir.join ⟨s⟩).innerParts = dir.innerParts ++ [.name s] := by
    rw [innerParts_join dir hs.not_isAbsolute]
    simp [innerParts, segments_name hs, hs.ofSegment?]
  cases hd : dir.isAbsolute with
  | true => rw [parts_of_isAbsolute (isAbsolute_join hd _), parts_of_isAbsolute hd, hinner, List.cons_append]
  | false =>
    by_cases hempty : dir.text.isEmpty = true
    · have hdir : dir = ⟨""⟩ := congrArg Path.mk (String.isEmpty_iff.mp hempty)
      subst hdir
      rw [join, if_pos (.inr hempty)] at hinner ⊢
      rw [parts_of_relative hs.not_isAbsolute, hinner, segments_name hs, if_neg (by simpa using hs.ne_current)]
      rfl
    · -- The text of the directory is not empty and stays in front, so that the path starts as the directory does.
      obtain ⟨t, ht, hjoin⟩ := (FileTree.exists_text_join dir).resolve_left hempty
      have hjoin := hjoin s hs
      have hstart : (dir.join ⟨s⟩).isAbsolute = false := by
        rw [isAbsolute_join_of_relative (Bool.eq_false_iff.mpr hempty) hs.not_isAbsolute, hd]
      have hhead : (dir.join ⟨s⟩).segments.head? = dir.segments.head? := by
        have hne : Text.splitOn (· == '/') t ≠ [] := Text.splitOn_ne_nil t
        rw [segments, segments, hjoin, Text.splitOn_slash, List.head?_append_of_ne_nil _ hne]
        rcases ht with ht | ht
        · rw [ht]
        · rw [ht, Text.splitOn_append t List.not_mem_nil, List.head?_append_of_ne_nil _ hne]
      rw [parts_of_relative hstart, parts_of_relative hd, hhead, hinner, List.append_assoc]

/-- The parts of a path to which names lead are those of the directory and the names. -/
theorem parts_inside (dir : Path) (hn : ∀ s ∈ names, IsName s) : (dir.inside names).parts = dir.parts ++ names.map PathPart.name := by
  induction names using List.reverseRecOn with
  | nil => exact (List.append_nil _).symm
  | append_singleton names s ih =>
    rw [inside_concat, parts_join_name _ (hn s (by simp)), ih fun s' hs' => hn s' (List.mem_append_left _ hs'), List.map_append,
      List.append_assoc]
    rfl

theorem inside_injective (hn : ∀ s ∈ names, IsName s) (hn' : ∀ s ∈ names', IsName s)
    (h : dir.inside names = dir.inside names') : names = names' := by
  have hparts := congrArg parts h
  rw [parts_inside dir hn, parts_inside dir hn'] at hparts
  exact List.map_injective_iff.mpr (fun _ _ => PathPart.name.inj) (List.append_cancel_left hparts)

/-! ## Names one after the other -/

/-- The path that names make up, from the directory where they start. -/
def relative (names : List String) : Path := ⟨"/".intercalate names⟩

theorem segments_relative (hne : names ≠ []) (hn : ∀ s ∈ names, IsName s) :
    (relative names).segments = names.map String.toList :=
  Text.splitOn_intercalate hne fun s hs => (hn s hs).plain

theorem relative_concat (hne : names ≠ []) (s : String) : relative (names ++ [s]) = ⟨(relative names).text ++ "/" ++ s⟩ := by
  simp [relative, String.intercalate_append_of_ne_nil hne]

theorem toList_relative (names : List String) : (relative names).text.toList = Text.join ['/'] (names.map String.toList) := by
  induction names with
  | nil => simp [relative, Text.join]
  | cons s names ih =>
    rcases eq_or_ne names [] with rfl | hne
    · simp [relative, Text.join]
    · obtain ⟨t, names, rfl⟩ := List.exists_cons_of_ne_nil hne
      rw [List.map_cons, Text.join_cons (by simp), ← ih]
      simp [relative, String.intercalate_cons_cons]

theorem not_isAbsolute_relative (hne : names ≠ []) (hn : ∀ s ∈ names, IsName s) : (relative names).isAbsolute = false := by
  obtain ⟨s, names, rfl⟩ := List.exists_cons_of_ne_nil hne
  have hs : IsName s := hn s List.mem_cons_self
  obtain ⟨c, cs, hcs⟩ := List.exists_cons_of_ne_nil hs.ne_empty
  have hc : '/' ≠ c := fun hc => hs.plain (hcs ▸ hc ▸ List.mem_cons_self)
  have htext : ∃ rest, (relative (s :: names)).text.toList = s.toList ++ rest := by
    cases names with
    | nil => exact ⟨[], by simp [relative]⟩
    | cons t names => exact ⟨_, by simp [relative, String.intercalate_cons_cons]; rfl⟩
  obtain ⟨rest, hrest⟩ := htext
  simp [isAbsolute, Text.startsWith, hrest, hcs, Text.dropStart?, hc]

theorem exists_getLast?_relative (hne : names ≠ []) (hn : ∀ s ∈ names, IsName s) :
    ∃ c, (relative names).text.toList.getLast? = some c ∧ c ≠ '/' := by
  obtain ⟨names, s, rfl⟩ := (List.eq_nil_or_concat names).resolve_left hne
  have hs : IsName s := hn s (by simp)
  obtain ⟨front, hfront⟩ : ∃ front, (relative (names ++ [s])).text.toList = front ++ s.toList := by
    rcases eq_or_ne names [] with rfl | hne
    · exact ⟨[], by simp [relative]⟩
    · exact ⟨_, by rw [relative_concat hne, String.toList_append]⟩
  obtain ⟨c, hc⟩ := Option.ne_none_iff_exists'.mp (mt List.getLast?_eq_none_iff.mp hs.ne_empty)
  rw [List.concat_eq_append, hfront, List.getLast?_append, hc]
  exact ⟨c, rfl, fun he => hs.plain (he ▸ List.mem_of_getLast? hc)⟩

/-- A name behind other names is one more of them. -/
theorem relative_join (hne : names ≠ []) (hn : ∀ s ∈ names, IsName s) (hs : IsName s) :
    (relative names).join ⟨s⟩ = relative (names ++ [s]) := by
  obtain ⟨c, hc, hslash⟩ := exists_getLast?_relative hne hn
  have hempty : (relative names).text.isEmpty = false := by
    refine Bool.eq_false_iff.mpr fun he => ?_
    rw [String.isEmpty_iff.mp he] at hc
    cases hc
  rw [join_of_relative hempty hs.not_isAbsolute, if_neg (by simp [hc, hslash]), relative_concat hne]

theorem inside_eq_join (dir : Path) (hne : names ≠ []) (hn : ∀ s ∈ names, IsName s) : dir.inside names = dir.join (relative names) := by
  induction names using List.reverseRecOn with
  | nil => exact absurd rfl hne
  | append_singleton names s ih =>
    rcases eq_or_ne names [] with rfl | hne'
    · simp [inside, relative]
    · have hn' : ∀ s' ∈ names, IsName s' := fun s' hs' => hn s' (List.mem_append_left _ hs')
      rw [inside_concat, ih hne' hn', ← join_join, relative_join hne' hn' (hn s (by simp))]

/-- Whatever the directory is, it puts one text in front of all paths from there. -/
theorem exists_text_front (dir : Path) : ∃ front : String, ∀ q : Path, q.isAbsolute = false → dir.join q = ⟨front ++ q.text⟩ := by
  cases hd : dir.text.isEmpty with
  | true => exact ⟨"", fun q _ => by rw [join, if_pos (.inr hd), String.empty_append]⟩
  | false =>
    obtain ⟨front, -, -, hjoin⟩ := exists_join_eq hd
    exact ⟨front, hjoin⟩

/-! ## The text below a directory -/

theorem isJunk_iff {segment : List Char} : isJunk segment = true ↔ PathPart.ofSegment? segment = none := by
  unfold PathPart.ofSegment?
  split <;> simp_all [isJunk]

/-- Of the segments in front, as many are dropped as count, and then those that do not count. -/
theorem dropWhile_dropSegments (ss ts : List (List Char)) :
    (dropSegments (ss.filterMap PathPart.ofSegment?).length (ss ++ ts)).dropWhile isJunk = ts.dropWhile isJunk := by
  induction ss with
  | nil => rw [List.filterMap_nil, List.length_nil, List.nil_append, dropSegments]
  | cons s ss ih =>
    cases hs : PathPart.ofSegment? s with
    | none =>
      rw [List.filterMap_cons_none hs, List.cons_append]
      cases hl : (ss.filterMap PathPart.ofSegment?).length with
      | zero =>
        rw [hl, dropSegments] at ih
        rw [dropSegments, List.dropWhile_cons_of_pos (isJunk_iff.mpr hs), ih]
      | succ n =>
        rw [hl] at ih
        rw [dropSegments, if_pos (isJunk_iff.mpr hs), ih]
    | some part =>
      have hjunk : ¬ isJunk s = true := fun h => by simp [isJunk_iff.mp h] at hs
      rw [List.filterMap_cons_some hs, List.length_cons, List.cons_append, dropSegments, if_neg hjunk, ih]

/-- The first segment of an absolute path is empty. -/
theorem isAbsolute_eq_false_of_segments (h : p.segments.head? ≠ some []) : p.isAbsolute = false := by
  rw [Bool.eq_false_iff, Ne, isAbsolute_iff]
  rintro ⟨r, hr⟩
  rw [segments, hr, Text.splitOn_slash_cons] at h
  exact h rfl

/-- A path with a text starts with an empty segment only when it starts with a slash. -/
theorem exists_segments_eq (hp : p.text.isEmpty = false) (h : p.segments.head? = some []) :
    p.isAbsolute = true ∧ ∃ r, p.segments = [] :: Text.splitOn (· == '/') r := by
  obtain ⟨c, cs, hcs⟩ := List.exists_cons_of_ne_nil (mt String.toList_eq_nil_iff.mp (by simpa [String.isEmpty_iff] using hp))
  by_cases hc : c = '/'
  · exact ⟨isAbsolute_iff.mpr ⟨cs, by rw [hcs, hc]⟩, cs, by rw [segments, hcs, hc, Text.splitOn_slash_cons]⟩
  · rw [segments, hcs, Text.splitOn, if_neg (by simpa using hc)] at h
    cases hs : Text.splitOn (· == '/') cs <;> simp [hs, Text.consHead] at h

/-- The first segment of a path stands for its first part, and behind it one part stands for each segment that counts. -/
theorem length_parts {first : List Char} {ss : List (List Char)} (hp : p.text.isEmpty = false) (h : p.segments = first :: ss) :
    p.parts.length = (ss.filterMap PathPart.ofSegment?).length + 1 := by
  cases first with
  | nil =>
    rw [parts_of_isAbsolute (exists_segments_eq hp (by rw [h]; rfl)).1, List.length_cons, innerParts, h, List.filterMap_cons_none rfl]
  | cons c first =>
    rw [parts_of_relative (isAbsolute_eq_false_of_segments (by simp [h])), innerParts, h, List.head?_cons]
    by_cases hdot : c :: first = ['.']
    · rw [hdot, if_pos rfl, List.filterMap_cons_none rfl]
      rfl
    · have hjunk : ¬ isJunk (c :: first) = true := by simpa [isJunk] using hdot
      obtain ⟨part, hpart⟩ := Option.ne_none_iff_exists'.mp (mt isJunk_iff.mpr hjunk)
      rw [if_neg (by simpa using hdot), List.nil_append, List.filterMap_cons_some hpart, List.length_cons]

/-- Names stay as they are when segments that do not count are dropped at the ends. -/
theorem dropEndWhile_names (hn : ∀ s ∈ names, IsName s) :
    Text.dropEndWhile isJunk (names.map String.toList) = names.map String.toList ∧
      (names.map String.toList).dropWhile isJunk = names.map String.toList := by
  have hname : ∀ piece ∈ names.map String.toList, isJunk piece = false := by
    intro piece hp
    obtain ⟨s, hs, rfl⟩ := List.mem_map.mp hp
    rw [← Bool.not_eq_true, isJunk_iff, (hn s hs).ofSegment?]
    simp
  refine ⟨Text.dropEndWhile_of_getLast? fun piece hp => hname piece (List.mem_of_getLast? hp), ?_⟩
  cases names with
  | nil => rfl
  | cons s names => exact List.dropWhile_cons_of_neg (by simp [hname s.toList (by simp)])

/-- What stands behind a directory is the path that the names make up. -/
theorem textBelow_inside (dir : Path) (hne : names ≠ []) (hn : ∀ s ∈ names, IsName s) :
    textBelow dir (dir.inside names) = (relative names).text.toList := by
  have hbelow : (dir.inside names).isBelow dir = true := isBelow_iff.mpr ⟨_, (parts_inside dir hn).symm⟩
  obtain ⟨hback, hfront⟩ := dropEndWhile_names hn
  cases hd : dir.text.isEmpty with
  | true =>
    have hdir : dir = ⟨""⟩ := congrArg Path.mk (String.isEmpty_iff.mp hd)
    subst hdir
    have hparts : (⟨""⟩ : Path).parts.isEmpty = true := by decide
    have hin : inside ⟨""⟩ names = relative names := by rw [inside_eq_join ⟨""⟩ hne hn, join, if_pos (.inr rfl)]
    have hkept : (names.map String.toList).isEmpty = false := by simpa using hne
    rw [textBelow, if_neg (by simp [hbelow]), if_pos hparts, hin, segments_relative hne hn, hback]
    simp only [hkept, Bool.false_eq_true, if_false, toList_relative]
  | false =>
    obtain ⟨ss, hss, hjoin⟩ := exists_segments_join hd
    cases ss with
    | nil =>
      -- Behind the first slash there is always a segment.
      have hhead : dir.segments.head? = some [] := by
        rcases hss with hss | hss
        · exact absurd hss (Text.splitOn_ne_nil _)
        · rw [hss]
          rfl
      obtain ⟨-, r, hr⟩ := exists_segments_eq hd hhead
      rcases hss with hss | hss
      · cases hr.symm.trans hss
      · exact absurd (List.cons.inj (hr.symm.trans hss)).2 (Text.splitOn_ne_nil r)
    | cons first ss =>
      have hlength : dir.parts.length = (ss.filterMap PathPart.ofSegment?).length + 1 := by
        rcases hss with hss | hss
        · exact length_parts hd hss
        · rw [List.cons_append] at hss
          rw [length_parts hd hss, List.filterMap_append]
          simp [PathPart.ofSegment?]
      have hparts : dir.parts.isEmpty = false := by
        rw [List.isEmpty_eq_false_iff, ← List.length_pos_iff, hlength]
        exact Nat.succ_pos _
      have hdrop : (dir.inside names).segments.drop 1 = ss ++ names.map String.toList := by
        rw [inside_eq_join dir hne hn, hjoin _ (not_isAbsolute_relative hne hn), segments_relative hne hn]
        rfl
      rw [textBelow, if_neg (by simp [hbelow]), if_neg (by simp [hparts]), hlength, Nat.add_sub_cancel, hdrop]
      simp only [dropWhile_dropSegments, hfront, hback, toList_relative]

/-! ## Keys -/

/-- The text behind a directory leads back from there. -/
theorem join_textBelow_inside (dir : Path) (hne : names ≠ []) (hn : ∀ s ∈ names, IsName s) :
    dir.join ⟨String.ofList (textBelow dir (dir.inside names))⟩ = dir.inside names := by
  rw [textBelow_inside dir hne hn, String.ofList_toList, inside_eq_join dir hne hn]

theorem backslash_notMem_key (root p : Path) : '\\' ∉ (key root p).toList := by
  rw [key, String.toList_ofList, List.mem_map]
  rintro ⟨c, -, hc⟩
  split_ifs at hc
  · exact absurd hc (by decide)
  · contradiction

theorem key_of_notMem {root : Path} (h : '\\' ∉ textBelow root p) : key root p = String.ofList (textBelow root p) := by
  rw [key]
  congr 1
  exact (List.map_congr_left fun c hc => if_neg fun he : c = '\\' => h (he ▸ hc)).trans (List.map_id' _)

/-- The key of a path inside a directory leads back to it exactly when it does not have a slash where the path has a backslash. -/
theorem join_key_inside_iff (dir : Path) (hne : names ≠ []) (hn : ∀ s ∈ names, IsName s) :
    dir.join ⟨key dir (dir.inside names)⟩ = dir.inside names ↔ '\\' ∉ textBelow dir (dir.inside names) := by
  constructor
  · intro hkey hmem
    have hplain := backslash_notMem_key dir (dir.inside names)
    rw [textBelow_inside dir hne hn] at hmem
    obtain ⟨front, hfront⟩ := exists_text_front dir
    have hin : dir.inside names = ⟨front ++ (relative names).text⟩ := by
      rw [inside_eq_join dir hne hn, hfront _ (not_isAbsolute_relative hne hn)]
    cases habsolute : (⟨key dir (dir.inside names)⟩ : Path).isAbsolute with
    | true =>
      rw [join_of_isAbsolute habsolute] at hkey
      have htext : key dir (dir.inside names) = front ++ (relative names).text := congrArg Path.text (hkey.trans hin)
      rw [htext, String.toList_append] at hplain
      exact hplain (List.mem_append_right _ hmem)
    | false =>
      rw [hfront _ habsolute] at hkey
      have htext : front ++ key dir (dir.inside names) = front ++ (relative names).text := congrArg Path.text (hkey.trans hin)
      rw [String.append_right_inj] at htext
      rw [htext] at hplain
      exact hplain hmem
  · intro hplain
    rw [key_of_notMem hplain, join_textBelow_inside dir hne hn]

end Path

end MarkdownTemplates
