import MarkdownTemplates.Proofs.Path.Climbing
import MarkdownTemplates.Proofs.Resolver.Sandbox

/-!
# The directory of a file

A `src` starts at the directory of the file in which it stands. When the path of the file is put in its absolute normal form, the
directory is put in its own, and the `src` still names the same path.
-/

namespace MarkdownTemplates

namespace PathPart

variable {part : PathPart} {s : List Char}

theorem toList_text_of_ofSegment? (h : ofSegment? s = some part) : part.text.toList = s := by
  unfold ofSegment? at h
  split at h
  · cases h
  · cases h
  · cases h
    rfl
  · obtain rfl := Option.some.inj h
    exact String.toList_ofList

end PathPart

namespace Path

open FileTree (IsName)
open Climb (follow start dots stack bottoms)

variable {p q d dir cwd : Path} {part : PathPart} {front ps : List PathPart} {s : String}

/-- A part between slashes can be read back from its text. -/
theorem read_of_mem_innerParts (h : part ∈ p.innerParts) :
    part ≠ .root ∧ '/' ∉ part.text.toList ∧ PathPart.ofSegment? part.text.toList = some part := by
  obtain ⟨segment, hm, hs⟩ := List.mem_filterMap.mp h
  rw [PathPart.toList_text_of_ofSegment? hs]
  exact ⟨(of_mem_segments h).1, Text.notMem_of_mem_splitOn hm, hs⟩

/-- What may stand in front of the parts between slashes. -/
def fronts : List (List PathPart) := [[], [.current], [.root]]

theorem exists_front (p : Path) : ∃ front ∈ fronts, p.parts = front ++ p.innerParts ∧ (front = [.root] ↔ p.isAbsolute = true) := by
  cases h : p.isAbsolute with
  | true => exact ⟨[.root], by simp [fronts], parts_of_isAbsolute h, by simp⟩
  | false =>
    rw [parts_of_relative h]
    split_ifs
    · exact ⟨[.current], by simp [fronts], rfl, by simp⟩
    · exact ⟨[], by simp [fronts], rfl, by simp⟩

theorem innerParts_ofParts (hf : front ∈ fronts) (hps : ∀ part ∈ ps, part ≠ .root ∧ '/' ∉ part.text.toList ∧
    PathPart.ofSegment? part.text.toList = some part) :
    (ofParts (front ++ ps)).innerParts = ps ∧ ((ofParts (front ++ ps)).isAbsolute = true ↔ front = [.root]) := by
  have hkept : (ps.map (·.text.toList)).filterMap PathPart.ofSegment? = ps := by
    rw [List.filterMap_map]
    exact (List.filterMap_congr fun part hm => (hps part hm).2.2).trans List.filterMap_some
  have hplain : ∀ part ∈ ps, '/' ∉ part.text.toList := fun part hm => (hps part hm).2.1
  have hroot : PathPart.root ∉ ps := fun hm => (hps _ hm).1 rfl
  simp only [fronts, List.mem_cons, List.not_mem_nil, or_false] at hf
  rcases hf with rfl | rfl | rfl
  · rw [List.nil_append]
    cases ps with
    | nil => exact ⟨rfl, by decide⟩
    | cons part ps =>
      have hsegments := FileTree.segments_ofParts (List.cons_ne_nil part ps) hroot hplain
      refine ⟨by rw [innerParts, hsegments, hkept], ?_⟩
      rw [isAbsolute_eq_false_of_segments ?_]
      · simp
      · rw [hsegments, List.map_cons, List.head?_cons]
        intro he
        have hread := (hps part List.mem_cons_self).2.2
        rw [Option.some.inj he] at hread
        cases hread
  · have hsegments := FileTree.segments_ofParts (List.cons_ne_nil .current ps) (by simpa using hroot)
      (List.forall_mem_cons.mpr ⟨by decide, hplain⟩)
    rw [List.singleton_append]
    refine ⟨?_, ?_⟩
    · rw [innerParts, hsegments, List.map_cons, List.filterMap_cons_none rfl, hkept]
    · rw [isAbsolute_eq_false_of_segments (by rw [hsegments]; simp [PathPart.text])]
      simp
  · rw [List.singleton_append]
    have hstart : (ofParts (.root :: ps)).isAbsolute = true := by
      simp [ofParts, isAbsolute, Text.startsWith, Text.dropStart?]
    refine ⟨?_, by simp [hstart]⟩
    cases ps with
    | nil => rfl
    | cons part ps =>
      rw [innerParts, FileTree.segments_ofParts_root (List.cons_ne_nil part ps) hplain, List.filterMap_cons_none rfl, hkept]

/-- A path with a file name stands in a directory, and the name is its last part. -/
theorem exists_parent (h : p.fileName? = some s) : ∃ dir, p.parent? = some dir ∧ dir.isAbsolute = p.isAbsolute ∧
    p.innerParts = dir.innerParts ++ [.name s] := by
  obtain ⟨front, hfront, hparts, habsolute⟩ := exists_front p
  have hlast : p.parts.getLast? = some (.name s) := by
    unfold fileName? at h
    split at h
    · rwa [← Option.some.inj h]
    · cases h
  obtain ⟨ps, hps⟩ : ∃ ps, p.innerParts = ps ++ [.name s] := by
    rcases List.eq_nil_or_concat p.innerParts with hnil | ⟨ps, part, hconcat⟩
    · rw [hparts, hnil, List.append_nil] at hlast
      simp only [fronts, List.mem_cons, List.not_mem_nil, or_false] at hfront
      rcases hfront with rfl | rfl | rfl <;> simp at hlast
    · rw [List.concat_eq_append] at hconcat
      rw [hparts, hconcat, ← List.append_assoc, List.getLast?_concat] at hlast
      exact ⟨ps, by rw [hconcat, Option.some.inj hlast]⟩
  have hread : ∀ part ∈ ps, part ≠ .root ∧ '/' ∉ part.text.toList ∧ PathPart.ofSegment? part.text.toList = some part :=
    fun part hm => read_of_mem_innerParts (by rw [hps]; exact List.mem_append_left _ hm)
  obtain ⟨hinner, hstart⟩ := innerParts_ofParts hfront hread
  refine ⟨ofParts (front ++ ps), ?_, ?_, by rw [hinner, hps]⟩
  · rw [parent?, hlast, hparts, hps, ← List.append_assoc, List.dropLast_concat]
  · rw [Bool.eq_iff_iff, hstart, habsolute]

theorem climb_concat (h : p.innerParts = d.innerParts ++ [.name s]) : p.climb = ⟨d.climb.up, s :: d.climb.names⟩ := by
  rw [climb, foldl_follow_parts, h, List.foldl_append, ← foldl_follow_parts]
  rfl

/-- The directory of the normal form is the normal form of the directory. -/
theorem parent?_normalize (hp : p.isAbsolute = true) (hd : d.isAbsolute = true) (h : p.innerParts = d.innerParts ++ [.name s]) :
    p.normalize.parent? = some d.normalize := by
  have hbottom : p.bottom = [.root] ∧ d.bottom = [.root] := ⟨if_pos hp, if_pos hd⟩
  have hparts : p.normalize.parts = [.root] ++ dots d.climb.up ++ d.climb.names.reverse.map PathPart.name ++ [.name s] := by
    rcases p.parts_normalize_cases with ⟨-, hempty⟩ | hparts
    · simp [hbottom.1] at hempty
    · rw [hparts, climb_concat h, hbottom.1]
      simp
  rw [parent?, hparts, List.getLast?_concat, List.dropLast_concat, normalize_eq_ofNormal, hbottom.2, ofNormal,
    if_neg (by simp)]

theorem absolute_eq_normalize (hp : p.fileName?.isSome = true) (cwd : Path) : p.absolute cwd = (cwd.join p).normalize := by
  refine if_neg fun he => ?_
  have hnone : fileName? ⟨""⟩ = none := by decide
  rw [show p = ⟨""⟩ from congrArg Path.mk (String.isEmpty_iff.mp he), hnone] at hp
  cases hp

theorem normalize_absolute (hp : p.fileName?.isSome = true) (cwd : Path) : (p.absolute cwd).normalize = p.absolute cwd := by
  rw [absolute_eq_normalize hp, normalize_normalize]

/-- A directory that is put in front of nothing is meant itself. -/
theorem normalize_join_empty (hd : d.isAbsolute = true) : (d.join ⟨""⟩).normalize = d.normalize := by
  rw [normalize_eq_iff (by rw [isAbsolute_join hd, hd]), climb_join d (by decide)]
  have hempty : climb ⟨""⟩ = start := rfl
  simp [hempty, Climb.after_start]

end Path

namespace Resolver

open MarkdownTemplates.Path (isAbsolute_join join_of_isAbsolute)

variable {cwd p : Path} {src : String}

/-- The directory in which a file stands, for both spellings of its path. -/
theorem exists_parent_absolute (hcwd : cwd.isAbsolute = true) (hp : p.fileName?.isSome = true) :
    ∃ dir, p.parent? = some dir ∧ dir.isAbsolute = p.isAbsolute ∧ (p.absolute cwd).parent? = some (cwd.join dir).normalize := by
  obtain ⟨s, hs⟩ := Option.isSome_iff_exists.mp hp
  obtain ⟨dir, hdir, hstart, hinner⟩ := Path.exists_parent hs
  refine ⟨dir, hdir, hstart, ?_⟩
  rw [Path.absolute_eq_normalize hp]
  have hjoined : (cwd.join p).innerParts = (cwd.join dir).innerParts ++ [.name s] := by
    cases hpa : p.isAbsolute with
    | true => rw [join_of_isAbsolute hpa, join_of_isAbsolute (hstart.trans hpa), hinner]
    | false => rw [Path.innerParts_join cwd hpa, Path.innerParts_join cwd (hstart.trans hpa), hinner, List.append_assoc]
  exact Path.parent?_normalize (isAbsolute_join hcwd p) (isAbsolute_join hcwd dir) hjoined

/-- A `src` names the same path when the path of its file is put in its absolute normal form. Only where nothing is named, in a file
without a directory, this is a dot first and then the current directory. -/
theorem resolvePath_absolute (hcwd : cwd.isAbsolute = true) (hp : p.fileName?.isSome = true) (src : String) :
    resolvePath cwd src (some p) = resolvePath cwd src (some (p.absolute cwd)) ∨
      p.isAbsolute = false ∧ resolvePath cwd src (some p) = ⟨"."⟩ ∧ resolvePath cwd src (some (p.absolute cwd)) = cwd.normalize := by
  obtain ⟨dir, hdir, hstart, hparent⟩ := exists_parent_absolute hcwd hp
  cases hsrc : Path.isAbsolute ⟨src⟩ with
  | true => exact .inl (by simp only [resolvePath, hsrc, if_true])
  | false =>
    have hnormal : (cwd.join dir).normalize.isAbsolute = true := by
      rw [Path.isAbsolute_normalize, isAbsolute_join hcwd]
    have hjoined := isAbsolute_join hnormal ⟨src⟩
    have hq : resolvePath cwd src (some (p.absolute cwd)) = (cwd.join (dir.join ⟨src⟩)).normalize := by
      rw [resolvePath, if_neg (by simp [hsrc]), Option.bind_some, hparent, Option.getD_some, Path.absolute,
        if_neg (by simp [Path.text_ne_empty_of_isAbsolute hjoined]), join_of_isAbsolute hjoined,
        Path.normalize_normalize_join (isAbsolute_join hcwd dir), Path.join_join]
    have hfile : resolvePath cwd src (some p) = (dir.join ⟨src⟩).absolute cwd := by
      rw [resolvePath, if_neg (by simp [hsrc]), Option.bind_some, hdir, Option.getD_some]
    rw [hq, hfile, Path.absolute]
    split_ifs with hempty
    · right
      refine ⟨?_, rfl, ?_⟩
      · rw [← hstart]
        refine Bool.eq_false_iff.mpr fun hd => ?_
        rw [Path.text_ne_empty_of_isAbsolute (isAbsolute_join hd ⟨src⟩)] at hempty
        exact Bool.false_ne_true hempty
      · rw [show dir.join ⟨src⟩ = ⟨""⟩ from congrArg Path.mk (String.isEmpty_iff.mp hempty), Path.normalize_join_empty hcwd]
    · exact .inl rfl

end Resolver

end MarkdownTemplates
