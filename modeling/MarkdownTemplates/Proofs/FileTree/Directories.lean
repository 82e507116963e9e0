import MarkdownTemplates.Proofs.FileTree.Replace
import MarkdownTemplates.Proofs.Text

/-!
# Directories that are there

Where a path leads to a directory already, nothing is added, however its text ends.
-/

namespace MarkdownTemplates

namespace Text

/-- Slashes at the end make no piece that counts. -/
theorem filterMap_splitOn_dropEndWhile {α : Type} {f : List Char → Option α} (hf : f [] = none) (s : List Char) :
    (splitOn (· == '/') (dropEndWhile (· == '/') s)).filterMap f = (splitOn (· == '/') s).filterMap f := by
  induction s using List.reverseRecOn with
  | nil => rfl
  | append_singleton s c ih =>
    by_cases hc : c = '/'
    · rw [dropEndWhile_append_of_pos (by simp [hc]), ih, hc, splitOn_append s List.not_mem_nil, List.filterMap_append]
      simp [hf]
    · rw [dropEndWhile_of_getLast? (by simp [hc])]

theorem exists_eq_dropEndWhile_append {α : Type} (p : α → Bool) (s : List α) : ∃ t, s = dropEndWhile p s ++ t := by
  obtain ⟨t, ht⟩ := List.dropWhile_suffix p (l := s.reverse)
  exact ⟨t.reverse, by rw [dropEndWhile, ← List.reverse_append, ht, List.reverse_reverse]⟩

end Text

namespace FileTree

variable {t : FileTree} {n m : Nat} {place : Place} {ps : List PathPart} {p : Path}

/-- Steps to a directory lead to an entry also when a link at their end is not followed. -/
theorem exists_walk_false (h : t.Reaches n [] ps m place) (hd : t.lookup? place = some .directory) :
    ∃ q e, t.walk false n [] ps = .ok q ∧ t.lookup? q = some e := by
  rcases List.eq_nil_or_concat ps with rfl | ⟨qs, part, rfl⟩
  · exact ⟨[], .directory, walk_nil, rfl⟩
  · rw [List.concat_eq_append] at h ⊢
    obtain ⟨k, mid, hmid, hlast⟩ := Reaches.append_iff.mp h
    cases hlast with
    | move hmd hm hlast =>
      cases hlast
      exact ⟨place, .directory, (walk_append (.inr (by simp))).mpr ⟨_, mid, hmid, (walk_move hm).mpr ⟨hmd, walk_nil⟩⟩, hd⟩
    | name hmd hs _ hlast =>
      cases hlast
      exact ⟨_, .directory, walk_false_concat.mpr ⟨_, mid, hmid, hmd, hs, rfl⟩, hd⟩
    | link hmd hs hx _ => exact ⟨_, _, walk_false_concat.mpr ⟨_, mid, hmid, hmd, hs, rfl⟩, hx⟩

/-- The steps that the pieces of a text stand for. -/
def pieceSteps (s : List Char) : List PathPart :=
  (Text.splitOn (· == '/') s).filterMap fun segment => if segment = ['.'] then some .current else PathPart.ofSegment? segment

theorem steps_cases (p : Path) : steps p = pieceSteps p.text.toList ∨ steps p = pieceSteps p.text.toList ++ [.current] := by
  rw [steps, Path.segments]
  split
  · exact .inr rfl
  · exact .inl (List.append_nil _)

theorem reaches_steps_iff (hd : t.lookup? place = some .directory) :
    (∃ m, t.Reaches n [] (steps p) m place) ↔ ∃ m, t.Reaches n [] (pieceSteps p.text.toList) m place := by
  rcases steps_cases p with h | h <;> rw [h]
  constructor
  · rintro ⟨m, hr⟩
    exact ⟨m, hr.of_dot⟩
  · rintro ⟨m, hr⟩
    exact ⟨m, Reaches.append_iff.mpr ⟨m, place, hr, .move hd rfl .done⟩⟩

/-- The text of a path of more than one part does not end where its slashes at the end begin. -/
theorem dropEndWhile_ne_nil (h : 1 < p.parts.length) : Text.dropEndWhile (· == '/') p.text.toList ≠ [] := by
  intro hnil
  have hinner : p.segments.filterMap PathPart.ofSegment? = [] := by
    rw [Path.segments, ← Text.filterMap_splitOn_dropEndWhile rfl, hnil]
    rfl
  rw [Path.parts, hinner] at h
  split at h
  · simp at h
  · split at h <;> simp at h

theorem IsUsable.of_append {s rest : List Char} (h : IsUsable p) (hp : p.text.toList = s ++ rest) (hne : s ≠ []) :
    IsUsable ⟨String.ofList s⟩ := by
  obtain ⟨-, hplain, hsize⟩ := h
  have htext : p.text = String.ofList s ++ String.ofList rest := by
    rw [← String.ofList_append, ← hp, String.ofList_toList]
  refine ⟨by simpa [String.isEmpty_iff] using hne, ?_, ?_⟩
  · rw [hp, ← Bool.not_eq_true, List.contains_iff_mem] at hplain
    rw [← Bool.not_eq_true, List.contains_iff_mem, String.toList_ofList]
    exact fun hm => hplain (List.mem_append_left _ hm)
  · rw [htext, String.utf8ByteSize_append] at hsize
    exact (Nat.le_add_right _ _).trans hsize

theorem addDirectory_of_isDirectory (h : t.isDirectory p = true) : t.addDirectory p = .error .exists := by
  obtain ⟨place, hl, hd⟩ := exists_of_isDirectory h
  obtain ⟨hu, hw⟩ := locate_eq_ok.mp hl
  have hreach := (reaches_steps_iff hd).mp (walk_true_iff.mp hw)
  set s := if p.parts.length ≤ 1 then p.text.toList else Text.dropEndWhile (· == '/') p.text.toList with hs
  obtain ⟨hsteps, hne, rest, hrest⟩ : pieceSteps s = pieceSteps p.text.toList ∧ s ≠ [] ∧ ∃ rest, p.text.toList = s ++ rest := by
    rw [hs]
    split
    · exact ⟨rfl, by simpa [String.isEmpty_iff] using hu.1, [], by simp⟩
    · exact ⟨Text.filterMap_splitOn_dropEndWhile rfl _, dropEndWhile_ne_nil (not_le.mp ‹_›),
        Text.exists_eq_dropEndWhile_append _ _⟩
  obtain ⟨m, hr⟩ := (reaches_steps_iff (p := ⟨String.ofList s⟩) hd).mpr (by rwa [String.toList_ofList, hsteps])
  obtain ⟨q, e, hq, he⟩ := exists_walk_false hr hd
  have hlocate : t.locate false ⟨String.ofList s⟩ = .ok q := locate_eq_ok.mpr ⟨hu.of_append hrest hne, hq⟩
  simp only [addDirectory, add, ← hs, hlocate, he, bind, Except.bind, Option.isSome_some, if_true]

theorem makeDirectories_of_isDirectory (h : t.isDirectory p = true) : t.makeDirectories p = (.ok (), t) := by
  rw [makeDirectories, withParents, makeDirectoryBelow, addDirectory_of_isDirectory h, h]
  rfl

end FileTree

end MarkdownTemplates
