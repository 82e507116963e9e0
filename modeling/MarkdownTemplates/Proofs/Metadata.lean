import Mathlib
import MarkdownTemplates.Metadata

/-!
# The metadata of a content

What is found in a file depends on its key and its content; the fingerprint only stands beside it.
-/

namespace MarkdownTemplates

namespace FileMetadata

variable {files : FileTree} {key content : String} {p : Path} {m : FileMetadata}

/-- The metadata with another fingerprint. -/
def withFingerprint (m : FileMetadata) (size modified : Nat) : FileMetadata := { m with size, modified }

theorem addOccurrence_withFingerprint (m : FileMetadata) (size modified : Nat) (o : Occurrence) :
    (m.withFingerprint size modified).addOccurrence o = (m.addOccurrence o).withFingerprint size modified := by
  unfold addOccurrence
  cases o.id with
  | none => rfl
  | some id =>
    simp only [withFingerprint]
    cases m.definitions.find? (·.id = id) <;> rfl

theorem foldl_addOccurrence_withFingerprint (l : List Occurrence) (m : FileMetadata) (size modified : Nat) :
    l.foldl addOccurrence (m.withFingerprint size modified) = (l.foldl addOccurrence m).withFingerprint size modified := by
  induction l generalizing m with
  | nil => rfl
  | cons o l ih => rw [List.foldl_cons, List.foldl_cons, addOccurrence_withFingerprint, ih]

/-- A file with the same content and another fingerprint has the same metadata but for the fingerprint. -/
theorem ofContent_withFingerprint (key content : String) (size modified size' modified' : Nat) :
    (ofContent key content size modified).withFingerprint size' modified' = ofContent key content size' modified' := by
  simp only [ofContent]
  rw [← foldl_addOccurrence_withFingerprint]
  rfl

theorem addOccurrence_eq (m : FileMetadata) (o : Occurrence) :
    (m.addOccurrence o).path = m.path ∧ (m.addOccurrence o).hash = m.hash ∧
      (m.addOccurrence o).size = m.size ∧ (m.addOccurrence o).modified = m.modified := by
  unfold addOccurrence
  cases o.id with
  | none => exact ⟨rfl, rfl, rfl, rfl⟩
  | some id =>
    dsimp only
    cases m.definitions.find? (·.id = id) <;> exact ⟨rfl, rfl, rfl, rfl⟩

theorem ofContent_eq (key content : String) (size modified : Nat) :
    (ofContent key content size modified).path = key ∧ (ofContent key content size modified).hash = contentHash content ∧
      (ofContent key content size modified).size = size ∧ (ofContent key content size modified).modified = modified := by
  have h : ∀ (l : List Occurrence) (m : FileMetadata), (l.foldl addOccurrence m).path = m.path ∧
      (l.foldl addOccurrence m).hash = m.hash ∧ (l.foldl addOccurrence m).size = m.size ∧
      (l.foldl addOccurrence m).modified = m.modified := by
    intro l
    induction l with
    | nil => exact fun m => ⟨rfl, rfl, rfl, rfl⟩
    | cons o l ih =>
      intro m
      obtain ⟨h₁, h₂, h₃, h₄⟩ := ih (m.addOccurrence o)
      obtain ⟨g₁, g₂, g₃, g₄⟩ := addOccurrence_eq m o
      exact ⟨h₁.trans g₁, h₂.trans g₂, h₃.trans g₃, h₄.trans g₄⟩
  exact h _ _

/-! ## Reading -/

theorem read_eq_ok : read files key p = .ok m ↔
    ∃ info content, files.info p = .ok info ∧ files.readText p = .ok content ∧
      ofContent key content info.size info.modified = m := by
  simp only [read]
  cases files.info p with
  | error e => simp
  | ok info => cases files.readText p <;> simp

theorem path_of_read (h : read files key p = .ok m) : m.path = key := by
  obtain ⟨info, content, -, -, rfl⟩ := read_eq_ok.mp h
  exact (ofContent_eq key content _ _).1

theorem path_of_read_eq_error {e : FileFailure} (h : read files key p = .error e) : e.path = key := by
  unfold read at h
  split at h
  · cases h
  · cases h
    rfl
  · cases h
    rfl

/-- A file that can be read is there. -/
theorem contains_of_read (h : read files key p = .ok m) : files.contains p = true := by
  obtain ⟨info, content, hi, -, -⟩ := read_eq_ok.mp h
  simp [FileTree.contains, hi, Except.toBool]

end FileMetadata

end MarkdownTemplates
