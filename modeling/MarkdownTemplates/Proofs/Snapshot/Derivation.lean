import MarkdownTemplates.Proofs.Dict
import MarkdownTemplates.Proofs.Metadata
import MarkdownTemplates.Snapshot

/-!
# What follows from the files of a snapshot

The templates, the graph and the errors that concern several files follow from what each file says on its own. Two snapshots
that agree on this agree on everything but their times.
-/

namespace MarkdownTemplates

namespace Dict

variable {α β : Type}

theorem mapValues_insert (f : α → β) (d : Dict α) (k : String) (a : α) :
    (d.insert k a).mapValues (fun _ => f) = (d.mapValues fun _ => f).insert k (f a) := by
  refine ext_get? fun k' => ?_
  rw [get?_mapValues, get?_insert, get?_insert, get?_mapValues]
  by_cases h : k' = k <;> simp [h]

end Dict

namespace Problem

theorem concernsProject_projectDuplicate (first second : CachedTemplate) :
    (projectDuplicate first second).concernsProject = true := by
  simp [concernsProject, projectDuplicate, withDetail]

theorem not_concernsProject_fileWithoutId (key : String) (line : Option Nat) :
    (fileWithoutId key line).concernsProject = false := by
  cases line <;> simp [concernsProject, fileWithoutId, withDetail, withDetail?, Dict.get?_insert, scopeDetail]

theorem not_concernsProject_fileDuplicate (key id : String) (firstLine line : Option Nat) :
    (fileDuplicate key id firstLine line).concernsProject = false := by
  cases line <;> simp [concernsProject, fileDuplicate, withDetail, withDetail?, Dict.get?_insert, scopeDetail]

end Problem

namespace FileMetadata

/-- What a file says on its own: its metadata without the errors that concern several files. -/
def own (m : FileMetadata) : FileMetadata := { m with errors := m.errors.filter fun e => !e.concernsProject }

@[simp] theorem own_own (m : FileMetadata) : m.own.own = m.own := by
  simp [own]

theorem own_addOccurrence {m : FileMetadata} (h : m.own = m) (o : Occurrence) :
    (m.addOccurrence o).own = m.addOccurrence o := by
  have he : m.errors.filter (fun e => !e.concernsProject) = m.errors := congrArg errors h
  simp only [addOccurrence]
  split
  · simp [own, List.filter_append, he, Problem.not_concernsProject_fileWithoutId]
  · split
    · simp [own, List.filter_append, he, Problem.not_concernsProject_fileDuplicate]
    · simp [own, he]

/-- A file that is read says nothing about other files. -/
theorem own_ofContent (key content : String) (size modified : Nat) :
    (ofContent key content size modified).own = ofContent key content size modified := by
  have h : ∀ (l : List Occurrence) (m : FileMetadata), m.own = m →
      (l.foldl addOccurrence m).own = l.foldl addOccurrence m := by
    intro l
    induction l with
    | nil => exact fun m hm => hm
    | cons o l ih => exact fun m hm => ih _ (own_addOccurrence hm o)
  exact h _ _ rfl

theorem own_of_read {files : FileTree} {key : String} {p : Path} {m : FileMetadata} (h : read files key p = .ok m) :
    m.own = m := by
  obtain ⟨info, content, -, -, rfl⟩ := read_eq_ok.mp h
  exact own_ofContent key content info.size info.modified

/-- What was found in a file, whatever its fingerprint and whatever concerns other files. -/
def content (m : FileMetadata) : FileMetadata := (m.withFingerprint 0 0).own

theorem content_withFingerprint (m : FileMetadata) (size modified : Nat) :
    (m.withFingerprint size modified).content = m.content := rfl

theorem content_own (m : FileMetadata) : m.own.content = m.content := by
  rw [content, content, ← own_own (m.withFingerprint 0 0)]
  rfl

theorem templateIds_of_content {m m' : FileMetadata} (h : m.content = m'.content) : m.templateIds = m'.templateIds := by
  have hids := congrArg templateIds h
  exact hids

theorem definitions_of_content {m m' : FileMetadata} (h : m.content = m'.content) : m.definitions = m'.definitions := by
  have hdefinitions := congrArg definitions h
  exact hdefinitions

end FileMetadata

namespace Snapshot

open FileMetadata (own content)

theorem own_foldl_addDefinition (l : List CachedTemplate) (state : FileMetadata × Dict CachedTemplate) :
    (l.foldl addDefinition state).1.own = state.1.own := by
  induction l generalizing state with
  | nil => rfl
  | cons t l ih =>
    rw [List.foldl_cons, ih]
    obtain ⟨m, templates⟩ := state
    simp only [addDefinition]
    split
    · simp [own, List.filter_append, Problem.concernsProject_projectDuplicate]
    · rfl

theorem own_addFile (templates : Dict CachedTemplate) (m : FileMetadata) : (addFile templates m).1.own = m.own := by
  rw [addFile, own_foldl_addDefinition]
  exact FileMetadata.own_own m

theorem addFile_own (templates : Dict CachedTemplate) (m : FileMetadata) :
    addFile templates m.own = addFile templates m := by
  have h : ({ m.own with errors := m.own.errors.filter fun e => !e.concernsProject } : FileMetadata) = m.own :=
    FileMetadata.own_own m
  simp only [addFile, h]
  rfl

/-- The errors that concern several files do not count for what is derived. -/
theorem deriveTemplates_own (files : Dict FileMetadata) :
    deriveTemplates (files.mapValues fun _ => own) = deriveTemplates files := by
  simp only [deriveTemplates, Dict.mapValues, List.foldl_map, addFile_own]

theorem deriveTemplates_congr {files files' : Dict FileMetadata}
    (h : files.mapValues (fun _ => own) = files'.mapValues fun _ => own) :
    deriveTemplates files = deriveTemplates files' := by
  rw [← deriveTemplates_own files, h, deriveTemplates_own]

/-- Deriving changes nothing of what the files say on their own. -/
theorem own_deriveTemplates (files : Dict FileMetadata) :
    (deriveTemplates files).1.mapValues (fun _ => own) = files.mapValues fun _ => own := by
  have h : ∀ (l : List (String × FileMetadata)) (state : Dict FileMetadata × Dict CachedTemplate),
      (l.foldl (fun state e =>
        (state.1.insert e.1 (addFile state.2 e.2).1, (addFile state.2 e.2).2)) state).1.mapValues (fun _ => own) =
      (l.map fun e => (e.1, e.2.own)).foldl (fun d e => d.insert e.1 e.2) (state.1.mapValues fun _ => own) := by
    intro l
    induction l with
    | nil => exact fun _ => rfl
    | cons e l ih =>
      intro state
      rw [List.foldl_cons, ih, List.map_cons, List.foldl_cons, Dict.mapValues_insert, own_addFile]
  rw [deriveTemplates, h]
  exact Dict.ofList_entries (files.mapValues fun _ => own)

/-- Are the templates, the graph and the errors that concern several files those that follow from the files? -/
structure IsDerived (s : Snapshot) : Prop where
  derived : deriveTemplates s.files = (s.files, s.templates)
  graph : s.dependencies = graphOf s.templates

theorem isDerived_withFiles (s : Snapshot) (now : Nat) (files : Dict FileMetadata) : (s.withFiles now files).IsDerived :=
  ⟨deriveTemplates_congr (own_deriveTemplates files), rfl⟩

theorem own_withFiles (s : Snapshot) (now : Nat) (files : Dict FileMetadata) :
    (s.withFiles now files).files.mapValues (fun _ => own) = files.mapValues fun _ => own :=
  own_deriveTemplates files

theorem own_get?_withFiles (s : Snapshot) (now : Nat) (files : Dict FileMetadata) (k : String) :
    ((s.withFiles now files).files.get? k).map own = (files.get? k).map own := by
  rw [← Dict.get?_mapValues (fun _ => own), own_withFiles, Dict.get?_mapValues]

/-- What a snapshot says about a file is what it was given, but for the errors that concern several files. -/
theorem exists_of_get?_withFiles {s : Snapshot} {now : Nat} {files : Dict FileMetadata} {k : String} {m : FileMetadata}
    (h : (s.withFiles now files).files.get? k = some m) : ∃ m', files.get? k = some m' ∧ m'.own = m.own := by
  have ho := own_get?_withFiles s now files k
  rw [h] at ho
  exact Option.map_eq_some_iff.mp ho.symm

theorem content_withFiles (s : Snapshot) (now : Nat) (files : Dict FileMetadata) (k : String) :
    ((s.withFiles now files).files.get? k).map content = (files.get? k).map content := by
  have ho := congrArg (Option.map content) (own_get?_withFiles s now files k)
  simpa only [Option.map_map, Function.comp_def, FileMetadata.content_own] using ho

/-- Do two snapshots say the same about the project? -/
structure Agrees (s s' : Snapshot) : Prop where
  files : s.files = s'.files
  templates : s.templates = s'.templates
  dependencies : s.dependencies = s'.dependencies

theorem Agrees.trans {s₁ s₂ s₃ : Snapshot} (h : s₁.Agrees s₂) (h' : s₂.Agrees s₃) : s₁.Agrees s₃ :=
  ⟨h.files.trans h'.files, h.templates.trans h'.templates, h.dependencies.trans h'.dependencies⟩

theorem IsDerived.agrees {s s' : Snapshot} (h : s.IsDerived) (h' : s'.IsDerived)
    (ho : s.files.mapValues (fun _ => own) = s'.files.mapValues fun _ => own) : s.Agrees s' := by
  have hd : (s.files, s.templates) = (s'.files, s'.templates) := by
    rw [← h.derived, ← h'.derived, deriveTemplates_congr ho]
  obtain ⟨hf, ht⟩ := Prod.mk.inj hd
  exact ⟨hf, ht, by rw [h.graph, h'.graph, ht]⟩

end Snapshot

end MarkdownTemplates
