import MarkdownTemplates.Graph
import MarkdownTemplates.Metadata

/-!
# Snapshots of projects

A snapshot keeps the metadata of all files of a project. The templates, their graph and the errors that concern several files
follow from the metadata alone: of the files that define an id, the first one in the order of the keys counts.
-/

namespace MarkdownTemplates

def snapshotVersion : String := "1.0.0"

structure Snapshot where
  version : String := snapshotVersion
  /-- When the snapshot was made, in milliseconds. -/
  lastUpdated : Nat
  root : Path
  /-- The metadata of the files, by their keys. -/
  files : Dict FileMetadata := ∅
  templates : Dict CachedTemplate := ∅
  dependencies : DependencyGraph := {}
  deriving DecidableEq

/-- What a user is told about a snapshot. -/
structure SnapshotInfo where
  version : String
  root : Path
  lastUpdated : Nat
  fileCount : Nat
  templateCount : Nat
  edgeCount : Nat
  cycles : List (List String)
  filesWithErrors : Nat

namespace Problem

/-- The detail of errors that concern several files. -/
def scopeDetail : String := "scope"

def projectScope : String := "project"

def projectDuplicate (first second : CachedTemplate) : Problem :=
  let p : Problem :=
    { kind := .duplicateDefinition
      message := "Duplicate template definition: \"" ++ second.id ++ "\" (first defined in " ++ first.file ++ ":"
        ++ toString (first.startLine.getD 0) ++ ")" }
  (((p.withDetail "templateId" second.id).withDetail "firstFile" first.file).withDetail "secondFile" second.file).withDetail
    scopeDetail projectScope

def concernsProject (p : Problem) : Bool := p.details.get? scopeDetail == some projectScope

end Problem

namespace Snapshot

/-- Add a definition, unless its id is taken. Then the file gets an error. -/
def addDefinition (state : FileMetadata × Dict CachedTemplate) (t : CachedTemplate) : FileMetadata × Dict CachedTemplate :=
  let (m, templates) := state
  match templates.get? t.id with
  | some first => ({ m with errors := m.errors ++ [.projectDuplicate first t] }, templates)
  | none => (m, templates.insert t.id t)

/-- Add the definitions of a file, whose errors that concern several files are found anew. -/
def addFile (templates : Dict CachedTemplate) (m : FileMetadata) : FileMetadata × Dict CachedTemplate :=
  m.definitions.foldl addDefinition ({ m with errors := m.errors.filter fun e => !e.concernsProject }, templates)

/-- The files with their errors, and the templates that they define. -/
def deriveTemplates (files : Dict FileMetadata) : Dict FileMetadata × Dict CachedTemplate :=
  files.entries.foldl (fun (files, templates) (key, m) =>
    let (m, templates) := addFile templates m
    (files.insert key m, templates)) (∅, ∅)

def graphOf (templates : Dict CachedTemplate) : DependencyGraph :=
  .ofEntries (templates.values.map fun t => (t.id, t.dependencies))

/-- The snapshot with other files, made at the time `now`. -/
def withFiles (s : Snapshot) (now : Nat) (files : Dict FileMetadata) : Snapshot :=
  let (files, templates) := deriveTemplates files
  { s with lastUpdated := now, files, templates, dependencies := graphOf templates }

/-- The snapshot of a project with the given files. -/
def ofFiles (root : Path) (now : Nat) (files : Dict FileMetadata) : Snapshot :=
  withFiles { lastUpdated := now, root } now files

def info (s : Snapshot) : SnapshotInfo where
  version := s.version
  root := s.root
  lastUpdated := s.lastUpdated
  fileCount := s.files.size
  templateCount := s.templates.size
  edgeCount := s.dependencies.edgeCount
  cycles := s.dependencies.cycles
  filesWithErrors := s.files.values.countP fun m => !m.errors.isEmpty

end Snapshot

end MarkdownTemplates
