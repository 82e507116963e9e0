import MarkdownTemplates.Digest.Sha256
import MarkdownTemplates.Document
import MarkdownTemplates.FileTree
import MarkdownTemplates.Template.Definition

/-!
# Metadata of files

What is kept about a file of a project: a fingerprint of the file, a digest of its content, the templates that it defines and
the ones that it uses.
-/

namespace MarkdownTemplates

/-- A definition without its content, which can be read again from the file. -/
structure CachedTemplate where
  id : String
  /-- The key of the file. -/
  file : String
  dependencies : List String
  startLine : Option Nat
  endLine : Option Nat
  deriving DecidableEq, Repr

structure FileMetadata where
  /-- The key of the file. -/
  path : String
  size : Nat
  /-- The time of the last change, in milliseconds. -/
  modified : Nat
  hash : String
  /-- The ids that the file defines, in document order. -/
  templateIds : List String := []
  /-- The ids that the file uses, each once. -/
  referenceIds : List String := []
  /-- The values of `src` in the file, each once. -/
  externalReferences : List String := []
  /-- The first definition of each id. -/
  definitions : List CachedTemplate := []
  errors : List Problem := []
  deriving DecidableEq

/-- A file that could not be read. -/
structure FileFailure where
  path : String
  message : String
  deriving DecidableEq, Repr

def contentHash (content : String) : String := Sha256.hexDigest content.toUTF8.toList

namespace Problem

def fileWithoutId (key : String) (line : Option Nat) : Problem :=
  let p : Problem := { kind := .invalidDefinition, message := "Template definition is missing an `id` attribute" }
  (p.withDetail "filePath" key).withDetail? "line" (line.map toString)

def fileDuplicate (key id : String) (firstLine line : Option Nat) : Problem :=
  let p : Problem :=
    { kind := .duplicateDefinition
      message := "Duplicate template definition: \"" ++ id ++ "\" (first defined at " ++ key ++ ":"
        ++ toString (firstLine.getD 0) ++ ")" }
  ((p.withDetail "templateId" id).withDetail "filePath" key).withDetail? "line" (line.map toString)

end Problem

namespace FileMetadata

/-- Does the file still look as it did? -/
def matchesFingerprint (m : FileMetadata) (size modified : Nat) : Bool := m.size == size && m.modified == modified

/-- Add a place that defines a template. -/
def addOccurrence (m : FileMetadata) (o : Occurrence) : FileMetadata :=
  match o.id with
  | none => { m with errors := m.errors ++ [.fileWithoutId m.path o.line] }
  | some id =>
    let m := { m with templateIds := m.templateIds ++ [id] }
    match m.definitions.find? (·.id = id) with
    | some first => { m with errors := m.errors ++ [.fileDuplicate m.path id first.startLine o.line] }
    | none => { m with definitions := m.definitions ++ [⟨id, m.path, o.dependencies, o.line, o.endLine⟩] }

/-- The metadata of a file with the given content. -/
def ofContent (key content : String) (size modified : Nat) : FileMetadata :=
  let root := (Document.parse content.toList).root
  let references := Reference.all root
  let m : FileMetadata :=
    { path := key
      size
      modified
      hash := contentHash content
      referenceIds := (references.map (·.id)).eraseDups
      externalReferences := (references.filterMap (·.src)).eraseDups }
  (Occurrence.all (some ⟨key⟩) root).foldl addOccurrence m

/-- Read a file, and give its metadata under `key`. -/
def read (files : FileTree) (key : String) (p : Path) : Except FileFailure FileMetadata :=
  match files.info p, files.readText p with
  | .ok info, .ok content => .ok (ofContent key content info.size info.modified)
  | .error e, _ => .error ⟨key, e.message⟩
  | _, .error e => .error ⟨key, e.message⟩

end FileMetadata

end MarkdownTemplates
