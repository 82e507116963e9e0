import MarkdownTemplates.Snapshot

/-!
# Refreshes

A refresh looks at some files of a project and brings their metadata up to date. Files that are gone are removed first; of the
others only those are read anew whose content has changed.
-/

namespace MarkdownTemplates

/-- What a refresh has changed. -/
structure RefreshReport where
  added : List String
  updated : List String
  removed : List String
  /-- The ids in the files that changed, and all ids that depend on them. -/
  affected : NameSet
  /-- The files that could not be read. -/
  errors : List FileFailure

namespace RefreshReport

def hasChanges (r : RefreshReport) : Bool := !(r.added.isEmpty && r.updated.isEmpty && r.removed.isEmpty)

end RefreshReport

/-- Metadata of files by their keys, and what has been changed in it. -/
structure Refresh where
  files : Dict FileMetadata
  added : List String := []
  updated : List String := []
  removed : List String := []
  /-- The ids in the files that changed. -/
  changed : NameSet := ∅
  errors : List FileFailure := []

namespace Refresh

/-- Remove a file, if it is known. -/
def remove (r : Refresh) (key : String) : Refresh :=
  match r.files.get? key with
  | none => r
  | some m =>
    { r with
      files := r.files.erase key
      removed := r.removed ++ [key]
      changed := r.changed.insertMany m.templateIds }

/-- Put the metadata that a file has now in the place of what is known about it. The same content keeps what was found in it. -/
def put (r : Refresh) (key : String) (m : FileMetadata) : Refresh :=
  match r.files.get? key with
  | none =>
    { r with
      files := r.files.insert key m
      added := r.added ++ [key]
      changed := r.changed.insertMany m.templateIds }
  | some old =>
    if old.hash = m.hash then { r with files := r.files.insert key { old with size := m.size, modified := m.modified } }
    else
      { r with
        files := r.files.insert key m
        updated := r.updated ++ [key]
        changed := r.changed.insertMany (m.templateIds ++ old.templateIds) }

/-- Look at a file that is there. -/
def check (files : FileTree) (r : Refresh) (candidate : String × Path) : Refresh :=
  match FileMetadata.read files candidate.1 candidate.2 with
  | .ok m => r.put candidate.1 m
  | .error e => { r with errors := r.errors ++ [e] }

/-- The first candidate of each key. -/
def firstOfKeys : List (String × Path) → List (String × Path)
  | [] => []
  | c :: rest => c :: (firstOfKeys rest).filter fun d => d.1 ≠ c.1

/-- Look at the candidates, which are given with their keys. When they are all files of the project, what is known about others is
removed as well. -/
def run (files : FileTree) (areAll : Bool) (candidates : List (String × Path)) (known : Dict FileMetadata) : Refresh :=
  let candidates := firstOfKeys candidates
  let (present, absent) := candidates.partition fun c => files.contains c.2
  let r : Refresh := (absent.map (·.1)).foldl remove { files := known }
  let keys := NameSet.ofList (candidates.map (·.1))
  let stale := if areAll then r.files.keys.filter fun key => !keys.contains key else []
  present.foldl (check files) (stale.foldl remove r)

def report (r : Refresh) (graph : DependencyGraph) : RefreshReport where
  added := r.added
  updated := r.updated
  removed := r.removed
  affected := r.changed.insertMany (graph.transitiveDependents r.changed.toList).toList
  errors := r.errors

end Refresh

end MarkdownTemplates
