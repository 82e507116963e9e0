import MarkdownTemplates.Closure
import MarkdownTemplates.Graph

/-!
# Analysis of a document

What is defined in the closure of a document, and what is wrong with it. Nothing ends the analysis: files that cannot be read
are noted, and of several definitions of an id the first one counts.
-/

namespace MarkdownTemplates

/-- A reference and the file in which it stands. -/
structure LocatedReference where
  reference : Reference
  file : Option Path
  deriving DecidableEq, Repr

/-- An id that is defined more than once. -/
structure DuplicateTemplate where
  id : String
  /-- Every place that defines it, in the order of the visits. -/
  occurrences : List Occurrence

structure CircularReference where
  /-- The ids of the cycle. The last one is the first one again. -/
  cycle : List String
  /-- Where the first id is defined. -/
  line : Option Nat
  file : Option Path

/-- A reference whose `src` leads to no document. -/
structure UnresolvedSource where
  reference : Reference
  failure : Unresolved

structure Analysis where
  /-- Definitions without an id, and ids with several definitions. -/
  issues : List Problem := []
  /-- The first definition of each id. -/
  definitions : Dict Occurrence := ∅
  references : List LocatedReference := []
  duplicates : List DuplicateTemplate := []
  undefined : List LocatedReference := []
  circular : List CircularReference := []
  unresolved : List UnresolvedSource := []
  /-- The files in the closure, in the order of the visits. -/
  externalFiles : List Path := []

namespace Problem

def occurrenceWithoutId (o : Occurrence) : Problem :=
  let p : Problem := { kind := .invalidDefinition, message := "Template definition is missing an `id` attribute" }
  (p.withDetail? "line" (o.line.map toString)).withDetail? "filePath" (o.file.map Path.text)

def severalDefinitions (id : String) (count : Nat) : Problem :=
  let p : Problem := { kind := .duplicateDefinition, message := "Duplicate template definition: \"" ++ id ++ "\"" }
  (p.withDetail "templateId" id).withDetail "count" (toString count)

end Problem

namespace Analysis

def isSuccess (a : Analysis) : Bool := a.issues.isEmpty

/-- What the visits of a closure bring. -/
structure Collected where
  occurrences : List Occurrence
  unresolved : List UnresolvedSource := []
  externalFiles : List Path := []

/-- Add what a visit brings. A failure counts only where the document itself has the reference. -/
def Collected.addVisit (c : Collected) (v : Visit) : Collected :=
  match v.outcome with
  | .ok file =>
    { c with
      occurrences := c.occurrences ++ Occurrence.all (some file.path) file.document.root
      externalFiles := c.externalFiles ++ [file.path] }
  | .error u => if v.isLocal then { c with unresolved := c.unresolved ++ [⟨v.reference, u⟩] } else c

/-- The occurrences of each id, in their order. -/
def byId (occurrences : List Occurrence) : Dict (List Occurrence) :=
  Dict.group (occurrences.filterMap fun o => o.id.map (·, o))

def duplicatesOf (groups : Dict (List Occurrence)) : List DuplicateTemplate :=
  groups.entries.filterMap fun (id, found) => if 1 < found.length then some ⟨id, found⟩ else none

def ofCollected (file : Option Path) (root : Node) (c : Collected) : Analysis :=
  let groups := byId c.occurrences
  let duplicates := duplicatesOf groups
  let definitions := Dict.ofList (groups.entries.filterMap fun (id, found) => found.head?.map (id, ·))
  let references := (Reference.all root).map (⟨·, file⟩)
  let graph := DependencyGraph.ofEntries (definitions.entries.map fun (id, o) => (id, o.dependencies))
  let circular (cycle : List String) : CircularReference :=
    let start := cycle.head?.bind definitions.get?
    ⟨cycle, start.bind (·.line), start.bind (·.file)⟩
  { issues := (c.occurrences.filter (·.id.isNone)).map Problem.occurrenceWithoutId
      ++ duplicates.map fun d => Problem.severalDefinitions d.id d.occurrences.length
    definitions
    references
    duplicates
    undefined := references.filter fun l => !definitions.contains l.reference.id
    circular := graph.cycles.map circular
    unresolved := c.unresolved
    externalFiles := c.externalFiles }

/-- Analyze a document, which stands in `file`. -/
def run (w : World) (r : Resolver) (file : Option Path) (root : Node) : Analysis × Resolver :=
  let start : Collected := { occurrences := Occurrence.all file root }
  let step (c : Collected) (v : Visit) : Except Empty Collected := .ok (c.addVisit v)
  match Closure.run w r file root step start with
  | (.ok c, r) => (ofCollected file root c, r)

end Analysis

end MarkdownTemplates
