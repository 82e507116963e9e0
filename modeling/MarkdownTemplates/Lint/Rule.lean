import MarkdownTemplates.Analysis
import MarkdownTemplates.Lint.Severity
import MarkdownTemplates.Template.Expansion

/-!
# Rules

A rule looks at the analysis of a document and reports findings. The rules `M002`, `M003` and `M004` are always there.
-/

namespace MarkdownTemplates

/-- The value of a detail of a finding. -/
inductive Detail where
  | text (s : String)
  | number (n : Nat)
  | texts (l : List String)
  deriving DecidableEq, Repr

structure Finding where
  ruleId : String
  severity : Severity
  message : String
  line : Nat
  column : Option Nat := none
  fixable : Bool := false
  details : Dict Detail := ∅
  deriving DecidableEq

namespace Finding

def withText (f : Finding) (key value : String) : Finding := { f with details := f.details.insert key (.text value) }

def withPath (f : Finding) (key : String) (p : Option Path) : Finding :=
  match p with
  | none => f
  | some p => f.withText key p.display

end Finding

/-- What a rule looks at. -/
structure RuleContext where
  /-- The file of the document. -/
  file : Option Path
  analysis : Analysis

structure Rule where
  id : String
  description : String
  severity : Severity
  /-- The findings, unless the check itself fails. -/
  check : RuleContext → Option (List Finding)

namespace Rule

def duplicateIdName : String := "M002"

def undefinedReferenceName : String := "M003"

def circularReferenceName : String := "M004"

def builtinIds : List String := [duplicateIdName, undefinedReferenceName, circularReferenceName]

/-- A finding of a built-in rule. Without a line it is put on the first one. -/
def finding (id message : String) (line column : Option Nat) : Finding :=
  { ruleId := id, severity := .error, message, line := line.getD 1, column }

/-- Every definition of an id but the first. -/
def duplicateFindings (file : Option Path) (d : DuplicateTemplate) : List Finding :=
  match d.occurrences with
  | [] => []
  | first :: rest =>
    let firstLine := first.line.getD 1
    let elsewhere := first.file.filter fun p => file.all fun q => !p.same q
    let place := match elsewhere with
      | some p => "first defined in " ++ p.display ++ ":" ++ toString firstLine
      | none => "first defined at line " ++ toString firstLine
    rest.map fun o =>
      let f := finding duplicateIdName ("Duplicate template definition: \"" ++ d.id ++ "\" (" ++ place ++ ")") o.line o.column
      let f := (f.withText "templateId" d.id).withText "errorType" ProblemKind.duplicateDefinition.name
      let f := { f with details := f.details.insert "firstLine" (.number firstLine) }
      (f.withPath "firstFile" first.file).withPath "filePath" o.file

def duplicateId : Rule where
  id := duplicateIdName
  description := "Template id must be unique within the project"
  severity := .error
  check c := some (c.analysis.duplicates.flatMap (duplicateFindings c.file))

def withReason (f : Finding) (u : UnresolvedSource) : Finding :=
  (f.withText "reason" u.failure.kind.problemKind.name).withPath "attemptedPath" (some u.failure.attempted)

/-- A reference to an id without a definition. The first failure of its `src`, if there is one, is given as the reason. -/
def undefinedFinding (unresolved : List UnresolvedSource) (r : Reference) : Finding :=
  let message := "Undefined template reference: \"" ++ r.id ++ "\""
  let f := finding undefinedReferenceName message r.line r.column
  let f := (f.withText "templateId" r.id).withText "referenceType" (if r.isExternal then "external" else "local")
  let f := f.withText "errorType" ProblemKind.undefinedReference.name
  let f := match r.src with
    | none => f
    | some src => f.withText "src" src
  match unresolved.find? (·.reference.src = r.src) with
  | none => f
  | some u => withReason { f with message := message ++ " (" ++ u.failure.message ++ ")" } u

/-- A `src` without a document, where the id is defined elsewhere. -/
def unloadableFinding (u : UnresolvedSource) : Finding :=
  let r := u.reference
  let message := "Cannot load template source \"" ++ r.src.getD "" ++ "\": " ++ u.failure.message
  let f := finding undefinedReferenceName message r.line r.column
  withReason ((f.withText "templateId" r.id).withText "referenceType" "external") u

def undefinedReference : Rule where
  id := undefinedReferenceName
  description := "Template references must have corresponding definitions"
  severity := .error
  check c :=
    let a := c.analysis
    some (a.undefined.map (fun l => undefinedFinding a.unresolved l.reference)
      ++ (a.unresolved.filter fun u => a.definitions.contains u.reference.id).map unloadableFinding)

def circularFinding (c : CircularReference) : Finding :=
  let f := finding circularReferenceName ("Circular reference detected: " ++ formatCycle c.cycle) c.line none
  let f := f.withText "errorType" ProblemKind.circularReference.name
  { f with details := f.details.insert "cyclePath" (.texts c.cycle) }.withPath "filePath" c.file

def circularReference : Rule where
  id := circularReferenceName
  description := "Template references must not create circular dependencies"
  severity := .error
  check c := some (c.analysis.circular.map circularFinding)

def builtin : List Rule := [duplicateId, undefinedReference, circularReference]

end Rule

end MarkdownTemplates
