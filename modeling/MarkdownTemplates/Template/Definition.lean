import MarkdownTemplates.Path
import MarkdownTemplates.Template.Problem
import MarkdownTemplates.Template.Reference

/-!
# Definitions of templates

A container directive `template` defines a template. `Occurrence.all` lists what a document defines, whatever is wrong with
it; `TemplateDefinition.collect` wants an id everywhere and every id once.
-/

namespace MarkdownTemplates

def Node.isDefinition (n : Node) : Bool := n.kind == .containerDirective && n.name == some templateDirective

def Node.endLine? (n : Node) : Option Nat := n.span.map (·.stop.line)

/-- A place where a template is defined, perhaps without an id. -/
structure Occurrence where
  id : Option String
  file : Option Path
  line : Option Nat
  column : Option Nat
  endLine : Option Nat
  dependencies : List String
  deriving DecidableEq, Repr

namespace Occurrence

def ofNode (file : Option Path) (n : Node) : Occurrence where
  id := n.attribute? "id"
  file := file
  line := n.line?
  column := n.column?
  endLine := n.endLine?
  dependencies := n.dependencies

/-- The definitions in a document, in document order. -/
def all (file : Option Path) (root : Node) : List Occurrence :=
  (root.preorder.filter Node.isDefinition).map (ofNode file)

end Occurrence

structure TemplateDefinition where
  id : String
  content : List Node
  file : Option Path
  dependencies : List String
  startLine : Option Nat
  endLine : Option Nat

/-- Definitions by their ids. -/
abbrev Definitions := Dict TemplateDefinition

/-- A place in a file, for a message. -/
def location (file : Option Path) (line : Option Nat) : String :=
  match file, line with
  | some p, some n => p.text ++ ":" ++ toString n
  | some p, none => p.text
  | none, some n => "line " ++ toString n
  | none, none => "unknown location"

namespace Problem

def missingId (file : Option Path) (line : Option Nat) : Problem :=
  let p : Problem :=
    { kind := .invalidDefinition
      message := "Template definition is missing an `id` attribute at " ++ location file line }
  (p.withDetail? "filePath" (file.map Path.text)).withDetail? "line" (line.map toString)

def duplicateInFile (id : String) (file : Option Path) (firstLine line : Option Nat) : Problem :=
  let p : Problem :=
    { kind := .duplicateDefinition
      message := "Duplicate template definition: \"" ++ id ++ "\" (first defined at " ++ location file firstLine ++ ")" }
  (((p.withDetail "templateId" id).withDetail? "firstLine" (firstLine.map toString)).withDetail? "line"
    (line.map toString)).withDetail? "filePath" (file.map Path.text)

def duplicateAcrossFiles (id : String) (first second : TemplateDefinition) : Problem :=
  let p : Problem :=
    { kind := .duplicateDefinition
      message := "Duplicate template definition: \"" ++ id ++ "\" defined in "
        ++ location first.file first.startLine ++ " and " ++ location second.file second.startLine }
  ((p.withDetail "templateId" id).withDetail? "firstFile" (first.file.map Path.text)).withDetail? "secondFile"
    (second.file.map Path.text)

end Problem

namespace TemplateDefinition

def ofNode (id : String) (file : Option Path) (n : Node) : TemplateDefinition where
  id := id
  content := n.children
  file := file
  dependencies := n.dependencies
  startLine := n.line?
  endLine := n.endLine?

/-- Add the definition that a node holds. -/
def addNode (file : Option Path) (definitions : Definitions) (n : Node) : Except Problem Definitions :=
  match n.attribute? "id" with
  | none => .error (.missingId file n.line?)
  | some id =>
    match definitions.get? id with
    | some first => .error (.duplicateInFile id file first.startLine n.line?)
    | none => .ok (definitions.insert id (ofNode id file n))

/-- The definitions of one document. The first one without an id, or with an id that is taken, is a problem. -/
def collect (file : Option Path) (root : Node) : Except Problem Definitions :=
  (root.preorder.filter Node.isDefinition).foldlM (addNode file) ∅

/-- Add definitions in the order of their ids. An id that is taken is a problem. -/
def merge (definitions incoming : Definitions) : Except Problem Definitions :=
  incoming.entries.foldlM (fun ds (id, d) =>
    match ds.get? id with
    | some first => .error (.duplicateAcrossFiles id first d)
    | none => .ok (ds.insert id d)) definitions

end TemplateDefinition

end MarkdownTemplates
