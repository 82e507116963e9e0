import MarkdownTemplates.Node

/-!
# References to templates

A leaf directive `template` with an id refers to the template of that id. Its `src`, if there is one, is the path of the file
that has the definition.
-/

namespace MarkdownTemplates

def templateDirective : String := "template"

namespace Node

/-- Is the node a use of a template? -/
def isReference (n : Node) : Bool := n.kind == .leafDirective && n.name == some templateDirective

/-- The id that a use without `src` names. -/
def localReference? (n : Node) : Option String :=
  if n.isReference && (n.attribute? "src").isNone then n.attribute? "id" else none

/-- The ids that the uses below a node name, without those that have a `src`, each once and in document order. -/
def dependencies (n : Node) : List String := ((preorderList n.children).filterMap localReference?).eraseDups

end Node

structure Reference where
  id : String
  src : Option String := none
  line : Option Nat := none
  column : Option Nat := none
  deriving DecidableEq, Repr

namespace Reference

def isExternal (r : Reference) : Bool := r.src.isSome

def ofNode? (n : Node) : Option Reference :=
  if n.isReference then
    (n.attribute? "id").map fun id => { id, src := n.attribute? "src", line := n.line?, column := n.column? }
  else none

/-- The references of a document, in document order. -/
def all (root : Node) : List Reference := root.preorder.filterMap ofNode?

end Reference

end MarkdownTemplates
