import MarkdownTemplates.Attributes
import MarkdownTemplates.Position

/-!
# Document trees

A document is a tree of nodes. Directive nodes have a name and attributes, literal nodes have a value, and a node that
stands for a stretch of source may keep that stretch word for word.
-/

namespace MarkdownTemplates

inductive NodeKind where
  | root
  | containerDirective
  | leafDirective
  | textDirective
  | paragraph
  | heading
  | text
  | emphasis
  | strong
  | delete
  | inlineCode
  | code
  | html
  | link
  | image
  | list
  | listItem
  | blockquote
  | thematicBreak
  | break
  | table
  | tableRow
  | tableCell
  | other
  deriving DecidableEq, Repr, Inhabited

namespace NodeKind

def isDirective : NodeKind → Bool
  | containerDirective | leafDirective | textDirective => true
  | _ => false

/-- Does the value of such a node count as text of the document? -/
def isLiteral : NodeKind → Bool
  | text | inlineCode | code => true
  | _ => false

def all : List NodeKind :=
  [root, containerDirective, leafDirective, textDirective, paragraph, heading, text, emphasis, strong, delete,
    inlineCode, code, html, link, image, list, listItem, blockquote, thematicBreak, .break, table, tableRow, tableCell,
    other]

def name : NodeKind → String
  | root => "root"
  | containerDirective => "containerDirective"
  | leafDirective => "leafDirective"
  | textDirective => "textDirective"
  | paragraph => "paragraph"
  | heading => "heading"
  | text => "text"
  | emphasis => "emphasis"
  | strong => "strong"
  | delete => "delete"
  | inlineCode => "inlineCode"
  | code => "code"
  | html => "html"
  | link => "link"
  | image => "image"
  | list => "list"
  | listItem => "listItem"
  | blockquote => "blockquote"
  | thematicBreak => "thematicBreak"
  | .break => "break"
  | table => "table"
  | tableRow => "tableRow"
  | tableCell => "tableCell"
  | other => "other"

def ofName? (s : String) : Option NodeKind := all.find? (·.name == s)

end NodeKind

structure Node where
  kind : NodeKind
  name : Option String := none
  label : Option String := none
  attributes : Option Attributes := none
  value : Option String := none
  /-- The state of a task in a list. -/
  checked : Option Bool := none
  /-- The level of a heading. -/
  depth : Option Nat := none
  children : List Node := []
  span : Option Span := none
  /-- The source of the node. -/
  raw : Option String := none

namespace Node

instance : Inhabited Node := ⟨{ kind := .other }⟩

def isNamedDirective (n : Node) (name : String) : Bool := n.kind.isDirective && n.name == some name

def attribute? (n : Node) (key : String) : Option String := n.attributes.bind (·.values.get? key)

def line? (n : Node) : Option Nat := n.span.map (·.start.line)

def column? (n : Node) : Option Nat := n.span.map (·.start.column)

mutual

/-- The node and all that is below it, each node in front of its children. -/
def preorder : Node → List Node
  | ⟨kind, name, label, attributes, value, checked, depth, children, span, raw⟩ =>
    ⟨kind, name, label, attributes, value, checked, depth, children, span, raw⟩ :: preorderList children

def preorderList : List Node → List Node
  | [] => []
  | n :: ns => n.preorder ++ preorderList ns

end

/-- The literal text of a node, without what is below it. -/
def ownText (n : Node) : List Char := if n.kind.isLiteral then (n.value.getD "").toList else []

/-- The literal text of the node and of all that is below it. -/
def textContent (n : Node) : List Char := n.preorder.flatMap ownText

end Node

end MarkdownTemplates
