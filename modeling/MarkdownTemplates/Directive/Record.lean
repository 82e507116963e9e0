import MarkdownTemplates.Node
import MarkdownTemplates.Text.Blank

/-!
# Directives of the dialect

The directives `template`, `tag` and `result` mean something; others are left alone.
-/

namespace MarkdownTemplates

def directiveNames : List String := ["template", "tag", "result"]

def isDirectiveName (name : String) : Bool := directiveNames.contains name

inductive DirectiveKind where
  | container
  | leaf
  | inlineText
  deriving DecidableEq, Repr

def DirectiveKind.ofNode? : NodeKind → Option DirectiveKind
  | .containerDirective => some container
  | .leafDirective => some leaf
  | .textDirective => some inlineText
  | _ => none

def DirectiveKind.name : DirectiveKind → String
  | container => "container"
  | leaf => "leaf"
  | inlineText => "inline-text"

/-- A directive of the dialect, as it is found in a document. -/
structure DirectiveRecord where
  name : String
  kind : DirectiveKind
  /-- The values of the attributes, without flags. -/
  attributes : Dict String
  children : List Node
  /-- The text in a container. -/
  content : String
  line : Option Nat

namespace DirectiveRecord

def ofNode? (n : Node) : Option DirectiveRecord := do
  let kind ← DirectiveKind.ofNode? n.kind
  let name ← n.name
  guard (isDirectiveName name)
  let content := if kind = .container then Text.trim (n.children.flatMap Node.textContent) else []
  return {
    name
    kind
    attributes := (n.attributes.map (·.values)).getD ∅
    children := n.children
    content := String.ofList content
    line := n.line? }

/-- The directives of the dialect in a tree, in document order. -/
def all (root : Node) : List DirectiveRecord := root.preorder.filterMap ofNode?

end DirectiveRecord

end MarkdownTemplates
