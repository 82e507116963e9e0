import MarkdownTemplates.Node
import MarkdownTemplates.Directive.Head
import MarkdownTemplates.Text.Blank

/-!
# Writing documents

Blocks are written with a blank line between them. A container is written anew, with a fence that is longer than those
inside it, and other nodes are written as their source, where they keep it.
-/

namespace MarkdownTemplates.Node

mutual

/-- How many containers stand in each other inside the node. -/
def containerDepth : Node → Nat
  | ⟨_, _, _, _, _, _, _, children, _, _⟩ => containerDepthList children

def containerDepthList : List Node → Nat
  | [] => 0
  | n :: ns => max (if n.kind = .containerDirective then 1 + n.containerDepth else 0) (containerDepthList ns)

end

/-- The name, the label and the attributes of a directive. -/
def headSource (n : Node) : List Char :=
  (n.name.getD "").toList ++ ((n.label.map fun l => '[' :: l.toList ++ [']']).getD [])
    ++ ((n.attributes.map Attributes.source).getD [])

def trimEols (s : List Char) : List Char := Text.dropEndWhile (· == '\n') s

/-- Blocks with a blank line between them. Unless there are none, the last one ends with a line feed. -/
def joinBlocks (blocks : List (List Char)) : List Char :=
  let joined := Text.join ['\n', '\n'] blocks
  if joined.isEmpty then [] else joined ++ ['\n']

/-- A container around its body. -/
def fenced (fence head body : List Char) : List Char :=
  if body.isEmpty then fence ++ head ++ '\n' :: fence else fence ++ head ++ '\n' :: trimEols body ++ '\n' :: fence

mutual

/-- The source of a node. -/
def source : Node → List Char
  | ⟨kind, name, label, attributes, value, checked, depth, children, span, raw⟩ =>
    let n : Node := ⟨kind, name, label, attributes, value, checked, depth, children, span, raw⟩
    if kind = .containerDirective then
      fenced (List.replicate (3 + n.containerDepth) ':') n.headSource (joinBlocks (sources children))
    else
      match raw with
      | some s => trimEols s.toList
      | none =>
        if kind = .leafDirective then ':' :: ':' :: n.headSource
        else if kind = .textDirective then ':' :: n.headSource
        else
          match value with
          | some s => s.toList
          | none => (sources children).flatten

def sources : List Node → List (List Char)
  | [] => []
  | n :: ns => n.source :: sources ns

end

/-- Write nodes as blocks. -/
def toMarkdown (ns : List Node) : List Char := joinBlocks (sources ns)

end MarkdownTemplates.Node
