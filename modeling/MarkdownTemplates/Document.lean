import MarkdownTemplates.Directive.Inline
import MarkdownTemplates.Directive.Line
import MarkdownTemplates.Markdown.Tree

/-!
# Documents

The lines of a source are sorted into fences, directives and chunks of Markdown. Fences nest the containers, and a chunk
is read as soon as a directive or a fence ends it. Lines inside a block of code belong to the chunk around it.

The reader of chunks is a parameter: it gives the nodes of a text, with places that count from the start of the text.
-/

namespace MarkdownTemplates

inductive Diagnostic where
  | unclosedDirective (name : String) (line column : Nat)
  | unexpectedClosingFence (line : Nat)
  deriving DecidableEq, Repr

namespace Diagnostic

def line : Diagnostic → Nat
  | unclosedDirective _ line _ => line
  | unexpectedClosingFence line => line

def message : Diagnostic → String
  | unclosedDirective name _ _ => "container directive `" ++ name ++ "` is never closed"
  | unexpectedClosingFence _ => "closing fence without an open container directive"

end Diagnostic

structure Document where
  root : Node
  diagnostics : List Diagnostic

/-! ## Chunks -/

/-- Markdown lines that wait to be read. -/
structure Chunk where
  start : Point
  text : List Char

namespace Node

/-- Move the nodes and all below them from a chunk into the whole, where the chunk starts at `base`. -/
def shiftAll (base : Point) : List Node → List Node
  | [] => []
  | ⟨kind, name, label, attributes, value, checked, depth, children, span, raw⟩ :: rest =>
    ⟨kind, name, label, attributes, value, checked, depth, shiftAll base children, span.map (·.shift base), raw⟩
      :: shiftAll base rest

/-- Keep the source of a node of a chunk. -/
def keepSource (text : List Char) (n : Node) : Node :=
  { n with raw := n.span.bind fun s => (Text.sliceBytes? text s.start.offset s.stop.offset).map String.ofList }

end Node

/-- The nodes of a chunk, with their source and with the directives inside their text. -/
def Chunk.nodes (read : List Char → List Node) (c : Chunk) : List Node :=
  Node.splitInline (Node.shiftAll c.start ((read c.text).map (Node.keepSource c.text)))

/-! ## The scan -/

/-- A container whose closing fence is still to come. -/
structure OpenContainer where
  head : Head
  fence : Nat
  start : Point
  /-- What stands in the same place in front of the container. -/
  before : List Node

structure Scan where
  /-- The open containers, innermost first. -/
  stack : List OpenContainer := []
  /-- The nodes in the innermost container so far. -/
  nodes : List Node := []
  chunk : Option Chunk := none
  codeFence : Option (Char × Nat) := none
  diagnostics : List Diagnostic := []
  point : Point := {}

namespace Scan

/-- Put a line of Markdown into the chunk. -/
def addMarkdown (s : Scan) (line : List Char) : Scan :=
  match s.chunk with
  | none => { s with chunk := some ⟨s.point, line⟩ }
  | some c => { s with chunk := some { c with text := c.text ++ line } }

/-- Read the chunk. -/
def flush (read : List Char → List Node) (s : Scan) : Scan :=
  match s.chunk with
  | none => s
  | some c =>
    if Text.isBlankText c.text then { s with chunk := none }
    else { s with chunk := none, nodes := s.nodes ++ c.nodes read }

/-- Close the innermost container. -/
def closeContainer (s : Scan) (stop : Point) : Scan :=
  match s.stack with
  | [] => s
  | c :: stack =>
    let node : Node :=
      { kind := .containerDirective
        name := c.head.name
        label := c.head.label
        attributes := c.head.attributes
        children := s.nodes
        span := some ⟨c.start, stop⟩ }
    { s with stack, nodes := c.before ++ [node] }

def openContainer (s : Scan) (head : Head) (fence : Nat) : Scan :=
  { s with stack := ⟨head, fence, s.point, s.nodes⟩ :: s.stack, nodes := [] }

def addLeaf (s : Scan) (head : Head) (line : List Char) (stop : Point) : Scan :=
  let node : Node :=
    { kind := .leafDirective
      name := head.name
      label := head.label
      attributes := head.attributes
      span := some ⟨s.point, stop⟩
      raw := String.ofList line }
  { s with nodes := s.nodes ++ [node] }

/-- A closing fence closes the innermost container, unless that has a longer one. -/
def addClosingFence (read : List Char → List Node) (s : Scan) (size : Nat) (line : List Char) (stop : Point) : Scan :=
  match s.stack with
  | [] => addMarkdown { s with diagnostics := s.diagnostics ++ [.unexpectedClosingFence s.point.line] } line
  | c :: _ => if c.fence ≤ size then (s.flush read).closeContainer stop else s.addMarkdown line

/-- Sort in a line that stands outside of code. -/
def addOuterLine (read : List Char → List Node) (s : Scan) (line : List Char) : Scan :=
  let body := LineKind.body line
  let stop := s.point.advance body
  match LineKind.ofLine line with
  | .markdown => s.addMarkdown line
  | .codeFence mark size => addMarkdown { s with codeFence := some (mark, size) } line
  | .closingFence size => s.addClosingFence read size line stop
  | .container size head => (s.flush read).openContainer head size
  | .leaf head => (s.flush read).addLeaf head body stop

/-- The fence that is open behind a line of code. -/
def fenceAfter (fence : Char × Nat) (line : List Char) : Option (Char × Nat) :=
  match LineKind.ofLine line with
  | .codeFence mark size => if mark = fence.1 ∧ fence.2 ≤ size then none else some fence
  | _ => some fence

def addLine (read : List Char → List Node) (s : Scan) (line : List Char) : Scan :=
  let s' :=
    match s.codeFence with
    | some fence => addMarkdown { s with codeFence := fenceAfter fence line } line
    | none => s.addOuterLine read line
  { s' with point := s.point.advance line }

/-- Close the containers that are open at the end, innermost first. -/
def closeAll (s : Scan) : Scan :=
  let unclosed := s.stack.map fun c => Diagnostic.unclosedDirective c.head.name c.start.line c.start.column
  let closed := s.stack.foldl (fun s _ => s.closeContainer s.point) s
  { closed with diagnostics := s.diagnostics ++ unclosed }

def ofLines (read : List Char → List Node) (lines : List (List Char)) : Scan := lines.foldl (addLine read) {}

end Scan

namespace Document

/-- Read a document, with a reader for its Markdown. -/
def parseWith (read : List Char → List Node) (source : List Char) : Document :=
  let s := ((Scan.ofLines read (Text.lines source)).flush read).closeAll
  { root := { kind := .root, children := s.nodes, span := some ⟨{}, s.point⟩ }, diagnostics := s.diagnostics }

def parse (source : List Char) : Document := parseWith Markdown.read source

end Document

end MarkdownTemplates
