import MarkdownTemplates.Markdown.Block
import MarkdownTemplates.Markdown.Inline.Reader

/-!
# Markdown as a tree

The blocks of a text as nodes, with their content read.
-/

namespace MarkdownTemplates.Markdown

/-- The mark of a task and the glyphs behind its brackets. There must be something behind the white space that follows. -/
def taskMark? (gs : List Glyph) : Option (Bool × List Glyph) :=
  match gs with
  | l :: m :: r :: rest =>
    let isDone := m.char == 'x' || m.char == 'X'
    let isFollowed : Bool :=
      match rest with
      | g :: _ => g.isEol || (g.isBlank && !isBlankLine rest)
      | [] => false
    if l.char = '[' ∧ r.char = ']' ∧ (isDone ∨ m.isBlankOrEol) ∧ isFollowed then some (isDone, rest) else none
  | _ => none

/-- A paragraph behind a task mark: the first character of its text, which is white space, is left out. -/
def taskParagraph (context : InlineContext) (stop : Point) (start : Point) (gs : List Glyph) : Node :=
  let paragraph (start : Point) (children : List Node) : Node := { kind := .paragraph, span := some ⟨start, stop⟩, children }
  match inlineNodesAfter ']' context gs with
  | first :: rest =>
    let behind := ((gs.head?.map (·.span.stop)).getD stop)
    if first.kind = .text then
      let value := ((first.value.getD "").toList.drop (text (gs.take 1)).length)
      if value.isEmpty then paragraph behind rest
      else paragraph behind (textNode value ⟨behind, (first.span.map (·.stop)).getD stop⟩ :: rest)
    else paragraph start (first :: rest)
  | [] => paragraph start []

def paragraphNode (context : InlineContext) (gs : List Glyph) : Node :=
  { kind := .paragraph, span := spanOf gs, children := inlineNodes context gs }

/-- The first paragraph of an item, with the state of the task that it may hold. -/
def itemParagraph (context : InlineContext) (gs : List Glyph) : Option Bool × Node :=
  match taskMark? gs with
  | some (isDone, rest) => (isDone, taskParagraph context (spanOf gs).stop (spanOf gs).start rest)
  | none => (none, paragraphNode context gs)

def rowNode (context : InlineContext) (r : Row) : Node :=
  { kind := .tableRow
    span := r.span
    children := r.cells.map fun c =>
      { kind := .tableCell, span := c.span, children := inlineNodes { context with inTable := true } c.glyphs } }

/-- Put an item in front of the nodes that follow it. Items with the same mark are one list. -/
def addItem (mark : Char) (item : Node) (rest : List (Option Char × Node)) : List (Option Char × Node) :=
  let itemSpan := item.span.getD ⟨{}, {}⟩
  match rest with
  | (some m, list) :: rest =>
    if m = mark then
      (some m, { list with span := some ⟨itemSpan.start, (list.span.getD itemSpan).stop⟩, children := item :: list.children })
        :: rest
    else (some mark, { kind := .list, span := itemSpan, children := [item] }) :: (some m, list) :: rest
  | rest => (some mark, { kind := .list, span := itemSpan, children := [item] }) :: rest

/-- The nodes of blocks. Each list comes with the mark of its items. -/
def markedNodes (context : InlineContext) : List Block → List (Option Char × Node)
  | [] => []
  | b :: rest =>
    let rest := markedNodes context rest
    match b with
    | .paragraph gs => (none, paragraphNode context gs) :: rest
    | .heading depth span gs =>
      (none, { kind := .heading, depth := some depth, span, children := inlineNodes context gs }) :: rest
    | .thematicBreak span => (none, { kind := .thematicBreak, span }) :: rest
    | .code span value => (none, { kind := .code, span, value := String.ofList value }) :: rest
    | .html span value => (none, { kind := .html, span, value := String.ofList value }) :: rest
    | .definition span => (none, { kind := .other, span }) :: rest
    | .table span rows => (none, { kind := .table, span, children := rows.map (rowNode context) }) :: rest
    | .quote span blocks =>
      (none, { kind := .blockquote, span, children := (markedNodes context blocks).map Prod.snd }) :: rest
    | .footnote span blocks =>
      (none, { kind := .other, span, children := (markedNodes context blocks).map Prod.snd }) :: rest
    | .item mark span (.paragraph gs :: blocks) =>
      let (checked, paragraph) := itemParagraph context gs
      let children := paragraph :: (markedNodes context blocks).map Prod.snd
      addItem mark { kind := .listItem, checked, span, children } rest
    | .item mark span blocks =>
      addItem mark { kind := .listItem, span, children := (markedNodes context blocks).map Prod.snd } rest

/-- Read a text. -/
def read (source : List Char) : List Node :=
  let (blocks, labels) := Layout.ofSource source
  (markedNodes { source, labels } blocks).map Prod.snd

end MarkdownTemplates.Markdown
