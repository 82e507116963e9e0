import MarkdownTemplates.Markdown.Html
import MarkdownTemplates.Markdown.Label
import MarkdownTemplates.Markdown.Table

/-!
# Block structure

The lines of a text are laid out one after the other. A line goes on with the containers that are open, may open new
ones, and what is left of it belongs to a leaf: a paragraph, code, HTML or a table. A paragraph goes on in a line that
misses its containers, when that line opens nothing else.
-/

namespace MarkdownTemplates.Markdown

inductive Block where
  | paragraph (glyphs : List Glyph)
  | heading (depth : Nat) (span : Span) (glyphs : List Glyph)
  | thematicBreak (span : Span)
  | code (span : Span) (value : List Char)
  | html (span : Span) (value : List Char)
  | definition (span : Span)
  | table (span : Span) (rows : List Row)
  | quote (span : Span) (blocks : List Block)
  | footnote (span : Span) (blocks : List Block)
  | item (mark : Char) (span : Span) (blocks : List Block)

/-! ## Containers -/

inductive Container where
  | root
  | quote
  /-- The lines of an item are indented by `width` columns. An item that starts with a blank line ends at a second one. -/
  | item (mark : Char) (width : Nat) (blankStart : Bool)
  | footnote (label : String)
  deriving DecidableEq, Repr

namespace Container

/-- The rest of a line that goes on with a container, and what the container then is. -/
def continue? (c : Container) (gs : List Glyph) : Option (Container × List Glyph) :=
  match c with
  | root => some (root, gs)
  | quote =>
    match dropIndent? gs with
    | some (g :: r) => if g.char = '>' then some (quote, dropBlanks 1 r) else none
    | _ => none
  | item mark width blankStart =>
    if isBlankLine gs then if blankStart then none else some (c, dropBlanks width gs)
    else if width ≤ indentOf gs then some (item mark width false, dropBlanks width gs)
    else none
  | footnote _ => if isBlankLine gs ∨ 4 ≤ indentOf gs then some (c, dropBlanks 4 gs) else none

end Container

def isThematicBreak (gs : List Glyph) : Bool :=
  match dropIndent? gs with
  | some (g :: r) =>
    let marks := (g :: r).filter (!·.isBlank)
    (g.char == '*' || g.char == '-' || g.char == '_') && marks.all (·.char == g.char) && 3 ≤ marks.length
  | _ => false

/-- The mark of an item and the glyphs behind it, together with the number of glyphs of the mark. -/
def itemMark? (interrupting : Bool) (gs : List Glyph) : Option (Char × Nat × List Glyph) :=
  match gs with
  | [] => none
  | g :: r =>
    if g.char = '*' ∨ g.char = '+' ∨ g.char = '-' then some (g.char, 1, r)
    else
      let digits := chars (gs.takeWhile (fun g => Text.isDigit g.char))
      match gs.dropWhile (fun g => Text.isDigit g.char) with
      | m :: rest =>
        if (m.char = '.' ∨ m.char = ')') ∧ 0 < digits.length ∧ digits.length ≤ 9 ∧ (!interrupting ∨ digits = ['1']) then
          some (m.char, digits.length + 1, rest)
        else none
      | [] => none

/-- Open an item. One that interrupts a paragraph has content and, if it is numbered, the number one. -/
def openItem? (interrupting : Bool) (gs : List Glyph) : Option (Container × List Glyph) := do
  guard !(isThematicBreak gs)
  let rest ← dropIndent? gs
  let (mark, size, after) ← itemMark? interrupting rest
  let width := indentOf gs + size
  if isBlankLine after then
    guard !interrupting
    return (.item mark (width + 1) true, after)
  else
    let blanks := indentOf after
    guard (0 < blanks)
    let taken := if blanks ≤ 4 then blanks else 1
    return (.item mark (width + taken) false, dropBlanks taken after)

/-- Read the label of a footnote up to its closing bracket. -/
def takeFootnoteLabel : List Glyph → Option (List Glyph × List Glyph)
  | [] => none
  | g :: r =>
    if g.char = ']' then some ([], r)
    else if g.char = '[' ∨ g.isBlankOrEol then none
    else
      match r with
      | e :: s =>
        if g.char = '\\' ∧ e.char ∈ ['[', '\\', ']'] then
          (takeFootnoteLabel s).map (fun (inner, rest) => (g :: e :: inner, rest))
        else (takeFootnoteLabel (e :: s)).map (fun (inner, rest) => (g :: inner, rest))
      | [] => none

def openFootnote? (gs : List Glyph) : Option (Container × List Glyph) := do
  let rest ← dropIndent? gs
  let inner ← dropText? ['[', '^'] rest
  let (label, rest) ← takeFootnoteLabel inner
  guard (!label.isEmpty && label.length ≤ labelLimit)
  let rest ← dropText? [':'] rest
  return (.footnote (normalizeLabel (text label)), rest.dropWhile Glyph.isBlank)

def openQuote? (gs : List Glyph) : Option (Container × List Glyph) := Container.quote.continue? gs

/-- Open all containers that start in a line. Each comes with the place where it starts. -/
def openContainers (interrupting : Bool) (gs : List Glyph) : List (Container × Point) × List Glyph :=
  match (openQuote? gs).or ((openItem? interrupting gs).or (openFootnote? gs)) with
  | none => ([], gs)
  | some (c, rest) =>
    if rest.length < gs.length then
      let (containers, rest) := openContainers false rest
      ((c, (spanOf gs).start) :: containers, rest)
    else ([], gs)
  termination_by gs.length

/-! ## Leaves -/

structure Fence where
  mark : Char
  size : Nat
  indent : Nat
  start : Point

/-- A leaf that is open. Pieces of text and lines are listed last first, and between two lines stands their ending. -/
inductive Leaf where
  | none
  | paragraph (lines : List (List Glyph × Option Glyph))
  | indented (start : Point) (pieces : List (List Char)) (pending : List (List Char)) (stop : Point)
  | fenced (fence : Fence) (pieces : List (List Char))
  | html (block : HtmlBlock) (start : Point) (pieces : List (List Char)) (stop : Point)
  | table (start : Point) (rows : List Row) (stop : Point)

namespace Leaf

def isParagraph : Leaf → Bool
  | paragraph _ => true
  | _ => false

/-- Does the leaf take its lines whole, so that no container starts in them? -/
def isConcrete : Leaf → Bool
  | fenced .. | html .. => true
  | _ => false

/-- Does the leaf wait for a mark that ends it? -/
def isUnclosed : Leaf → Bool
  | fenced .. => true
  | html block .. => block.hasMark
  | _ => false

end Leaf

def eolText (l : Line) : List Char := text l.eol.toList

/-- The content of a paragraph, with the line endings inside it. -/
def paragraphGlyphs : (lines : List (List Glyph × Option Glyph)) → List Glyph
  | [] => []
  | (last, _) :: before => (before.reverse.flatMap (fun (gs, eol) => joinTabs none gs ++ eol.toList)) ++ joinTabs none last

def openFence? (gs : List Glyph) : Option Fence := do
  let .cons g r ← dropIndent? gs | none
  guard (g.char = '`' ∨ g.char = '~')
  let size := ((g :: r).takeWhile (·.char == g.char)).length
  guard (3 ≤ size)
  guard (g.char = '~' ∨ ((g :: r).drop size).all (·.char != '`'))
  return ⟨g.char, size, indentOf gs, g.span.start⟩

def Fence.isClosedBy (f : Fence) (gs : List Glyph) : Bool :=
  match dropIndent? gs with
  | some rest =>
    f.size ≤ (rest.takeWhile (·.char == f.mark)).length && isBlankLine (rest.dropWhile (·.char == f.mark))
  | none => false

/-- The text of a heading without the marks that may close it. -/
def headingContent (gs : List Glyph) : List Glyph :=
  let shown := (gs.dropWhile Glyph.isBlank).reverse.dropWhile Glyph.isBlank
  let unmarked := shown.dropWhile (·.char == '#')
  let kept := if unmarked.head?.all Glyph.isBlank then unmarked.dropWhile Glyph.isBlank else shown
  joinTabs none kept.reverse

/-- The depth of a heading and its text. -/
def openHeading? (gs : List Glyph) : Option (Nat × List Glyph) := do
  let rest ← dropIndent? gs
  let depth := (rest.takeWhile (·.char == '#')).length
  let after := rest.drop depth
  guard (0 < depth ∧ depth ≤ 6 ∧ after.head?.all Glyph.isBlank)
  return (depth, headingContent after)

/-- The depth of the heading that a line of `=` or `-` makes of the paragraph in front. -/
def underlineDepth? (gs : List Glyph) : Option Nat := do
  let .cons g r ← dropIndent? gs | none
  guard (g.char = '=' ∨ g.char = '-')
  guard (isBlankLine ((g :: r).dropWhile (·.char == g.char)))
  return if g.char = '=' then 1 else 2

/-- Does the line open a leaf that ends a paragraph? -/
def interruptsParagraph (lazyLine : Bool) (gs : List Glyph) : Bool :=
  (openFence? gs).isSome || (openHeading? gs).isSome || isThematicBreak gs
    || (dropIndent? gs).any (fun rest => (HtmlBlock.ofLine? rest !lazyLine).isSome)

/-! ## The layout -/

structure Frame where
  container : Container
  start : Point
  /-- The blocks in the container, last block first. -/
  blocks : List Block := []

structure Layout where
  inner : Frame := { container := .root, start := {} }
  outer : List Frame := []
  leaf : Leaf := .none
  labels : Labels := {}
  source : List Char
  /-- The last place of the line in front, before and behind its ending. -/
  stop : Point := {}
  next : Point := {}

namespace Layout

def addBlocks (s : Layout) (bs : List Block) : Layout := { s with inner := { s.inner with blocks := bs.reverse ++ s.inner.blocks } }

/-- The place where something ends that the line in front was the last one of. What waits for a mark takes the line
ending too, unless a line of the text around ends it. -/
def closePlace (s : Layout) (withEnding : Bool) : Point := if withEnding && s.leaf.isUnclosed then s.next else s.stop

/-- End a paragraph. Its definitions are blocks of their own. -/
def addParagraph (s : Layout) (gs : List Glyph) (block : List Glyph → Block) : Layout :=
  let (definitions, rest) := takeDefinitions gs
  let labels := { s.labels with links := s.labels.links.insertMany (definitions.map fun (label, _) => labelOf s.source label) }
  Layout.addBlocks { s with labels } (definitions.map (fun (_, span) => Block.definition span) ++ if rest.isEmpty then [] else [block rest])

def joinPieces (pieces : List (List Char)) : List Char := pieces.reverse.flatten

/-- A text without the line ending that it may end with. -/
def dropLastEol (s : List Char) : List Char :=
  match s.reverse with
  | '\n' :: '\r' :: r => r.reverse
  | '\n' :: r => r.reverse
  | '\r' :: r => r.reverse
  | _ => s

/-- End the open leaf. -/
def closeLeaf (s : Layout) (withEnding : Bool) : Layout :=
  let place := s.closePlace withEnding
  let s' := { s with leaf := .none }
  match s.leaf with
  | .none => s'
  | .paragraph lines => s'.addParagraph (paragraphGlyphs lines) .paragraph
  | .indented start pieces _ stop => s'.addBlocks [.code ⟨start, stop⟩ (dropLastEol (joinPieces pieces))]
  | .fenced f pieces => s'.addBlocks [.code ⟨f.start, place⟩ (joinPieces (pieces.drop 1))]
  | .html block start pieces stop =>
    if block.hasMark then
      s'.addBlocks [.html ⟨start, place⟩ (joinPieces (if withEnding then pieces else pieces.drop 1))]
    else s'.addBlocks [.html ⟨start, stop⟩ (joinPieces (pieces.drop 1))]
  | .table start rows stop => s'.addBlocks [.table ⟨start, stop⟩ rows.reverse]

/-- End the innermost container. -/
def closeFrame (s : Layout) (stop : Point) : Layout :=
  let span : Span := ⟨s.inner.start, stop⟩
  let blocks := s.inner.blocks.reverse
  match s.outer with
  | [] => s
  | f :: fs =>
    let s' := { s with inner := f, outer := fs }
    match s.inner.container with
    | .root => s'
    | .quote => s'.addBlocks [.quote span blocks]
    | .item mark _ _ => s'.addBlocks [.item mark span blocks]
    | .footnote _ => s'.addBlocks [.footnote span blocks]

/-- End the open leaf and the `n` innermost containers. -/
def close (s : Layout) (n : Nat) (withEnding : Bool) : Layout :=
  let place := s.closePlace withEnding
  n.repeat (·.closeFrame place) (s.closeLeaf withEnding)

def openFrame (s : Layout) (c : Container) (start : Point) : Layout :=
  let labels :=
    match c with
    | .footnote label => { s.labels with footnotes := s.labels.footnotes.insert label }
    | _ => s.labels
  { s with inner := { container := c, start }, outer := s.inner :: s.outer, labels }

/-- Begin a leaf with what is left of a line, where none is open. -/
def openLeaf (s : Layout) (gs : List Glyph) (l : Line) : Layout :=
  let start := (gs.head?.map (·.span.start)).getD l.stop
  let span : Span := ⟨start, l.stop⟩
  if isBlankLine gs then s
  else if 4 ≤ indentOf gs then { s with leaf := .indented start [text (dropBlanks 4 gs)] [eolText l] l.stop }
  else if let some f := openFence? gs then { s with leaf := .fenced f [] }
  else if let some (block, part) := HtmlBlock.ofLine? (gs.dropWhile Glyph.isBlank) false then
    if block.closesWith part then s.addBlocks [.html span (text gs)]
    else { s with leaf := .html block start [eolText l, text gs] l.stop }
  else if let some (depth, content) := openHeading? gs then s.addBlocks [.heading depth span content]
  else if isThematicBreak gs then s.addBlocks [.thematicBreak span]
  else { s with leaf := .paragraph [(gs, l.eol)] }

/-- Go on with a paragraph. -/
def continueParagraph (s : Layout) (lines : List (List Glyph × Option Glyph)) (gs : List Glyph) (l : Line) : Layout :=
  if isBlankLine gs then s.closeLeaf false
  else if interruptsParagraph false gs && (underlineDepth? gs).isNone then (s.closeLeaf false).openLeaf gs l
  else
    match underlineDepth? gs with
    | some depth =>
      let content := paragraphGlyphs lines
      let s' := { s with leaf := .none }
      if (takeDefinitions content).2.isEmpty then
        { s'.addParagraph content .paragraph with leaf := .paragraph [(gs, l.eol)] }
      else s'.addParagraph content (fun rest => .heading depth ⟨(spanOf rest).start, l.stop⟩ rest)
    | none =>
      match delimiterColumns? gs, lines with
      | some columns, (head, _) :: before =>
        if isHeadRow columns head then
          let s' := if before.isEmpty then s else { s with leaf := .paragraph before }.closeLeaf false
          { s' with leaf := .table (spanOf head).start [Row.ofGlyphs (joinTabs none head)] l.stop }
        else { s with leaf := .paragraph ((gs, l.eol) :: lines) }
      | _, _ => { s with leaf := .paragraph ((gs, l.eol) :: lines) }

/-- Go on with the open leaf, or begin another, with what is left of a line that has all containers. -/
def continueLeaf (s : Layout) (gs : List Glyph) (l : Line) : Layout :=
  let replace := (s.closeLeaf false).openLeaf gs l
  match s.leaf with
  | .none => s.openLeaf gs l
  | .paragraph lines => s.continueParagraph lines gs l
  | .indented start pieces pending stop =>
    if 4 ≤ indentOf gs then
      { s with leaf := .indented start (text (dropBlanks 4 gs) :: (pending ++ pieces)) [eolText l] l.stop }
    else if isBlankLine gs then { s with leaf := .indented start pieces (eolText l :: pending) stop }
    else replace
  | .fenced f pieces =>
    if f.isClosedBy gs then
      { s with leaf := .none }.addBlocks [.code ⟨f.start, l.stop⟩ (joinPieces (pieces.drop 1))]
    else { s with leaf := .fenced f (eolText l :: text (dropBlanks f.indent gs) :: pieces) }
  | .html block start pieces _ =>
    if !block.hasMark && isBlankLine gs then s.closeLeaf false
    else if block.closesWith (chars gs) then
      { s with leaf := .none }.addBlocks [.html ⟨start, l.stop⟩ (joinPieces (text gs :: pieces))]
    else { s with leaf := .html block start (eolText l :: text gs :: pieces) l.stop }
  | .table start rows _ =>
    if isBlankLine gs then s.closeLeaf false
    else if 4 ≤ indentOf gs || interruptsParagraph true gs then replace
    else { s with leaf := .table start (Row.ofGlyphs (joinTabs none gs) :: rows) l.stop }

/-- The containers that a line goes on with and those that it does not, from the outermost on, and the rest of the line. -/
def matchFrames : List Frame → List Glyph → List Frame × List Frame × List Glyph
  | [], gs => ([], [], gs)
  | f :: fs, gs =>
    match f.container.continue? gs with
    | none => ([], f :: fs, gs)
    | some (container, rest) =>
      let (matched, unmatched, rest) := matchFrames fs rest
      ({ f with container } :: matched, unmatched, rest)

/-- Put back the containers, listed from the outermost on. -/
def setFrames (s : Layout) (frames : List Frame) : Layout :=
  match frames.reverse with
  | [] => s
  | inner :: outer => { s with inner, outer }

/-- Lay out a line. -/
def addLine (s : Layout) (l : Line) : Layout :=
  let (matched, unmatched, gs) := matchFrames (s.inner :: s.outer).reverse l.glyphs
  let s := s.setFrames (matched ++ unmatched)
  let s' :=
    if unmatched.isEmpty && s.leaf.isConcrete then s.continueLeaf gs l
    else
      let (opened, rest) := openContainers (unmatched.isEmpty && s.leaf.isParagraph) gs
      if !opened.isEmpty then
        (opened.foldl (fun s (c, start) => s.openFrame c start) (s.close unmatched.length true)).openLeaf rest l
      else if unmatched.isEmpty then s.continueLeaf gs l
      else
        match s.leaf with
        | .paragraph lines =>
          if isBlankLine gs || interruptsParagraph true gs then (s.close unmatched.length false).openLeaf gs l
          else { s with leaf := .paragraph ((gs, l.eol) :: lines) }
        | _ => (s.close unmatched.length false).openLeaf gs l
  { s' with stop := l.stop, next := l.next }

/-- The blocks of a text and the labels that it defines. -/
def ofSource (source : List Char) : List Block × Labels :=
  let s := (lines source).foldl addLine { source }
  let s := s.close s.outer.length true
  (s.inner.blocks.reverse, s.labels)

end Layout

end MarkdownTemplates.Markdown
