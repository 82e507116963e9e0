import MarkdownTemplates.Markdown.Glyph

/-!
# Rows of a table

A row is cut at its pipes. Pipes at its ends may be left out, and a backslash keeps a pipe from cutting.
-/

namespace MarkdownTemplates.Markdown

structure Cell where
  span : Span
  glyphs : List Glyph

structure Row where
  span : Span
  cells : List Cell

/-- Add a glyph to the first piece. -/
def consPiece (g : Glyph) : List (List Glyph) → List (List Glyph)
  | [] => [[g]]
  | p :: ps => (g :: p) :: ps

/-- The pieces of a row. Every piece but the first starts with its pipe. -/
def rowPieces : List Glyph → List (List Glyph)
  | [] => [[]]
  | g :: r =>
    if g.char = '|' then [] :: consPiece g (rowPieces r)
    else
      match r with
      | e :: s =>
        if g.char = '\\' ∧ (e.char = '\\' ∨ e.char = '|') then consPiece g (consPiece e (rowPieces s))
        else consPiece g (rowPieces (e :: s))
      | [] => [[g]]

/-- A first piece without content belongs to the first cell. -/
def joinLeading : List (List Glyph) → List (List Glyph)
  | first :: second :: rest => if isBlankLine first then (first ++ second) :: rest else first :: second :: rest
  | pieces => pieces

def Cell.ofPiece (piece : List Glyph) : Cell :=
  let inner := piece.dropWhile Glyph.isBlank
  let content := if inner.head?.any (·.char == '|') then inner.drop 1 else inner
  ⟨spanOf piece, ((content.dropWhile Glyph.isBlank).reverse.dropWhile Glyph.isBlank).reverse⟩

/-- A last cell without content is a pipe that belongs to the cell in front. -/
def joinTrailing : List Cell → List Cell
  | [] => []
  | [last] => if last.glyphs.isEmpty then [] else [last]
  | [c, last] => if last.glyphs.isEmpty then [{ c with span := ⟨c.span.start, last.span.stop⟩ }] else [c, last]
  | c :: rest => c :: joinTrailing rest

def Row.ofGlyphs (gs : List Glyph) : Row := ⟨spanOf gs, joinTrailing ((joinLeading (rowPieces gs)).map Cell.ofPiece)⟩

/-- Is this a delimiter of a column: a line of dashes, with a colon at each end or not? -/
def isDelimiter (cs : List Char) : Bool :=
  let afterColon := if cs.head? = some ':' then cs.drop 1 else cs
  let rest := afterColon.dropWhile (· == '-')
  afterColon.head? == some '-' && (rest == [] || rest == [':'])

/-- The number of columns of a delimiter row. It has a pipe or a colon. -/
def delimiterColumns? (gs : List Glyph) : Option Nat :=
  let row := Row.ofGlyphs gs
  if gs.any (fun g => g.char == '|' || g.char == ':') && indentOf gs < 4
      && row.cells.all (fun c => isDelimiter (chars c.glyphs)) then some row.cells.length
  else none

/-- Can the line be the head of a table with a number of columns? -/
def isHeadRow (columns : Nat) (gs : List Glyph) : Bool := indentOf gs < 4 && (Row.ofGlyphs gs).cells.length == columns

end MarkdownTemplates.Markdown
