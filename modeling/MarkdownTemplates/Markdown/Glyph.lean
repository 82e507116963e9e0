import MarkdownTemplates.Position

/-!
# Glyphs and lines

The reader of Markdown works on lines of glyphs. A glyph is a character with the places before and behind it. A tab is
as many glyphs as it is columns wide, so that a container can take some of its columns and leave the others.

Columns of this reader count bytes.
-/

namespace MarkdownTemplates.Markdown

inductive GlyphRole where
  | plain
  /-- A column of a tab behind its first one. -/
  | filler
  /-- A line feed with a carriage return before it. -/
  | crlf
  deriving DecidableEq, Repr

structure Glyph where
  char : Char
  span : Span
  role : GlyphRole := .plain
  deriving DecidableEq, Repr

namespace Glyph

def isBlank (g : Glyph) : Bool := g.char == ' ' || g.char == '\t'

def isEol (g : Glyph) : Bool := g.char == '\n' || g.char == '\r'

def isBlankOrEol (g : Glyph) : Bool := g.isBlank || g.isEol

end Glyph

structure Line where
  glyphs : List Glyph
  /-- The line ending, which only the last line may lack. -/
  eol : Option Glyph
  /-- The place behind the last glyph. -/
  stop : Point
  deriving Repr

namespace Line

/-- The place behind the line ending. -/
def next (l : Line) : Point := (l.eol.map (·.span.stop)).getD l.stop

end Line

/-- The columns of a tab at `p` after the first `done` of `width`. -/
def tabFillers (p : Point) (width done : Nat) : List Glyph :=
  (List.range' done (width - done)).map fun i =>
    ⟨' ', ⟨⟨p.line, p.column + i, p.offset⟩, ⟨p.line, p.column + i + 1, if i + 1 = width then p.offset + 1 else p.offset⟩⟩,
      .filler⟩

/-- The glyphs of a tab that stands at `p`: it reaches to the next column behind a multiple of four. -/
def tabGlyphs (p : Point) : List Glyph :=
  let width := 4 - (p.column - 1) % 4
  ⟨'\t', ⟨p, ⟨p.line, p.column + 1, if width = 1 then p.offset + 1 else p.offset⟩⟩, .plain⟩ :: tabFillers p width 1

/-- Cut a text that starts at `p` into lines, where `done` is the start of the first line, last glyph first. -/
def linesFrom (p : Point) (done : List Glyph) : List Char → List Line
  | [] => if done.isEmpty then [] else [⟨done.reverse, none, p⟩]
  | '\r' :: '\n' :: r =>
    let next : Point := ⟨p.line + 1, 1, p.offset + 2⟩
    ⟨done.reverse, some ⟨'\n', ⟨p, next⟩, .crlf⟩, p⟩ :: linesFrom next [] r
  | c :: r =>
    if c = '\n' ∨ c = '\r' then
      let next : Point := ⟨p.line + 1, 1, p.offset + 1⟩
      ⟨done.reverse, some ⟨c, ⟨p, next⟩, .plain⟩, p⟩ :: linesFrom next [] r
    else if c = '\t' then
      let tab := tabGlyphs p
      linesFrom ⟨p.line, p.column + tab.length, p.offset + 1⟩ (tab.reverse ++ done) r
    else
      let next : Point := ⟨p.line, p.column + c.utf8Size, p.offset + c.utf8Size⟩
      linesFrom next (⟨c, ⟨p, next⟩, .plain⟩ :: done) r

/-- The lines of a text. A mark of byte order in front of it is skipped. -/
def lines : List Char → List Line
  | '\uFEFF' :: r => linesFrom ⟨1, 4, 3⟩ [] r
  | s => linesFrom {} [] s

/-! ## Back to text -/

/-- The text of glyphs, where `inTab` tells whether a tab stands in front. The columns of a tab that lost its first column
become spaces. -/
def textOf (inTab : Bool) : List Glyph → List Char
  | [] => []
  | g :: r =>
    match g.role with
    | .filler => if inTab then textOf true r else ' ' :: textOf false r
    | .crlf => '\r' :: '\n' :: textOf false r
    | .plain => g.char :: textOf (g.char == '\t') r

def text (gs : List Glyph) : List Char := textOf false gs

/-- Make every tab one glyph, where `tab` is the tab in front. -/
def joinTabs (tab : Option Glyph) : List Glyph → List Glyph
  | [] => tab.toList
  | g :: r =>
    match tab, g.role with
    | some t, .filler => joinTabs (some { t with span := ⟨t.span.start, g.span.stop⟩ }) r
    | none, .filler => { g with role := .plain } :: joinTabs none r
    | _, _ => if g.char == '\t' then tab.toList ++ joinTabs (some g) r else tab.toList ++ g :: joinTabs none r

/-- The stretch from the first glyph to the last. -/
def spanOf : List Glyph → Span
  | [] => ⟨{}, {}⟩
  | g :: r => ⟨g.span.start, ((g :: r).getLast (by simp)).span.stop⟩

def chars (gs : List Glyph) : List Char := gs.map (·.char)

/-! ## Indentation -/

/-- The number of blank columns in front. -/
def indentOf (gs : List Glyph) : Nat := (gs.takeWhile Glyph.isBlank).length

/-- Drop blank columns in front, at most `n`. -/
def dropBlanks : (n : Nat) → List Glyph → List Glyph
  | _, [] => []
  | 0, gs => gs
  | n + 1, g :: r => if g.isBlank then dropBlanks n r else g :: r

def isBlankLine (gs : List Glyph) : Bool := gs.all Glyph.isBlank

/-- Drop the indentation of a construct, which is narrower than that of indented code. -/
def dropIndent? (gs : List Glyph) : Option (List Glyph) :=
  if indentOf gs < 4 then some (gs.dropWhile Glyph.isBlank) else none

end MarkdownTemplates.Markdown
