import MarkdownTemplates.Dict
import MarkdownTemplates.Markdown.Glyph
import MarkdownTemplates.Text.Blank
import MarkdownTemplates.Text.Casing
import MarkdownTemplates.Text.Split

/-!
# Labels, destinations and definitions

The parts of a link that stand in brackets and parentheses, and the definitions of labels at the start of a paragraph.
Each reader takes the glyphs from where the part begins and gives back the glyphs behind it.
-/

namespace MarkdownTemplates.Markdown

/-- The labels that a text defines, in normal form. -/
structure Labels where
  links : NameSet := ∅
  footnotes : NameSet := ∅

/-- The normal form of a label: without case, and with single spaces between the words. -/
def normalizeLabel (s : List Char) : String :=
  let words := (Text.splitOn (fun c => c == ' ' || c == '\t' || c == '\n' || c == '\r') s).filter (!·.isEmpty)
  String.ofList (Text.foldCase (Text.join [' '] words))

/-- The label of some glyphs. It is taken from the source, so that marks of containers in front of its lines are part of it. -/
def labelOf (source : List Char) (gs : List Glyph) : String :=
  let span := spanOf gs
  let inSource := if gs.any Glyph.isEol then Text.sliceBytes? source span.start.offset span.stop.offset else none
  normalizeLabel (inSource.getD (text gs))

/-- A label may have this many characters. -/
def labelLimit : Nat := 999

/-- The glyphs up to the bracket that closes a label, and the glyphs behind the bracket. -/
def takeLabel : List Glyph → Option (List Glyph × List Glyph)
  | [] => none
  | g :: r =>
    if g.char = ']' then some ([], r)
    else if g.char = '[' then none
    else
      match r with
      | e :: s =>
        if g.char = '\\' ∧ e.char ∈ ['[', '\\', ']'] then (takeLabel s).map (fun (inner, rest) => (g :: e :: inner, rest))
        else (takeLabel (e :: s)).map (fun (inner, rest) => (g :: inner, rest))
      | [] => none

/-- Read a label behind its opening bracket. A label is not blank. -/
def readLabel (gs : List Glyph) : Option (List Glyph × List Glyph) :=
  (takeLabel gs).filter (fun (inner, _) => inner.length ≤ labelLimit && inner.any (!·.isBlankOrEol))

def isControl (c : Char) : Bool := (0 < c.toNat && c.toNat < 0x20) || c.toNat == 0x7F

/-- Read the rest of a destination in angle brackets. -/
def readEnclosed : List Glyph → Option (List Glyph)
  | [] => none
  | g :: r =>
    if g.char = '>' then some r
    else if g.isEol || g.char = '<' then none
    else
      match r with
      | e :: s => if g.char = '\\' ∧ e.char ∈ ['<', '>', '\\'] then readEnclosed s else readEnclosed (e :: s)
      | [] => none

/-- Read the rest of a bare destination, in which `depth` parentheses are open and at most `limit` may be. -/
def readBare (limit : Option Nat) (depth : Nat) : List Glyph → Option (List Glyph)
  | [] => if depth = 0 then some [] else none
  | g :: r =>
    if depth = 0 ∧ (g.isBlankOrEol ∨ g.char = ')') then some (g :: r)
    else if g.char = '(' ∧ limit.all (depth < ·) then readBare limit (depth + 1) r
    else if g.char = ')' then readBare limit (depth - 1) r
    else if isControl g.char || g.char == ' ' || g.char == '(' then none
    else
      match r with
      | e :: s =>
        if g.char = '\\' ∧ e.char ∈ ['(', ')', '\\'] then readBare limit depth s else readBare limit depth (e :: s)
      | [] => if depth = 0 then some [] else none

/-- Read the destination of a link. -/
def readDestination (limit : Option Nat) : List Glyph → Option (List Glyph)
  | [] => none
  | g :: r =>
    if g.char = '<' then readEnclosed r
    else if isControl g.char || g.char == ' ' || g.char == ')' then none
    else readBare limit 0 (g :: r)

/-- Read up to the mark that closes a title. -/
def readTitleRest (mark : Char) : List Glyph → Option (List Glyph)
  | [] => none
  | g :: r =>
    if g.char = mark then some r
    else
      match r with
      | e :: s => if g.char = '\\' ∧ (e.char = mark ∨ e.char = '\\') then readTitleRest mark s else readTitleRest mark (e :: s)
      | [] => none

def readTitle : List Glyph → Option (List Glyph)
  | [] => none
  | g :: r =>
    if g.char = '"' ∨ g.char = '\'' then readTitleRest g.char r
    else if g.char = '(' then readTitleRest ')' r
    else none

/-- Read a title with the white space that must stand in front of it. -/
def readSpacedTitle (gs : List Glyph) : Option (List Glyph) :=
  match gs with
  | g :: _ => if g.isBlankOrEol then readTitle (gs.dropWhile Glyph.isBlankOrEol) else none
  | [] => none

/-- Drop the blanks up to the end of the line. There must be nothing else. -/
def toLineEnd (gs : List Glyph) : Option (List Glyph) :=
  match gs.dropWhile Glyph.isBlank with
  | [] => some []
  | g :: r => if g.isEol then some (g :: r) else none

/-- Read a definition: the label it defines and the glyphs from the end of its last line on. -/
def readDefinition (gs : List Glyph) : Option (List Glyph × List Glyph) := do
  let .cons bracket afterBracket := gs.dropWhile Glyph.isBlank | none
  guard (bracket.char = '[')
  let (label, afterLabel) ← readLabel afterBracket
  let .cons colon afterColon := afterLabel | none
  guard (colon.char = ':')
  let rest ← readDestination none (afterColon.dropWhile Glyph.isBlankOrEol)
  let rest ← ((readSpacedTitle rest).bind toLineEnd).or (toLineEnd rest)
  return (label, rest)

/-- The definitions at the start of a paragraph, each with its label and the stretch it takes, and the glyphs of the
lines behind them. -/
def takeDefinitions (gs : List Glyph) : List (List Glyph × Span) × List Glyph :=
  match readDefinition gs with
  | none => ([], gs)
  | some (label, rest) =>
    let definition := (label, spanOf (gs.take (gs.length - rest.length)))
    match rest with
    | [] => ([definition], [])
    | _ :: next =>
      if next.length < gs.length then
        let (definitions, rest) := takeDefinitions next
        (definition :: definitions, rest)
      else ([definition], [])
  termination_by gs.length

end MarkdownTemplates.Markdown
