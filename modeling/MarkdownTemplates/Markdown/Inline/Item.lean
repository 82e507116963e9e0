import MarkdownTemplates.Markdown.Autolink
import MarkdownTemplates.Node

/-!
# Inline items

The content of a paragraph on its way from glyphs to nodes: first a list of items, in which brackets and runs of
emphasis marks are still open, and then nodes, with the plain text between them joined.
-/

namespace MarkdownTemplates.Markdown

/-- A run of equal marks that may open or close emphasis. -/
structure Run where
  glyphs : List Glyph
  opens : Bool
  closes : Bool

inductive BracketKind where
  | link
  | image
  | footnote
  deriving DecidableEq

/-- An opening bracket with the marks in front of it or behind it. -/
structure Bracket where
  kind : BracketKind
  glyphs : List Glyph
  /-- The glyphs behind the bracket. -/
  after : List Glyph
  /-- Links do not hold links: an outer bracket goes out when an inner one becomes a link. -/
  active : Bool := true

inductive Item where
  | plain (glyphs : List Glyph)
  /-- Text that is written in another way. -/
  | text (text : List Char) (span : Span)
  | eol (glyph : Glyph)
  /-- A line break whose line ending follows. -/
  | hardBreak (start : Point)
  | node (node : Node)
  | run (run : Run)
  | bracket (bracket : Bracket)

namespace Item

/-- The item as plain text, where it is no more than that. -/
def settle : Item → Item
  | run r => plain r.glyphs
  | bracket b => plain b.glyphs
  | i => i

/-- Join neighbours that are plain. -/
def joinPlain : List Item → List Item
  | [] => []
  | i :: r =>
    match i, joinPlain r with
    | plain a, plain b :: rest => plain (a ++ b) :: rest
    | i, rest => i :: rest

def isEol : Item → Bool
  | eol _ => true
  | _ => false

/-- Drop the blanks of plain text in front of a line ending. Two or more spaces are a line break. -/
def trimStop (beforeEol : Bool) (gs : List Glyph) : List Item :=
  let kept := (gs.reverse.dropWhile Glyph.isBlank).reverse
  let blanks := gs.drop kept.length
  let pieces := if kept.isEmpty then [] else [plain kept]
  match blanks with
  | first :: _ :: _ => if beforeEol && blanks.all (·.char == ' ') then pieces ++ [hardBreak first.span.start] else pieces
  | _ => pieces

/-- Drop the blanks at the start and the end of every line. The flags tell whether the first item starts a line and
whether the last item ends the text. -/
def trimLines (atStart atStop : Bool) : List Item → List Item
  | [] => []
  | plain gs :: r =>
    let gs' := if atStart then gs.dropWhile Glyph.isBlank else gs
    let here :=
      match r with
      | [] => if atStop then trimStop false gs' else [plain gs']
      | next :: _ => if next.isEol then trimStop true gs' else [plain gs']
    here ++ trimLines false atStop r
  | i :: r => i :: trimLines i.isEol atStop r

end Item

def textNode (text : List Char) (span : Span) : Node := { kind := .text, value := String.ofList text, span }

/-- A link whose text is its address. -/
def literalLink (span : Span) (address : List Glyph) : Node :=
  { kind := .link, span, children := [textNode (text address) (spanOf address)] }

/-- A part of the result: a piece of text that may be joined with its neighbours, or a node. -/
inductive Piece where
  | text (text : List Char) (span : Span)
  | node (node : Node)

namespace Piece

/-- The pieces of plain text, in which mail addresses are links unless the text is in a link. -/
def ofPlain (inLink : Bool) (gs : List Glyph) : List Piece :=
  if gs.isEmpty then []
  else if inLink then [text (Markdown.text gs) (spanOf gs)]
  else (splitMails [] gs).map fun (isMail, part) =>
    if isMail then node (literalLink (spanOf part) part) else text (Markdown.text part) (spanOf part)

def ofItems (inLink : Bool) : List Item → List Piece
  | [] => []
  | .hardBreak start :: .eol g :: r => node { kind := .break, span := some ⟨start, g.span.stop⟩ } :: ofItems inLink r
  | .hardBreak _ :: r => ofItems inLink r
  | .plain gs :: r => ofPlain inLink gs ++ ofItems inLink r
  | .text t s :: r => text t s :: ofItems inLink r
  | .eol g :: r => text (Markdown.text [g]) g.span :: ofItems inLink r
  | .node n :: r => node n :: ofItems inLink r
  | .run run :: r => ofPlain inLink run.glyphs ++ ofItems inLink r
  | .bracket b :: r => ofPlain inLink b.glyphs ++ ofItems inLink r

/-- Join the texts that stand side by side. -/
def joinTexts : List Piece → List Piece
  | [] => []
  | node n :: r => node n :: joinTexts r
  | text t s :: r =>
    match joinTexts r with
    | text u s' :: rest => text (t ++ u) ⟨s.start, s'.stop⟩ :: rest
    | rest => text t s :: rest

def toNode : Piece → Node
  | node n => n
  | text t s => textNode t s

end Piece

/-- The nodes of a list of items without open brackets. -/
def nodesOf (atStart atStop inLink : Bool) (items : List Item) : List Node :=
  let pieces := Piece.ofItems inLink (Item.trimLines atStart atStop (Item.joinPlain (items.map Item.settle)))
  (Piece.joinTexts pieces).map Piece.toNode

end MarkdownTemplates.Markdown
