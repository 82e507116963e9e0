/-!
# Places in a text

Lines and columns count from one. Offsets count bytes from zero.
-/

namespace MarkdownTemplates

structure Point where
  line : Nat := 1
  column : Nat := 1
  offset : Nat := 0
  deriving DecidableEq, Repr, Inhabited

namespace Point

/-- The place behind a character that stands at `p`. -/
def step (p : Point) (c : Char) : Point :=
  if c = '\n' then ⟨p.line + 1, 1, p.offset + c.utf8Size⟩
  else ⟨p.line, p.column + 1, p.offset + c.utf8Size⟩

/-- The place behind a text that starts at `p`. -/
def advance (p : Point) (text : List Char) : Point := text.foldl step p

/-- Read a place in a piece of text as a place in the whole, where the piece starts at `base`. -/
def shift (p base : Point) : Point where
  line := base.line + p.line - 1
  column := if p.line = 1 then base.column + p.column - 1 else p.column
  offset := base.offset + p.offset

end Point

/-- A stretch of text, from its first place to the place behind its end. -/
structure Span where
  start : Point
  stop : Point
  deriving DecidableEq, Repr, Inhabited

def Span.shift (s : Span) (base : Point) : Span := ⟨s.start.shift base, s.stop.shift base⟩

end MarkdownTemplates
