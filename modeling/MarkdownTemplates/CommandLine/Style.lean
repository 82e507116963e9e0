/-!
# Colours

How parts of an output are made to stand out on a terminal, when colours are wanted.
-/

namespace MarkdownTemplates

structure Style where
  colored : Bool
  deriving DecidableEq, Repr

namespace Style

/-- A text between two control sequences, given by their numbers. -/
def wrap (s : Style) (start stop : Nat) (text : String) : String :=
  if s.colored then "\x1b[" ++ toString start ++ "m" ++ text ++ "\x1b[" ++ toString stop ++ "m" else text

def red (s : Style) (text : String) : String := s.wrap 31 39 text

def green (s : Style) (text : String) : String := s.wrap 32 39 text

def yellow (s : Style) (text : String) : String := s.wrap 33 39 text

def bold (s : Style) (text : String) : String := s.wrap 1 0 text

def checkMark (s : Style) : String := s.green "✓"

def cross (s : Style) : String := s.red "✗"

/-- A text with blanks behind it, so that it is at least `width` characters wide. -/
def pad (width : Nat) (text : String) : String := text.pushn ' ' (width - text.length)

end Style

end MarkdownTemplates
