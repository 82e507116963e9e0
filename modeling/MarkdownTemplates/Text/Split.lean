/-!
# Pieces of a text

Cutting a text at a character, into lines or at an offset in bytes, and joining pieces.
-/

namespace MarkdownTemplates.Text

/-- Add a character to the first of a list of pieces. -/
def consHead (c : Char) : List (List Char) → List (List Char)
  | [] => [[c]]
  | p :: ps => (c :: p) :: ps

/-- The pieces between the characters that satisfy `p`. There is always at least one. -/
def splitOn (p : Char → Bool) : List Char → List (List Char)
  | [] => [[]]
  | c :: r => if p c then [] :: splitOn p r else consHead c (splitOn p r)

/-- The lines of a text, each with its line feed. Only the last line may lack one, and no line is empty. -/
def lines : List Char → List (List Char)
  | [] => []
  | c :: r => if c = '\n' then ['\n'] :: lines r else consHead c (lines r)

/-- Drop as many characters as take `n` bytes. -/
def dropBytes? : (n : Nat) → List Char → Option (List Char)
  | 0, s => some s
  | _ + 1, [] => none
  | n + 1, c :: r => if c.utf8Size ≤ n + 1 then dropBytes? (n + 1 - c.utf8Size) r else none
  termination_by _ s => s.length

/-- The characters that take the first `n` bytes. -/
def takeBytes? : (n : Nat) → List Char → Option (List Char)
  | 0, _ => some []
  | _ + 1, [] => none
  | n + 1, c :: r => if c.utf8Size ≤ n + 1 then (takeBytes? (n + 1 - c.utf8Size) r).map (c :: ·) else none
  termination_by _ s => s.length

/-- The part of a text between two offsets in bytes. -/
def sliceBytes? (s : List Char) (start stop : Nat) : Option (List Char) :=
  if start ≤ stop then (dropBytes? start s).bind (takeBytes? (stop - start)) else none

/-- The pieces one after the other, with `sep` between them. -/
def join (sep : List Char) : List (List Char) → List Char
  | [] => []
  | [p] => p
  | p :: ps => p ++ sep ++ join sep ps

/-- The text behind `start`, when it begins with `start`. -/
def dropStart? : (start text : List Char) → Option (List Char)
  | [], s => some s
  | _ :: _, [] => none
  | a :: as, c :: s => if a = c then dropStart? as s else none

/-- Does `start` stand at the front of the text? -/
def startsWith (text start : List Char) : Bool := (dropStart? start text).isSome

/-- Does `part` occur in the text? -/
def contains (text part : List Char) : Bool :=
  startsWith text part || match text with
    | [] => false
    | _ :: s => contains s part

end MarkdownTemplates.Text
