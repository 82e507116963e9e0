import MarkdownTemplates.Markdown.EntityTable
import MarkdownTemplates.Markdown.Glyph
import MarkdownTemplates.Text.Numeral
import MarkdownTemplates.Text.Split

/-!
# Character references

A reference stands between an ampersand and a semicolon. It is a name, a decimal code behind `#`, or a hexadecimal code
behind `#x`.
-/

namespace MarkdownTemplates.Markdown

/-- Put neighbours together in pairs. -/
def pairUp {α : Type} : List α → List (α × α)
  | a :: b :: r => (a, b) :: pairUp r
  | _ => []

def entities : List (List Char × List Char) := 
  entityLines.flatMap fun line => pairUp (Text.splitOn (· == ' ') line.toList)

/-- The character that a code refers to. Control characters and codes without a character have a substitute. -/
def referredChar (n : Nat) : Char :=
  if n ≤ 8 ∨ n = 0xB ∨ (0xE ≤ n ∧ n ≤ 0x1F) ∨ (0x7F ≤ n ∧ n ≤ 0x9F) ∨ (0xFDD0 ≤ n ∧ n ≤ 0xFDEF) ∨ n % 0x10000 ≥ 0xFFFE then
    '\uFFFD'
  else (Text.charOfCode? n).getD '\uFFFD'

/-- What a reference stands for, given the characters between the ampersand and the semicolon. -/
def referenceText (name : List Char) : Option (List Char) :=
  match name with
  | '#' :: c :: digits =>
    if c = 'x' ∨ c = 'X' then
      if digits.length ≤ 6 then (Text.number? 16 digits).map ([referredChar ·]) else none
    else if (c :: digits).length ≤ 7 then (Text.number? 10 (c :: digits)).map ([referredChar ·])
    else none
  | _ => if name.length ≤ 31 then entities.lookup name else none

/-- Read a reference behind its ampersand: what it stands for and the glyphs behind the semicolon. -/
def readReference (gs : List Glyph) : Option (List Char × List Glyph) :=
  match gs.dropWhile (fun g => g.char == '#' || Text.isAlphanumeric g.char) with
  | g :: rest =>
    if g.char = ';' then
      (referenceText (chars (gs.takeWhile (fun g => g.char == '#' || Text.isAlphanumeric g.char)))).map (·, rest)
    else none
  | [] => none

end MarkdownTemplates.Markdown
