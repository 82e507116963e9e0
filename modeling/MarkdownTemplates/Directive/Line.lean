import MarkdownTemplates.Directive.Head
import MarkdownTemplates.Text.Blank

/-!
# Directive lines

What a line of source means for the structure of directives, before its Markdown is read.
-/

namespace MarkdownTemplates

inductive LineKind where
  | markdown
  /-- The line opens or closes a block of code. -/
  | codeFence (mark : Char) (size : Nat)
  /-- The line closes a container. -/
  | closingFence (size : Nat)
  | container (size : Nat) (head : Head)
  | leaf (head : Head)
  deriving DecidableEq

namespace LineKind

def isEol (c : Char) : Bool := c == '\n' || c == '\r'

/-- The line without its ending. -/
def body (line : List Char) : List Char := Text.dropEndWhile isEol line

/-- The kind of a line by what follows its indentation, which is narrow. -/
def ofShown (shown : List Char) : LineKind :=
  let ticks := (shown.takeWhile (· == '`')).length
  let tildes := (shown.takeWhile (· == '~')).length
  let colons := (shown.takeWhile (· == ':')).length
  let rest := shown.dropWhile (· == ':')
  if 3 ≤ ticks then .codeFence '`' ticks
  else if 3 ≤ tildes then .codeFence '~' tildes
  else if colons < 2 then .markdown
  else if Text.isBlankText rest then if 3 ≤ colons then .closingFence colons else .markdown
  else
    match Head.parse? rest with
    | none => .markdown
    | some (head, behind) =>
      if !Text.isBlankText behind then .markdown
      else if colons = 2 then .leaf head
      else .container colons head

def ofLine (line : List Char) : LineKind :=
  let body := body line
  if 3 < (body.takeWhile (· == ' ')).length then .markdown else ofShown (body.dropWhile (· == ' '))

end LineKind

end MarkdownTemplates
