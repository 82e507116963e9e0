import MarkdownTemplates.Markdown.Glyph
import MarkdownTemplates.Text.Blank
import MarkdownTemplates.Text.Casing
import MarkdownTemplates.Text.Numeral
import MarkdownTemplates.Text.Punctuation

/-!
# Links without brackets

Addresses in angle brackets, and web and mail addresses that stand bare in the text.
-/

namespace MarkdownTemplates.Markdown

inductive CharClass where
  | blank
  | punctuation
  | other
  deriving DecidableEq, Repr

def CharClass.of (c : Char) : CharClass :=
  if Text.isBlank c then .blank else if Text.isPunctuation c then .punctuation else .other

/-- The class of a neighbour. The ends of the text count as white space. -/
def CharClass.of? (c : Option Char) : CharClass := (c.map CharClass.of).getD .blank

/-! ## Addresses in angle brackets -/

def isSchemeChar (c : Char) : Bool := Text.isAlphanumeric c || c == '+' || c == '-' || c == '.'

/-- May the character stand in front of the `@` of a mail address? -/
def isMailboxChar (c : Char) : Bool :=
  Text.isAlphanumeric c || ['.', '#', '$', '%', '&', '\'', '*', '+', '/', '=', '?', '^', '_', '`', '{', '|', '}',
    '~', '-'].contains c

/-- Read the rest of an address with a scheme. -/
def readUrlRest : List Glyph → Option (List Glyph)
  | [] => none
  | g :: r =>
    if g.char = '>' then some r
    else if g.char.toNat < 0x20 || g.char.toNat == 0x7F || g.char == ' ' || g.char == '<' then none
    else readUrlRest r

def readUrl (gs : List Glyph) : Option (List Glyph) :=
  let scheme := chars (gs.takeWhile (fun g => isSchemeChar g.char))
  match gs.dropWhile (fun g => isSchemeChar g.char) with
  | colon :: r =>
    if colon.char = ':' ∧ 2 ≤ scheme.length ∧ scheme.length ≤ 32 ∧ scheme.head?.any Text.isLetter then readUrlRest r
    else none
  | [] => none

/-- Read the labels of a domain up to the closing bracket, where `size` characters of a label have been read and the last
of them is `last`. -/
def readMailDomain (size : Nat) (last : Char) : List Glyph → Option (List Glyph)
  | [] => none
  | g :: r =>
    if g.char = '>' then if 0 < size ∧ last ≠ '-' then some r else none
    else if g.char = '.' then if 0 < size ∧ last ≠ '-' then readMailDomain 0 '.' r else none
    else if Text.isAlphanumeric g.char || (g.char == '-' && 0 < size) then
      if size < 63 then readMailDomain (size + 1) g.char r else none
    else none

def readMail (gs : List Glyph) : Option (List Glyph) :=
  let mailbox := gs.takeWhile (fun g => isMailboxChar g.char)
  match gs.dropWhile (fun g => isMailboxChar g.char) with
  | at' :: r => if at'.char = '@' ∧ !mailbox.isEmpty then readMailDomain 0 '@' r else none
  | [] => none

/-- Read an address behind its opening angle bracket, with the closing one. -/
def readAngled (gs : List Glyph) : Option (List Glyph) := (readUrl gs).or (readMail gs)

/-! ## Bare addresses -/

inductive TrailState where
  | plain
  | referenceStart
  | reference
  | bracket
  deriving DecidableEq

/-- Is there nothing but closing punctuation up to the end of the address? -/
def isTrail (s : TrailState) : List Glyph → Bool
  | [] =>
    match s with
    | .plain | .bracket => true
    | _ => false
  | g :: r =>
    match s with
    | .referenceStart => Text.isLetter g.char && isTrail .reference r
    | .reference => if g.char = ';' then isTrail .plain r else Text.isLetter g.char && isTrail .reference r
    | _ =>
      if s = .bracket ∧ (g.isBlankOrEol ∨ g.char = '(' ∨ g.char = '[') then true
      else if g.char ∈ ['!', '"', '\'', ')', '*', ',', '.', ':', ';', '?', '_', '~'] then isTrail .plain r
      else if g.char = '&' then isTrail .referenceStart r
      else if g.char = '<' then true
      else if g.char = ']' then isTrail .bracket r
      else CharClass.of g.char = .blank

/-- Read the domain of a web address. The flags tell whether the last and the next to last of its parts have an underscore,
and whether there is more than punctuation. -/
def readDomain (last beforeLast seen : Bool) (gs : List Glyph) : Option (List Glyph) :=
  let done := if last || beforeLast || !seen then none else some gs
  match gs with
  | [] => done
  | g :: r =>
    if g.char = '.' ∨ g.char = '_' then
      if isTrail .plain gs then done
      else if g.char = '_' then readDomain true beforeLast seen r
      else readDomain false last seen r
    else if g.char = '-' then readDomain last beforeLast seen r
    else if CharClass.of g.char = .other then readDomain last beforeLast true r
    else done

/-- Read what follows the domain, behind `opened` opening and `closed` closing parentheses. A closing one that has an opening
one never ends the address. -/
def readPath (opened closed : Nat) : List Glyph → List Glyph
  | [] => []
  | g :: r =>
    if g.char = '(' then readPath (opened + 1) closed r
    else if g.char = ')' then
      if closed < opened || !isTrail .plain (g :: r) then readPath opened (closed + 1) r else g :: r
    else if g.char ∈ ['!', '"', '&', '\'', '*', ',', '.', ':', ';', '<', '?', ']', '_', '~'] then
      if isTrail .plain (g :: r) then g :: r else readPath opened closed r
    else if CharClass.of g.char = .blank then g :: r
    else readPath opened closed r

/-- Read a bare web address, where `previous` is the character in front. -/
def readWeb (previous : Option Char) (gs : List Glyph) : Option (List Glyph) := do
  let scheme := Text.toLowerAscii (chars (gs.takeWhile (fun g => Text.isLetter g.char)))
  let rest := gs.dropWhile (fun g => Text.isLetter g.char)
  if scheme == ['h', 't', 't', 'p'] || scheme == ['h', 't', 't', 'p', 's'] then
    guard !(previous.any Text.isLetter)
    guard (chars (rest.take 3) == [':', '/', '/'])
    let rest ← readDomain false false false (rest.drop 3)
    return readPath 0 0 rest
  else
    guard (Text.toLowerAscii (chars (gs.take 4)) == ['w', 'w', 'w', '.'] && !(gs.drop 4).isEmpty)
    guard (previous.all (['\t', '\n', '\r', ' ', '(', '*', '_', '[', ']', '~'].contains ·))
    let rest ← readDomain false false false gs
    return readPath 0 0 rest

def isBareMailboxChar (c : Char) : Bool := Text.isAlphanumeric c || c == '+' || c == '-' || c == '.' || c == '_'

/-- The start of a mail address whose `@` follows the glyphs `before`, last glyph first: the glyphs of the address and
those in front of it, and whether slashes may follow in the domain. -/
def bareMailbox (before : List Glyph) : Option (List Glyph × List Glyph × Bool) :=
  let mailbox := before.takeWhile (fun g => isBareMailboxChar g.char)
  let rest := before.dropWhile (fun g => isBareMailboxChar g.char)
  if mailbox.isEmpty || rest.head?.any (·.char == '/') then none
  else
    match rest with
    | colon :: front =>
      let scheme := front.takeWhile (fun g => Text.isAlphanumeric g.char)
      let name := Text.toLowerAscii (chars scheme.reverse)
      if colon.char = ':' ∧ (name = "xmpp".toList ∨ name = "mailto".toList) then
        some (mailbox ++ colon :: scheme, front.dropWhile (fun g => Text.isAlphanumeric g.char), name = "xmpp".toList)
      else some (mailbox, rest, false)
    | [] => some (mailbox, rest, false)

/-- The glyphs of the domain of a bare mail address. -/
def bareDomain (slashes : Bool) : List Glyph → List Glyph
  | [] => []
  | g :: r =>
    if Text.isAlphanumeric g.char || g.char == '-' || g.char == '_' || (slashes && g.char == '/') then
      g :: bareDomain slashes r
    else if g.char == '.' && r.head?.any (Text.isAlphanumeric ·.char) then g :: bareDomain slashes r
    else []

/-- Is this the domain of a mail address? -/
def isMailDomain (gs : List Glyph) : Bool :=
  gs.any (·.char == '.') && gs.getLast?.any (fun g => Text.isLetter g.char || g.char == '.')

/-- Cut plain text at its bare mail addresses. The flag of a piece tells whether it is an address. `before` are the glyphs
in front, last glyph first. -/
def splitMails (before : List Glyph) : List Glyph → List (Bool × List Glyph)
  | [] => if before.isEmpty then [] else [(false, before.reverse)]
  | g :: r =>
    if g.char = '@' then
      match bareMailbox before with
      | some (mailbox, front, slashes) =>
        let domain := bareDomain slashes r
        if isMailDomain domain then
          let address := (true, mailbox.reverse ++ g :: domain)
          let pieces := if front.isEmpty then [address] else [(false, front.reverse), address]
          match _h : r.drop domain.length with
          | [] => pieces
          | next :: rest => pieces ++ splitMails [next] rest
        else splitMails (g :: before) r
      | none => splitMails (g :: before) r
    else splitMails (g :: before) r
  termination_by gs => gs.length
  decreasing_by
    all_goals simp_wf
    have h := congrArg List.length _h
    simp only [List.length_drop, List.length_cons] at h
    omega

end MarkdownTemplates.Markdown
