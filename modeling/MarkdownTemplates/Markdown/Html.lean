import MarkdownTemplates.Markdown.Glyph
import MarkdownTemplates.Text.Casing
import MarkdownTemplates.Text.Numeral
import MarkdownTemplates.Text.Split

/-!
# HTML in Markdown

Tags, comments, instructions, declarations and character data inside a paragraph, and the lines that open and close
a block of HTML.
-/

namespace MarkdownTemplates.Markdown

/-- Where a reader stands in a tag. -/
inductive TagState where
  | openName
  | between
  | slash
  | attributeName
  | afterAttributeName
  | beforeValue
  | quotedValue (quote : Char)
  | afterQuotedValue
  | bareValue
  | closeStart
  | closeName
  | afterCloseName
  deriving DecidableEq

namespace TagState

def isSpace (c : Char) : Bool := c == ' ' || c == '\t' || c == '\n' || c == '\r'

def isNameChar (c : Char) : Bool := Text.isAlphanumeric c || c == '-'

def isAttributeStart (c : Char) : Bool := Text.isLetter c || c == ':' || c == '_'

def isAttributeChar (c : Char) : Bool := Text.isAlphanumeric c || c == ':' || c == '_' || c == '.' || c == '-'

/-- The step from a place between two attributes. -/
def stepBetween (c : Char) : Option (Option TagState) :=
  if c = '>' then some none
  else if c = '/' then some slash
  else if isSpace c then some between
  else if isAttributeStart c then some attributeName
  else none

def stepAfterAttributeName (c : Char) : Option (Option TagState) :=
  if c = '=' then some beforeValue
  else if isSpace c then some afterAttributeName
  else stepBetween c

/-- Where a character leads to, and to nowhere further when it closes the tag. In the first line of a block a bare value
may be followed by an equals sign and another value. -/
def step (inBlock : Bool) : TagState → Char → Option (Option TagState)
  | openName, c =>
    if isNameChar c then some openName
    else if c = '/' ∨ c = '>' ∨ isSpace c then stepBetween c
    else none
  | between, c => stepBetween c
  | slash, c => if c = '>' then some none else none
  | attributeName, c => if isAttributeChar c then some attributeName else stepAfterAttributeName c
  | afterAttributeName, c => stepAfterAttributeName c
  | beforeValue, c =>
    if c = '"' ∨ c = '\'' then some (quotedValue c)
    else if isSpace c then some beforeValue
    else if c ∈ ['<', '=', '>', '`'] then none
    else some bareValue
  | quotedValue q, c => if c = q then some afterQuotedValue else some (quotedValue q)
  | afterQuotedValue, c => if c = '/' ∨ c = '>' ∨ isSpace c then stepBetween c else none
  | bareValue, c =>
    if inBlock ∧ (c = '=' ∨ isSpace c) then stepAfterAttributeName c
    else if c ∈ ['"', '\'', '<', '=', '`'] then none
    else if c = '/' ∨ c = '>' ∨ isSpace c then stepBetween c
    else some bareValue
  | closeStart, c => if Text.isLetter c then some closeName else none
  | closeName, c =>
    if isNameChar c then some closeName
    else if isSpace c then some afterCloseName
    else if c = '>' then some none
    else none
  | afterCloseName, c =>
    if isSpace c then some afterCloseName
    else if c = '>' then some none
    else none

end TagState

/-- Read the rest of a tag. -/
def readTag (inBlock : Bool) (s : TagState) : List Glyph → Option (List Glyph)
  | [] => none
  | g :: r =>
    match s.step inBlock g.char with
    | none => none
    | some none => some r
    | some (some t) => readTag inBlock t r

/-- The glyphs behind `start`, when it stands in front. -/
def dropText? : (start : List Char) → List Glyph → Option (List Glyph)
  | [], gs => some gs
  | _ :: _, [] => none
  | c :: cs, g :: r => if g.char = c then dropText? cs r else none

/-- The glyphs behind the first place where `part` stands. -/
def dropPast (part : List Char) : List Glyph → Option (List Glyph)
  | [] => none
  | g :: r => (dropText? part (g :: r)).or (dropPast part r)

/-- Read HTML inside a paragraph, behind its opening angle bracket. -/
def readHtml (gs : List Glyph) : Option (List Glyph) :=
  match gs with
  | [] => none
  | g :: r =>
    if g.char = '/' then readTag false .closeStart r
    else if g.char = '?' then dropPast ['?', '>'] r
    else if g.char = '!' then
      if (dropText? ['-', '-'] r).isSome then dropPast ['-', '-', '>'] r
      else
        match dropText? ['[', 'C', 'D', 'A', 'T', 'A', '['] r with
        | some data => dropPast [']', ']', '>'] data
        | none => if r.head?.any (Text.isLetter ·.char) then dropPast ['>'] r else none
    else if Text.isLetter g.char then readTag false .openName r
    else none

/-- The text of HTML inside a paragraph, where `atStart` tells whether a line starts. The indentation of its lines is
left out. -/
def htmlText (atStart : Bool) : List Glyph → List Glyph
  | [] => []
  | g :: r =>
    if g.isEol then g :: htmlText true r
    else if atStart && g.isBlank then htmlText true r
    else g :: htmlText false r

/-! ## Blocks -/

inductive HtmlBlock where
  | raw
  | comment
  | instruction
  | declaration
  | cdata
  | basic
  | complete
  deriving DecidableEq, Repr

/-- The tags whose content is not HTML. -/
def rawTagNames : List String := ["pre", "script", "style", "textarea"]

/-- The tags that make a block. -/
def blockTagNames : List String :=
  ["address", "article", "aside", "base", "basefont", "blockquote", "body", "caption", "center", "col", "colgroup", "dd",
    "details", "dialog", "dir", "div", "dl", "dt", "fieldset", "figcaption", "figure", "footer", "form", "frame",
    "frameset", "h1", "h2", "h3", "h4", "h5", "h6", "head", "header", "hr", "html", "iframe", "legend", "li", "link",
    "main", "menu", "menuitem", "nav", "noframes", "ol", "optgroup", "option", "p", "param", "search", "section",
    "summary", "table", "tbody", "td", "tfoot", "th", "thead", "title", "tr", "track", "ul"]

/-- Does the character data end in this line? -/
def closesCdata : List Char → Bool
  | ']' :: ']' :: '>' :: _ => true
  | ']' :: ']' :: r => closesCdata r
  | _ :: r => closesCdata r
  | [] => false

namespace HtmlBlock

/-- Does the block end with a line that holds this text? Blocks of ordinary tags end in front of a blank line instead. -/
def closesWith (b : HtmlBlock) (line : List Char) : Bool :=
  match b with
  | raw => rawTagNames.any fun name => Text.contains (Text.toLowerAscii line) ('<' :: '/' :: name.toList ++ ['>'])
  | comment => Text.contains line ['-', '-', '>']
  | instruction => Text.contains line ['?', '>']
  | declaration => Text.contains line ['>']
  | cdata => closesCdata line
  | basic | complete => false

/-- Does the block go on to the line that closes it, over blank lines? -/
def hasMark : HtmlBlock → Bool
  | basic | complete => false
  | _ => true

/-- The kind of block that a tag opens. The glyphs are those behind the angle bracket and the slash of a closing tag. -/
def ofTag? (closing : Bool) (gs : List Glyph) (interrupting : Bool) : Option HtmlBlock :=
  let name := chars (gs.takeWhile (fun g => TagState.isNameChar g.char))
  let rest := gs.dropWhile (fun g => TagState.isNameChar g.char)
  let atEnd := rest.head?.all (fun g => g.isBlank || g.char == '>')
  let slashed := rest.head?.any (·.char == '/')
  let tag := String.ofList (Text.toLowerAscii name)
  if !name.head?.any Text.isLetter || !(atEnd || slashed) then none
  else if !slashed && !closing && rawTagNames.contains tag then some raw
  else if blockTagNames.contains tag then
    if !slashed || (rest.drop 1).head?.any (·.char == '>') then some basic else none
  else if interrupting then none
  else
    ((readTag true (if closing then .closeStart else .openName) gs).filter isBlankLine).map (fun _ => complete)

/-- The kind of block that a line opens, and the part of the line in which the block may end. The glyphs are those of the
line without its indentation. -/
def ofLine? (gs : List Glyph) (interrupting : Bool) : Option (HtmlBlock × List Char) :=
  match gs with
  | lt :: g :: r =>
    if lt.char ≠ '<' then none
    else if g.char = '?' then some (instruction, chars (g :: r))
    else if g.char = '!' then
      if (dropText? ['-', '-'] r).isSome then some (comment, chars r)
      else if (dropText? ['[', 'C', 'D', 'A', 'T', 'A', '['] r).isSome then some (cdata, chars r)
      else if r.head?.any (Text.isLetter ·.char) then some (declaration, chars r)
      else none
    else if g.char = '/' then (ofTag? true r interrupting).map (·, chars r)
    else (ofTag? false (g :: r) interrupting).map (·, chars r)
  | _ => none

end HtmlBlock

end MarkdownTemplates.Markdown
