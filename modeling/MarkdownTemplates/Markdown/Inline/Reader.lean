import MarkdownTemplates.Markdown.Entity
import MarkdownTemplates.Markdown.Html
import MarkdownTemplates.Markdown.Inline.Emphasis
import MarkdownTemplates.Markdown.Label

/-!
# Reading inline content

The content of a paragraph, a heading or a cell is read from left to right. Code, links in angle brackets, HTML and bare
addresses are taken as a whole; brackets become links when their closing bracket is reached.
-/

namespace MarkdownTemplates.Markdown

/-- What the reader has to know about the text around. -/
structure InlineContext where
  source : List Char
  labels : Labels := {}
  /-- In a table a pipe is escaped in code as well. -/
  inTable : Bool := false

namespace InlineContext

/-- The character of the source in front of a place. -/
def charBefore? (context : InlineContext) (p : Point) : Option Char :=
  (Text.takeBytes? p.offset context.source).bind List.getLast?

/-- The character of the source at a place. -/
def charAt? (context : InlineContext) (p : Point) : Option Char :=
  (Text.dropBytes? p.offset context.source).bind List.head?

/-- Does a line of the content start behind this character, or end at it? -/
def isEdge (c : Option Char) : Bool := c.all fun c => c == '\n' || c == '\r'

/-- The run of emphasis marks `marks`, which stands between two characters of the content. At the edges of a line the neighbour
is taken from the source, where the mark of a container may stand. -/
def run (context : InlineContext) (before after : Option Char) (marks : List Glyph) : Run :=
  let span := spanOf marks
  let before := if isEdge before then context.charBefore? span.start else before
  let after := if isEdge after then context.charAt? span.stop else after
  Run.ofGlyphs before after marks

end InlineContext

/-! ## Code -/

/-- The glyphs up to the next run of exactly `n` backticks and those behind it. `run` counts the backticks directly in
front, and `done` are the glyphs read so far, last glyph first. -/
def takeCode (n run : Nat) (done : List Glyph) : List Glyph → Option (List Glyph × List Glyph)
  | [] => if run = n then some ((done.drop n).reverse, []) else none
  | g :: r =>
    if g.char = '`' then takeCode n (run + 1) (g :: done) r
    else if run = n then some ((done.drop n).reverse, g :: r)
    else takeCode n 0 (g :: done) r

def unescapePipes : List Char → List Char
  | '\\' :: '|' :: r => '|' :: unescapePipes r
  | c :: r => c :: unescapePipes r
  | [] => []

/-- The value of code between backticks. One space at each end is dropped, when there is more than spaces. -/
def codeValue (inTable : Bool) (gs : List Glyph) : List Char :=
  let s := if inTable then unescapePipes (text gs) else text gs
  match s with
  | ' ' :: inner =>
    if inner.getLast? = some ' ' && inner.any (· != ' ') then inner.dropLast else s
  | _ => s

/-! ## Links -/

/-- Read the destination and the title of a link behind the opening parenthesis. -/
def readResource (gs : List Glyph) : Option (List Glyph) :=
  let close (gs : List Glyph) : Option (List Glyph) :=
    match gs.dropWhile Glyph.isBlankOrEol with
    | g :: r => if g.char = ')' then some r else none
    | [] => none
  (close gs).or do
    let rest ← readDestination (some 32) (gs.dropWhile Glyph.isBlankOrEol)
    ((readSpacedTitle rest).bind close).or (close rest)

/-- Read what makes a link of a bracketed text: a resource, or a reference to a label. The flag tells which. `label` is the
normal form of the text, and the glyphs are those behind the closing bracket. -/
def readTarget (context : InlineContext) (label : String) (gs : List Glyph) : Option (Bool × List Glyph) :=
  let isDefined := context.labels.links.contains label
  let shortcut := if isDefined then some (false, gs) else none
  match gs with
  | [] => shortcut
  | g :: r =>
    if g.char = '(' then ((readResource r).map (true, ·)).or shortcut
    else if g.char = '[' then
      match (readLabel r).filter (fun (inner, _) => context.labels.links.contains (labelOf context.source inner)) with
      | some (_, rest) => some (false, rest)
      | none =>
        match r with
        | close :: rest => if isDefined ∧ close.char = ']' then some (false, rest) else none
        | [] => none
    else shortcut

/-- The last open bracket, with the items behind it in reading order and those in front of it in reverse. -/
def splitAtBracket (inner : List Item) : List Item → Option (List Item × Bracket × List Item)
  | [] => none
  | .bracket b :: before => some (inner, b, before)
  | i :: before => splitAtBracket (i :: inner) before

/-- Put out the brackets that would make a link around a link. -/
def deactivate : Item → Item
  | .bracket b => .bracket (if b.kind = .image then b else { b with active := false })
  | i => i

/-- The node that a closing bracket completes, and the glyphs behind it. The glyph `close` is the bracket, `inner` are the
items between the brackets. -/
def bracketNode (context : InlineContext) (b : Bracket) (inner : List Item) (close : Glyph) (r : List Glyph) :
    Option (Node × List Glyph) := do
  guard b.active
  let start := (spanOf b.glyphs).start
  let content := b.after.take (b.after.length - (r.length + 1))
  let label := labelOf context.source content
  if b.kind = .footnote ∧ context.labels.footnotes.contains label then
    return ({ kind := .other, span := some ⟨start, close.span.stop⟩ }, r)
  else
    let mark := b.glyphs.drop (if b.kind = .footnote then 1 else b.glyphs.length)
    let label := if b.kind = .footnote then "^" ++ label else label
    let (isResource, rest) ← readTarget context label r
    let stop := (spanOf (close :: r.take (r.length - rest.length))).stop
    let kind := if !isResource then .other else if b.kind = .image then .image else .link
    let children :=
      if b.kind = .image then []
      else emphasize false false true (if mark.isEmpty then inner else .plain mark :: inner)
    return ({ kind, span := some ⟨start, stop⟩, children }, rest)

/-- Read a closing bracket. The items in front are in reverse. -/
def closeBracket (context : InlineContext) (done : List Item) (close : Glyph) (r : List Glyph) : List Item × List Glyph :=
  match splitAtBracket [] done with
  | none => (.plain [close] :: done, r)
  | some (inner, b, before) =>
    match bracketNode context b inner close r with
    | some (n, rest) => (.node n :: if b.kind = .image then before else before.map deactivate, rest)
    | none => (.plain [close] :: (inner.reverse ++ .plain b.glyphs :: before), r)

/-! ## The reader -/

/-- The glyphs up to `rest`, which is an end of `gs`. -/
def upTo (gs rest : List Glyph) : List Glyph := gs.take (gs.length - rest.length)

/-- Read one item that starts with the glyph `g`, and count the glyphs behind `g` that it takes. The items in front are in
reverse, and `previous` is the character in front. -/
def readItem (context : InlineContext) (previous : Option Char) (done : List Item) (g : Glyph) (r : List Glyph) :
    List Item × Nat :=
  let plain := (Item.plain [g] :: done, 0)
  let upToRest (done : List Item) (rest : List Glyph) := (done, r.length - rest.length)
  let c := g.char
  if g.isEol then (.eol g :: done, 0)
  else if c = '\\' then
    match r with
    | e :: _ =>
      if e.isEol then (.eol e :: .hardBreak g.span.start :: done, 1)
      else if Text.isAsciiPunctuation e.char then (.text [e.char] e.span :: done, 1)
      else plain
    | [] => plain
  else if c = '&' then
    match readReference r with
    | some (s, rest) => upToRest (.text s (spanOf (g :: upTo r rest)) :: done) rest
    | none => plain
  else if c = '`' then
    let ticks := g :: r.takeWhile (·.char == '`')
    let behind := r.dropWhile (·.char == '`')
    match takeCode ticks.length 0 [] behind with
    | some (content, rest) =>
      let span := spanOf (g :: upTo r rest)
      let value := String.ofList (codeValue context.inTable content)
      upToRest (.node { kind := .inlineCode, value, span } :: done) rest
    | none => (.plain ticks :: done, ticks.length - 1)
  else if c = '<' then
    match readAngled r with
    | some rest =>
      let address := (upTo r rest).dropLast
      upToRest (.node (literalLink (spanOf (g :: upTo r rest)) address) :: done) rest
    | none =>
      match readHtml r with
      | some rest =>
        let source := g :: upTo r rest
        let value := String.ofList (text (htmlText false source))
        upToRest (.node { kind := .html, value, span := spanOf source } :: done) rest
      | none => plain
  else if c = '*' ∨ c = '_' ∨ c = '~' then
    let marks := g :: r.takeWhile (·.char == c)
    let after := (r.dropWhile (·.char == c)).head?.map (·.char)
    (.run (context.run previous after marks) :: done, marks.length - 1)
  else if c = '[' then
    match r with
    | caret :: rest =>
      if caret.char = '^' then (.bracket { kind := .footnote, glyphs := [g, caret], after := rest } :: done, 1)
      else (.bracket { kind := .link, glyphs := [g], after := r } :: done, 0)
    | [] => (.bracket { kind := .link, glyphs := [g], after := r } :: done, 0)
  else if c = '!' then
    match r with
    | bracket :: rest =>
      if bracket.char = '[' ∧ !rest.head?.any (·.char == '^') then
        (.bracket { kind := .image, glyphs := [g, bracket], after := rest } :: done, 1)
      else plain
    | [] => plain
  else if c = ']' then
    let (done, rest) := closeBracket context done g r
    upToRest done rest
  else if c ∈ ['h', 'H', 'w', 'W'] then
    match readWeb previous (g :: r) with
    | some rest =>
      let address := upTo (g :: r) rest
      upToRest (.node (literalLink (spanOf address) address) :: done) rest
    | none => plain
  else plain

/-- Read all items behind the next `skip` glyphs, which belong to the last item. The items in front are in reverse. -/
def readItems (context : InlineContext) (previous : Option Char) (done : List Item) : (skip : Nat) → List Glyph → List Item
  | _, [] => done.reverse
  | skip + 1, g :: r => readItems context g.char done skip r
  | 0, g :: r =>
    let (done, skip) := readItem context previous done g r
    readItems context g.char done skip r

/-- The nodes of inline content. -/
def inlineNodes (context : InlineContext) (gs : List Glyph) : List Node :=
  emphasize true true false (readItems context none [] 0 gs)

/-- The nodes of inline content that follows `previous` in the same line. -/
def inlineNodesAfter (previous : Char) (context : InlineContext) (gs : List Glyph) : List Node :=
  emphasize false true false (readItems context previous [] 0 gs)

end MarkdownTemplates.Markdown
