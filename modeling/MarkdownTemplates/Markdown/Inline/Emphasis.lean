import MarkdownTemplates.Markdown.Inline.Item

/-!
# Emphasis

Runs of `*`, `_` and `~` are paired from the left: each run that closes looks back for the nearest run that opens and
fits. What is left of the runs is plain text.
-/

namespace MarkdownTemplates.Markdown

namespace Run

def mark (r : Run) : Char := (r.glyphs.head?.map (·.char)).getD ' '

def size (r : Run) : Nat := r.glyphs.length

/-- The run of marks between two characters. -/
def ofGlyphs (before after : Option Char) (gs : List Glyph) : Run :=
  let mark := (gs.head?.map (·.char)).getD ' '
  let classBefore := CharClass.of? before
  let classAfter := CharClass.of? after
  let isMark (c : Option Char) := mark != '~' && c.any ['*', '_', '~'].contains
  let opens := classAfter = .other || (classAfter = .punctuation && classBefore != .other) || isMark after
  let closes := classBefore = .other || (classBefore = .punctuation && classAfter != .other) || isMark before
  { glyphs := gs
    opens := if mark = '_' then opens && (classBefore != .other || !closes) else opens
    closes := if mark = '_' then closes && (classAfter != .other || !opens) else closes }

/-- May the two runs be a pair? -/
def fits (opener closer : Run) : Bool :=
  opener.opens && opener.mark == closer.mark
    && !((opener.closes || closer.opens) && closer.size % 3 != 0 && (opener.size + closer.size) % 3 == 0)
    && (closer.mark != '~' || (closer.size == opener.size && closer.size ≤ 2))

end Run

/-- The nearest run that fits a closing one, with the items behind it and those in front of it. The items are in reverse. -/
def findOpener (closer : Run) : List Item → Option (List Item × Run × List Item)
  | [] => none
  | .run r :: before =>
    if r.fits closer then some ([], r, before)
    else (findOpener closer before).map (fun (between, opener, rest) => (.run r :: between, opener, rest))
  | i :: before => (findOpener closer before).map (fun (between, opener, rest) => (i :: between, opener, rest))

/-- The node between the last marks of an opening run and the first marks of a closing one. -/
def emphasisNode (inLink : Bool) (openMarks closeMarks : List Glyph) (mark : Char) (between : List Item) : Node :=
  { kind := if mark = '~' then .delete else if openMarks.length = 2 then .strong else .emphasis
    span := some ⟨(spanOf openMarks).start, (spanOf closeMarks).stop⟩
    children := nodesOf false false inLink between.reverse }

def pushRun (r : Run) (done : List Item) : List Item := if r.glyphs.isEmpty then done else .run r :: done

/-- Pair a run with the runs in front of it as often as possible. The items in front are in reverse. -/
def closeRun (inLink : Bool) (r : Run) (done : List Item) : List Item :=
  match _h : r.glyphs with
  | [] => done
  | first :: rest =>
    match if r.closes then findOpener r done else none with
    | none => .run r :: done
    | some (between, opener, before) =>
      let used := if 1 < opener.size ∧ 1 < r.size then 2 else 1
      let kept := opener.size - used
      let closeMarks := first :: rest.take (used - 1)
      let node := emphasisNode inLink (opener.glyphs.drop kept) closeMarks r.mark between
      closeRun inLink { r with glyphs := rest.drop (used - 1) }
        (.node node :: pushRun { opener with glyphs := opener.glyphs.take kept } before)
  termination_by r.glyphs.length
  decreasing_by
    rw [_h, List.length_drop, List.length_cons]
    omega

/-- Pair the runs of a list of items. -/
def pairRuns (inLink : Bool) (items : List Item) : List Item :=
  (items.foldl (fun done i => match i with
    | .run r => closeRun inLink r done
    | i => i :: done) []).reverse

/-- The nodes of a list of items, with emphasis. -/
def emphasize (atStart atStop inLink : Bool) (items : List Item) : List Node :=
  nodesOf atStart atStop inLink (pairRuns inLink items)

end MarkdownTemplates.Markdown
