import MarkdownTemplates.Glob

/-!
# Reading globs

A backslash takes the meaning from the character behind it, braces hold alternatives with commas between them, brackets hold
sets. Two stars stand for directories where slashes, or the ends of a branch, are on both sides of them.
-/

namespace MarkdownTemplates

/-- Why a text is no glob. -/
inductive GlobProblem where
  | openSet
  | wrongRange (low high : Char)
  | strayClosing
  | openGroup
  | finalBackslash
  deriving DecidableEq, Repr

namespace GlobProblem

def message : GlobProblem → String
  | openSet => "unclosed character class; missing ']'"
  | wrongRange low high => "invalid range; '" ++ low.toString ++ "' > '" ++ high.toString ++ "'"
  | strayClosing => "unopened alternate group; missing '\x7b' (maybe escape '\x7d' with '[\x7d]'?)"
  | openGroup => "unclosed alternate group; missing '\x7d' (maybe escape '\x7b' with '[\x7b]'?)"
  | finalBackslash => "dangling '\\'"

end GlobProblem

namespace Glob

/-! ## Sets -/

/-- Read ranges up to the closing bracket, which counts as a character in the first place. The second result is the number of
characters read. Without a closing bracket there is no set. -/
def readRanges (isFirst isRange : Bool) (ranges : List (Char × Char)) (count : Nat) :
    List Char → Except GlobProblem (Option (List (Char × Char) × Nat))
  | [] => .ok none
  | c :: s =>
    if c = ']' ∧ ¬ isFirst then .ok (some ((if isRange then ('-', '-') :: ranges else ranges).reverse, count + 1))
    else if c = '-' ∧ ¬ isFirst ∧ ¬ isRange then readRanges false true ranges (count + 1) s
    else
      match isRange, ranges with
      | true, (low, _) :: before =>
        if c < low then .error (.wrongRange low c) else readRanges false false ((low, c) :: before) (count + 1) s
      | _, ranges => readRanges false false ((c, c) :: ranges) (count + 1) s

/-- Read a set behind its opening bracket. -/
def readSet (s : List Char) : Except GlobProblem (Option (GlobToken × Nat)) :=
  let negated := s.head? = some '!' ∨ s.head? = some '^'
  let start := if negated then 1 else 0
  (readRanges true false [] start (s.drop start)).map fun found => found.map fun r => (.set negated r.1, r.2)

/-! ## Branches and groups -/

/-- An open group: the branches that are complete and the one that is being read, each with its last token or branch first. -/
structure Group where
  branches : List (List GlobToken) := []
  branch : List GlobToken := []

/-- What is being read: the innermost group and those around it. The outermost one is the glob itself. -/
structure Reading where
  inner : Group := {}
  outer : List Group := []

namespace Reading

def isInGroup (r : Reading) : Bool := !r.outer.isEmpty

def push (r : Reading) (t : GlobToken) : Reading := { r with inner := { r.inner with branch := t :: r.inner.branch } }

def isBranchEmpty (r : Reading) : Bool := r.inner.branch.isEmpty

def openGroup (r : Reading) : Reading := ⟨{}, r.inner :: r.outer⟩

def nextBranch (r : Reading) : Reading := { r with inner := ⟨r.inner.branch.reverse :: r.inner.branches, []⟩ }

def closeGroup (r : Reading) : Except GlobProblem Reading :=
  match r.outer with
  | [] => .error .strayClosing
  | g :: outer => .ok (push ⟨g, outer⟩ (.alternatives r.nextBranch.inner.branches.reverse))

/-- Put directories in the place of the slash in front of two stars. What stands for directories already stays. -/
def pushDirectories (r : Reading) (t : GlobToken) : Reading :=
  match r.inner.branch with
  | .leading :: _ => r
  | .trailing :: _ => r
  | _ :: before => { r with inner := { r.inner with branch := t :: before } }
  | [] => r

/-- Two stars that stand for no directories. -/
def pushStars (r : Reading) : Reading := (r.push .many).push .many

/-- Do two stars behind `last` start a part of a path? In a group the front of a branch counts as well. -/
def startsPart (r : Reading) (last : Option Char) : Bool :=
  last == some '/' || (r.isInGroup && (last == some ',' || last == some '\x7b'))

/-- Read two stars, before which `last` was read and behind which `s` is. Does the slash behind them belong to them? -/
def pushDoubleStar (r : Reading) (last : Option Char) (s : List Char) : Reading × Bool :=
  if r.isBranchEmpty then
    match s with
    | [] => (r.push .leading, false)
    | c :: _ => if c = '/' then (r.push .leading, true) else (r.pushStars, false)
  else if !r.startsPart last then (r.pushStars, false)
  else
    match s with
    | [] => (r.pushDirectories .trailing, false)
    | c :: _ =>
      if r.isInGroup ∧ (c = ',' ∨ c = '\x7d') then (r.pushDirectories .trailing, false)
      else if c = '/' then (r.pushDirectories .between, true)
      else (r.pushStars, false)

end Reading

/-! ## Globs -/

/-- Read the rest of a glob, before which `last` was read. With `sets` a bracket opens a set. -/
def readFrom (style : GlobStyle) (sets : Bool) (r : Reading) (last : Option Char) :
    List Char → Except GlobProblem Reading
  | [] => .ok r
  | '?' :: s => readFrom style sets (r.push .one) (some '?') s
  | '*' :: '*' :: s =>
    match r.pushDoubleStar last s with
    | (r, true) => readFrom style sets r (some '/') (s.drop 1)
    | (r, false) => readFrom style sets r (some '*') s
  | '*' :: s => readFrom style sets (r.push .many) (some '*') s
  | '\x7b' :: s => readFrom style sets r.openGroup (some '\x7b') s
  | '\x7d' :: s => do readFrom style sets (← r.closeGroup) (some '\x7d') s
  | ',' :: s => readFrom style sets (if r.isInGroup then r.nextBranch else r.push (.char ',')) (some ',') s
  | '\\' :: [] => .error .finalBackslash
  | '\\' :: c :: s => readFrom style sets (r.push (.char c)) (some c) s
  | '[' :: s =>
    if sets then
      match readSet s with
      | .error e => .error e
      | .ok (some (t, count)) => readFrom style sets (r.push t) (some ']') (s.drop count)
      | .ok none =>
        if style.allowsOpenSet then readFrom style false (r.push (.char '[')) (some '[') s else .error .openSet
    else readFrom style sets (r.push (.char '[')) (some '[') s
  | c :: s => readFrom style sets (r.push (.char c)) (some c) s
  termination_by s => s.length

/-- The glob that a text spells. -/
def read (style : GlobStyle) (s : List Char) : Except GlobProblem Glob := do
  let r ← readFrom style true {} none s
  if r.isInGroup then .error .openGroup else .ok ⟨style, r.inner.branch.reverse⟩

end Glob

end MarkdownTemplates
