import MarkdownTemplates.Text.Blank
import MarkdownTemplates.Text.Casing
import MarkdownTemplates.Text.Split

/-!
# Paths

A path is a text whose parts are separated by slashes. Two texts may spell the same path: empty parts do not count, nor do
parts that are a single dot, unless the path starts with one.
-/

namespace MarkdownTemplates

inductive PathPart where
  | root
  | current
  | parent
  | name (text : String)
  deriving DecidableEq, Repr

namespace PathPart

def text : PathPart → String
  | root => "/"
  | current => "."
  | parent => ".."
  | name text => text

/-- What stands between two slashes, unless it does not count. -/
def ofSegment? (segment : List Char) : Option PathPart :=
  match segment with
  | [] => none
  | ['.'] => none
  | ['.', '.'] => some parent
  | s => some (name (String.ofList s))

def rank : PathPart → Nat
  | root => 0
  | current => 1
  | parent => 2
  | name _ => 3

/-- Names are in the order of their characters, and behind the other parts. -/
def before (a b : PathPart) : Bool :=
  match a, b with
  | name s, name t => decide (s < t)
  | a, b => decide (a.rank < b.rank)

end PathPart

structure Path where
  text : String
  deriving DecidableEq, Repr, Inhabited

namespace Path

def segments (p : Path) : List (List Char) := Text.splitOn (· == '/') p.text.toList

def isAbsolute (p : Path) : Bool := Text.startsWith p.text.toList ['/']

def isRelative (p : Path) : Bool := !p.isAbsolute

def parts (p : Path) : List PathPart :=
  let rest := p.segments.filterMap PathPart.ofSegment?
  if p.isAbsolute then .root :: rest
  else if p.segments.head? = some ['.'] then .current :: rest
  else rest

/-- Do both texts spell one path? -/
def same (p q : Path) : Bool := p.parts == q.parts

def ofParts : List PathPart → Path
  | .root :: ps => ⟨"/" ++ "/".intercalate (ps.map PathPart.text)⟩
  | ps => ⟨"/".intercalate (ps.map PathPart.text)⟩

/-- Is the first path in front of the second, part by part? -/
def before (p q : Path) : Bool := go p.parts q.parts
where
  go : List PathPart → List PathPart → Bool
    | _, [] => false
    | [], _ :: _ => true
    | a :: as, b :: bs => a.before b || (a == b && go as bs)

/-- A path that starts at the directory `p`. An absolute path stays as it is. -/
def join (p q : Path) : Path :=
  if q.isAbsolute ∨ p.text.isEmpty then q
  else if p.text.toList.getLast? = some '/' then ⟨p.text ++ q.text⟩
  else ⟨p.text ++ "/" ++ q.text⟩

/-- The path of the directory in which `p` stands. -/
def parent? (p : Path) : Option Path :=
  match p.parts.getLast? with
  | none => none
  | some .root => none
  | some _ => some (ofParts p.parts.dropLast)

def fileName? (p : Path) : Option String :=
  match p.parts.getLast? with
  | some (.name s) => some s
  | _ => none

/-- What stands behind the last dot of the file name, unless that dot is its first character. -/
def extension? (p : Path) : Option String := do
  let name := (← p.fileName?).toList.reverse
  guard (name.contains '.')
  guard !(((name.dropWhile (· != '.')).drop 1).isEmpty)
  return String.ofList (name.takeWhile (· != '.')).reverse

/-! ## Normal form -/

/-- Put a part on a stack of parts. Two dots take away the part below them, whatever it is, but not the root. -/
def push (stack : List PathPart) (part : PathPart) : List PathPart :=
  match part, stack with
  | .current, stack => stack
  | .parent, [] => [.parent]
  | .parent, .root :: rest => .parent :: .root :: rest
  | .parent, _ :: rest => rest
  | part, stack => part :: stack

/-- The path without single dots, and with two dots only where nothing is left for them to take away. -/
def normalize (p : Path) : Path :=
  let ps := (p.parts.foldl push []).reverse
  if ps.isEmpty then ⟨"."⟩ else ofParts ps

/-- The normal form of a path that starts at the directory `cwd`, unless it is absolute or empty. -/
def absolute (p cwd : Path) : Path := if p.text.isEmpty then ⟨"."⟩ else (cwd.join p).normalize

/-! ## Paths below a directory -/

/-- The parts of `p` that follow those of `base`, when `p` starts with these. -/
def partsBelow? (base p : Path) : Option (List PathPart) :=
  go base.parts p.parts
where
  go : List PathPart → List PathPart → Option (List PathPart)
    | [], ps => some ps
    | b :: bs, p :: ps => if b = p then go bs ps else none
    | _ :: _, [] => none

def isBelow (p base : Path) : Bool := (partsBelow? base p).isSome

def isJunk (segment : List Char) : Bool := segment == [] || segment == ['.']

/-- The segments behind the first `n` that count. -/
def dropSegments : (n : Nat) → List (List Char) → List (List Char)
  | 0, ss => ss
  | _ + 1, [] => []
  | n + 1, s :: ss => if isJunk s then dropSegments (n + 1) ss else dropSegments n ss

/-- The text of `p` behind `base`, or all of it when `p` is not below `base`. The first segment of a path always stands for
its first part. -/
def textBelow (base p : Path) : List Char :=
  if !p.isBelow base then p.text.toList
  else if base.parts.isEmpty then
    let kept := Text.dropEndWhile isJunk p.segments
    if kept.isEmpty then (ofParts p.parts).text.toList else Text.join ['/'] kept
  else
    let rest := dropSegments (base.parts.length - 1) (p.segments.drop 1)
    Text.join ['/'] (Text.dropEndWhile isJunk (rest.dropWhile isJunk))

/-- The name of a file in a project: its path behind the root of the project, with forward slashes. -/
def key (root file : Path) : String :=
  String.ofList ((textBelow root file).map fun c => if c = '\\' then '/' else c)

def markdownExtensions : List String := ["md", "markdown"]

def isMarkdown (p : Path) : Bool :=
  match p.extension? with
  | none => false
  | some e => markdownExtensions.contains (String.ofList (Text.toLowerAscii e.toList))

/-- The path as messages show it. -/
def display (p : Path) : String := String.ofList (p.text.toList.map fun c => if c = '\\' then '/' else c)

end Path

end MarkdownTemplates
