import MarkdownTemplates.Text.Split

/-!
# Globs

A glob is a pattern for paths. Besides plain characters it has wildcards, sets of characters and alternatives. Paths are compared
byte by byte, so that a wildcard for one character stands for one byte.
-/

namespace MarkdownTemplates

inductive GlobToken where
  | char (c : Char)
  /-- `?`, one byte. -/
  | one
  /-- `*`, any bytes. -/
  | many
  /-- `**/` at the front, any directories. -/
  | leading
  /-- `/**` at the end, all that is below a directory. -/
  | trailing
  /-- `/**/`, any directories in the middle. -/
  | between
  | set (negated : Bool) (ranges : List (Char × Char))
  | alternatives (branches : List (List GlobToken))

/-- How a glob is read and what it matches. -/
structure GlobStyle where
  /-- Do `*` and `?` stop at a slash? -/
  staysInDirectory : Bool
  /-- Is `[` an ordinary character where no `]` follows it? -/
  allowsOpenSet : Bool
  deriving DecidableEq, Repr

structure Glob where
  style : GlobStyle
  tokens : List GlobToken

namespace GlobToken

def slash : UInt8 := 47

def dot : UInt8 := 46

def bytes (c : Char) : List UInt8 := String.utf8EncodeChar c

/-- Is a byte one of a set? In a range the last byte of the first character and the first byte of the last one are the ends, and
the other bytes stand for themselves. -/
def rangeContains (b : UInt8) (r : Char × Char) : Bool :=
  if r.1 = r.2 then (bytes r.1).contains b
  else
    let low := bytes r.1
    let high := bytes r.2
    low.dropLast.contains b || high.tail.contains b || (low.getLastD 0 ≤ b && b ≤ high.headD 0)

/-- What may follow a slash in a text: all that is behind one. -/
def behindSlashes : List UInt8 → List (List UInt8)
  | [] => []
  | b :: s => if b = slash then s :: behindSlashes s else behindSlashes s

/-- The text and all its ends. With `stays` none of them is behind a slash. -/
def ends (stays : Bool) : List UInt8 → List (List UInt8)
  | [] => [[]]
  | b :: s => (b :: s) :: if stays && b == slash then [] else ends stays s

mutual

/-- Does a token stand for nothing at all? -/
def isVoid : GlobToken → Bool
  | alternatives branches => areVoid branches
  | _ => false

def isVoidBranch : List GlobToken → Bool
  | [] => true
  | t :: ts => isVoid t && isVoidBranch ts

def areVoid : List (List GlobToken) → Bool
  | [] => true
  | b :: bs => isVoidBranch b && areVoid bs

end

mutual

/-- What may be left of a text behind a token. -/
def rests (stays : Bool) : GlobToken → List UInt8 → List (List UInt8)
  | char c, s => if (bytes c).isPrefixOf s then [s.drop (bytes c).length] else []
  | one, s =>
    match s with
    | [] => []
    | b :: s => if stays && b == slash then [] else [s]
  | many, s => ends stays s
  | leading, s => s :: behindSlashes s
  | trailing, s =>
    match s with
    | [] => []
    | b :: s => if b = slash then ends false s else []
  | between, s =>
    match s with
    | [] => []
    | b :: s => if b = slash then s :: behindSlashes s else []
  | set negated ranges, s =>
    match s with
    | [] => []
    | b :: s => if ranges.any (rangeContains b) != negated then [s] else []
  | alternatives branches, s => if areVoid branches then [s] else restsOfBranches stays branches s

/-- What may be left of one of several texts behind tokens. -/
def restsOfAll (stays : Bool) : List GlobToken → List (List UInt8) → List (List UInt8)
  | [], texts => texts
  | t :: ts, texts => restsOfAll stays ts (texts.flatMap (rests stays t)).eraseDups

/-- What may be left of a text behind one of several branches. A branch that stands for nothing does not count. -/
def restsOfBranches (stays : Bool) : List (List GlobToken) → List UInt8 → List (List UInt8)
  | [], _ => []
  | b :: bs, s => (if isVoidBranch b then [] else restsOfAll stays b [s]) ++ restsOfBranches stays bs s

end

def isChar : GlobToken → Bool
  | char _ => true
  | _ => false

def isSlash : GlobToken → Bool
  | char '/' => true
  | _ => false

end GlobToken

namespace Glob

/-- Is the glob a fixed text, or one with a slash behind `**/`? -/
def isFixed (g : Glob) : Bool :=
  match g.tokens with
  | .leading :: ts => ts.all GlobToken.isChar && ts.any GlobToken.isSlash
  | ts => ts.all GlobToken.isChar

/-- Does the glob end in a dot? -/
def endsInDot (g : Glob) : Bool :=
  match g.tokens.getLast? with
  | some (.char '.') => true
  | _ => false

/-- Does the glob match all of a path? A path that ends in a dot has no name and no extension to go by, so that of the globs that
end in a dot only those match it that are fixed. -/
def accepts (g : Glob) (path : List UInt8) : Bool :=
  match g.tokens with
  | [.leading] => true
  | ts =>
    if path.getLast? = some GlobToken.dot ∧ g.endsInDot ∧ ¬ g.isFixed then false
    else (GlobToken.restsOfAll g.style.staysInDirectory ts [path]).contains []

end Glob

end MarkdownTemplates
