import MarkdownTemplates.FileTree
import MarkdownTemplates.Glob.Reader

/-!
# Ignore rules

A list of rules says which paths below a directory are left out. The last rule that matches a path decides. A rule with an
exclamation mark keeps paths, one with a slash at its end concerns directories only, and one with a slash elsewhere concerns
paths from the directory of the list on.
-/

namespace MarkdownTemplates

structure IgnoreRule where
  glob : Glob
  /-- Does the rule keep what it matches? -/
  keeps : Bool
  onlyDirectories : Bool

namespace IgnoreRule

def style : GlobStyle := { staysInDirectory := true, allowsOpenSet := true }

def endsWith (text ending : List Char) : Bool := Text.startsWith text.reverse ending.reverse

/-- The marks in front of a pattern: whether the rule keeps paths, whether it starts at the directory of the list, and the rest. -/
def readMarks (line : List Char) : Bool × Bool × List Char :=
  match line with
  | '\\' :: '!' :: s => (false, false, '!' :: s)
  | '\\' :: '#' :: s => (false, false, '#' :: s)
  | '!' :: '/' :: s => (true, true, s)
  | '!' :: s => (true, false, s)
  | '/' :: s => (false, true, s)
  | s => (false, false, s)

/-- A pattern without the slash at its end, or the escaped slash, and whether there was one. -/
def dropFinalSlash (s : List Char) : Bool × List Char :=
  if endsWith s ['/'] then
    let s := s.dropLast
    (true, if endsWith s ['\\'] then s.dropLast else s)
  else (false, s)

/-- The glob of a pattern. A pattern without a slash may match in every directory, and one that ends in two stars does not match
the directory itself. -/
def globText (anchored : Bool) (s : List Char) : List Char :=
  let free := !anchored && !s.contains '/' && s != ['*', '*']
  let s := if free then ['*', '*', '/'] ++ s else s
  if endsWith s ['/', '*', '*'] then s ++ ['/', '*'] else s

/-- The rule in a line, if there is one. -/
def ofLine? (line : List Char) : Except GlobProblem (Option IgnoreRule) :=
  let line := if endsWith line ['\\', ' '] then line else Text.dropEndWhile Text.isBlank line
  if line.head? = some '#' ∨ line.isEmpty then .ok none
  else
    let (keeps, anchored, s) := readMarks line
    let (onlyDirectories, s) := dropFinalSlash s
    (Glob.read style (globText anchored s)).map fun glob => some { glob, keeps, onlyDirectories }

def accepts (r : IgnoreRule) (path : List UInt8) (isDirectory : Bool) : Bool :=
  (isDirectory || !r.onlyDirectories) && r.glob.accepts path

end IgnoreRule

/-- The rules for what is below a directory. -/
structure IgnoreList where
  base : Path
  rules : List IgnoreRule := []

namespace IgnoreList

/-- The rules in the lines. The first line that is no rule is an error. -/
def ofLines (base : Path) (lines : List String) : Except (String × GlobProblem) IgnoreList := do
  let rules ← lines.mapM fun line => (IgnoreRule.ofLine? line.toList).mapError (line, ·)
  return ⟨base, rules.filterMap id⟩

/-- A text without `start` in front of it. -/
def dropStart (start text : List Char) : List Char := (Text.dropStart? start text).getD text

/-- The text of a path behind the directory of the list. -/
def textBelow (l : IgnoreList) (p : Path) : List Char :=
  let base := dropStart ['.', '/'] l.base.text.toList
  let s := dropStart ['.', '/'] p.text.toList
  if base = ['.'] ∨ ¬ s.contains '/' then s
  else
    match Text.dropStart? base s with
    | none => s
    | some s => dropStart ['/'] s

/-- The last rule that matches a path. -/
def rule? (l : IgnoreList) (p : Path) (isDirectory : Bool) : Option IgnoreRule :=
  let path := (String.ofList (l.textBelow p)).toUTF8.toList
  l.rules.reverse.find? fun r => r.accepts path isDirectory

def ignores (l : IgnoreList) (p : Path) (isDirectory : Bool) : Bool :=
  match l.rule? p isDirectory with
  | none => false
  | some r => !r.keeps

/-! ## Files of rules -/

/-- The name of the file of rules in a directory. -/
def fileName : Path := ⟨".gitignore"⟩

def lineFeed : UInt8 := 10

def carriageReturn : UInt8 := 13

/-- The lines of a file, without their ends. -/
def byteLines : List UInt8 → List (List UInt8)
  | [] => []
  | b :: s =>
    if b = lineFeed then [] :: byteLines s
    else
      match s, byteLines s with
      | [], _ => [[b]]
      | c :: _, lines =>
        if b = carriageReturn ∧ c = lineFeed then lines
        else
          match lines with
          | [] => [[b]]
          | l :: ls => (b :: l) :: ls

/-- The lines up to the first one that is no text. -/
def textLines : List (List UInt8) → List String
  | [] => []
  | l :: ls =>
    match String.fromUTF8? ⟨l.toArray⟩ with
    | none => []
    | some s => s :: textLines ls

/-- A first line without the marks of the byte order. -/
def dropByteOrderMarks : List String → List String
  | [] => []
  | l :: ls => String.ofList (l.toList.dropWhile (· == '\ufeff')) :: ls

/-- The rules in the bytes of a file. Lines that are no rules do not count. -/
def ofBytes (base : Path) (bytes : ByteArray) : IgnoreList :=
  let lines := dropByteOrderMarks (textLines (byteLines bytes.toList))
  ⟨base, lines.filterMap fun line => ((IgnoreRule.ofLine? line.toList).toOption).join⟩

/-- The rules in the file of rules of a directory, which stands at `full`. -/
def load (files : FileTree) (base full : Path) : IgnoreList :=
  match files.readBytes (full.join fileName) with
  | .ok bytes => ofBytes base bytes
  | .error _ => ⟨base, []⟩

end IgnoreList

end MarkdownTemplates
