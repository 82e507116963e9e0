import MarkdownTemplates.Toml.Scalar

/-!
# Reading TOML

A document is a sequence of lines: headers, entries, comments and blank lines. Only values span several lines.
-/

namespace MarkdownTemplates.Toml

open Text

def dropGap (s : List Char) : List Char := s.dropWhile isGap

/-- Drop a comment, when there is one. -/
def dropComment : List Char → List Char
  | '#' :: s => s.dropWhile isPrintable
  | s => s

/-- What stands behind the end of a line, in front of which only blanks and a comment may stand. -/
def dropEol? (s : List Char) : Option (List Char) :=
  match dropComment (dropGap s) with
  | [] => some []
  | '\n' :: rest => some rest
  | '\r' :: '\n' :: rest => some rest
  | _ => none

/-- Drop blanks, comments and line ends. -/
def dropFiller : (fuel : Nat) → List Char → List Char
  | 0, s => s
  | fuel + 1, s =>
    let t := dropGap s
    match dropEol? t with
    | none => t
    | some [] => []
    | some rest => dropFiller fuel rest

/-! ## Keys -/

def isBareKeyChar (c : Char) : Bool := isAlphanumeric c || c == '-' || c == '_'

def readKeyPart (s : List Char) : Read :=
  match s with
  | '"' :: rest => readBasic rest
  | '\'' :: rest => readLiteral rest
  | s =>
    let key := s.takeWhile isBareKeyChar
    if key.isEmpty then none else some (key, s.dropWhile isBareKeyChar)

/-- A key, whose parts have dots between them, and what stands behind it and the blanks that follow. -/
def readKey : (fuel : Nat) → List Char → Option (List String × List Char)
  | 0, _ => none
  | fuel + 1, s => do
    let (part, rest) ← readKeyPart (dropGap s)
    match dropGap rest with
    | '.' :: rest =>
      let (path, rest) ← readKey fuel rest
      return (String.ofList part :: path, rest)
    | rest => return ([String.ofList part], rest)

/-! ## Values -/

def asText (r : Read) : Option (TomlValue × List Char) := r.map fun (s, rest) => (.string (String.ofList s), rest)

mutual

/-- The value at the front of a text, and what stands behind it. Values are at most `fuel` deep. -/
def readValue : (fuel : Nat) → List Char → Option (TomlValue × List Char)
  | 0, _ => none
  | fuel + 1, s =>
    match s with
    | '"' :: '"' :: '"' :: rest => asText (readLongBasic (dropFirstEol rest))
    | '"' :: rest => asText (readBasic rest)
    | '\'' :: '\'' :: '\'' :: rest => asText (readLongLiteral (dropFirstEol rest))
    | '\'' :: rest => asText (readLiteral rest)
    | '[' :: rest => (readItems fuel rest).map fun (items, rest) => (.array items, rest)
    | '{' :: rest => (readEntries fuel [] rest).map fun (entries, rest) => (.table .inline entries, rest)
    | s =>
      let (word, rest) := splitWord s
      (word? word).map (·, rest)

/-- The items of an array up to its end. -/
def readItems : (fuel : Nat) → List Char → Option (List TomlValue × List Char)
  | 0, _ => none
  | fuel + 1, s =>
    match dropFiller s.length s with
    | ']' :: rest => some ([], rest)
    | s => do
      let (v, rest) ← readValue fuel s
      match dropFiller rest.length rest with
      | ',' :: rest =>
        let (items, rest) ← readItems fuel rest
        return (v :: items, rest)
      | ']' :: rest => return ([v], rest)
      | _ => none

/-- The entries of a table that is a value, up to its end. -/
def readEntries : (fuel : Nat) → TomlTable → List Char → Option (TomlTable × List Char)
  | 0, _, _ => none
  | fuel + 1, t, s =>
    match dropFiller s.length s with
    | '}' :: rest => some (t, rest)
    | s => do
      let (path, rest) ← readKey fuel s
      match rest with
      | '=' :: rest =>
        let (v, rest) ← readValue fuel (dropGap rest)
        let t ← t.addAt path v
        match dropFiller rest.length rest with
        | ',' :: rest => readEntries fuel t rest
        | '}' :: rest => some (t, rest)
        | _ => none
      | _ => none

end

/-! ## Documents -/

structure Building where
  root : TomlTable := []
  /-- The path of the table to which entries are added. -/
  current : List String := []

namespace Building

def addEntry (b : Building) (path : List String) (v : TomlValue) : Option Building := do
  let root ← TomlTable.update false (fun _ t => t.addAt path v) b.current .header b.root
  return { b with root }

/-- Take in a line that is not blank. What stands behind it is left. -/
def readLine (fuel : Nat) (b : Building) (s : List Char) : Option (Building × List Char) :=
  match s with
  | '[' :: '[' :: rest => do
    let (path, rest) ← readKey fuel rest
    let rest ← dropStart? [']', ']'] rest
    return (⟨← b.root.openItem path, path⟩, rest)
  | '[' :: rest => do
    let (path, rest) ← readKey fuel rest
    let rest ← dropStart? [']'] rest
    return (⟨← b.root.openTable path, path⟩, rest)
  | s => do
    let (path, rest) ← readKey fuel s
    let rest ← dropStart? ['='] rest
    let (v, rest) ← readValue fuel (dropGap rest)
    return (← b.addEntry path v, rest)

/-- Take in at most `fuel` lines. -/
def readLines : (fuel : Nat) → Building → List Char → Option Building
  | 0, b, s => if s.isEmpty then some b else none
  | fuel + 1, b, s =>
    match dropFiller s.length s with
    | [] => some b
    | s => do
      let (b, rest) ← readLine (s.length + 1) b s
      readLines fuel b (← dropEol? rest)

end Building

def dropMark : List Char → List Char
  | '\uFEFF' :: s => s
  | s => s

/-- The table that a document stands for. -/
def read? (s : List Char) : Option TomlTable := do
  let s := dropMark s
  return (← Building.readLines (s.length + 1) {} s).root

end MarkdownTemplates.Toml
