import MarkdownTemplates.Dict
import MarkdownTemplates.Text.Numeral
import MarkdownTemplates.Text.Split

/-!
# Attributes of a directive

An attribute block holds `key=value` pairs, with the value bare or in quotes, the short forms `#id` and `.class`, and
bare words, which are flags. Anything else in it is skipped.
-/

namespace MarkdownTemplates

structure Attributes where
  values : Dict String := ∅
  flags : NameSet := ∅
  deriving DecidableEq

namespace Attributes

instance : Inhabited Attributes := ⟨{}⟩

def id? (a : Attributes) : Option String := a.values.get? "id"

def src? (a : Attributes) : Option String := a.values.get? "src"

def hasFlag (a : Attributes) (name : String) : Bool := a.flags.contains name

def isEmpty (a : Attributes) : Bool := a.values.isEmpty && a.flags.isEmpty

/-! ## Quoted values -/

/-- Put a backslash in front of every backslash and of every quote `q`. -/
def escape (q : Char) : List Char → List Char
  | [] => []
  | c :: r => if c = '\\' ∨ c = q then '\\' :: c :: escape q r else c :: escape q r

/-- The character that a backslash and `c` stand for between double quotes. -/
def escaped? : Char → Option Char
  | 'a' => some '\x07'
  | 'b' => some '\x08'
  | 'v' => some '\x0b'
  | 'f' => some '\x0c'
  | 'n' => some '\n'
  | 'r' => some '\r'
  | 't' => some '\t'
  | 'e' => some '\x1b'
  | 'E' => some '\x1b'
  | c => if c ∈ ['\\', '\'', '"', '$', '`', ' '] then some c else none

/-- The character whose code is written in hexadecimal digits, with an optional plus sign. -/
def charOfHex? : List Char → Option Char
  | '+' :: digits => (Text.number? 16 digits).bind Text.charOfCode?
  | digits => (Text.number? 16 digits).bind Text.charOfCode?

/-- Drop the quotes of a text and decode its escapes, `quote` being the quote that is open at its start.

Between single quotes a backslash is an ordinary character. A quote that closes may be followed by more text, and by
further quotes. -/
def unquote? (quote : Option Char) : List Char → Option (List Char)
  | [] => some []
  | c :: r =>
    match quote with
    | none => if c = '\'' ∨ c = '"' then unquote? (some c) r else (unquote? none r).map (c :: ·)
    | some q =>
      if c = q then unquote? none r
      else if q = '"' ∧ c = '\\' then
        match r with
        | [] => none
        | 'u' :: '{' :: s => do
          let c ← charOfHex? (s.takeWhile (· ≠ '}'))
          let rest ← unquote? quote ((s.dropWhile (· ≠ '}')).drop 1)
          return c :: rest
        | e :: s => do
          let c ← escaped? e
          let rest ← unquote? quote s
          return c :: rest
      else (unquote? quote r).map (c :: ·)
  termination_by s => s.length
  decreasing_by
    all_goals simp_wf
    all_goals have := (List.dropWhile_suffix (l := s) (· ≠ '}')).length_le
    all_goals grind

/-- The value that a text in quotes `q` stands for. A text with a bad escape stands for itself, as it is. -/
def unquote (q : Char) (body : List Char) : List Char :=
  (unquote? none (q :: body ++ [q])).getD body

/-! ## Tokens -/

inductive Token where
  | equals
  | quoted (quote : Char) (body : List Char)
  | word (text : List Char)
  | junk
  deriving DecidableEq, Repr

/-- The text up to the closing quote `q` and the text behind it. A backslash takes the next character with it, which
must not be a line feed. Without a closing quote there is no text, and reading goes on behind what was looked at. -/
def takeQuoted (q : Char) : List Char → Option (List Char) × List Char
  | [] => (none, [])
  | '\\' :: [] => (none, [])
  | '\\' :: c :: r =>
    if c = '\n' then (none, c :: r)
    else
      let (body, rest) := takeQuoted q r
      (body.map ('\\' :: c :: ·), rest)
  | c :: r =>
    if c = q then (some [], r)
    else
      let (body, rest) := takeQuoted q r
      (body.map (c :: ·), rest)

theorem length_takeQuoted_le (q : Char) (s : List Char) : (takeQuoted q s).2.length ≤ s.length := by
  fun_induction takeQuoted q s <;> simp_all <;> omega

def isSeparator (c : Char) : Bool := c == ' ' || c == '\t' || c == '\r' || c == '\n'

/-- May the character stand in a bare word? -/
def isWordChar (c : Char) : Bool := !isSeparator c && c != '"' && c != '\'' && c != '=' && c != '{' && c != '}'

def tokens : List Char → List Token
  | [] => []
  | c :: r =>
    if isSeparator c then tokens r
    else if c = '=' then .equals :: tokens r
    else if c = '"' ∨ c = '\'' then
      match _h : takeQuoted c r with
      | (some body, rest) => .quoted c body :: tokens rest
      | (none, rest) => .junk :: tokens rest
    else if isWordChar c then .word (c :: r.takeWhile isWordChar) :: tokens (r.dropWhile isWordChar)
    else .junk :: tokens r
  termination_by s => s.length
  decreasing_by
    all_goals simp_wf
    all_goals have := length_takeQuoted_le c r
    all_goals have := (List.dropWhile_suffix (l := r) isWordChar).length_le
    all_goals grind

/-! ## Reading and writing -/

def setValue (a : Attributes) (key : String) (value : List Char) : Attributes :=
  { a with values := a.values.insert key (String.ofList value) }

/-- Add a class behind the classes that are there. -/
def addClass (a : Attributes) (name : List Char) : Attributes :=
  match a.values.get? "class" with
  | none => a.setValue "class" name
  | some classes => a.setValue "class" (classes.toList ++ ' ' :: name)

def addFlag (a : Attributes) (name : List Char) : Attributes :=
  { a with flags := a.flags.insert (String.ofList name) }

/-- Take over what a sequence of tokens says. -/
def addTokens (a : Attributes) : List Token → Attributes
  | [] => a
  | .word ('#' :: id) :: rest => addTokens (if id.isEmpty then a else a.setValue "id" id) rest
  | .word ('.' :: name) :: rest => addTokens (if name.isEmpty then a else a.addClass name) rest
  | .word key :: .equals :: rest =>
    match rest with
    | [] => a.setValue (String.ofList key) []
    | .quoted q body :: rest => addTokens (a.setValue (String.ofList key) (unquote q body)) rest
    | .word value :: rest => addTokens (a.setValue (String.ofList key) value) rest
    | other :: rest => addTokens a (other :: rest)
  | .word name :: rest => addTokens (a.addFlag name) rest
  | _ :: rest => addTokens a rest

/-- Read the inside of an attribute block. -/
def parse (source : List Char) : Attributes := addTokens {} (tokens source)

/-- An attribute block without its braces. -/
def body (a : Attributes) : List Char :=
  Text.join [' '] (a.values.entries.map (fun (key, value) => key.toList ++ '=' :: '"' :: escape '"' value.toList ++ ['"'])
    ++ a.flags.toList.map String.toList)

/-- Write the attributes as a block in braces. Without attributes there is no block. -/
def source (a : Attributes) : List Char := if a.isEmpty then [] else '{' :: a.body ++ ['}']

end Attributes

end MarkdownTemplates
