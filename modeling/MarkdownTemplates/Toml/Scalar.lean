import MarkdownTemplates.Text.Numeral
import MarkdownTemplates.Text.Split
import MarkdownTemplates.Toml.Value

/-!
# TOML scalars

Texts in their four forms, numbers, and dates and times.
-/

namespace MarkdownTemplates.Toml

open Text

/-! ## Texts -/

/-- May the character stand in a comment or a text? -/
def isPrintable (c : Char) : Bool := c == '\t' || (32 ≤ c.toNat && c.toNat ≠ 127)

def isGap (c : Char) : Bool := c == ' ' || c == '\t'

def isGapOrEol (c : Char) : Bool := isGap c || c == '\n' || c == '\r'

def escape? (c : Char) : Option Char :=
  match c with
  | 'b' => some '\x08'
  | 't' => some '\t'
  | 'n' => some '\n'
  | 'f' => some '\x0c'
  | 'r' => some '\r'
  | 'e' => some '\x1b'
  | '"' => some '"'
  | '\\' => some '\\'
  | _ => none

def coded? (digits : List Char) : Option Char := (number? 16 digits).bind charOfCode?

abbrev Read := Option (List Char × List Char)

def Read.push (c : Char) (r : Read) : Read := r.map fun (s, rest) => (c :: s, rest)

/-- A text in double quotes, up to the closing one. -/
def readBasic : List Char → Read
  | [] => none
  | '"' :: rest => some ([], rest)
  | '\\' :: 'x' :: a :: b :: rest => (coded? [a, b]).bind fun c => (readBasic rest).push c
  | '\\' :: 'u' :: a :: b :: c :: d :: rest => (coded? [a, b, c, d]).bind fun c => (readBasic rest).push c
  | '\\' :: 'U' :: a :: b :: c :: d :: e :: f :: g :: h :: rest =>
    (coded? [a, b, c, d, e, f, g, h]).bind fun c => (readBasic rest).push c
  | '\\' :: c :: rest => (escape? c).bind fun c => (readBasic rest).push c
  | c :: rest => if isPrintable c ∧ c ≠ '\\' then (readBasic rest).push c else none

/-- A text in single quotes, up to the closing one. -/
def readLiteral : List Char → Read
  | [] => none
  | '\'' :: rest => some ([], rest)
  | c :: rest => if isPrintable c then (readLiteral rest).push c else none

/-- A text of several lines in double quotes, up to the three closing ones. At most two more quotes may stand in front of these.
A backslash at the end of a line takes away all blanks and line ends behind it. -/
def readLongBasic : List Char → Read
  | [] => none
  | '"' :: '"' :: '"' :: '"' :: '"' :: rest => some (['"', '"'], rest)
  | '"' :: '"' :: '"' :: '"' :: rest => some (['"'], rest)
  | '"' :: '"' :: '"' :: rest => some ([], rest)
  | '\\' :: 'x' :: a :: b :: rest => (coded? [a, b]).bind fun c => (readLongBasic rest).push c
  | '\\' :: 'u' :: a :: b :: c :: d :: rest => (coded? [a, b, c, d]).bind fun c => (readLongBasic rest).push c
  | '\\' :: 'U' :: a :: b :: c :: d :: e :: f :: g :: h :: rest =>
    (coded? [a, b, c, d, e, f, g, h]).bind fun c => (readLongBasic rest).push c
  | '\\' :: c :: rest =>
    if isGapOrEol c then
      if ((c :: rest).dropWhile isGap).head?.any fun e => e == '\n' || e == '\r' then
        readLongBasic (rest.dropWhile isGapOrEol)
      else none
    else (escape? c).bind fun c => (readLongBasic rest).push c
  | '\r' :: '\n' :: rest => (readLongBasic rest).push '\n'
  | c :: rest => if (isPrintable c ∧ c ≠ '\\') ∨ c = '\n' then (readLongBasic rest).push c else none
  termination_by s => s.length
  decreasing_by
    all_goals simp_wf
    all_goals have := (List.dropWhile_suffix (l := rest) isGapOrEol).length_le
    all_goals omega

/-- A text of several lines in single quotes, up to the three closing ones. -/
def readLongLiteral : List Char → Read
  | [] => none
  | '\'' :: '\'' :: '\'' :: '\'' :: '\'' :: rest => some (['\'', '\''], rest)
  | '\'' :: '\'' :: '\'' :: '\'' :: rest => some (['\''], rest)
  | '\'' :: '\'' :: '\'' :: rest => some ([], rest)
  | '\r' :: '\n' :: rest => (readLongLiteral rest).push '\n'
  | c :: rest => if isPrintable c ∨ c = '\n' then (readLongLiteral rest).push c else none

/-- A line end right behind the opening quotes of a long text does not belong to it. -/
def dropFirstEol : List Char → List Char
  | '\n' :: rest => rest
  | '\r' :: '\n' :: rest => rest
  | s => s

/-! ## Numbers -/

/-- Digits of a base, with single underscores between them. -/
def digits? (base : Nat) (s : List Char) : Option (List Char) := do
  let groups := splitOn (· == '_') s
  guard (groups.all fun g => !g.isEmpty && g.all fun c => (digit? base c).isSome)
  return groups.flatten

/-- A whole number without a sign and without zeros in front. -/
def whole? (s : List Char) : Option Nat := do
  let ds ← digits? 10 s
  guard (ds.length = 1 ∨ ds.head? ≠ some '0')
  number? 10 ds

def smallestInteger : Int := Int64.minValue.toInt

def largestInteger : Int := .ofNat (UInt64.size - 1)

/-- An integer that has room in sixty-four bits, with or without a sign. -/
def bounded? (n : Int) : Option TomlValue := if smallestInteger ≤ n ∧ n ≤ largestInteger then some (.integer n) else none

def integer? : List Char → Option TomlValue
  | '0' :: 'x' :: s => do bounded? (← number? 16 (← digits? 16 s))
  | '0' :: 'o' :: s => do bounded? (← number? 8 (← digits? 8 s))
  | '0' :: 'b' :: s => do bounded? (← number? 2 (← digits? 2 s))
  | '-' :: s => do bounded? (-(← whole? s : Nat))
  | '+' :: s => do bounded? (← whole? s)
  | s => do bounded? (← whole? s)

def dropSign : List Char → List Char
  | '+' :: s => s
  | '-' :: s => s
  | s => s

def isExponentMark (c : Char) : Bool := c == 'e' || c == 'E'

def isFloat (s : List Char) : Bool :=
  let s := dropSign s
  let mantissa := s.takeWhile fun c => !isExponentMark c
  let exponent := (s.dropWhile fun c => !isExponentMark c).drop 1
  let whole := mantissa.takeWhile (· != '.')
  let fraction := (mantissa.dropWhile (· != '.')).drop 1
  s == "inf".toList || s == "nan".toList
    || ((whole? whole).isSome
      && (whole.length < mantissa.length || mantissa.length < s.length)
      && (whole.length == mantissa.length || (digits? 10 fraction).isSome)
      && (mantissa.length == s.length || (digits? 10 (dropSign exponent)).isSome))

/-! ## Dates and times -/

def inRange (low high : Nat) (s : List Char) : Bool :=
  s.length == 2 && match number? 10 s with
    | some n => low ≤ n && n ≤ high
    | none => false

def daysIn (year month : Nat) : Nat :=
  if month = 2 then (if year % 4 = 0 ∧ (year % 100 ≠ 0 ∨ year % 400 = 0) then 29 else 28)
  else if month ∈ [4, 6, 9, 11] then 30 else 31

def isDate (s : List Char) : Bool :=
  match splitOn (· == '-') s with
  | [y, m, d] =>
    y.length == 4 && m.length == 2 && match number? 10 y, number? 10 m with
      | some year, some month => 1 ≤ month && month ≤ 12 && inRange 1 (daysIn year month) d
      | _, _ => false
  | _ => false

def isTime (s : List Char) : Bool :=
  match splitOn (· == ':') s with
  | [h, m] => inRange 0 23 h && inRange 0 59 m
  | [h, m, rest] =>
    let second := rest.takeWhile (· != '.')
    let fraction := rest.dropWhile (· != '.')
    inRange 0 23 h && inRange 0 59 m && inRange 0 60 second
      && (fraction.isEmpty || (!(fraction.drop 1).isEmpty && (fraction.drop 1).all isDigit))
  | _ => false

def isOffset : List Char → Bool
  | ['Z'] => true
  | ['z'] => true
  | '+' :: s => isHourMinute s
  | '-' :: s => isHourMinute s
  | _ => false
where
  isHourMinute (s : List Char) : Bool :=
    match splitOn (· == ':') s with
    | [h, m] => inRange 0 23 h && inRange 0 59 m
    | _ => false

/-- A time, perhaps with the offset of its zone. -/
def isZonedTime (s : List Char) : Bool :=
  let isTimeChar (c : Char) := isDigit c || c == ':' || c == '.'
  let offset := s.dropWhile isTimeChar
  isTime (s.takeWhile isTimeChar) && (offset.isEmpty || isOffset offset)

def isMoment (s : List Char) : Bool :=
  let date := s.take 10
  match s.drop 10 with
  | [] => isDate date || isTime s
  | c :: rest => ((c == 'T' || c == 't' || c == ' ') && isDate date && isZonedTime rest) || isTime s

/-! ## Words -/

def isWordChar (c : Char) : Bool := isAlphanumeric c || c == '+' || c == '-' || c == '_' || c == '.' || c == ':'

/-- Does a time follow, after a single blank? -/
def isTimeBehind : List Char → Bool
  | ' ' :: a :: b :: ':' :: _ => isDigit a && isDigit b
  | _ => false

/-- The word at the front of a text. A date and a time with a blank between them are one word. -/
def splitWord (s : List Char) : List Char × List Char :=
  let word := s.takeWhile isWordChar
  let rest := s.dropWhile isWordChar
  if isDate word ∧ isTimeBehind rest then
    (word ++ ' ' :: (rest.drop 1).takeWhile isWordChar, (rest.drop 1).dropWhile isWordChar)
  else (word, rest)

def word? (s : List Char) : Option TomlValue :=
  if s = "true".toList then some (.bool true)
  else if s = "false".toList then some (.bool false)
  else if isMoment s then some .moment
  else if isFloat s then some .float
  else integer? s

end MarkdownTemplates.Toml
