import MarkdownTemplates.Json.Value
import MarkdownTemplates.Text.Numeral
import MarkdownTemplates.Text.Split

/-!
# Reading JSON

A text is cut into tokens, and the tokens are put together with a stack of the arrays and objects that are still open.
-/

namespace MarkdownTemplates

inductive JsonToken where
  | openArray
  | closeArray
  | openObject
  | closeObject
  | comma
  | colon
  | scalar (v : JsonValue)

namespace JsonToken

/-! ## Texts -/

def escape? (c : Char) : Option Char :=
  match c with
  | '"' => some '"'
  | '\\' => some '\\'
  | '/' => some '/'
  | 'b' => some '\x08'
  | 'f' => some '\x0c'
  | 'n' => some '\n'
  | 'r' => some '\r'
  | 't' => some '\t'
  | _ => none

/-- The codes up to the closing quote, and what stands behind it. -/
def readString : List Char → Option (List Nat × List Char)
  | [] => none
  | '"' :: rest => some ([], rest)
  | '\\' :: 'u' :: a :: b :: c :: d :: rest => do
    let code ← Text.number? 16 [a, b, c, d]
    let (codes, rest) ← readString rest
    return (code :: codes, rest)
  | '\\' :: c :: rest => do
    let e ← escape? c
    let (codes, rest) ← readString rest
    return (e.toNat :: codes, rest)
  | c :: rest =>
    if c = '\\' ∨ c.toNat < 32 then none
    else do
      let (codes, rest) ← readString rest
      return (c.toNat :: codes, rest)

theorem length_readString {s : List Char} {codes : List Nat} {rest : List Char} (h : readString s = some (codes, rest)) :
    rest.length < s.length := by
  fun_induction readString s generalizing codes rest with
  | case1 => simp at h
  | case2 r => simp only [Option.some.injEq, Prod.mk.injEq] at h; simp [h.2]
  | case3 a b c d r ih =>
    simp only [Option.bind_eq_bind, Option.bind_eq_some_iff] at h
    obtain ⟨_, _, ⟨cs, r'⟩, hr, h⟩ := h
    have := ih hr
    cases h
    simp only [List.length_cons]
    omega
  | case4 c r _ ih =>
    simp only [Option.bind_eq_bind, Option.bind_eq_some_iff] at h
    obtain ⟨_, _, ⟨cs, r'⟩, hr, h⟩ := h
    have := ih hr
    cases h
    simp only [List.length_cons]
    omega
  | case5 => simp at h
  | case6 c r _ _ _ _ ih =>
    obtain ⟨⟨cs, r'⟩, hr, h⟩ := Option.bind_eq_some_iff.mp h
    have := ih hr
    cases h
    simp only [List.length_cons]
    omega

def isHighHalf (n : Nat) : Bool := 0xD800 ≤ n && n < 0xDC00

def isLowHalf (n : Nat) : Bool := 0xDC00 ≤ n && n < 0xE000

/-- The characters with the given codes, two of which may be the halves of a pair. -/
def decodeCodes : List Nat → Option (List Char)
  | [] => some []
  | [n] => (Text.charOfCode? n).map (· :: [])
  | m :: n :: rest =>
    if isHighHalf m ∧ isLowHalf n then do
      let c ← Text.charOfCode? (0x10000 + (m - 0xD800) * 0x400 + (n - 0xDC00))
      return c :: (← decodeCodes rest)
    else do
      let c ← Text.charOfCode? m
      return c :: (← decodeCodes (n :: rest))

/-! ## Words -/

def isWordChar (c : Char) : Bool := Text.isAlphanumeric c || c == '-' || c == '+' || c == '.'

def isNonEmptyDigits (s : List Char) : Bool := !s.isEmpty && s.all Text.isDigit

/-- Is this nothing, or a mark for an exponent and an integer? -/
def isExponent : List Char → Bool
  | [] => true
  | e :: '+' :: rest => (e == 'e' || e == 'E') && isNonEmptyDigits rest
  | e :: '-' :: rest => (e == 'e' || e == 'E') && isNonEmptyDigits rest
  | e :: rest => (e == 'e' || e == 'E') && isNonEmptyDigits rest

/-- The value of a number without a sign. -/
def unsigned? (s : List Char) : Option JsonValue := do
  let whole := s.takeWhile Text.isDigit
  let rest := s.dropWhile Text.isDigit
  guard (whole = ['0'] ∨ (isNonEmptyDigits whole ∧ whole.head? ≠ some '0'))
  match rest with
  | [] =>
    let n ← Text.number? 10 whole
    return if n < UInt64.size then .natural n else .otherNumber
  | '.' :: rest =>
    guard (isNonEmptyDigits (rest.takeWhile Text.isDigit) ∧ isExponent (rest.dropWhile Text.isDigit))
    return .otherNumber
  | rest =>
    guard (isExponent rest)
    return .otherNumber

def word? (s : List Char) : Option JsonValue :=
  if s = "null".toList then some .null
  else if s = "true".toList then some (.bool true)
  else if s = "false".toList then some (.bool false)
  else
    match s with
    | '-' :: rest => (unsigned? rest).map fun _ => .otherNumber
    | s => unsigned? s

/-! ## Tokens -/

def punctuation? (c : Char) : Option JsonToken :=
  match c with
  | '[' => some openArray
  | ']' => some closeArray
  | '{' => some openObject
  | '}' => some closeObject
  | ',' => some comma
  | ':' => some colon
  | _ => none

def isSpace (c : Char) : Bool := c == ' ' || c == '\t' || c == '\n' || c == '\r'

/-- The tokens of a text. -/
def readAll : List Char → Option (List JsonToken)
  | [] => some []
  | c :: rest =>
    if isSpace c then readAll rest
    else
      match punctuation? c with
      | some t => (readAll rest).map (t :: ·)
      | none =>
        if c = '"' then
          match _h : readString rest with
          | none => none
          | some (codes, rest) =>
            let v := match decodeCodes codes with
              | some s => .string (String.ofList s)
              | none => .broken
            (readAll rest).map (scalar v :: ·)
        else if isWordChar c then do
          let v ← word? (c :: rest.takeWhile isWordChar)
          return scalar v :: (← readAll (rest.dropWhile isWordChar))
        else none
  termination_by s => s.length
  decreasing_by
    all_goals simp_wf
    · have := length_readString _h; omega
    · have := (List.dropWhile_suffix (l := rest) isWordChar).length_le; omega

end JsonToken

namespace JsonValue

/-- An array or an object without its end. -/
inductive OpenValue where
  /-- The items so far, last one first. -/
  | array (items : List JsonValue)
  /-- The members so far, last one first. A member whose key is broken has none. -/
  | object (members : List (Option String × JsonValue))
  /-- An object behind a key. -/
  | member (members : List (Option String × JsonValue)) (key : Option String)

/-- What may come next. -/
inductive Expected where
  | value
  | valueOrEnd
  | key
  | keyOrEnd
  | colon
  | commaOrEnd
  deriving DecidableEq

structure Reading where
  stack : List OpenValue := []
  expected : Expected := .value
  /-- The value, once it is complete. -/
  result : Option JsonValue := none

namespace Reading

/-- An object, which is broken when one of its keys is. -/
def closed (members : List (Option String × JsonValue)) : JsonValue :=
  match members.reverse.mapM fun m => m.1.map fun key => (key, m.2) with
  | some ms => .object ms
  | none => .broken

/-- Put a complete value where it belongs. -/
def add (v : JsonValue) : List OpenValue → Option Reading
  | [] => some { expected := .commaOrEnd, result := v }
  | .array items :: stack => some { stack := .array (v :: items) :: stack, expected := .commaOrEnd }
  | .member members key :: stack => some { stack := .object ((key, v) :: members) :: stack, expected := .commaOrEnd }
  | .object _ :: _ => none

def step (r : Reading) (t : JsonToken) : Option Reading :=
  if r.result.isSome then none
  else
    match r.expected, t, r.stack with
    | .value, .scalar v, stack => add v stack
    | .valueOrEnd, .scalar v, stack => add v stack
    | .value, .openArray, stack => some { stack := .array [] :: stack, expected := .valueOrEnd }
    | .valueOrEnd, .openArray, stack => some { stack := .array [] :: stack, expected := .valueOrEnd }
    | .value, .openObject, stack => some { stack := .object [] :: stack, expected := .keyOrEnd }
    | .valueOrEnd, .openObject, stack => some { stack := .object [] :: stack, expected := .keyOrEnd }
    | .valueOrEnd, .closeArray, .array _ :: stack => add (.array []) stack
    | .keyOrEnd, .closeObject, .object _ :: stack => add (.object []) stack
    | .key, .scalar (.string k), .object ms :: stack => some { stack := .member ms (some k) :: stack, expected := .colon }
    | .key, .scalar .broken, .object ms :: stack => some { stack := .member ms none :: stack, expected := .colon }
    | .keyOrEnd, .scalar (.string k), .object ms :: stack => some { stack := .member ms (some k) :: stack, expected := .colon }
    | .keyOrEnd, .scalar .broken, .object ms :: stack => some { stack := .member ms none :: stack, expected := .colon }
    | .colon, .colon, stack => some { stack, expected := .value }
    | .commaOrEnd, .comma, .array items :: stack => some { stack := .array items :: stack, expected := .value }
    | .commaOrEnd, .comma, .object ms :: stack => some { stack := .object ms :: stack, expected := .key }
    | .commaOrEnd, .closeArray, .array items :: stack => add (.array items.reverse) stack
    | .commaOrEnd, .closeObject, .object ms :: stack => add (closed ms) stack
    | _, _, _ => none

end Reading

/-- The value that a text stands for. -/
def read? (s : List Char) : Option JsonValue := do
  (← (← JsonToken.readAll s).foldlM Reading.step {}).result

end JsonValue

end MarkdownTemplates
