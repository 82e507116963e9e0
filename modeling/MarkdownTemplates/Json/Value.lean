import MarkdownTemplates.Dict

/-!
# JSON values

Values, and how they are written on several lines.
-/

namespace MarkdownTemplates

inductive JsonValue where
  | null
  | bool (b : Bool)
  /-- An integer from zero to the largest one of sixty-four bits. -/
  | natural (n : Nat)
  /-- Any other number. -/
  | otherNumber
  | string (s : String)
  /-- A value with a text that is no sequence of characters, since it has half of a surrogate pair. -/
  | broken
  | array (items : List JsonValue)
  | object (members : List (String × JsonValue))

namespace JsonValue

/-! ## Writing -/

def hexDigits (width n : Nat) : List Char := (List.range width).reverse.map fun i => Nat.digitChar (n >>> (4 * i) % 16)

def escapeChar (c : Char) : List Char :=
  if c = '"' then ['\\', '"']
  else if c = '\\' then ['\\', '\\']
  else if c = '\n' then ['\\', 'n']
  else if c = '\r' then ['\\', 'r']
  else if c = '\t' then ['\\', 't']
  else if c = '\x08' then ['\\', 'b']
  else if c = '\x0c' then ['\\', 'f']
  else if c.toNat < 32 then '\\' :: 'u' :: hexDigits 4 c.toNat
  else [c]

def quote (s : String) : List Char := '"' :: s.toList.flatMap escapeChar ++ ['"']

/-- A line feed and two blanks for each level. -/
def newLine (level : Nat) : List Char := '\n' :: List.replicate (2 * level) ' '

mutual

/-- The text of a value inside `level` others, with each item and each member on a line of its own. -/
def write (level : Nat) : JsonValue → List Char
  | null => "null".toList
  | bool b => (if b then "true" else "false").toList
  | natural n => (toString n).toList
  | otherNumber => ['0']
  | string s => quote s
  | broken => ['"', '"']
  | array [] => ['[', ']']
  | array (v :: vs) =>
    '[' :: newLine (level + 1) ++ write (level + 1) v ++ writeItems (level + 1) vs ++ newLine level ++ [']']
  | object [] => ['{', '}']
  | object ((key, v) :: ms) =>
    '{' :: newLine (level + 1) ++ quote key ++ ':' :: ' ' :: write (level + 1) v ++ writeMembers (level + 1) ms
      ++ newLine level ++ ['}']

def writeItems (level : Nat) : List JsonValue → List Char
  | [] => []
  | v :: vs => ',' :: newLine level ++ write level v ++ writeItems level vs

def writeMembers (level : Nat) : List (String × JsonValue) → List Char
  | [] => []
  | (key, v) :: ms => ',' :: newLine level ++ quote key ++ ':' :: ' ' :: write level v ++ writeMembers level ms

end

def pretty (v : JsonValue) : String := String.ofList (v.write 0)

/-! ## Building -/

def strings (l : List String) : JsonValue := array (l.map string)

def optional {α : Type} (f : α → JsonValue) : Option α → JsonValue
  | none => null
  | some a => f a

def ofDict {α : Type} (f : α → JsonValue) (d : Dict α) : JsonValue := object (d.entries.map fun (key, a) => (key, f a))

/-! ## Taking apart -/

def asString? : JsonValue → Option String
  | string s => some s
  | _ => none

def asNatural? : JsonValue → Option Nat
  | natural n => some n
  | _ => none

def asList? {α : Type} (f : JsonValue → Option α) : JsonValue → Option (List α)
  | array items => items.mapM f
  | _ => none

def asDict? {α : Type} (f : JsonValue → Option α) : JsonValue → Option (Dict α)
  | object members => (members.mapM fun m => (f m.2).map fun a => (m.1, a)).map Dict.ofList
  | _ => none

/-- The members of a record with the given fields. Other members do not count, but no field may come twice. An array stands for
a record too, whose fields come in order; the last `spare` of them may be left out. -/
def asRecord? (fields : List String) (spare : Nat) : JsonValue → Option (List (String × JsonValue))
  | object members =>
    let known := members.filter fun m => fields.contains m.1
    if (known.map Prod.fst).Nodup then some known else none
  | array items =>
    if fields.length ≤ items.length + spare ∧ items.length ≤ fields.length then some (fields.zip items) else none
  | _ => none

/-- A field that must be there. -/
def field? {α : Type} (members : List (String × JsonValue)) (name : String) (f : JsonValue → Option α) : Option α :=
  (members.lookup name).bind f

/-- A field that may be left out or be null. -/
def optionalField? {α : Type} (members : List (String × JsonValue)) (name : String) (f : JsonValue → Option α) :
    Option (Option α) :=
  match members.lookup name with
  | none => some none
  | some null => some none
  | some v => (f v).map some

/-- A field that has a value when it is left out. -/
def fieldOr? {α : Type} (members : List (String × JsonValue)) (name : String) (f : JsonValue → Option α) (a : α) : Option α :=
  match members.lookup name with
  | none => some a
  | some v => f v

end JsonValue

end MarkdownTemplates
