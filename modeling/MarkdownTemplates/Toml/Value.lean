/-!
# TOML values

Values, and how the tables of a document grow line by line. A table may be opened by a header once, and what a value or a header
has closed is not opened again.
-/

namespace MarkdownTemplates

/-- How a table came to be. -/
inductive TableOrigin where
  /-- It has a header. -/
  | header
  /-- A header named a table in it. -/
  | implicit
  /-- A key with dots named an entry in it. -/
  | dotted
  /-- It is a value. -/
  | inline
  deriving DecidableEq, Repr

inductive TomlValue where
  | string (s : String)
  | integer (n : Int)
  | float
  | bool (b : Bool)
  /-- A date, a time or both. -/
  | moment
  | array (items : List TomlValue)
  /-- Tables that share a header. -/
  | tables (items : List TomlValue)
  | table (origin : TableOrigin) (entries : List (String × TomlValue))

/-- The entries of a table, in the order in which they came. -/
abbrev TomlTable := List (String × TomlValue)

namespace TomlTable

def set (key : String) (v : TomlValue) : TomlTable → TomlTable
  | [] => [(key, v)]
  | (k, w) :: rest => if k = key then (k, v) :: rest else (k, w) :: set key v rest

/-- Change the table at the end of a path, and make the tables on the way that are missing. The path belongs to a key with dots or
to a header; only the latter leads through tables that have headers. -/
def update (isDotted : Bool) (change : TableOrigin → TomlTable → Option TomlTable) :
    (path : List String) → TableOrigin → TomlTable → Option TomlTable
  | [], origin, t => change origin t
  | key :: path, _, t =>
    match t.lookup key with
    | none => do
      let origin := if isDotted then TableOrigin.dotted else .implicit
      return t ++ [(key, .table origin (← update isDotted change path origin []))]
    | some (.table origin entries) => do
      guard (origin ≠ .inline ∧ ¬ (isDotted ∧ origin = .header))
      return set key (.table origin (← update isDotted change path origin entries)) t
    | some (.tables items) => do
      guard ¬ isDotted
      match items.getLast? with
      | some (.table origin entries) =>
        let last := TomlValue.table origin (← update isDotted change path origin entries)
        return set key (.tables (items.dropLast ++ [last])) t
      | _ => none
    | some _ => none

/-- Put a new entry into a table. -/
def add (key : String) (v : TomlValue) (t : TomlTable) : Option TomlTable := do
  guard (t.lookup key).isNone
  return t ++ [(key, v)]

/-- Put an entry where a key with dots says. The table for it must have no other origin. -/
def addAt (path : List String) (v : TomlValue) (t : TomlTable) : Option TomlTable := do
  let key ← path.getLast?
  update true (fun origin t => do
    guard (path.length = 1 ∨ origin = .dotted)
    add key v t) path.dropLast .header t

/-- Open a table with a header. -/
def openTable (path : List String) (t : TomlTable) : Option TomlTable := do
  let key ← path.getLast?
  update false (fun _ t =>
    match t.lookup key with
    | none => some (t ++ [(key, .table .header [])])
    | some (.table .implicit entries) => some (set key (.table .header entries) t)
    | some _ => none) path.dropLast .header t

/-- Open one more table of those that share a header. -/
def openItem (path : List String) (t : TomlTable) : Option TomlTable := do
  let key ← path.getLast?
  update false (fun _ t =>
    match t.lookup key with
    | none => some (t ++ [(key, .tables [.table .header []])])
    | some (.tables items) => some (set key (.tables (items ++ [.table .header []])) t)
    | some _ => none) path.dropLast .header t

end TomlTable

end MarkdownTemplates
