import MarkdownTemplates.Attributes

/-!
# Heads of directives

The head of a directive is what follows its colons: a name, a label in brackets, and a block of attributes in braces.
The label and the block may be missing.
-/

namespace MarkdownTemplates

structure Head where
  name : String
  label : Option String := none
  attributes : Attributes := {}
  deriving DecidableEq, Inhabited

namespace Head

def isNameChar (c : Char) : Bool := Text.isAlphanumeric c || c == '-' || c == '_'

/-- The label in front, if there is a bracket, and the text behind it. A bracket that is not closed is an error. -/
def takeLabel? : List Char → Option (Option (List Char) × List Char)
  | '[' :: s =>
    match s.dropWhile (· ≠ ']') with
    | [] => none
    | _ :: rest => some (some (s.takeWhile (· ≠ ']')), rest)
  | s => some (none, s)

/-- The inside of a block up to its closing brace, and the text behind the brace. Quoted text is skipped, and outside of
it a block has no line feed. -/
def takeBlock? (quote : Option Char) : List Char → Option (List Char × List Char)
  | [] => none
  | c :: r =>
    match quote with
    | some q =>
      if c = '\\' then
        match r with
        | [] => none
        | e :: s => (takeBlock? quote s).map (fun (inner, rest) => (c :: e :: inner, rest))
      else (takeBlock? (if c = q then none else quote) r).map (fun (inner, rest) => (c :: inner, rest))
    | none =>
      if c = '}' then some ([], r)
      else if c = '\n' then none
      else
        let quote := if c = '"' ∨ c = '\'' then some c else none
        (takeBlock? quote r).map (fun (inner, rest) => (c :: inner, rest))

/-- The attributes in front, if there is a brace, and the text behind them. A brace that is not closed is an error. -/
def takeAttributes? : List Char → Option (Attributes × List Char)
  | '{' :: s => (takeBlock? none s).map (fun (inner, rest) => (Attributes.parse inner, rest))
  | s => some ({}, s)

/-- Read a head and give back the text behind it. -/
def parse? : List Char → Option (Head × List Char)
  | [] => none
  | c :: r =>
    if Text.isLetter c then do
      let (label, rest) ← takeLabel? (r.dropWhile isNameChar)
      let (attributes, rest) ← takeAttributes? rest
      return (⟨String.ofList (c :: r.takeWhile isNameChar), label.map String.ofList, attributes⟩, rest)
    else none

theorem length_takeLabel?_le {s : List Char} {l : Option (List Char)} {rest : List Char}
    (h : takeLabel? s = some (l, rest)) : rest.length ≤ s.length := by
  unfold takeLabel? at h
  split at h
  · rename_i s
    split at h
    · simp at h
    · rename_i a t ht
      have := (List.dropWhile_suffix (l := s) (· ≠ ']')).length_le
      simp only [Option.some.injEq, Prod.mk.injEq] at h
      grind
  · simp only [Option.some.injEq, Prod.mk.injEq] at h
    grind

theorem length_takeBlock?_lt {quote : Option Char} {s inner rest : List Char}
    (h : takeBlock? quote s = some (inner, rest)) : rest.length < s.length := by
  fun_induction takeBlock? quote s generalizing inner <;>
    simp only [Option.map_eq_some_iff, Prod.exists, Prod.mk.injEq, reduceCtorEq, Option.some.injEq] at h <;> grind

theorem length_takeAttributes?_le {s : List Char} {a : Attributes} {rest : List Char}
    (h : takeAttributes? s = some (a, rest)) : rest.length ≤ s.length := by
  unfold takeAttributes? at h
  split at h
  · simp only [Option.map_eq_some_iff, Prod.exists, Prod.mk.injEq] at h
    obtain ⟨inner, t, ht, -, rfl⟩ := h
    have := length_takeBlock?_lt ht
    simp only [List.length_cons]
    omega
  · simp only [Option.some.injEq, Prod.mk.injEq] at h
    grind

theorem length_parse?_lt {s : List Char} {h : Head} {rest : List Char} (hp : parse? s = some (h, rest)) :
    rest.length < s.length := by
  cases s with
  | nil => simp [parse?] at hp
  | cons c r =>
    simp only [parse?] at hp
    split at hp
    · simp only [Option.bind_eq_bind, Option.bind_eq_some_iff, Prod.exists] at hp
      obtain ⟨label, r1, h1, a, r2, h2, h3⟩ := hp
      have e1 := length_takeLabel?_le h1
      have e2 := length_takeAttributes?_le h2
      have e3 := (List.dropWhile_suffix (l := r) isNameChar).length_le
      simp only [Option.pure_def, Option.some.injEq, Prod.mk.injEq] at h3
      obtain ⟨-, rfl⟩ := h3
      simp only [List.length_cons]
      omega
    · simp at hp

/-- Write the head. -/
def source (h : Head) : List Char :=
  h.name.toList ++ ((h.label.map fun l => '[' :: l.toList ++ [']']).getD []) ++ h.attributes.source

end Head

end MarkdownTemplates
