import Mathlib
import MarkdownTemplates.Json.Reader

/-!
# The tokens of a written value

A written value is cut into the tokens that its structure has. What stands behind the value must not begin like a word, since a
number goes on as long as there are characters of words.
-/

namespace MarkdownTemplates

namespace Text

theorem number?_concat {base : Nat} {digits : List Char} (h : digits ≠ []) (c : Char) :
    number? base (digits ++ [c]) = (number? base digits).bind fun n => (digit? base c).map (base * n + ·) := by
  simp [number?, h]

theorem digit?_ten_digitChar : ∀ d < 10, digit? 10 (Nat.digitChar d) = some d := by decide

theorem isDigit_digitChar : ∀ d < 10, isDigit (Nat.digitChar d) = true := by decide

theorem number?_toDigits (n : Nat) : number? 10 (Nat.toDigits 10 n) = some n := by
  induction n using Nat.strong_induction_on with
  | _ n ih =>
    rw [Nat.toDigits_eq_if (by decide)]
    split
    · rename_i h
      simp [number?, digit?_ten_digitChar n h]
    · rename_i h
      rw [number?_concat Nat.toDigits_ne_nil, ih (n / 10) (by omega), digit?_ten_digitChar (n % 10) (by omega)]
      simp only [Option.bind_some, Option.map_some, Option.some.injEq]
      omega

theorem isDigit_of_mem_toDigits {n : Nat} {c : Char} (h : c ∈ Nat.toDigits 10 n) : isDigit c = true := by
  induction n using Nat.strong_induction_on with
  | _ n ih =>
    rw [Nat.toDigits_eq_if (by decide)] at h
    split at h
    · rename_i hn
      rw [List.mem_singleton.mp h]
      exact isDigit_digitChar n hn
    · rename_i hn
      rcases List.mem_append.mp h with h | h
      · exact ih (n / 10) (by omega) h
      · rw [List.mem_singleton.mp h]
        exact isDigit_digitChar (n % 10) (by omega)

/-- No number but zero is written with a zero in front. -/
theorem head?_toDigits {n : Nat} (h : n ≠ 0) : (Nat.toDigits 10 n).head? ≠ some '0' := by
  induction n using Nat.strong_induction_on with
  | _ n ih =>
    rw [Nat.toDigits_eq_if (by decide)]
    split
    · rename_i hn
      have hd : ∀ d < 10, d ≠ 0 → Nat.digitChar d ≠ '0' := by decide
      simpa using hd n hn h
    · rename_i hn
      rw [List.head?_append_of_ne_nil _ Nat.toDigits_ne_nil]
      exact ih (n / 10) (by omega) (by omega)

end Text

namespace JsonValue

/-! ## Numbers that are too large -/

mutual

/-- What is left of a value when it is written and read: larger numbers and broken texts are not kept. -/
def reread : JsonValue → JsonValue
  | null => null
  | bool b => bool b
  | natural n => if n < 2 ^ 64 then natural n else otherNumber
  | otherNumber => natural 0
  | string s => string s
  | broken => string ""
  | array vs => array (rereadItems vs)
  | object ms => object (rereadMembers ms)

def rereadItems : List JsonValue → List JsonValue
  | [] => []
  | v :: vs => reread v :: rereadItems vs

def rereadMembers : List (String × JsonValue) → List (String × JsonValue)
  | [] => []
  | (key, v) :: ms => (key, reread v) :: rereadMembers ms

end

theorem rereadItems_eq_map (vs : List JsonValue) : rereadItems vs = vs.map reread := by
  induction vs with
  | nil => rfl
  | cons v vs ih => rw [rereadItems, ih, List.map_cons]

theorem rereadMembers_eq_map (ms : List (String × JsonValue)) :
    rereadMembers ms = ms.map fun m => (m.1, m.2.reread) := by
  induction ms with
  | nil => rfl
  | cons m ms ih => rw [rereadMembers, ih, List.map_cons]

/-! ## Tokens -/

open JsonToken

mutual

/-- The tokens of a written value. -/
def tokens : JsonValue → List JsonToken
  | array [] => [openArray, closeArray]
  | array (v :: vs) => openArray :: tokens v ++ itemTokens vs ++ [closeArray]
  | object [] => [openObject, closeObject]
  | object ((key, v) :: ms) => openObject :: scalar (string key) :: colon :: tokens v ++ memberTokens ms ++ [closeObject]
  | null => [scalar null]
  | bool b => [scalar (bool b)]
  | natural n => [scalar (natural n).reread]
  | otherNumber => [scalar (natural 0)]
  | string s => [scalar (string s)]
  | broken => [scalar (string "")]

def itemTokens : List JsonValue → List JsonToken
  | [] => []
  | v :: vs => comma :: tokens v ++ itemTokens vs

def memberTokens : List (String × JsonValue) → List JsonToken
  | [] => []
  | (key, v) :: ms => comma :: scalar (string key) :: colon :: tokens v ++ memberTokens ms

end

end JsonValue

namespace JsonToken

open JsonValue (tokens itemTokens memberTokens write writeItems writeMembers quote newLine escapeChar)

/-! ## White space and punctuation -/

theorem readAll_space {c : Char} (h : isSpace c = true) (rest : List Char) : readAll (c :: rest) = readAll rest := by
  rw [readAll, if_pos h]

theorem readAll_newLine (level : Nat) (rest : List Char) : readAll (newLine level ++ rest) = readAll rest := by
  rw [newLine, List.cons_append, readAll_space (by decide)]
  induction 2 * level with
  | zero => rfl
  | succ n ih => rw [List.replicate_succ, List.cons_append, readAll_space (by decide), ih]

theorem readAll_punctuation {c : Char} {t : JsonToken} (hs : isSpace c = false) (h : punctuation? c = some t)
    (rest : List Char) : readAll (c :: rest) = (readAll rest).map (t :: ·) := by
  rw [readAll, if_neg (by simp [hs]), h]

/-! ## Texts -/

theorem number?_hexDigits : ∀ n < 32, Text.number? 16 (JsonValue.hexDigits 4 n) = some n := by decide

theorem exists_hexDigits_eq (n : Nat) : ∃ a b c d, JsonValue.hexDigits 4 n = [a, b, c, d] := ⟨_, _, _, _, rfl⟩

theorem readString_escapeChar (c : Char) (rest : List Char) :
    readString (escapeChar c ++ rest) = (readString rest).map fun r => (c.toNat :: r.1, r.2) := by
  unfold escapeChar
  split_ifs with h₁ h₂ h₃ h₄ h₅ h₆ h₇ h₈
  · subst h₁; simp [readString, escape?, Option.map_eq_bind]
  · subst h₂; simp [readString, escape?, Option.map_eq_bind]
  · subst h₃; simp [readString, escape?, Option.map_eq_bind]
  · subst h₄; simp [readString, escape?, Option.map_eq_bind]
  · subst h₅; simp [readString, escape?, Option.map_eq_bind]
  · subst h₆; simp [readString, escape?, Option.map_eq_bind]
  · subst h₇; simp [readString, escape?, Option.map_eq_bind]
  · obtain ⟨x, y, z, w, hx⟩ := exists_hexDigits_eq c.toNat
    have hn := number?_hexDigits c.toNat h₈
    rw [hx] at hn ⊢
    simp [readString, hn, Option.map_eq_bind]
  · have hc : c ≠ '\\' ∧ 32 ≤ c.toNat := ⟨h₂, by omega⟩
    rw [List.singleton_append]
    rw [readString.eq_def]
    split <;> simp_all [Option.map_eq_bind]

theorem readString_flatMap_escapeChar (s rest : List Char) :
    readString (s.flatMap escapeChar ++ '"' :: rest) = some (s.map Char.toNat, rest) := by
  induction s with
  | nil => simp [readString]
  | cons c s ih => rw [List.flatMap_cons, List.append_assoc, readString_escapeChar, ih, Option.map_some, List.map_cons]

theorem charOfCode?_toNat (c : Char) : Text.charOfCode? c.toNat = some c := by
  have h : c.toNat.isValidChar := c.valid
  rw [Text.charOfCode?, if_pos h, Char.ofNat_toNat]

theorem isHighHalf_toNat (c : Char) : isHighHalf c.toNat = false := by
  have h : c.toNat.isValidChar := c.valid
  simp only [Nat.isValidChar] at h
  simp only [isHighHalf, Bool.and_eq_false_iff, decide_eq_false_iff_not]
  omega

theorem decodeCodes_map_toNat (s : List Char) : decodeCodes (s.map Char.toNat) = some s := by
  induction s with
  | nil => rfl
  | cons c s ih =>
    cases s with
    | nil => simp [decodeCodes, charOfCode?_toNat]
    | cons d s =>
      rw [List.map_cons] at ih
      rw [List.map_cons, List.map_cons, decodeCodes, if_neg (by simp [isHighHalf_toNat]), charOfCode?_toNat, ih]
      rfl

theorem readAll_quote (s : String) (rest : List Char) :
    readAll (quote s ++ rest) = (readAll rest).map (scalar (.string s) :: ·) := by
  have hq : quote s ++ rest = '"' :: (s.toList.flatMap escapeChar ++ '"' :: rest) := by
    simp [quote]
  rw [hq, readAll, if_neg (by decide)]
  have hp : punctuation? '"' = none := by decide
  simp only [hp, if_true]
  split
  · rename_i h
    simp [readString_flatMap_escapeChar] at h
  · rename_i codes rest' h
    rw [readString_flatMap_escapeChar] at h
    cases h
    simp [decodeCodes_map_toNat]

/-! ## Words -/

/-- May a word end in front of this text? -/
def EndsWord (rest : List Char) : Prop := ∀ c ∈ rest.head?, isWordChar c = false

theorem takeWhile_append_of_endsWord {w rest : List Char} (hw : w.all isWordChar = true) (h : EndsWord rest) :
    (w ++ rest).takeWhile isWordChar = w ∧ (w ++ rest).dropWhile isWordChar = rest := by
  induction w with
  | nil =>
    cases rest with
    | nil => simp
    | cons c rest => simp [h c (by simp)]
  | cons c w ih =>
    simp only [List.all_cons, Bool.and_eq_true] at hw
    simp [hw.1, ih hw.2]

theorem readAll_word {w rest : List Char} {v : JsonValue} (hw : w.all isWordChar = true) (hv : word? w = some v)
    (h : EndsWord rest) : readAll (w ++ rest) = (readAll rest).map (scalar v :: ·) := by
  cases w with
  | nil => exact absurd hv (by simp [word?, unsigned?, isNonEmptyDigits, guard])
  | cons c w =>
    simp only [List.all_cons, Bool.and_eq_true] at hw
    have hs : isSpace c = false := by
      by_contra hc
      simp only [Bool.not_eq_false, isSpace, Bool.or_eq_true, beq_iff_eq] at hc
      rcases hc with ((rfl | rfl) | rfl) | rfl <;> exact absurd hw.1 (by decide)
    have hp : punctuation? c = none := by
      by_contra hc
      unfold punctuation? at hc
      split at hc <;> first | exact absurd hw.1 (by decide) | exact hc rfl
    have hq : c ≠ '"' := by
      rintro rfl
      exact absurd hw.1 (by decide)
    obtain ⟨ht, hd⟩ := takeWhile_append_of_endsWord hw.2 h
    rw [List.cons_append, readAll, if_neg (by simp [hs]), hp]
    simp only [hq, if_false, hw.1, if_true, ht, hd, hv]
    cases readAll rest <;> rfl

theorem word?_toDigits (n : Nat) : word? (Nat.toDigits 10 n) = some (JsonValue.natural n).reread := by
  have hall : ∀ c ∈ Nat.toDigits 10 n, Text.isDigit c = true := fun c => Text.isDigit_of_mem_toDigits
  have hne : ∀ c w, c :: w = Nat.toDigits 10 n → Text.isDigit c = true := fun c w h => hall c (h ▸ List.mem_cons_self)
  have hu : unsigned? (Nat.toDigits 10 n) = some (JsonValue.natural n).reread := by
    have ht : (Nat.toDigits 10 n).takeWhile Text.isDigit = Nat.toDigits 10 n := by
      simpa [List.takeWhile_eq_self_iff] using hall
    have hd : (Nat.toDigits 10 n).dropWhile Text.isDigit = [] := by
      simpa [List.dropWhile_eq_nil_iff] using hall
    have hg : Nat.toDigits 10 n = ['0'] ∨ (isNonEmptyDigits (Nat.toDigits 10 n) = true ∧
        (Nat.toDigits 10 n).head? ≠ some '0') := by
      by_cases h : n = 0
      · left; subst h; rfl
      · refine .inr ⟨?_, Text.head?_toDigits h⟩
        simpa [isNonEmptyDigits, Nat.toDigits_ne_nil] using hall
    simp only [unsigned?, ht, hd, Text.number?_toDigits, hg, guard, if_true, JsonValue.reread]
    rfl
  unfold word?
  split_ifs with h₁ h₂ h₃
  · exact absurd (hne 'n' _ h₁.symm) (by decide)
  · exact absurd (hne 't' _ h₂.symm) (by decide)
  · exact absurd (hne 'f' _ h₃.symm) (by decide)
  · split
    · rename_i h
      exact absurd (hne '-' _ h.symm) (by decide)
    · exact hu

theorem all_isWordChar_toDigits (n : Nat) : (Nat.toDigits 10 n).all isWordChar = true := by
  rw [List.all_eq_true]
  intro c hc
  simp [isWordChar, Text.isAlphanumeric, Text.isDigit_of_mem_toDigits hc]

/-! ## Values -/

theorem endsWord_cons {c : Char} (h : isWordChar c = false) (rest : List Char) : EndsWord (c :: rest) := by
  intro d hd
  cases hd
  exact h

theorem endsWord_newLine (level : Nat) (rest : List Char) : EndsWord (newLine level ++ rest) :=
  endsWord_cons (by decide) _

theorem endsWord_writeItems (level : Nat) (vs : List JsonValue) {rest : List Char} (h : EndsWord rest) :
    EndsWord (writeItems level vs ++ rest) := by
  cases vs with
  | nil => exact h
  | cons v vs => exact endsWord_cons (by decide) _

theorem endsWord_writeMembers (level : Nat) (ms : List (String × JsonValue)) {rest : List Char} (h : EndsWord rest) :
    EndsWord (writeMembers level ms ++ rest) := by
  cases ms with
  | nil => exact h
  | cons m ms => exact endsWord_cons (by decide) _

mutual

theorem readAll_write (level : Nat) : ∀ (v : JsonValue) {rest : List Char}, EndsWord rest →
    readAll (write level v ++ rest) = (readAll rest).map (tokens v ++ ·)
  | .null, rest, h => readAll_word (w := "null".toList) (by decide) rfl h
  | .bool true, rest, h => readAll_word (w := "true".toList) (by decide) rfl h
  | .bool false, rest, h => readAll_word (w := "false".toList) (by decide) rfl h
  | .natural n, rest, h => by
    rw [write, tokens, Nat.toString_eq_ofList_toDigits, String.toList_ofList]
    exact readAll_word (all_isWordChar_toDigits n) (word?_toDigits n) h
  | .otherNumber, rest, h => readAll_word (w := ['0']) (by decide) rfl h
  | .string s, rest, _ => readAll_quote s rest
  | .broken, rest, _ => readAll_quote "" rest
  | .array [], rest, _ => by
    rw [write, tokens]
    simp only [List.cons_append, List.nil_append]
    rw [readAll_punctuation (by decide) (t := openArray) rfl, readAll_punctuation (by decide) (t := closeArray) rfl]
    simp [Function.comp_def]
  | .array (v :: vs), rest, h => by
    rw [write, tokens]
    simp only [List.cons_append, List.append_assoc, List.nil_append]
    rw [readAll_punctuation (by decide) (t := openArray) rfl, readAll_newLine,
      readAll_write (level + 1) v (endsWord_writeItems _ vs (endsWord_newLine _ _)),
      readAll_writeItems (level + 1) vs (endsWord_newLine _ _), readAll_newLine,
      readAll_punctuation (by decide) (t := closeArray) rfl]
    simp [Function.comp_def]
  | .object [], rest, _ => by
    rw [write, tokens]
    simp only [List.cons_append, List.nil_append]
    rw [readAll_punctuation (by decide) (t := openObject) rfl, readAll_punctuation (by decide) (t := closeObject) rfl]
    simp [Function.comp_def]
  | .object ((key, v) :: ms), rest, h => by
    rw [write, tokens]
    simp only [List.cons_append, List.append_assoc, List.nil_append]
    rw [readAll_punctuation (by decide) (t := openObject) rfl, readAll_newLine, readAll_quote,
      readAll_punctuation (by decide) (t := colon) rfl, readAll_space (by decide),
      readAll_write (level + 1) v (endsWord_writeMembers _ ms (endsWord_newLine _ _)),
      readAll_writeMembers (level + 1) ms (endsWord_newLine _ _), readAll_newLine,
      readAll_punctuation (by decide) (t := closeObject) rfl]
    simp [Function.comp_def]

theorem readAll_writeItems (level : Nat) : ∀ (vs : List JsonValue) {rest : List Char}, EndsWord rest →
    readAll (writeItems level vs ++ rest) = (readAll rest).map (itemTokens vs ++ ·)
  | [], rest, _ => by simp [writeItems, itemTokens]
  | v :: vs, rest, h => by
    rw [writeItems, itemTokens]
    simp only [List.cons_append, List.append_assoc]
    rw [readAll_punctuation (by decide) (t := comma) rfl, readAll_newLine,
      readAll_write level v (endsWord_writeItems _ vs h), readAll_writeItems level vs h]
    simp [Function.comp_def]

theorem readAll_writeMembers (level : Nat) : ∀ (ms : List (String × JsonValue)) {rest : List Char}, EndsWord rest →
    readAll (writeMembers level ms ++ rest) = (readAll rest).map (memberTokens ms ++ ·)
  | [], rest, _ => by simp [writeMembers, memberTokens]
  | (key, v) :: ms, rest, h => by
    rw [writeMembers, memberTokens]
    simp only [List.cons_append, List.append_assoc]
    rw [readAll_punctuation (by decide) (t := comma) rfl, readAll_newLine, readAll_quote,
      readAll_punctuation (by decide) (t := colon) rfl, readAll_space (by decide),
      readAll_write level v (endsWord_writeMembers _ ms h), readAll_writeMembers level ms h]
    simp [Function.comp_def]

end

end JsonToken

end MarkdownTemplates
