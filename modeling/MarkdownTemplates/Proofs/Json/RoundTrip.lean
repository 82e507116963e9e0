import MarkdownTemplates.Proofs.Json.Tokens

/-!
# Reading what was written

The tokens of a written value are put together to the value again, but for numbers that are too large.
-/

namespace MarkdownTemplates

namespace JsonValue

open JsonToken (comma colon closeArray closeObject openArray openObject scalar)

namespace Reading

/-- The members of an object as they are kept while it is read, all of them with a key. -/
def kept (ms : List (String × JsonValue)) : List (Option String × JsonValue) := ms.map fun m => (some m.1, m.2)

theorem mapM_kept (ms : List (String × JsonValue)) :
    (kept ms).mapM (fun m => m.1.map fun key => (key, m.2)) = some ms := by
  induction ms with
  | nil => rfl
  | cons m ms ih =>
    rw [kept, List.map_cons, List.mapM_cons, ← kept, ih]
    rfl

theorem closed_reverse_kept (ms : List (String × JsonValue)) : closed (kept ms).reverse = .object ms := by
  rw [closed, List.reverse_reverse, mapM_kept]

theorem add_array (v : JsonValue) (items : List JsonValue) (stack : List OpenValue) :
    add v (.array items :: stack) = some ⟨.array (v :: items) :: stack, .commaOrEnd, none⟩ := rfl

theorem add_member (v : JsonValue) (ms : List (Option String × JsonValue)) (key : Option String)
    (stack : List OpenValue) :
    add v (.member ms key :: stack) = some ⟨.object ((key, v) :: ms) :: stack, .commaOrEnd, none⟩ := rfl

mutual

/-- The tokens of a value put the value where it belongs. -/
theorem foldlM_tokens : ∀ (v : JsonValue) (stack : List OpenValue) {e : Expected}, e = .value ∨ e = .valueOrEnd →
    v.tokens.foldlM step ⟨stack, e, none⟩ = add v.reread stack
  | .null, stack, e, he => by rcases he with rfl | rfl <;> simp [tokens, step, reread]
  | .bool b, stack, e, he => by rcases he with rfl | rfl <;> simp [tokens, step, reread]
  | .natural n, stack, e, he => by rcases he with rfl | rfl <;> simp [tokens, step]
  | .otherNumber, stack, e, he => by rcases he with rfl | rfl <;> simp [tokens, step, reread]
  | .string s, stack, e, he => by rcases he with rfl | rfl <;> simp [tokens, step, reread]
  | .broken, stack, e, he => by rcases he with rfl | rfl <;> simp [tokens, step, reread]
  | .array [], stack, e, he => by rcases he with rfl | rfl <;> simp [tokens, step, reread, rereadItems]
  | .array (v :: vs), stack, e, he => by
    have hopen : step ⟨stack, e, none⟩ openArray = some ⟨.array [] :: stack, .valueOrEnd, none⟩ := by
      rcases he with rfl | rfl <;> rfl
    have hv := foldlM_tokens v (.array [] :: stack) (e := .valueOrEnd) (.inr rfl)
    have hvs := foldlM_itemTokens vs [v.reread] stack
    simp only [tokens, List.cons_append, List.foldlM_cons, List.foldlM_append, hopen, Option.bind_eq_bind,
      Option.bind_some, hv, add_array, hvs]
    simp [step, reread, rereadItems]
  | .object [], stack, e, he => by rcases he with rfl | rfl <;> simp [tokens, step, reread, rereadMembers]
  | .object ((key, v) :: ms), stack, e, he => by
    have hopen : step ⟨stack, e, none⟩ openObject = some ⟨.object [] :: stack, .keyOrEnd, none⟩ := by
      rcases he with rfl | rfl <;> rfl
    have hkey : step ⟨.object [] :: stack, .keyOrEnd, none⟩ (scalar (.string key)) =
        some ⟨.member [] (some key) :: stack, .colon, none⟩ := rfl
    have hcolon : step ⟨.member [] (some key) :: stack, .colon, none⟩ colon =
        some ⟨.member [] (some key) :: stack, .value, none⟩ := rfl
    have hv := foldlM_tokens v (.member [] (some key) :: stack) (e := .value) (.inl rfl)
    have hms := foldlM_memberTokens ms [(key, v.reread)] stack
    simp only [tokens, List.cons_append, List.foldlM_cons, List.foldlM_append, hopen, hkey, hcolon, Option.bind_eq_bind,
      Option.bind_some, hv, add_member]
    rw [show [(some key, v.reread)] = (kept [(key, v.reread)]).reverse from rfl, hms]
    simp [step, closed_reverse_kept, reread, rereadMembers]

theorem foldlM_itemTokens : ∀ (vs items : List JsonValue) (stack : List OpenValue),
    (itemTokens vs).foldlM step ⟨.array items :: stack, .commaOrEnd, none⟩ =
      some ⟨.array ((rereadItems vs).reverse ++ items) :: stack, .commaOrEnd, none⟩
  | [], items, stack => rfl
  | v :: vs, items, stack => by
    have hcomma : step ⟨.array items :: stack, .commaOrEnd, none⟩ comma =
        some ⟨.array items :: stack, .value, none⟩ := rfl
    have hv := foldlM_tokens v (.array items :: stack) (e := .value) (.inl rfl)
    have hvs := foldlM_itemTokens vs (v.reread :: items) stack
    simp only [itemTokens, List.cons_append, List.foldlM_cons, List.foldlM_append, hcomma, Option.bind_eq_bind,
      Option.bind_some, hv, add_array, hvs, rereadItems]
    simp

theorem foldlM_memberTokens : ∀ (ms before : List (String × JsonValue)) (stack : List OpenValue),
    (memberTokens ms).foldlM step ⟨.object (kept before).reverse :: stack, .commaOrEnd, none⟩ =
      some ⟨.object (kept (before ++ rereadMembers ms)).reverse :: stack, .commaOrEnd, none⟩
  | [], before, stack => by simp [memberTokens, rereadMembers]
  | (key, v) :: ms, before, stack => by
    have hcomma : step ⟨.object (kept before).reverse :: stack, .commaOrEnd, none⟩ comma =
        some ⟨.object (kept before).reverse :: stack, .key, none⟩ := rfl
    have hkey : step ⟨.object (kept before).reverse :: stack, .key, none⟩ (scalar (.string key)) =
        some ⟨.member (kept before).reverse (some key) :: stack, .colon, none⟩ := rfl
    have hcolon : step ⟨.member (kept before).reverse (some key) :: stack, .colon, none⟩ colon =
        some ⟨.member (kept before).reverse (some key) :: stack, .value, none⟩ := rfl
    have hv := foldlM_tokens v (.member (kept before).reverse (some key) :: stack) (e := .value) (.inl rfl)
    have hms := foldlM_memberTokens ms (before ++ [(key, v.reread)]) stack
    have hk : (some key, v.reread) :: (kept before).reverse = (kept (before ++ [(key, v.reread)])).reverse := by
      simp [kept]
    simp only [memberTokens, List.cons_append, List.foldlM_cons, List.foldlM_append, hcomma, hkey, hcolon,
      Option.bind_eq_bind, Option.bind_some, hv, add_member, hk, hms, rereadMembers]
    simp

end

end Reading

/-- A value that is written and read is the same, but for what no text can stand for. -/
theorem read?_pretty (v : JsonValue) : read? v.pretty.toList = some v.reread := by
  have ht : JsonToken.readAll (v.write 0) = some v.tokens := by
    have hw : JsonToken.EndsWord [] := by simp [JsonToken.EndsWord]
    have h := JsonToken.readAll_write 0 v hw
    simpa [JsonToken.readAll] using h
  have hr : v.tokens.foldlM Reading.step {} = Reading.add v.reread [] := Reading.foldlM_tokens v [] (.inl rfl)
  rw [read?, pretty, String.toList_ofList, ht]
  simp only [Option.bind_eq_bind, Option.bind_some, hr]
  rfl

end JsonValue

end MarkdownTemplates
