import MarkdownTemplates.Proofs.Directive.Head

/-!
# Values in quotes

A value is put in quotes with a backslash before every backslash and every quote of the same kind. Whatever the quotes are, the
end of the value is found, and so is the end of its block. But the backslashes are taken out again only between double quotes:
between single quotes a backslash stands for itself, and the quote behind it closes.
-/

namespace MarkdownTemplates.Attributes

variable {q : Char} {v w t : List Char}

/-! ## Escapes -/

theorem escape_append (q : Char) (v w : List Char) : escape q (v ++ w) = escape q v ++ escape q w := by
  induction v with
  | nil => rfl
  | cons c v ih =>
    rw [List.cons_append, escape, escape, ih]
    split_ifs <;> rfl

theorem length_le_length_escape (q : Char) (v : List Char) : v.length ≤ (escape q v).length := by
  induction v with
  | nil => simp
  | cons c v ih =>
    rw [escape]
    split_ifs <;> simp only [List.length_cons] <;> omega

/-- A text is its own escaped form when there is nothing to escape in it, and only then. -/
theorem escape_eq_self_iff : escape q v = v ↔ '\\' ∉ v ∧ q ∉ v := by
  induction v with
  | nil => simp [escape]
  | cons c v ih =>
    rw [escape]
    split_ifs with h
    · constructor
      · intro he
        have hlength := congrArg List.length he
        have hle := length_le_length_escape q v
        simp only [List.length_cons] at hlength
        omega
      · rintro ⟨hs, hq⟩
        rcases h with rfl | rfl
        · exact absurd List.mem_cons_self hs
        · exact absurd List.mem_cons_self hq
    · obtain ⟨hs, hq⟩ := not_or.mp h
      simp [ih, Ne.symm hs, Ne.symm hq]

/-! ## Between single quotes -/

theorem unquote?_single (s : List Char) : unquote? none ('\'' :: s) = unquote? (some '\'') s := by
  rw [unquote?.eq_def]
  simp

/-- Without a single quote, a text between single quotes stands for itself. -/
theorem unquote?_append (h : '\'' ∉ t) (rest : List Char) :
    unquote? (some '\'') (t ++ rest) = (unquote? (some '\'') rest).map (t ++ ·) := by
  induction t with
  | nil => simp
  | cons c t ih =>
    rw [List.mem_cons, not_or] at h
    rw [List.cons_append, unquote?.eq_def]
    simp [Ne.symm h.1, ih h.2, Function.comp_def]

theorem unquote_of_notMem (h : '\'' ∉ t) : unquote '\'' t = t := by
  have hclose : unquote? (some '\'') ['\''] = some [] := by simp [unquote?]
  rw [unquote, List.cons_append, unquote?_single, unquote?_append h, hclose]
  simp

theorem notMem_escape_concat (h : '\'' ∉ t) : '\'' ∉ escape '\'' t ++ ['\\'] := by
  rw [List.mem_append, List.mem_singleton, not_or]
  exact ⟨fun hm => (mem_escape hm).elim h (by decide), by decide⟩

/-- The first quote that is to be kept closes, and leaves its backslash behind. -/
theorem exists_unquote_escape (h : '\'' ∉ t) (w : List Char) :
    ∃ r, unquote '\'' (escape '\'' (t ++ '\'' :: w)) = (escape '\'' t ++ ['\\']) ++ r := by
  have hescape : escape '\'' (t ++ '\'' :: w) = (escape '\'' t ++ ['\\']) ++ '\'' :: escape '\'' w := by
    rw [escape_append]
    simp [escape]
  rw [unquote, List.cons_append, unquote?_single, hescape, List.append_assoc, unquote?_append (notMem_escape_concat h)]
  cases unquote? (some '\'') ('\'' :: escape '\'' w ++ ['\'']) with
  | none => exact ⟨'\'' :: escape '\'' w, rfl⟩
  | some r => exact ⟨r, rfl⟩

theorem append_cons_ne_append {c : Char} {u : List Char} (hc : c ∉ u) (hlength : t.length < u.length) (w r : List Char) :
    t ++ c :: w ≠ u ++ r := by
  intro he
  have hget : (t ++ c :: w)[t.length]? = u[t.length]? := by
    rw [he, List.getElem?_append_left hlength]
  rw [List.getElem?_append_right le_rfl, Nat.sub_self, List.getElem?_cons_zero] at hget
  exact hc (List.mem_of_getElem? hget.symm)

/-- Between single quotes only a text that needs no escapes is decoded as it was. -/
theorem unquote_single_escape_iff : unquote '\'' (escape '\'' v) = v ↔ '\\' ∉ v ∧ '\'' ∉ v := by
  by_cases hq : '\'' ∈ v
  · refine iff_of_false (fun he => ?_) fun hv => hv.2 hq
    obtain ⟨t, w, rfl, ht⟩ := List.eq_append_cons_of_mem hq
    obtain ⟨r, hr⟩ := exists_unquote_escape ht w
    -- What is decoded has no quote yet where the text has its first one.
    have hlength : t.length < (escape '\'' t ++ ['\\']).length := by
      have hle := length_le_length_escape '\'' t
      rw [List.length_append, List.length_singleton]
      omega
    exact append_cons_ne_append (notMem_escape_concat ht) hlength w r (he.symm.trans hr)
  · have hplain : '\'' ∉ escape '\'' v := fun hm => (mem_escape hm).elim hq (by decide)
    rw [unquote_of_notMem hplain, escape_eq_self_iff]

theorem unquote_escape_iff (hq : q = '"' ∨ q = '\'') : unquote q (escape q v) = v ↔ q = '"' ∨ '\\' ∉ v ∧ '\'' ∉ v := by
  rcases hq with rfl | rfl
  · simp [unquote_escape]
  · rw [unquote_single_escape_iff]
    simp

/-! ## Assignments -/

theorem parse_assignment (hq : q = '"' ∨ q = '\'') {key : String} (h : IsPlainName key) (value : String) :
    parse (assignment q key value) = ({} : Attributes).setValue key (unquote q (escape q value.toList)) := by
  have htokens := tokens_assignment hq h value []
  have hnil : tokens [] = [] := by rw [tokens]
  rw [List.append_nil, hnil] at htokens
  rw [parse, htokens, addTokens_quoted h, addTokens]

/-- A value in quotes of either kind, with its backslashes and its quotes of this kind escaped, ends where it was ended, and its
block is found up to the brace. What is read has the one key and no flag. The value is the one that was written when the quotes
are double quotes, or when there was nothing to escape, and only then. -/
theorem assignment_decodes_iff (hq : q = '"' ∨ q = '\'') {key : String} (h : IsPlainName key) (value : String) :
    (∀ rest, Head.takeBlock? none (assignment q key value ++ '}' :: rest) = some (assignment q key value, rest)) ∧
      (parse (assignment q key value)).flags = ∅ ∧ (parse (assignment q key value)).values.keys = [key] ∧
      ((parse (assignment q key value)).values.get? key = some value ↔
        q = '"' ∨ '\\' ∉ value.toList ∧ '\'' ∉ value.toList) := by
  rw [parse_assignment hq h]
  refine ⟨fun rest => ?_, rfl, rfl, ?_⟩
  · rw [Head.passes_assignment hq h value, Head.takeBlock?]
    simp
  · rw [setValue, Dict.get?_insert_self, Option.some.injEq, ← unquote_escape_iff hq, String.ofList_eq]

/-- Double quotes in a value in double quotes are read. -/
theorem assignment_decodes_iff_said : IsPlainName "k" ∧
    Head.takeBlock? none (assignment '"' "k" "say \"hi\"" ++ ['}']) = some (assignment '"' "k" "say \"hi\"", []) ∧
    (parse (assignment '"' "k" "say \"hi\"")).values.get? "k" = some "say \"hi\"" := by
  have hkey : IsPlainName "k" := by decide
  obtain ⟨hblock, -, -, hvalue⟩ := assignment_decodes_iff (.inl rfl) hkey "say \"hi\""
  exact ⟨hkey, hblock [], hvalue.mpr (.inl rfl)⟩

/-- Of a single quote in a value in single quotes, only the backslash before it is read. -/
theorem not_assignment_decodes :
    ¬ ∀ (q : Char) (value : String), q = '"' ∨ q = '\'' → '\n' ∉ value.toList →
      Head.takeBlock? none (assignment q "k" value ++ ['}']) = some (assignment q "k" value, []) ∧
        parse (assignment q "k" value) = ({} : Attributes).setValue "k" value.toList := by
  intro h
  have hread : parse (assignment '\'' "k" "it's") = ({} : Attributes).setValue "k" "it\\s".toList := by decide +kernel
  obtain ⟨-, hparse⟩ := h '\'' "it's" (.inr rfl) (by decide)
  rw [hread] at hparse
  exact absurd hparse (by decide +kernel)

end MarkdownTemplates.Attributes
