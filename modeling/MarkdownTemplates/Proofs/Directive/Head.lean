import MarkdownTemplates.Directive.Head
import MarkdownTemplates.Proofs.Attributes

/-!
# Heads are read as they are written

A head that keeps to the grammar is all of what is read from its source. Every head that is read keeps to it.
-/

namespace MarkdownTemplates.Head

/-- Does the head keep to the grammar of names, labels and keys? -/
structure IsReadable (h : Head) : Prop where
  first : ∀ c ∈ h.name.toList.head?, Text.isLetter c = true
  name_ne_nil : h.name.toList ≠ []
  rest : ∀ c ∈ h.name.toList.tail, isNameChar c = true
  label : ∀ l ∈ h.label, ']' ∉ l.toList
  attributes : h.attributes.HasPlainNames

instance (h : Head) : Decidable h.IsReadable :=
  decidable_of_iff (h.name.toList.head?.toList.all Text.isLetter = true ∧ h.name.toList ≠ [] ∧ h.name.toList.tail.all isNameChar = true
      ∧ h.label.toList.all (fun l => ']' ∉ l.toList) = true ∧ h.attributes.HasPlainNames)
    ⟨fun ⟨h₁, h₂, h₃, h₄, h₅⟩ => ⟨by simpa using h₁, h₂, by simpa using h₃, by simpa using h₄, h₅⟩,
      fun h => ⟨by simpa using h.first, h.name_ne_nil, by simpa using h.rest, by simpa using h.label, h.attributes⟩⟩

variable {h : Head} {rest s : List Char}

theorem isNameChar_of_isLetter {c : Char} (h : Text.isLetter c = true) : isNameChar c = true := by
  simp [isNameChar, Text.isAlphanumeric, h]

theorem IsReadable.name (hr : h.IsReadable) : ∀ c ∈ h.name.toList, isNameChar c = true := by
  intro c hm
  rw [← List.cons_head_tail hr.name_ne_nil] at hm
  rcases List.mem_cons.mp hm with rfl | hm
  · exact isNameChar_of_isLetter (hr.first _ (List.head?_eq_some_head _))
  · exact hr.rest c hm

/-! ## Attribute blocks -/

/-- Is the text a piece of a block that ends outside of quotes? -/
def Passes (t : List Char) : Prop := ∀ s, takeBlock? none (t ++ s) = (takeBlock? none s).map fun p => (t ++ p.1, p.2)

theorem passes_nil : Passes [] := by
  intro s
  cases h : takeBlock? none s <;> simp [h]

theorem Passes.append {t u : List Char} (ht : Passes t) (hu : Passes u) : Passes (t ++ u) := by
  intro s
  rw [List.append_assoc, ht, hu, Option.map_map]
  simp [Function.comp_def]

theorem passes_char {c : Char} (h : c ≠ '}' ∧ c ≠ '\n' ∧ c ≠ '"' ∧ c ≠ '\'') : Passes [c] := by
  intro s
  rw [List.singleton_append, takeBlock?]
  simp [h]

theorem passes_word {w : List Char} (hw : ∀ c ∈ w, Attributes.isWordChar c = true) : Passes w := by
  induction w with
  | nil => exact passes_nil
  | cons c w ih =>
    obtain ⟨hs, -, hd, hq, -, hc⟩ := Attributes.not_isWordChar (hw c List.mem_cons_self)
    have hn : c ≠ '\n' := by
      rintro rfl
      simp [Attributes.isSeparator] at hs
    exact (passes_char ⟨hc, hn, hd, hq⟩).append (ih fun d hd => hw d (List.mem_cons_of_mem _ hd))

theorem takeBlock?_escape {q : Char} (hq : q ≠ '\\') (v s : List Char) :
    takeBlock? (some q) (Attributes.escape q v ++ q :: s) =
      (takeBlock? none s).map fun p => (Attributes.escape q v ++ q :: p.1, p.2) := by
  induction v with
  | nil =>
    rw [Attributes.escape, List.nil_append, takeBlock?.eq_def]
    simp [hq]
  | cons c v ih =>
    rw [Attributes.escape]
    split_ifs with h
    · rw [List.cons_append, List.cons_append, takeBlock?.eq_def]
      simp [ih, Function.comp_def]
    · obtain ⟨hs, hc⟩ := not_or.mp h
      rw [List.cons_append, takeBlock?.eq_def]
      simp [hs, hc, ih, Function.comp_def]

theorem passes_quoted {q : Char} (hq : q = '"' ∨ q = '\'') (v : List Char) : Passes (q :: Attributes.escape q v ++ [q]) := by
  have hs : q ≠ '\\' ∧ q ≠ '}' ∧ q ≠ '\n' := by rcases hq with rfl | rfl <;> decide
  intro s
  rw [List.cons_append, List.cons_append, takeBlock?, List.append_assoc, List.singleton_append]
  simp [hq, hs, takeBlock?_escape hs.1, Function.comp_def]

theorem passes_assignment {q : Char} (hq : q = '"' ∨ q = '\'') {key : String} (h : Attributes.IsPlainName key) (value : String) :
    Passes (Attributes.assignment q key value) := by
  have hsource : Attributes.assignment q key value = key.toList ++ (['='] ++ (q :: Attributes.escape q value.toList ++ [q])) := by
    simp [Attributes.assignment]
  rw [hsource]
  exact (passes_word h.chars).append ((passes_char (by decide)).append (passes_quoted hq _))

theorem passes_join {ps : List (List Char)} (h : ∀ p ∈ ps, Passes p) : Passes (Text.join [' '] ps) := by
  induction ps with
  | nil => exact passes_nil
  | cons p ps ih =>
    have hp := h p List.mem_cons_self
    have ih := ih fun q hq => h q (List.mem_cons_of_mem _ hq)
    cases ps with
    | nil => exact hp
    | cons q ps => exact (hp.append (passes_char (by decide))).append ih

theorem passes_body {a : Attributes} (h : a.HasPlainNames) : Passes a.body := by
  rw [Attributes.body]
  refine passes_join fun p hp => ?_
  rcases List.mem_append.mp hp with hp | hp
  · obtain ⟨e, he, rfl⟩ := List.mem_map.mp hp
    exact passes_assignment (.inl rfl) (h.keys e.1 (List.mem_map_of_mem he)) e.2
  · obtain ⟨name, hn, rfl⟩ := List.mem_map.mp hp
    exact passes_word (h.flags name hn).chars

/-! ## Reading what was written -/

theorem takeAttributes?_source {a : Attributes} (h : a.HasPlainNames) : takeAttributes? a.source = some (a, []) := by
  rw [Attributes.source]
  split_ifs with he
  · obtain ⟨hv, hf⟩ : a.values.isEmpty = true ∧ a.flags.isEmpty = true := by simpa [Attributes.isEmpty] using he
    obtain ⟨values, flags⟩ := a
    obtain rfl := Dict.eq_empty hv
    obtain rfl := Dict.eq_empty hf
    rfl
  · rw [List.cons_append, takeAttributes?, passes_body h, takeBlock?]
    simp [h.parse_body]

theorem takeLabel?_some {l : List Char} (h : ']' ∉ l) (rest : List Char) :
    takeLabel? ('[' :: l ++ [']'] ++ rest) = some (some l, rest) := by
  have hl : ∀ c ∈ l, decide (c ≠ ']') = true := by
    intro c hc
    simp only [decide_eq_true_eq]
    rintro rfl
    exact h hc
  have hr : ∀ c ∈ (']' :: rest).head?, decide (c ≠ ']') = false := by simp
  have hs : '[' :: l ++ [']'] ++ rest = '[' :: (l ++ ']' :: rest) := by simp
  rw [hs, takeLabel?, Text.dropWhile_append_of_head hl hr, Text.takeWhile_append_of_head hl hr]

theorem takeLabel?_none (h : s.head? ≠ some '[') : takeLabel? s = some (none, s) := by
  rw [takeLabel?]
  rintro t rfl
  exact h rfl

theorem head?_source (a : Attributes) : a.source.head? = none ∨ a.source.head? = some '{' := by
  rw [Attributes.source]
  split_ifs <;> simp

def labelSource (label : Option String) : List Char := (label.map fun l => '[' :: l.toList ++ [']']).getD []

theorem source_eq (h : Head) : h.source = h.name.toList ++ (labelSource h.label ++ h.attributes.source) :=
  List.append_assoc _ _ _

theorem takeLabel?_labelSource (hr : h.IsReadable) :
    takeLabel? (labelSource h.label ++ h.attributes.source) = some (h.label.map String.toList, h.attributes.source) := by
  cases hl : h.label with
  | none =>
    refine takeLabel?_none ?_
    rcases head?_source h.attributes with he | he <;> simp [labelSource, he]
  | some l => exact takeLabel?_some (hr.label l hl) _

theorem isNameChar_labelSource (h : Head) :
    ∀ d ∈ (labelSource h.label ++ h.attributes.source).head?, isNameChar d = false := by
  cases hl : h.label with
  | some l =>
    rintro d ⟨⟩
    decide
  | none =>
    intro d hd
    rcases head?_source h.attributes with he | he
    · simp [labelSource, he] at hd
    · obtain rfl : '{' = d := by simpa [labelSource, he] using hd
      decide

/-- What is written for a head is read as this head, to its end. -/
theorem IsReadable.parse?_source (hr : h.IsReadable) : parse? h.source = some (h, []) := by
  have hname : String.ofList h.name.toList = h.name := String.ofList_toList
  obtain ⟨c, r, hn⟩ : ∃ c r, h.name.toList = c :: r := List.exists_cons_of_ne_nil hr.name_ne_nil
  have hfirst : Text.isLetter c = true := hr.first c (by rw [hn]; rfl)
  have hrest : ∀ d ∈ r, isNameChar d = true := by simpa [hn] using hr.rest
  rw [source_eq, hn, List.cons_append, parse?, if_pos hfirst,
    Text.dropWhile_append_of_head hrest (isNameChar_labelSource h),
    Text.takeWhile_append_of_head hrest (isNameChar_labelSource h), takeLabel?_labelSource hr]
  simp [takeAttributes?_source hr.attributes, ← hn, hname, Function.comp_def]

theorem IsReadable.lineFeed_notMem (hr : h.IsReadable) (hl : ∀ l ∈ h.label, '\n' ∉ l.toList)
    (hv : ∀ v ∈ h.attributes.values.values, '\n' ∉ v.toList) : '\n' ∉ h.source := by
  have hname : '\n' ∉ h.name.toList := by
    intro hm
    exact absurd (hr.name _ hm) (by decide)
  have hlabel : '\n' ∉ labelSource h.label := by
    cases hc : h.label with
    | none => simp [labelSource]
    | some l => simpa [labelSource] using hl l hc
  rw [source_eq]
  simp [hname, hlabel, hr.attributes.lineFeed_notMem hv]

/-! ## What was read can be written -/

theorem takeLabel?_spec {l : Option (List Char)} (h : takeLabel? s = some (l, rest)) :
    ∀ t ∈ l, ']' ∉ t ∧ ∀ c ∈ t, c ∈ s := by
  rw [takeLabel?.eq_def] at h
  split at h
  · rename_i s
    split at h
    · cases h
    · obtain ⟨rfl, -⟩ := Prod.mk.inj (Option.some.inj h)
      rintro t ⟨⟩
      refine ⟨fun hm => ?_, fun c hc => List.mem_cons_of_mem _ ((List.takeWhile_sublist _).subset hc)⟩
      simpa using List.mem_takeWhile_imp hm
  · obtain ⟨rfl, -⟩ := Prod.mk.inj (Option.some.inj h)
    rintro t ⟨⟩

theorem hasPlainNames_of_takeAttributes? {a : Attributes} (h : takeAttributes? s = some (a, rest)) : a.HasPlainNames := by
  rw [takeAttributes?.eq_def] at h
  split at h
  · obtain ⟨⟨inner, r⟩, -, he⟩ := Option.map_eq_some_iff.mp h
    obtain ⟨rfl, -⟩ := Prod.mk.inj he
    exact Attributes.hasPlainNames_parse inner
  · obtain ⟨rfl, -⟩ := Prod.mk.inj (Option.some.inj h)
    exact Attributes.hasPlainNames_empty

theorem isReadable_of_parse? (hp : parse? s = some (h, rest)) : h.IsReadable ∧ ∀ l ∈ h.label, ∀ c ∈ l.toList, c ∈ s := by
  cases s with
  | nil => cases hp
  | cons c r =>
    rw [parse?] at hp
    split_ifs at hp with hc
    obtain ⟨⟨label, r₁⟩, hlabel, hp⟩ := Option.bind_eq_some_iff.mp hp
    obtain ⟨⟨attributes, r₂⟩, hattributes, hp⟩ := Option.bind_eq_some_iff.mp hp
    obtain ⟨rfl, -⟩ := Prod.mk.inj (Option.some.inj hp)
    have hl := takeLabel?_spec hlabel
    refine ⟨⟨by simpa using hc, by simp, ?_, ?_, hasPlainNames_of_takeAttributes? hattributes⟩, ?_⟩
    · intro d hd
      exact List.mem_takeWhile_imp (by simpa using hd)
    · intro l hm
      obtain ⟨t, ht, rfl⟩ := Option.map_eq_some_iff.mp hm
      simpa using (hl t ht).1
    · intro l hm d hd
      obtain ⟨t, ht, rfl⟩ := Option.map_eq_some_iff.mp hm
      have hd : d ∈ r.dropWhile isNameChar := (hl t ht).2 d (by simpa using hd)
      exact List.mem_cons_of_mem _ ((List.dropWhile_sublist _).subset hd)

end MarkdownTemplates.Head
