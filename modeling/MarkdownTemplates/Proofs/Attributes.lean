import MarkdownTemplates.Attributes
import MarkdownTemplates.Proofs.Dict
import MarkdownTemplates.Proofs.Text

/-!
# Attribute blocks are read as they are written

A key or a flag that is a bare word, and does not look like one of the short forms, is one token of a block, and a value in quotes
is another, whatever its characters are. Reading the tokens in their order gives back the attributes.
-/

namespace MarkdownTemplates.Attributes

/-- Can a block have the text as a key or a flag? -/
structure IsPlainName (name : String) : Prop where
  ne_nil : name.toList ≠ []
  chars : ∀ c ∈ name.toList, isWordChar c = true
  head : ∀ c ∈ name.toList.head?, c ≠ '#' ∧ c ≠ '.'

structure HasPlainNames (a : Attributes) : Prop where
  keys : ∀ key ∈ a.values.keys, IsPlainName key
  flags : ∀ name ∈ a.flags.toList, IsPlainName name

instance (name : String) : Decidable (IsPlainName name) :=
  decidable_of_iff (name.toList ≠ [] ∧ name.toList.all isWordChar = true
      ∧ name.toList.head?.toList.all (fun c => c ≠ '#' ∧ c ≠ '.') = true)
    ⟨fun ⟨h, hc, hh⟩ => ⟨h, by simpa using hc, by simpa using hh⟩,
      fun h => ⟨h.ne_nil, by simpa using h.chars, by simpa using h.head⟩⟩

instance (a : Attributes) : Decidable a.HasPlainNames :=
  decidable_of_iff (a.values.keys.all (fun key => IsPlainName key) = true ∧ a.flags.toList.all (fun name => IsPlainName name) = true)
    ⟨fun ⟨hk, hf⟩ => ⟨by simpa using hk, by simpa using hf⟩, fun h => ⟨by simpa using h.keys, by simpa using h.flags⟩⟩

variable {a : Attributes} {q c : Char} {rest : List Char}

/-! ## Quoted values -/

theorem takeQuoted_escape (hq : q ≠ '\\') (hn : q ≠ '\n') (v rest : List Char) :
    takeQuoted q (escape q v ++ q :: rest) = (some (escape q v), rest) := by
  induction v with
  | nil => simp [escape, takeQuoted, hq]
  | cons c v ih =>
    rw [escape]
    split_ifs with h
    · have hc : c ≠ '\n' := by
        rintro rfl
        rcases h with h | h
        · cases h
        · exact hn h.symm
      simp [takeQuoted, hc, ih]
    · obtain ⟨hs, hcq⟩ := not_or.mp h
      simp [takeQuoted, hs, hcq, ih]

theorem unquote?_escape (v : List Char) : unquote? (some '"') (escape '"' v ++ ['"']) = some v := by
  induction v with
  | nil => simp [escape, unquote?]
  | cons c v ih =>
    rw [escape]
    split_ifs with h
    · rcases h with rfl | rfl <;> simp [unquote?, escaped?, ih]
    · obtain ⟨hs, hcq⟩ := not_or.mp h
      rw [List.cons_append, unquote?.eq_def]
      simp [hs, hcq, ih]

theorem unquote_escape (v : List Char) : unquote '"' (escape '"' v) = v := by
  simp [unquote, unquote?, unquote?_escape]

theorem mem_escape {d : Char} {v : List Char} (h : d ∈ escape q v) : d ∈ v ∨ d = '\\' := by
  induction v with
  | nil => cases h
  | cons c v ih =>
    rw [escape] at h
    split_ifs at h
    · rcases List.mem_cons.mp h with rfl | h
      · exact .inr rfl
      · rcases List.mem_cons.mp h with rfl | h
        · exact .inl List.mem_cons_self
        · exact (ih h).imp_left (List.mem_cons_of_mem _)
    · rcases List.mem_cons.mp h with rfl | h
      · exact .inl List.mem_cons_self
      · exact (ih h).imp_left (List.mem_cons_of_mem _)

/-! ## Tokens -/

theorem not_isWordChar (h : isWordChar c = true) : isSeparator c = false ∧ c ≠ '=' ∧ c ≠ '"' ∧ c ≠ '\'' ∧ c ≠ '{' ∧ c ≠ '}' := by
  simpa [isWordChar, and_assoc, and_left_comm, and_comm] using h

theorem tokens_word {w : List Char} (hne : w ≠ []) (hw : ∀ c ∈ w, isWordChar c = true)
    (hr : ∀ c ∈ rest.head?, isWordChar c = false) : tokens (w ++ rest) = .word w :: tokens rest := by
  cases w with
  | nil => exact absurd rfl hne
  | cons c w =>
    have hc := hw c List.mem_cons_self
    have hw : ∀ c ∈ w, isWordChar c = true := fun c hm => hw c (List.mem_cons_of_mem _ hm)
    obtain ⟨hs, he, hd, hq, -, -⟩ := not_isWordChar hc
    rw [List.cons_append, tokens, Text.takeWhile_append_of_head hw hr, Text.dropWhile_append_of_head hw hr]
    simp [hs, he, hd, hq, hc]

theorem tokens_quoted (hq : q = '"' ∨ q = '\'') (v rest : List Char) :
    tokens (q :: (escape q v ++ q :: rest)) = .quoted q (escape q v) :: tokens rest := by
  have hseparator : isSeparator q = false := by rcases hq with rfl | rfl <;> decide
  have hequals : q ≠ '=' := by rcases hq with rfl | rfl <;> decide
  have htake : takeQuoted q (escape q v ++ q :: rest) = (some (escape q v), rest) :=
    takeQuoted_escape (by rcases hq with rfl | rfl <;> decide) (by rcases hq with rfl | rfl <;> decide) v rest
  rw [tokens, if_neg (by simp [hseparator]), if_neg hequals, if_pos hq]
  split
  · rename_i body rest' h
    rw [htake] at h
    cases h
    rfl
  · rename_i rest' h
    rw [htake] at h
    cases h

theorem tokens_space (rest : List Char) : tokens (' ' :: rest) = tokens rest := by
  rw [tokens, if_pos (by decide)]

/-- A key with a value in quotes `q`. -/
def assignment (q : Char) (key value : String) : List Char := key.toList ++ '=' :: q :: escape q value.toList ++ [q]

theorem tokens_assignment (hq : q = '"' ∨ q = '\'') {key : String} (h : IsPlainName key) (value : String) (rest : List Char) :
    tokens (assignment q key value ++ rest) =
      .word key.toList :: .equals :: .quoted q (escape q value.toList) :: tokens rest := by
  have hsource : assignment q key value ++ rest = key.toList ++ ('=' :: (q :: (escape q value.toList ++ q :: rest))) := by
    simp [assignment]
  have hequals : ∀ s, tokens ('=' :: s) = .equals :: tokens s := by
    intro s
    rw [tokens, if_neg (by decide), if_pos rfl]
  rw [hsource, tokens_word h.ne_nil h.chars (by simp [isWordChar]), hequals, tokens_quoted hq]

def entrySource (e : String × String) : List Char := e.1.toList ++ '=' :: '"' :: escape '"' e.2.toList ++ ['"']

def entryTokens (e : String × String) : List Token := [.word e.1.toList, .equals, .quoted '"' (escape '"' e.2.toList)]

theorem tokens_entrySource {e : String × String} (h : IsPlainName e.1) (rest : List Char) :
    tokens (entrySource e ++ rest) = entryTokens e ++ tokens rest :=
  tokens_assignment (.inl rfl) h e.2 rest

theorem tokens_flag {name : String} (h : IsPlainName name) (hr : ∀ c ∈ rest.head?, c = ' ') :
    tokens (name.toList ++ rest) = [.word name.toList] ++ tokens rest := by
  have hr : ∀ c ∈ rest.head?, isWordChar c = false := by
    intro c hc
    rw [hr c hc]
    decide
  exact tokens_word h.ne_nil h.chars hr

/-- The parts of a block with their tokens. -/
def parts (a : Attributes) : List (List Char × List Token) :=
  a.values.entries.map (fun e => (entrySource e, entryTokens e)) ++
    a.flags.toList.map fun name => (name.toList, [.word name.toList])

theorem body_eq_join (a : Attributes) : a.body = Text.join [' '] (a.parts.map Prod.fst) := by
  rw [body, parts, List.map_append, List.map_map, List.map_map]
  rfl

theorem tokens_join {parts : List (List Char × List Token)}
    (h : ∀ p ∈ parts, ∀ rest : List Char, (∀ c ∈ rest.head?, c = ' ') → tokens (p.1 ++ rest) = p.2 ++ tokens rest) :
    tokens (Text.join [' '] (parts.map Prod.fst)) = parts.flatMap Prod.snd := by
  have hnil : tokens [] = [] := by rw [tokens]
  induction parts with
  | nil => exact hnil
  | cons p parts ih =>
    have hp := h p List.mem_cons_self
    have ih := ih fun p hm => h p (List.mem_cons_of_mem _ hm)
    cases parts with
    | nil => simpa [Text.join, hnil] using hp [] (by simp)
    | cons p' parts =>
      have hspace := hp (' ' :: Text.join [' '] ((p' :: parts).map Prod.fst)) (by simp)
      rw [tokens_space, ih] at hspace
      simpa [Text.join] using hspace

theorem HasPlainNames.tokens_body (h : a.HasPlainNames) : tokens a.body =
    a.values.entries.flatMap entryTokens ++ a.flags.toList.map fun name => .word name.toList := by
  rw [body_eq_join, tokens_join]
  · rw [parts, List.flatMap_append, List.flatMap_map, List.flatMap_map]
    rw [List.map_eq_flatMap (l := a.flags.toList)]
  · intro p hp rest hr
    rcases List.mem_append.mp hp with hp | hp
    · obtain ⟨e, he, rfl⟩ := List.mem_map.mp hp
      exact tokens_entrySource (h.keys e.1 (List.mem_map_of_mem he)) rest
    · obtain ⟨name, hn, rfl⟩ := List.mem_map.mp hp
      exact tokens_flag (h.flags name hn) hr

/-! ## Reading -/

theorem addTokens_quoted {key : String} (h : IsPlainName key) (a : Attributes) (q : Char) (body : List Char) (ts : List Token) :
    addTokens a (.word key.toList :: .equals :: .quoted q body :: ts) = addTokens (a.setValue key (unquote q body)) ts := by
  have hkey := String.ofList_toList (s := key)
  have hhead := h.head
  cases hl : key.toList with
  | nil => exact absurd hl h.ne_nil
  | cons c l =>
    rw [hl] at hkey hhead
    obtain ⟨h₁, h₂⟩ := hhead c rfl
    rw [addTokens, hkey]
    · rintro id ⟨⟩
      exact h₁ rfl
    · rintro name ⟨⟩
      exact h₂ rfl

theorem addTokens_entryTokens {e : String × String} (h : IsPlainName e.1) (a : Attributes) (ts : List Token) :
    addTokens a (entryTokens e ++ ts) = addTokens (a.setValue e.1 e.2.toList) ts :=
  (addTokens_quoted h a '"' _ ts).trans (by rw [unquote_escape])

theorem addTokens_flag {name : String} (h : IsPlainName name) (a : Attributes) {ts : List Token} (hts : ts.head? ≠ some .equals) :
    addTokens a (.word name.toList :: ts) = addTokens (a.addFlag name.toList) ts := by
  have hhead := h.head
  cases hl : name.toList with
  | nil => exact absurd hl h.ne_nil
  | cons c l =>
    rw [hl] at hhead
    obtain ⟨h₁, h₂⟩ := hhead c rfl
    rw [addTokens]
    · rintro id ⟨⟩
      exact h₁ rfl
    · rintro name ⟨⟩
      exact h₂ rfl
    · rintro rest rfl
      exact hts rfl

theorem addTokens_entries {es : List (String × String)} (h : ∀ e ∈ es, IsPlainName e.1) (a : Attributes) (ts : List Token) :
    addTokens a (es.flatMap entryTokens ++ ts) = addTokens { a with values := es.foldl (fun d e => d.insert e.1 e.2) a.values } ts := by
  induction es generalizing a with
  | nil => rfl
  | cons e es ih =>
    rw [List.flatMap_cons, List.append_assoc, addTokens_entryTokens (h e List.mem_cons_self),
      ih fun e he => h e (List.mem_cons_of_mem _ he)]
    simp [setValue]

theorem addTokens_flags {names : List String} (h : ∀ name ∈ names, IsPlainName name) (a : Attributes) :
    addTokens a (names.map fun name => .word name.toList) =
      { a with flags := names.foldl NameSet.insert a.flags } := by
  induction names generalizing a with
  | nil => rw [List.map_nil, addTokens]; rfl
  | cons name names ih =>
    have hhead : (names.map fun name => Token.word name.toList).head? ≠ some .equals := by
      cases names <;> simp
    rw [List.map_cons, addTokens_flag (h name List.mem_cons_self) a hhead, ih fun name hn => h name (List.mem_cons_of_mem _ hn)]
    simp [addFlag]

/-- What is written for attributes is read as these attributes. -/
theorem HasPlainNames.parse_body (h : a.HasPlainNames) : parse a.body = a := by
  have hvalues : a.values.entries.foldl (fun d e => d.insert e.1 e.2) (∅ : Dict String) = a.values := Dict.ofList_entries a.values
  have hflags : a.flags.toList.foldl NameSet.insert ∅ = a.flags := by
    have hu : a.flags.toList.foldl NameSet.insert ∅ = a.flags.entries.foldl (fun d e => Dict.insert d e.1 e.2) ∅ := by
      rw [NameSet.toList, Dict.keys, List.foldl_map]
      rfl
    rw [hu]
    exact Dict.ofList_entries a.flags
  have hkeys : ∀ e ∈ a.values.entries, IsPlainName e.1 := fun e he => h.keys e.1 (List.mem_map_of_mem he)
  rw [parse, h.tokens_body, addTokens_entries hkeys, addTokens_flags h.flags, hvalues, hflags]

/-- Without a line feed in a value there is none in the block. -/
theorem HasPlainNames.lineFeed_notMem (h : a.HasPlainNames) (hv : ∀ v ∈ a.values.values, '\n' ∉ v.toList) : '\n' ∉ a.source := by
  have hword : isWordChar '\n' = false := by decide
  have hplain : ∀ {name : String}, IsPlainName name → '\n' ∉ name.toList := by
    intro name hn hm
    rw [hn.chars _ hm] at hword
    cases hword
  have hbody : '\n' ∉ a.body := by
    intro hm
    rcases Text.mem_join hm with hm | ⟨p, hp, hm⟩
    · simp at hm
    · rcases List.mem_append.mp hp with hp | hp
      · obtain ⟨e, he, rfl⟩ := List.mem_map.mp hp
        have hkey := hplain (h.keys e.1 (List.mem_map_of_mem he))
        have hvalue := hv e.2 (List.mem_map_of_mem he)
        have hescape : '\n' ∉ escape '"' e.2.toList := fun hm => (mem_escape hm).elim hvalue (by decide)
        simp [hkey, hescape] at hm
      · obtain ⟨name, hn, rfl⟩ := List.mem_map.mp hp
        exact hplain (h.flags name hn) hm
  rw [source]
  split_ifs <;> simp [hbody]

/-! ## What is read has plain names -/

/-- Is every word of the tokens one? -/
def AreWords (ts : List Token) : Prop := ∀ w, .word w ∈ ts → w ≠ [] ∧ ∀ c ∈ w, isWordChar c = true

theorem areWords_tokens (s : List Char) : AreWords (tokens s) := by
  fun_induction tokens s with
  | case1 => simp [AreWords]
  | case2 c r hs ih => exact ih
  | case3 r hs ih => simpa [AreWords] using ih
  | case4 c r hs he hq body rest hb ih => simpa [AreWords] using ih
  | case5 c r hs he hq rest hb ih => simpa [AreWords] using ih
  | case6 c r hs he hq hw ih =>
    intro w hm
    rcases List.mem_cons.mp hm with h | hm
    · obtain rfl : w = c :: r.takeWhile isWordChar := by simpa using h
      refine ⟨by simp, fun d hd => ?_⟩
      rcases List.mem_cons.mp hd with rfl | hd
      · exact hw
      · exact List.mem_takeWhile_imp hd
    · exact ih w hm
  | case7 c r hs he hq hw ih => simpa [AreWords] using ih

theorem isPlainName_of_word {w : List Char} (h : w ≠ [] ∧ ∀ c ∈ w, isWordChar c = true) (h₁ : ∀ id, w = '#' :: id → False)
    (h₂ : ∀ name, w = '.' :: name → False) : IsPlainName (String.ofList w) := by
  refine ⟨by simpa using h.1, by simpa using h.2, ?_⟩
  rw [String.toList_ofList]
  rintro c hc
  cases w with
  | nil => simp at hc
  | cons d w =>
    obtain rfl : d = c := by simpa using hc
    exact ⟨fun he => h₁ w (by rw [he]), fun he => h₂ w (by rw [he])⟩

theorem HasPlainNames.setValue (h : a.HasPlainNames) {key : String} (hk : IsPlainName key) (v : List Char) :
    (a.setValue key v).HasPlainNames := by
  refine ⟨fun k hm => ?_, h.flags⟩
  rw [Dict.mem_keys, Attributes.setValue, Dict.contains, Dict.get?_insert] at hm
  split_ifs at hm with he
  · exact he ▸ hk
  · exact h.keys k (Dict.mem_keys.mpr hm)

theorem HasPlainNames.addFlag (h : a.HasPlainNames) {name : List Char} (hn : IsPlainName (String.ofList name)) :
    (a.addFlag name).HasPlainNames := by
  refine ⟨h.keys, fun k hm => ?_⟩
  rw [NameSet.mem_toList, Attributes.addFlag, NameSet.contains_insert] at hm
  rcases hm with rfl | hm
  · exact hn
  · exact h.flags k (NameSet.mem_toList.mpr hm)

theorem HasPlainNames.addClass (h : a.HasPlainNames) (name : List Char) : (a.addClass name).HasPlainNames := by
  have hclass : IsPlainName "class" := ⟨by simp, by simp [isWordChar, isSeparator], by simp⟩
  rw [Attributes.addClass]
  cases a.values.get? "class" with
  | none => exact h.setValue hclass name
  | some classes => exact h.setValue hclass _

theorem HasPlainNames.addTokens {ts : List Token} (h : a.HasPlainNames) (hw : AreWords ts) : (addTokens a ts).HasPlainNames := by
  have htail : ∀ {t ts}, AreWords (t :: ts) → AreWords ts := fun hw w hm => hw w (List.mem_cons_of_mem _ hm)
  have hid : IsPlainName "id" := ⟨by simp, by simp [isWordChar, isSeparator], by simp⟩
  fun_induction Attributes.addTokens a ts with
  | case1 => exact h
  | case2 a id rest ih =>
    refine ih ?_ (htail hw)
    split_ifs
    · exact h
    · exact h.setValue hid id
  | case3 a name rest ih =>
    refine ih ?_ (htail hw)
    split_ifs
    · exact h
    · exact h.addClass name
  | case4 a key h₁ h₂ => exact h.setValue (isPlainName_of_word (hw key List.mem_cons_self) h₁ h₂) []
  | case5 a key h₁ h₂ q body rest ih =>
    exact ih (h.setValue (isPlainName_of_word (hw key List.mem_cons_self) h₁ h₂) _) (htail (htail (htail hw)))
  | case6 a key h₁ h₂ value rest ih =>
    exact ih (h.setValue (isPlainName_of_word (hw key List.mem_cons_self) h₁ h₂) _) (htail (htail (htail hw)))
  | case7 a key _ _ other rest _ _ ih => exact ih h (htail (htail hw))
  | case8 a name rest h₁ h₂ _ ih =>
    exact ih (h.addFlag (isPlainName_of_word (hw name List.mem_cons_self) h₁ h₂)) (htail hw)
  | case9 a t rest _ _ _ _ ih => exact ih h (htail hw)

theorem hasPlainNames_empty : ({} : Attributes).HasPlainNames := by
  have hkeys : (∅ : Dict String).keys = [] := rfl
  have hflags : (∅ : NameSet).toList = [] := rfl
  exact ⟨by simp [hkeys], by simp [hflags]⟩

theorem hasPlainNames_parse (source : List Char) : (parse source).HasPlainNames :=
  hasPlainNames_empty.addTokens (areWords_tokens source)

/-! ## Writing and reading -/

/-- Between its braces, the block of some attributes has their body; without attributes there is neither. -/
theorem dropLast_tail_source (a : Attributes) : a.source.tail.dropLast = a.body := by
  rw [source]
  split_ifs with he
  · obtain ⟨hv, hf⟩ : a.values.isEmpty = true ∧ a.flags.isEmpty = true := by simpa [isEmpty] using he
    rw [body, List.isEmpty_iff.mp hv, NameSet.toList, Dict.keys, List.isEmpty_iff.mp hf]
    rfl
  · rw [List.cons_append, List.tail_cons, List.dropLast_concat]

/-- The inside of the block that is written for some attributes is read as these attributes exactly when their keys and flags
are plain names, whatever their values are. All attributes that are read have plain names, and so are read again from what is
written for them. -/
theorem parse_inside_source_iff :
    (∀ a : Attributes, parse a.source.tail.dropLast = a ↔ a.HasPlainNames) ∧
      ∀ text, (parse text).HasPlainNames ∧ parse (parse text).source.tail.dropLast = parse text := by
  have hinside : ∀ a : Attributes, a.HasPlainNames → parse a.source.tail.dropLast = a := by
    intro a ha
    rw [dropLast_tail_source]
    exact ha.parse_body
  refine ⟨fun a => ⟨fun h => ?_, hinside a⟩, fun text => ?_⟩
  · rw [← h]
    exact hasPlainNames_parse _
  · exact ⟨hasPlainNames_parse text, hinside _ (hasPlainNames_parse text)⟩

end MarkdownTemplates.Attributes
