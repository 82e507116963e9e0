import MarkdownTemplates.Proofs.Dict
import MarkdownTemplates.Toml.Reader

/-!
# The keys of a TOML document

No table of a document that is read has a key twice, however deep it stands. So what is found under a key is all that the document has
to say about it.
-/

namespace MarkdownTemplates

/-- No table in a value has a key twice. -/
inductive TomlValue.HasDistinctKeys : TomlValue → Prop
  | string (s : String) : HasDistinctKeys (string s)
  | integer (n : Int) : HasDistinctKeys (integer n)
  | float : HasDistinctKeys float
  | bool (b : Bool) : HasDistinctKeys (bool b)
  | moment : HasDistinctKeys moment
  | array {items : List TomlValue} (hitems : ∀ v ∈ items, HasDistinctKeys v) : HasDistinctKeys (array items)
  | tables {items : List TomlValue} (hitems : ∀ v ∈ items, HasDistinctKeys v) : HasDistinctKeys (tables items)
  | table {origin : TableOrigin} {t : TomlTable} (hnodup : (t.map Prod.fst).Nodup) (hvalues : ∀ e ∈ t, HasDistinctKeys e.2) :
      HasDistinctKeys (table origin t)

namespace TomlValue

variable {items : List TomlValue}

theorem hasDistinctKeys_array_iff : (array items).HasDistinctKeys ↔ ∀ v ∈ items, v.HasDistinctKeys := by
  constructor
  · intro h
    cases h with
    | array hitems => exact hitems
  · exact .array

theorem hasDistinctKeys_tables_iff : (tables items).HasDistinctKeys ↔ ∀ v ∈ items, v.HasDistinctKeys := by
  constructor
  · intro h
    cases h with
    | tables hitems => exact hitems
  · exact .tables

/-- One more item of tables that share a header. -/
theorem hasDistinctKeys_tables_append {v : TomlValue} (hitems : ∀ w ∈ items, w.HasDistinctKeys) (hv : v.HasDistinctKeys) :
    (tables (items ++ [v])).HasDistinctKeys := by
  refine .tables fun w hw => ?_
  rcases List.mem_append.mp hw with hw | hw
  · exact hitems w hw
  · rw [List.mem_singleton.mp hw]
    exact hv

end TomlValue

namespace TomlTable

open TomlValue (hasDistinctKeys_tables_iff hasDistinctKeys_tables_append)

/-- Neither a table nor one in it has a key twice. -/
structure HasDistinctKeys (t : TomlTable) : Prop where
  nodup : (t.map Prod.fst).Nodup
  values : ∀ e ∈ t, e.2.HasDistinctKeys

variable {t t' entries : TomlTable} {key : String} {path : List String} {v : TomlValue} {origin : TableOrigin} {isDotted : Bool}

theorem hasDistinctKeys_table_iff : (TomlValue.table origin t).HasDistinctKeys ↔ t.HasDistinctKeys := by
  constructor
  · intro h
    cases h with
    | table hnodup hvalues => exact ⟨hnodup, hvalues⟩
  · exact fun h => .table h.nodup h.values

theorem HasDistinctKeys.nil : HasDistinctKeys [] := ⟨List.nodup_nil, by simp⟩

theorem HasDistinctKeys.of_lookup (ht : t.HasDistinctKeys) (h : t.lookup key = some v) : v.HasDistinctKeys :=
  ht.values _ ((Dict.lookup_eq_some_iff ht.nodup).mp h)

theorem HasDistinctKeys.append (ht : t.HasDistinctKeys) (hkey : t.lookup key = none) (hv : v.HasDistinctKeys) :
    HasDistinctKeys (t ++ [(key, v)]) where
  nodup := by
    rw [List.map_append, List.map_singleton, ← List.concat_eq_append]
    exact ht.nodup.concat (Dict.lookup_eq_none_iff.mp hkey)
  values e he := by
    rcases List.mem_append.mp he with he | he
    · exact ht.values e he
    · rw [List.mem_singleton.mp he]
      exact hv

/-- Where there is an entry, another value changes no key. -/
theorem map_fst_set (h : t.lookup key ≠ none) : (set key v t).map Prod.fst = t.map Prod.fst := by
  induction t with
  | nil => simp at h
  | cons e t ih =>
    obtain ⟨k, w⟩ := e
    rw [set]
    split_ifs with hk
    · rfl
    · rw [Dict.lookup_cons_eq_ite, if_neg (Ne.symm hk)] at h
      rw [List.map_cons, List.map_cons, ih h]

theorem mem_set {e : String × TomlValue} (h : e ∈ set key v t) : e ∈ t ∨ e.2 = v := by
  induction t with
  | nil => simp_all [set]
  | cons a t ih =>
    obtain ⟨k, w⟩ := a
    rw [set] at h
    split_ifs at h with hk
    · rcases List.mem_cons.mp h with rfl | h
      · exact .inr rfl
      · exact .inl (List.mem_cons_of_mem _ h)
    · rcases List.mem_cons.mp h with rfl | h
      · exact .inl List.mem_cons_self
      · exact (ih h).imp_left (List.mem_cons_of_mem _)

theorem HasDistinctKeys.set (ht : t.HasDistinctKeys) (hkey : t.lookup key ≠ none) (hv : v.HasDistinctKeys) :
    HasDistinctKeys (set key v t) where
  nodup := by
    rw [map_fst_set hkey]
    exact ht.nodup
  values e he := by
    rcases mem_set he with he | he
    · exact ht.values e he
    · rw [he]
      exact hv

/-! ## How tables grow -/

/-- Does a change of tables keep their keys distinct? -/
def KeepsDistinct (change : TableOrigin → TomlTable → Option TomlTable) : Prop :=
  ∀ ⦃origin t t'⦄, HasDistinctKeys t → change origin t = some t' → HasDistinctKeys t'

/-- What a change keeps of a table, it keeps of the tables around it. -/
theorem KeepsDistinct.update {change : TableOrigin → TomlTable → Option TomlTable} (hchange : KeepsDistinct change) :
    KeepsDistinct (update isDotted change path) := by
  induction path with
  | nil => exact hchange
  | cons key path ih =>
    intro origin t t' ht h
    rw [TomlTable.update] at h
    split at h
    next hl =>
      obtain ⟨inner, hinner, h⟩ := Option.bind_eq_some_iff.mp h
      obtain rfl := Option.some.inj h
      exact ht.append hl (hasDistinctKeys_table_iff.mpr (ih .nil hinner))
    next o entries hl =>
      obtain ⟨-, -, h⟩ := Option.bind_eq_some_iff.mp h
      obtain ⟨inner, hinner, h⟩ := Option.bind_eq_some_iff.mp h
      obtain rfl := Option.some.inj h
      have hentries := hasDistinctKeys_table_iff.mp (ht.of_lookup hl)
      exact ht.set (by simp [hl]) (hasDistinctKeys_table_iff.mpr (ih hentries hinner))
    next items hl =>
      -- Of tables that share a header the last one is changed.
      obtain ⟨-, -, h⟩ := Option.bind_eq_some_iff.mp h
      split at h
      next o entries hlast =>
        obtain ⟨inner, hinner, h⟩ := Option.bind_eq_some_iff.mp h
        obtain rfl := Option.some.inj h
        have hitems := hasDistinctKeys_tables_iff.mp (ht.of_lookup hl)
        have hentries := hasDistinctKeys_table_iff.mp (hitems _ (List.mem_of_getLast? hlast))
        have hfront : ∀ w ∈ items.dropLast, w.HasDistinctKeys := fun w hw => hitems w (List.mem_of_mem_dropLast hw)
        exact ht.set (by simp [hl]) (hasDistinctKeys_tables_append hfront (hasDistinctKeys_table_iff.mpr (ih hentries hinner)))
      next => cases h
    next => cases h

theorem HasDistinctKeys.add (ht : t.HasDistinctKeys) (hv : v.HasDistinctKeys) (h : add key v t = some t') : t'.HasDistinctKeys := by
  simp only [TomlTable.add, Option.bind_eq_bind, Option.bind_eq_some_iff, Option.guard_eq_some'] at h
  obtain ⟨-, hkey, h⟩ := h
  obtain rfl := Option.some.inj h
  exact ht.append (Option.isNone_iff_eq_none.mp hkey) hv

theorem HasDistinctKeys.addAt (ht : t.HasDistinctKeys) (hv : v.HasDistinctKeys) (h : addAt path v t = some t') :
    t'.HasDistinctKeys := by
  obtain ⟨key, -, h⟩ := Option.bind_eq_some_iff.mp h
  refine KeepsDistinct.update (fun origin t t' ht h => ?_) ht h
  -- What is asked of the origin of the table does not matter here.
  obtain ⟨-, -, h⟩ := Option.bind_eq_some_iff.mp h
  exact ht.add hv h

theorem HasDistinctKeys.openTable (ht : t.HasDistinctKeys) (h : openTable path t = some t') : t'.HasDistinctKeys := by
  obtain ⟨key, -, h⟩ := Option.bind_eq_some_iff.mp h
  refine KeepsDistinct.update (fun origin t t' ht h => ?_) ht h
  split at h
  next hl =>
    obtain rfl := Option.some.inj h
    exact ht.append hl (hasDistinctKeys_table_iff.mpr .nil)
  next entries hl =>
    obtain rfl := Option.some.inj h
    exact ht.set (by simp [hl]) (hasDistinctKeys_table_iff.mpr (hasDistinctKeys_table_iff.mp (ht.of_lookup hl)))
  next => cases h

theorem HasDistinctKeys.openItem (ht : t.HasDistinctKeys) (h : openItem path t = some t') : t'.HasDistinctKeys := by
  obtain ⟨key, -, h⟩ := Option.bind_eq_some_iff.mp h
  refine KeepsDistinct.update (fun origin t t' ht h => ?_) ht h
  have hnew : (TomlValue.table .header []).HasDistinctKeys := hasDistinctKeys_table_iff.mpr .nil
  split at h
  next hl =>
    obtain rfl := Option.some.inj h
    exact ht.append hl (hasDistinctKeys_tables_append (List.forall_mem_nil _) hnew)
  next items hl =>
    obtain rfl := Option.some.inj h
    have hitems := hasDistinctKeys_tables_iff.mp (ht.of_lookup hl)
    exact ht.set (by simp [hl]) (hasDistinctKeys_tables_append hitems hnew)
  next => cases h

end TomlTable

/-! ## Documents -/

namespace Toml

variable {fuel : Nat} {s rest : List Char} {v : TomlValue} {items : List TomlValue} {t t' : TomlTable}

theorem exists_bounded?_of_integer? (h : integer? s = some v) : ∃ n, bounded? n = some v := by
  rw [integer?.eq_def] at h
  split at h <;> (obtain ⟨n, -, h⟩ := Option.bind_eq_some_iff.mp h)
  case h_1 | h_2 | h_3 =>
    obtain ⟨m, -, h⟩ := Option.bind_eq_some_iff.mp h
    exact ⟨_, h⟩
  all_goals exact ⟨_, h⟩

theorem hasDistinctKeys_of_word? (h : word? s = some v) : v.HasDistinctKeys := by
  rw [word?] at h
  split_ifs at h
  · exact Option.some.inj h ▸ .bool true
  · exact Option.some.inj h ▸ .bool false
  · exact Option.some.inj h ▸ .moment
  · exact Option.some.inj h ▸ .float
  · obtain ⟨n, h⟩ := exists_bounded?_of_integer? h
    rw [bounded?] at h
    split_ifs at h
    exact Option.some.inj h ▸ .integer n

theorem hasDistinctKeys_of_asText {r : Read} (h : asText r = some (v, rest)) : v.HasDistinctKeys := by
  obtain ⟨_, -, h⟩ := Option.map_eq_some_iff.mp h
  exact (Prod.mk.inj h).1 ▸ .string _

/-- What is read with some fuel has distinct keys: values, the items of an array, and the entries of a table if those that came before
them have. -/
structure ReadsDistinct (fuel : Nat) : Prop where
  value : ∀ {s v rest}, readValue fuel s = some (v, rest) → v.HasDistinctKeys
  items : ∀ {s items rest}, readItems fuel s = some (items, rest) → ∀ v ∈ items, v.HasDistinctKeys
  entries : ∀ {t s t' rest}, t.HasDistinctKeys → readEntries fuel t s = some (t', rest) → t'.HasDistinctKeys

namespace ReadsDistinct

theorem value_succ (ih : ReadsDistinct fuel) (h : readValue (fuel + 1) s = some (v, rest)) : v.HasDistinctKeys := by
  rw [readValue.eq_def] at h
  dsimp only at h
  split at h
  · exact hasDistinctKeys_of_asText h
  · exact hasDistinctKeys_of_asText h
  · exact hasDistinctKeys_of_asText h
  · exact hasDistinctKeys_of_asText h
  · obtain ⟨⟨items, r⟩, hitems, h⟩ := Option.map_eq_some_iff.mp h
    exact (Prod.mk.inj h).1 ▸ .array (ih.items hitems)
  · obtain ⟨⟨t, r⟩, hentries, h⟩ := Option.map_eq_some_iff.mp h
    exact (Prod.mk.inj h).1 ▸ TomlTable.hasDistinctKeys_table_iff.mpr (ih.entries .nil hentries)
  · obtain ⟨w, hword, h⟩ := Option.map_eq_some_iff.mp h
    exact (Prod.mk.inj h).1 ▸ hasDistinctKeys_of_word? hword

theorem items_succ (ih : ReadsDistinct fuel) (h : readItems (fuel + 1) s = some (items, rest)) : ∀ v ∈ items, v.HasDistinctKeys := by
  rw [readItems] at h
  split at h
  · rw [← (Prod.mk.inj (Option.some.inj h)).1]
    simp
  · obtain ⟨⟨w, r⟩, hw, h⟩ := Option.bind_eq_some_iff.mp h
    dsimp only at h
    split at h
    · obtain ⟨⟨items', r'⟩, hitems, h⟩ := Option.bind_eq_some_iff.mp h
      rw [← (Prod.mk.inj (Option.some.inj h)).1]
      exact List.forall_mem_cons.mpr ⟨ih.value hw, ih.items hitems⟩
    · rw [← (Prod.mk.inj (Option.some.inj h)).1]
      exact List.forall_mem_singleton.mpr (ih.value hw)
    · cases h

theorem entries_succ (ih : ReadsDistinct fuel) (ht : t.HasDistinctKeys) (h : readEntries (fuel + 1) t s = some (t', rest)) :
    t'.HasDistinctKeys := by
  rw [readEntries] at h
  split at h
  · exact (Prod.mk.inj (Option.some.inj h)).1 ▸ ht
  · obtain ⟨⟨path, r⟩, -, h⟩ := Option.bind_eq_some_iff.mp h
    dsimp only at h
    split at h
    · obtain ⟨⟨v, r'⟩, hv, h⟩ := Option.bind_eq_some_iff.mp h
      obtain ⟨t₁, ht₁, h⟩ := Option.bind_eq_some_iff.mp h
      have ht₁ := ht.addAt (ih.value hv) ht₁
      dsimp only at h
      split at h
      · exact ih.entries ht₁ h
      · exact (Prod.mk.inj (Option.some.inj h)).1 ▸ ht₁
      · cases h
    · cases h

end ReadsDistinct

/-- Each of the three readers calls the others with less fuel. -/
theorem readsDistinct (fuel : Nat) : ReadsDistinct fuel := by
  induction fuel with
  | zero => exact ⟨fun h => by simp [readValue] at h, fun h => by simp [readItems] at h, fun _ h => by simp [readEntries] at h⟩
  | succ fuel ih => exact ⟨ih.value_succ, ih.items_succ, ih.entries_succ⟩

namespace Building

variable {b b' : Building} {path : List String}

theorem hasDistinctKeys_of_addEntry (hb : b.root.HasDistinctKeys) (hv : v.HasDistinctKeys) (h : b.addEntry path v = some b') :
    b'.root.HasDistinctKeys := by
  obtain ⟨root, hroot, h⟩ := Option.bind_eq_some_iff.mp h
  obtain rfl := Option.some.inj h
  exact TomlTable.KeepsDistinct.update (fun _ _ _ ht h => ht.addAt hv h) hb hroot

/-- One line keeps the keys distinct. -/
theorem hasDistinctKeys_of_readLine (hb : b.root.HasDistinctKeys) (h : readLine fuel b s = some (b', rest)) :
    b'.root.HasDistinctKeys := by
  rw [readLine.eq_def] at h
  split at h
  · obtain ⟨⟨path, r⟩, -, h⟩ := Option.bind_eq_some_iff.mp h
    obtain ⟨r', -, h⟩ := Option.bind_eq_some_iff.mp h
    obtain ⟨root, hroot, h⟩ := Option.bind_eq_some_iff.mp h
    exact (Prod.mk.inj (Option.some.inj h)).1 ▸ hb.openItem hroot
  · obtain ⟨⟨path, r⟩, -, h⟩ := Option.bind_eq_some_iff.mp h
    obtain ⟨r', -, h⟩ := Option.bind_eq_some_iff.mp h
    obtain ⟨root, hroot, h⟩ := Option.bind_eq_some_iff.mp h
    exact (Prod.mk.inj (Option.some.inj h)).1 ▸ hb.openTable hroot
  · obtain ⟨⟨path, r⟩, -, h⟩ := Option.bind_eq_some_iff.mp h
    obtain ⟨r', -, h⟩ := Option.bind_eq_some_iff.mp h
    obtain ⟨⟨v, r''⟩, hv, h⟩ := Option.bind_eq_some_iff.mp h
    obtain ⟨b₁, hb₁, h⟩ := Option.bind_eq_some_iff.mp h
    exact (Prod.mk.inj (Option.some.inj h)).1 ▸ hasDistinctKeys_of_addEntry hb ((readsDistinct fuel).value hv) hb₁

theorem hasDistinctKeys_of_readLines (hb : b.root.HasDistinctKeys) (h : readLines fuel b s = some b') : b'.root.HasDistinctKeys := by
  induction fuel generalizing b s with
  | zero =>
    rw [readLines] at h
    split_ifs at h
    exact Option.some.inj h ▸ hb
  | succ fuel ih =>
    rw [readLines] at h
    split at h
    · exact Option.some.inj h ▸ hb
    · obtain ⟨⟨b₁, r⟩, hb₁, h⟩ := Option.bind_eq_some_iff.mp h
      obtain ⟨r', -, h⟩ := Option.bind_eq_some_iff.mp h
      exact ih (hasDistinctKeys_of_readLine hb hb₁) h

end Building

/-- In a document that can be read, no table has a key twice. -/
theorem hasDistinctKeys_of_read? (h : read? s = some t) : t.HasDistinctKeys := by
  obtain ⟨b, hb, h⟩ := Option.bind_eq_some_iff.mp h
  exact Option.some.inj h ▸ Building.hasDistinctKeys_of_readLines .nil hb

end Toml

end MarkdownTemplates
