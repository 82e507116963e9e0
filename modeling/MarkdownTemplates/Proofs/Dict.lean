import Mathlib
import MarkdownTemplates.Dict

/-!
# Lookups in dictionaries

A dictionary is determined by its lookups. Each operation is described by what it does to them.
-/

namespace MarkdownTemplates

theorem except_bind_eq_ok {ε α β : Type} {x : Except ε α} {f : α → Except ε β} {b : β} :
    x >>= f = .ok b ↔ ∃ a, x = .ok a ∧ f a = .ok b := by
  cases x <;> simp [bind, Except.bind]

theorem eq_ok_of_toOption {ε α : Type} {r : Except ε α} {a : α} (h : r.toOption = some a) : r = .ok a := by
  cases r with
  | error e => cases h
  | ok b => rw [Option.some.inj h]

namespace Dict

variable {α β : Type}

theorem lookup_cons_eq_ite (k k' : String) (v : α) (l : List (String × α)) :
    ((k, v) :: l).lookup k' = if k' = k then some v else l.lookup k' := by
  rw [List.lookup_cons]
  by_cases h : k' = k <;> simp [h, beq_false_of_ne]

@[simp] theorem get?_empty (k : String) : (∅ : Dict α).get? k = none := rfl

/-- When no key comes twice, what is found under a key is what stands beside it. -/
theorem lookup_eq_some_iff {l : List (String × α)} {k : String} {v : α} (h : (l.map Prod.fst).Nodup) :
    l.lookup k = some v ↔ (k, v) ∈ l := by
  induction l with
  | nil => simp
  | cons a l ih =>
    obtain ⟨k', v'⟩ := a
    rw [List.map_cons, List.nodup_cons] at h
    rw [lookup_cons_eq_ite, List.mem_cons, Prod.mk.injEq]
    by_cases hk : k = k'
    · have hm : (k, v) ∉ l := fun hm => h.1 (List.mem_map.mpr ⟨_, hm, hk⟩)
      simp [hk, hk ▸ hm, eq_comm]
    · simp [hk, ih h.2]

theorem lookup_eq_none_iff {l : List (String × α)} {k : String} : l.lookup k = none ↔ k ∉ l.map Prod.fst := by
  simp only [List.lookup_eq_none_iff, bne_iff_ne, List.mem_map, not_exists, not_and]
  exact ⟨fun h e he hk => h e he hk.symm, fun h e he hk => h e he hk.symm⟩

theorem nodup_keys (d : Dict α) : d.keys.Nodup := by
  have h : (d.entries.map Prod.fst).Pairwise (· < ·) := List.pairwise_map.mpr d.ordered
  refine h.imp fun hlt he => ?_
  rw [he] at hlt
  exact String.lt_irrefl _ hlt

theorem mem_entries {d : Dict α} {k : String} {v : α} : (k, v) ∈ d.entries ↔ d.get? k = some v :=
  (lookup_eq_some_iff d.nodup_keys).symm

theorem find?_entries (d : Dict α) (k : String) : (d.entries.find? fun e => some e.1 = some k).map Prod.snd = d.get? k := by
  rw [get?]
  induction d.entries with
  | nil => rfl
  | cons a l ih =>
    obtain ⟨k', v⟩ := a
    rw [List.find?_cons, lookup_cons_eq_ite]
    by_cases h : k = k'
    · simp [h]
    · simpa [h, Ne.symm h] using ih

theorem mem_keys {d : Dict α} {k : String} : k ∈ d.keys ↔ d.contains k = true := by
  constructor
  · intro h
    obtain ⟨⟨k', v⟩, he, rfl⟩ := List.mem_map.mp h
    simp [contains, mem_entries.mp he]
  · intro h
    obtain ⟨v, hv⟩ := Option.isSome_iff_exists.mp h
    exact List.mem_map.mpr ⟨(k, v), mem_entries.mpr hv, rfl⟩

theorem length_keys (d : Dict α) : d.keys.length = d.size := by simp [keys, size]

theorem size_le_size {d : Dict α} {e : Dict β} (h : ∀ k, d.contains k = true → e.contains k = true) : d.size ≤ e.size := by
  rw [← length_keys, ← length_keys]
  exact d.nodup_keys.length_le_of_subset fun k hk => mem_keys.mpr (h k (mem_keys.mp hk))

theorem contains_iff {d : Dict α} {k : String} : d.contains k = true ↔ ∃ v, d.get? k = some v :=
  Option.isSome_iff_exists

theorem mem_values {d : Dict α} {v : α} : v ∈ d.values ↔ ∃ k, d.get? k = some v := by
  constructor
  · intro h
    obtain ⟨⟨k, _⟩, he, rfl⟩ := List.mem_map.mp h
    exact ⟨k, mem_entries.mp he⟩
  · rintro ⟨k, h⟩
    exact List.mem_map.mpr ⟨(k, v), mem_entries.mpr h, rfl⟩

/-- Sorted lists with the same members are equal, so the lookups determine a dictionary. -/
theorem ext_get? {d e : Dict α} (h : ∀ k, d.get? k = e.get? k) : d = e := by
  have hm : ∀ x, x ∈ d.entries ↔ x ∈ e.entries := by
    rintro ⟨k, v⟩
    rw [mem_entries, mem_entries, h]
  have hl : d.entries = e.entries := d.ordered.eq_of_mem_iff e.ordered hm
  cases d; cases e
  simpa using hl

theorem eq_empty {d : Dict α} (h : d.isEmpty = true) : d = ∅ := by
  refine ext_get? fun k => ?_
  rw [get?, List.isEmpty_iff.mp h]
  rfl

theorem lookup_insertEntry (k k' : String) (v : α) (l : List (String × α)) :
    (insertEntry k v l).lookup k' = if k' = k then some v else l.lookup k' := by
  induction l with
  | nil => by_cases h : k' = k <;> simp [insertEntry, h]
  | cons a l ih =>
    obtain ⟨ka, va⟩ := a
    simp only [insertEntry]
    split
    · rw [lookup_cons_eq_ite]
    · split
      · rename_i he
        subst he
        by_cases h : k' = k <;> simp [lookup_cons_eq_ite, h]
      · rename_i hne
        rw [lookup_cons_eq_ite, ih, lookup_cons_eq_ite]
        by_cases h : k' = k
        · subst h
          simp [hne]
        · simp [h]

theorem get?_insert (d : Dict α) (k k' : String) (v : α) :
    (d.insert k v).get? k' = if k' = k then some v else d.get? k' :=
  lookup_insertEntry k k' v d.entries

@[simp] theorem get?_insert_self (d : Dict α) (k : String) (v : α) : (d.insert k v).get? k = some v := by
  simp [get?_insert]

theorem get?_erase (d : Dict α) (k k' : String) : (d.erase k).get? k' = if k' = k then none else d.get? k' := by
  ext v
  rw [← mem_entries]
  by_cases h : k' = k <;> simp [erase, h, mem_entries]

theorem get?_mapValues (f : String → α → β) (d : Dict α) (k : String) :
    (d.mapValues f).get? k = (d.get? k).map (f k) := by
  ext v
  rw [← mem_entries]
  constructor
  · intro h
    obtain ⟨⟨k', a⟩, he, hf⟩ := List.mem_map.mp h
    simp only [Prod.mk.injEq] at hf
    obtain ⟨rfl, rfl⟩ := hf
    simp [mem_entries.mp he]
  · intro h
    obtain ⟨a, ha, rfl⟩ := Option.map_eq_some_iff.mp h
    exact List.mem_map.mpr ⟨(k, a), mem_entries.mpr ha, rfl⟩

theorem keys_mapValues (f : String → α → β) (d : Dict α) : (d.mapValues f).keys = d.keys := by
  rw [keys, mapValues, List.map_map]
  rfl

/-! ## Dictionaries of lists -/

theorem get?_foldl_insert (l : List (String × α)) (d : Dict α) (k : String) :
    (l.foldl (fun d e => d.insert e.1 e.2) d).get? k = (l.reverse.lookup k).or (d.get? k) := by
  induction l generalizing d with
  | nil => simp
  | cons a l ih =>
    obtain ⟨ka, va⟩ := a
    rw [List.foldl_cons, ih, get?_insert, List.reverse_cons, List.lookup_append, lookup_cons_eq_ite]
    cases hl : l.reverse.lookup k with
    | some v => simp
    | none => by_cases h : k = ka <;> simp [h]

/-- Of several values for a key the last one counts. -/
theorem get?_ofList (l : List (String × α)) (k : String) : (ofList l).get? k = l.reverse.lookup k := by
  rw [ofList, get?_foldl_insert]
  simp

/-- When no key comes twice, each value counts. -/
theorem get?_ofList_of_nodup {l : List (String × α)} (h : (l.map Prod.fst).Nodup) (k : String) :
    (ofList l).get? k = l.lookup k := by
  have hr : (l.reverse.map Prod.fst).Nodup := by
    rw [List.map_reverse]
    exact List.nodup_reverse.mpr h
  ext v
  rw [get?_ofList, lookup_eq_some_iff hr, lookup_eq_some_iff h, List.mem_reverse]

theorem ofList_entries (d : Dict α) : ofList d.entries = d :=
  ext_get? fun k => get?_ofList_of_nodup d.nodup_keys k

/-- Some of the values of a dictionary, under their keys, and changed perhaps. -/
def filterMap (f : α → Option β) (d : Dict α) : Dict β where
  entries := d.entries.filterMap fun e => (f e.2).map (e.1, ·)
  ordered := by
    refine d.ordered.filterMap _ fun a a' hlt b hb b' hb' => ?_
    obtain ⟨_, -, rfl⟩ := Option.map_eq_some_iff.mp hb
    obtain ⟨_, -, rfl⟩ := Option.map_eq_some_iff.mp hb'
    exact hlt

theorem get?_filterMap (d : Dict α) (f : α → Option β) (k : String) : (d.filterMap f).get? k = (d.get? k).bind f := by
  ext v
  rw [← mem_entries, filterMap, List.mem_filterMap, Option.bind_eq_some_iff]
  constructor
  · rintro ⟨⟨k', a⟩, he, hv⟩
    obtain ⟨v', hv', he'⟩ := Option.map_eq_some_iff.mp hv
    obtain ⟨rfl, rfl⟩ := Prod.mk.inj he'
    exact ⟨a, mem_entries.mp he, hv'⟩
  · rintro ⟨a, ha, hv⟩
    exact ⟨(k, a), mem_entries.mpr ha, by simp [hv]⟩

theorem get?_ofList_filterMap (d : Dict α) (f : α → Option β) (k : String) :
    (ofList (d.entries.filterMap fun e => (f e.2).map (e.1, ·))).get? k = (d.get? k).bind f := by
  have h : d.entries.filterMap (fun e => (f e.2).map (e.1, ·)) = (d.filterMap f).entries := rfl
  rw [h, ofList_entries, get?_filterMap]

theorem values_filterMap (d : Dict α) (f : α → Option β) : (d.filterMap f).values = d.values.filterMap f := by
  rw [values, filterMap, List.map_filterMap, values, List.filterMap_map]
  refine List.filterMap_congr fun e _ => ?_
  cases hf : f e.2 <;> simp [hf]

/-- What is found first in two dictionaries is the same when the same is found under each key. -/
theorem findSome?_values_congr {d e : Dict α} {f : α → Option β} (h : ∀ k, (d.get? k).bind f = (e.get? k).bind f) :
    d.values.findSome? f = e.values.findSome? f := by
  have hd : d.filterMap f = e.filterMap f := ext_get? fun k => by rw [get?_filterMap, get?_filterMap, h]
  rw [← List.head?_filterMap, ← List.head?_filterMap, ← values_filterMap, ← values_filterMap, hd]

theorem mem_foldr_addToGroups_iff {l : List (String × α)} {k : String} {v : α} :
    (∃ vs, (k, vs) ∈ l.foldr addToGroups [] ∧ v ∈ vs) ↔ (k, v) ∈ l := by
  induction l with
  | nil => simp
  | cons a l ih =>
    obtain ⟨ka, va⟩ := a
    rw [List.mem_cons, ← ih, List.foldr_cons]
    cases l.foldr addToGroups [] with
    | nil =>
      simp only [addToGroups, List.mem_singleton, Prod.mk.injEq, List.not_mem_nil, false_and, exists_false, or_false]
      constructor
      · rintro ⟨_, ⟨rfl, rfl⟩, hv⟩
        exact ⟨rfl, by simpa using hv⟩
      · rintro ⟨rfl, rfl⟩
        exact ⟨_, ⟨rfl, rfl⟩, by simp⟩
    | cons b rest =>
      obtain ⟨kb, vsb⟩ := b
      simp only [addToGroups]
      split
      · rename_i he
        simp only [List.mem_cons, Prod.mk.injEq] at he ⊢
        subst he
        constructor
        · rintro ⟨vs, ⟨rfl, rfl⟩ | hm, hv⟩
          · exact (List.mem_cons.mp hv).imp (fun h => ⟨rfl, h⟩) fun h => ⟨_, .inl ⟨rfl, rfl⟩, h⟩
          · exact .inr ⟨vs, .inr hm, hv⟩
        · rintro (⟨rfl, rfl⟩ | ⟨vs, ⟨rfl, rfl⟩ | hm, hv⟩)
          · exact ⟨_, .inl ⟨rfl, rfl⟩, by simp⟩
          · exact ⟨_, .inl ⟨rfl, rfl⟩, List.mem_cons_of_mem _ hv⟩
          · exact ⟨vs, .inr hm, hv⟩
      · simp only [List.mem_cons, Prod.mk.injEq]
        constructor
        · rintro ⟨vs, ⟨rfl, rfl⟩ | hm, hv⟩
          · exact .inl ⟨rfl, by simpa using hv⟩
          · exact .inr ⟨vs, hm, hv⟩
        · rintro (⟨rfl, rfl⟩ | ⟨vs, hm, hv⟩)
          · exact ⟨_, .inl ⟨rfl, rfl⟩, by simp⟩
          · exact ⟨vs, .inr hm, hv⟩

/-- A group holds exactly the values that the list has for its key. -/
theorem mem_group {l : List (String × α)} {k : String} {v : α} :
    (∃ vs, (group l).get? k = some vs ∧ v ∈ vs) ↔ (k, v) ∈ l := by
  simp only [← mem_entries]
  exact mem_foldr_addToGroups_iff.trans (List.mergeSort_perm l _).mem_iff

theorem isSome_get?_group {l : List (String × α)} {k : String} :
    ((group l).get? k).isSome = true ↔ k ∈ l.map Prod.fst := by
  constructor
  · intro h
    obtain ⟨vs, hvs⟩ := Option.isSome_iff_exists.mp h
    obtain ⟨e, he, hk⟩ := mem_foldr_addToGroups (mem_entries.mpr hvs)
    exact List.mem_map.mpr ⟨e, (List.mergeSort_perm l _).mem_iff.mp he, hk⟩
  · intro h
    obtain ⟨⟨_, v⟩, he, rfl⟩ := List.mem_map.mp h
    obtain ⟨vs, hvs, -⟩ := mem_group.mpr he
    simp [hvs]

/-- A pair in front of sorted groups whose keys are not less joins the group of its key. -/
theorem lookup_addToGroups {a : String × α} {groups : List (String × List α)}
    (ho : groups.Pairwise fun g h => g.1 < h.1) (hle : ∀ g ∈ groups, a.1 ≤ g.1) (k : String) :
    ((addToGroups a groups).lookup k).getD [] = (if a.1 = k then [a.2] else []) ++ (groups.lookup k).getD [] := by
  obtain ⟨ka, va⟩ := a
  cases groups with
  | nil => by_cases hk : k = ka <;> simp [addToGroups, lookup_cons_eq_ite, hk, eq_comm (a := ka)]
  | cons g rest =>
    obtain ⟨kg, vs⟩ := g
    simp only [addToGroups]
    split
    · rename_i he
      subst he
      by_cases hk : k = ka <;> simp [lookup_cons_eq_ite, hk, eq_comm (a := ka)]
    · rename_i hne
      by_cases hk : k = ka
      · subst hk
        have hlt : ∀ g ∈ (kg, vs) :: rest, k < g.1 := by
          have hkg : k < kg := by have := hle (kg, vs) (by simp); grind
          intro g hg
          rcases List.mem_cons.mp hg with rfl | hg
          · exact hkg
          · exact String.lt_trans hkg ((List.pairwise_cons.mp ho).1 g hg)
        have hnone : ((kg, vs) :: rest).lookup k = none := by
          refine List.lookup_eq_none_iff.mpr fun g hg => ?_
          have := hlt g hg
          grind
        simp [lookup_cons_eq_ite k, hnone]
      · simp [lookup_cons_eq_ite ka, hk, Ne.symm hk]

theorem lookup_foldr_addToGroups {l : List (String × α)} (h : l.Pairwise fun a b => a.1 ≤ b.1) (k : String) :
    ((l.foldr addToGroups []).lookup k).getD [] = (l.filter (·.1 = k)).map Prod.snd := by
  induction l with
  | nil => rfl
  | cons a l ih =>
    have hl := List.pairwise_cons.mp h
    have hle : ∀ g ∈ l.foldr addToGroups [], a.1 ≤ g.1 := by
      intro g hg
      obtain ⟨e, he, hk⟩ := mem_foldr_addToGroups hg
      exact hk ▸ hl.1 e he
    rw [List.foldr_cons, lookup_addToGroups (pairwise_foldr_addToGroups hl.2) hle, ih hl.2, List.filter_cons]
    by_cases hk : a.1 = k <;> simp [hk]

/-- A group has the values of its key in the order of the list. -/
theorem getD_get?_group (l : List (String × α)) (k : String) :
    ((group l).get? k).getD [] = (l.filter (·.1 = k)).map Prod.snd := by
  set le : String × α → String × α → Bool := fun a b => decide (a.1 ≤ b.1) with hle
  have htrans : ∀ a b c, le a b = true → le b c = true → le a c = true := by
    intro a b c; simp only [hle, decide_eq_true_eq]; grind
  have htotal : ∀ a b, (le a b || le b a) = true := by
    intro a b; simp only [hle, Bool.or_eq_true, decide_eq_true_eq]; grind
  have hsorted : (l.mergeSort le).Pairwise fun a b => a.1 ≤ b.1 := by
    simpa [hle] using List.pairwise_mergeSort htrans htotal l
  have hsame : (l.filter (·.1 = k)).Pairwise fun a b => le a b = true := by
    refine List.pairwise_iff_forall_sublist.mpr fun {a b} hab => ?_
    have ha := List.of_mem_filter (hab.subset (by simp : a ∈ [a, b]))
    have hb := List.of_mem_filter (hab.subset (by simp : b ∈ [a, b]))
    simp only [decide_eq_true_eq] at ha hb
    simp only [hle, ha, hb, decide_eq_true_eq]
    exact le_refl k
  -- Sorting keeps the order of pairs with the same key.
  have hsub : (l.filter (·.1 = k)).Sublist ((l.mergeSort le).filter (·.1 = k)) := by
    have := (List.sublist_mergeSort htrans htotal hsame List.filter_sublist).filter (fun e => decide (e.1 = k))
    simpa using this
  have hperm : (l.filter (·.1 = k)).length = ((l.mergeSort le).filter (·.1 = k)).length :=
    ((List.mergeSort_perm l le).filter _).length_eq.symm
  rw [hsub.eq_of_length hperm]
  exact lookup_foldr_addToGroups hsorted k

/-- Values that are changed are in the same groups. -/
theorem group_map (f : α → β) (l : List (String × α)) :
    group (l.map fun e => (e.1, f e.2)) = (group l).mapValues fun _ => List.map f := by
  refine ext_get? fun k => ?_
  have hsome : ((group (l.map fun e => (e.1, f e.2))).get? k).isSome = ((group l).get? k).isSome := by
    rw [Bool.eq_iff_iff, isSome_get?_group, isSome_get?_group, List.map_map]
    rfl
  have hget : ((group (l.map fun e => (e.1, f e.2))).get? k).getD [] = (((group l).get? k).getD []).map f := by
    rw [getD_get?_group, getD_get?_group, List.filter_map, List.map_map, List.map_map]
    rfl
  rw [get?_mapValues]
  cases hl : (group l).get? k <;> cases hm : (group (l.map fun e => (e.1, f e.2))).get? k <;> simp_all

/-! ## Values under new keys -/

/-- The first of some items that has a key gives the value of that key, unless the dictionary has one. -/
theorem get?_insert_or_find? {d : Dict α} {key : β → Option String} {value : String → β → α} {b : β} {k : String}
    (hk : key b = some k) (hnew : d.contains k = false) (l : List β) (k' : String) :
    ((d.insert k (value k b)).get? k').or ((l.find? fun b => key b = some k').map (value k')) =
      (d.get? k').or (((b :: l).find? fun b => key b = some k').map (value k')) := by
  rw [get?_insert, List.find?_cons]
  by_cases hkk : k' = k
  · subst hkk
    have hnone : d.get? k' = none := by simpa [contains] using hnew
    simp [hk, hnone]
  · have hb : ¬ key b = some k' := by simp [hk, Ne.symm hkk]
    simp [hkk, hb]

/-- Where every step inserts a value under a new key or fails, a run succeeds exactly when every item has a key and no key
comes twice. -/
theorem foldlM_eq_ok {ε : Type} {step : Dict α → β → Except ε (Dict α)} {key : β → Option String} (value : String → β → α)
    (hstep : ∀ d b d', step d b = .ok d' ↔ ∃ k, key b = some k ∧ d.contains k = false ∧ d' = d.insert k (value k b))
    {l : List β} {d d' : Dict α} :
    l.foldlM step d = .ok d' ↔ (∀ b ∈ l, (key b).isSome = true) ∧ (l.filterMap key).Nodup ∧
      (∀ k ∈ l.filterMap key, d.contains k = false) ∧
      ∀ k, d'.get? k = (d.get? k).or ((l.find? fun b => key b = some k).map (value k)) := by
  induction l generalizing d with
  | nil =>
    have hpure : ([] : List β).foldlM step d = .ok d := rfl
    rw [hpure]
    constructor
    · rintro ⟨⟩
      simp
    · rintro ⟨-, -, -, hget⟩
      exact congrArg _ (ext_get? fun k => by simpa using (hget k).symm)
  | cons b l ih =>
    rw [List.foldlM_cons, except_bind_eq_ok]
    simp only [hstep, ih, List.mem_cons, forall_eq_or_imp]
    constructor
    · rintro ⟨_, ⟨k, hk, hnew, rfl⟩, hall, hnd, hfresh, hget⟩
      have hl : (b :: l).filterMap key = k :: l.filterMap key := List.filterMap_cons_some hk
      have hother : ∀ k' ∈ l.filterMap key, k' ≠ k ∧ d.contains k' = false := by
        intro k' hm
        have hf := hfresh k' hm
        rw [contains, get?_insert] at hf
        split at hf
        · simp at hf
        · exact ⟨‹_›, hf⟩
      rw [hl, List.nodup_cons, List.forall_mem_cons]
      refine ⟨⟨by simp [hk], hall⟩, ⟨fun hm => (hother k hm).1 rfl, hnd⟩, ⟨hnew, fun k' hm => (hother k' hm).2⟩, fun k' => ?_⟩
      rw [hget, get?_insert_or_find? hk hnew]
    · rintro ⟨⟨hb, hall⟩, hnd, hfresh, hget⟩
      obtain ⟨k, hk⟩ := Option.isSome_iff_exists.mp hb
      have hl : (b :: l).filterMap key = k :: l.filterMap key := List.filterMap_cons_some hk
      rw [hl, List.nodup_cons] at hnd
      rw [hl, List.forall_mem_cons] at hfresh
      refine ⟨_, ⟨k, hk, hfresh.1, rfl⟩, hall, hnd.2, fun k' hm => ?_, fun k' => ?_⟩
      · have hkk : k' ≠ k := fun he => hnd.1 (he ▸ hm)
        rw [contains, get?_insert, if_neg hkk]
        exact hfresh.2 k' hm
      · rw [hget, get?_insert_or_find? hk hfresh.1]

end Dict

namespace NameSet

theorem mem_toList {s : NameSet} {x : String} : x ∈ s.toList ↔ s.contains x = true := Dict.mem_keys

theorem nodup_toList (s : NameSet) : s.toList.Nodup := s.nodup_keys

theorem contains_insert {s : NameSet} {x y : String} :
    (s.insert x).contains y = true ↔ y = x ∨ s.contains y = true := by
  simp only [insert, Dict.contains, Dict.get?_insert]
  by_cases h : y = x <;> simp [h]

theorem contains_ofList {l : List String} {x : String} : (ofList l).contains x = true ↔ x ∈ l := by
  simp [ofList, Dict.contains, Dict.get?_mapValues, Dict.isSome_get?_group]

theorem contains_insertMany {s : NameSet} {l : List String} {x : String} :
    (s.insertMany l).contains x = true ↔ s.contains x = true ∨ x ∈ l := by
  rw [insertMany, contains_ofList, List.mem_append, mem_toList]

/-- Sets with the same members are equal. -/
theorem ext_contains {s t : NameSet} (h : ∀ x, s.contains x = true ↔ t.contains x = true) : s = t := by
  refine Dict.ext_get? fun k => ?_
  have hk := h k
  simp only [Dict.contains] at hk
  cases hs : s.get? k <;> cases ht : t.get? k <;> simp_all

theorem ofList_toList (s : NameSet) : ofList s.toList = s :=
  ext_contains fun x => by rw [contains_ofList, mem_toList]

end NameSet

end MarkdownTemplates
