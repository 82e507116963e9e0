import MarkdownTemplates.Proofs.Analysis
import MarkdownTemplates.Proofs.Snapshot.Derivation

/-!
# The templates of a snapshot

The metadata of a file has the first definition of each id, and no errors exactly when the definitions have distinct ids. Of
the files that define an id, a snapshot records the first one in the order of the keys; without errors there is only one.
-/

namespace MarkdownTemplates

/-! ## The definitions of a file -/

namespace FileMetadata

variable {l : List Occurrence} {m : FileMetadata} {key content x : String} {size modified : Nat} {file : Option Path}

/-- What is kept of a place that defines `x`. -/
def cached (key x : String) (o : Occurrence) : CachedTemplate := ⟨x, key, o.dependencies, o.line, o.endLine⟩

theorem find?_addOccurrence (m : FileMetadata) (o : Occurrence) (x : String) :
    (m.addOccurrence o).definitions.find? (·.id = x) =
      (m.definitions.find? (·.id = x)).or (if o.id = some x then some (cached m.path x o) else none) := by
  rw [addOccurrence]
  cases hid : o.id with
  | none => simp
  | some id =>
    dsimp only
    by_cases hx : id = x
    · subst hx
      cases hf : m.definitions.find? (·.id = id) with
      | some first => simp [hf]
      | none => simp [hf, List.find?_append, cached]
    · cases hf : m.definitions.find? (·.id = id) with
      | some first => simp [hx]
      | none => simp [hx, List.find?_append]

theorem find?_foldl_addOccurrence (l : List Occurrence) (m : FileMetadata) (x : String) :
    (l.foldl addOccurrence m).definitions.find? (·.id = x) =
      (m.definitions.find? (·.id = x)).or ((l.find? (·.id = some x)).map (cached m.path x)) := by
  induction l generalizing m with
  | nil => simp
  | cons o l ih =>
    have hpath : (m.addOccurrence o).path = m.path := (addOccurrence_eq m o).1
    rw [List.foldl_cons, ih, find?_addOccurrence, hpath, Option.or_assoc, List.find?_cons]
    by_cases hid : o.id = some x
    · simp [hid]
    · simp [hid]

theorem errors_addOccurrence_eq_nil {o : Occurrence} : (m.addOccurrence o).errors = [] ↔
    m.errors = [] ∧ ∃ id, o.id = some id ∧ m.definitions.find? (·.id = id) = none := by
  rw [addOccurrence]
  cases o.id with
  | none => simp
  | some id =>
    dsimp only
    cases hf : m.definitions.find? (·.id = id) with
    | some first =>
      have hne : m.definitions.find? (·.id = id) ≠ none := by simp [hf]
      simpa using fun _ => hne
    | none => simpa using fun _ => hf

theorem errors_foldl_addOccurrence_eq_nil : (l.foldl addOccurrence m).errors = [] ↔
    m.errors = [] ∧ (∀ o ∈ l, o.id.isSome = true) ∧ (l.filterMap (·.id)).Nodup ∧
      ∀ x ∈ l.filterMap (·.id), m.definitions.find? (·.id = x) = none := by
  induction l generalizing m with
  | nil => simp
  | cons o l ih =>
    rw [List.foldl_cons, ih, errors_addOccurrence_eq_nil, List.forall_mem_cons]
    simp only [find?_addOccurrence]
    constructor
    · rintro ⟨⟨he, id, hid, hnew⟩, hall, hnodup, hfresh⟩
      have hl : (o :: l).filterMap (·.id) = id :: l.filterMap (·.id) := List.filterMap_cons_some hid
      have hother : ∀ x ∈ l.filterMap (·.id), m.definitions.find? (·.id = x) = none ∧ id ≠ x := by
        intro x hx
        have hf := hfresh x hx
        rw [Option.or_eq_none_iff] at hf
        exact ⟨hf.1, fun he => by simp [hid, he] at hf⟩
      rw [hl, List.nodup_cons, List.forall_mem_cons]
      exact ⟨he, ⟨by simp [hid], hall⟩, ⟨fun hm => (hother id hm).2 rfl, hnodup⟩, hnew, fun x hx => (hother x hx).1⟩
    · rintro ⟨he, ⟨ho, hall⟩, hnodup, hfresh⟩
      obtain ⟨id, hid⟩ := Option.isSome_iff_exists.mp ho
      have hl : (o :: l).filterMap (·.id) = id :: l.filterMap (·.id) := List.filterMap_cons_some hid
      rw [hl, List.nodup_cons] at hnodup
      rw [hl, List.forall_mem_cons] at hfresh
      refine ⟨⟨he, id, hid, hfresh.1⟩, hall, hnodup.2, fun x hx => ?_⟩
      have hne : id ≠ x := fun he => hnodup.1 (he ▸ hx)
      simp [hfresh.2 x hx, hid, hne]

/-- The metadata of a file has the first definition of each id. -/
theorem find?_definitions_ofContent (key content : String) (size modified : Nat) (file : Option Path) (x : String) :
    (ofContent key content size modified).definitions.find? (·.id = x) =
      (Site.first? (Site.all file (Document.parse content.toList).root) x).map
        fun s => ⟨x, key, s.node.dependencies, s.node.line?, s.node.endLine?⟩ := by
  rw [ofContent, find?_foldl_addOccurrence, List.find?_nil, Option.none_or, Occurrence.all, Site.first?, Site.all, List.find?_map,
    List.find?_map, Option.map_map, Option.map_map]
  rfl

theorem file_addOccurrence {o : Occurrence} (h : ∀ t ∈ m.definitions, t.file = m.path) :
    ∀ t ∈ (m.addOccurrence o).definitions, t.file = (m.addOccurrence o).path := by
  rw [(addOccurrence_eq m o).1, addOccurrence]
  cases o.id with
  | none => exact h
  | some id =>
    dsimp only
    cases m.definitions.find? (·.id = id) with
    | some first => exact h
    | none =>
      rw [List.forall_mem_append]
      exact ⟨h, by simp⟩

/-- The definitions in the metadata of a file name the file. -/
theorem file_of_mem_ofContent {t : CachedTemplate} (h : t ∈ (ofContent key content size modified).definitions) :
    t.file = key := by
  have hall : ∀ (l : List Occurrence) (m : FileMetadata), (∀ t ∈ m.definitions, t.file = m.path) →
      ∀ t ∈ (l.foldl addOccurrence m).definitions, t.file = (l.foldl addOccurrence m).path := by
    intro l
    induction l with
    | nil => exact fun m hm => hm
    | cons o l ih => exact fun m hm => ih _ (file_addOccurrence hm)
  exact (hall _ _ (by simp) t h).trans (ofContent_eq key content size modified).1

/-- A file has no errors of its own exactly when its definitions have distinct ids. -/
theorem errors_ofContent_eq_nil : (ofContent key content size modified).errors = [] ↔
    AreDistinct (Site.all file (Document.parse content.toList).root) := by
  rw [ofContent, errors_foldl_addOccurrence_eq_nil, AreDistinct, Occurrence.all, Site.all, List.forall_mem_map,
    List.forall_mem_map, List.filterMap_map, List.filterMap_map]
  exact ⟨fun h => ⟨h.2.1, h.2.2.1⟩, fun h => ⟨rfl, h.1, h.2, fun _ _ => rfl⟩⟩

end FileMetadata

/-! ## The templates of all files -/

namespace Snapshot

variable {s : Snapshot} {l : List CachedTemplate} {m : FileMetadata} {templates : Dict CachedTemplate} {x : String}

theorem get?_addDefinition (state : FileMetadata × Dict CachedTemplate) (t : CachedTemplate) (x : String) :
    (addDefinition state t).2.get? x = (state.2.get? x).or (if t.id = x then some t else none) := by
  obtain ⟨m, templates⟩ := state
  rw [addDefinition]
  cases hf : templates.get? t.id with
  | some first =>
    by_cases hx : t.id = x
    · simp [← hx, hf]
    · simp [hx]
  | none =>
    simp only [Dict.get?_insert]
    by_cases hx : t.id = x
    · simp [← hx, hf]
    · simp [hx, Ne.symm hx]

theorem get?_foldl_addDefinition (l : List CachedTemplate) (state : FileMetadata × Dict CachedTemplate) (x : String) :
    (l.foldl addDefinition state).2.get? x = (state.2.get? x).or (l.find? (·.id = x)) := by
  induction l generalizing state with
  | nil => simp
  | cons t l ih =>
    rw [List.foldl_cons, ih, get?_addDefinition, Option.or_assoc, List.find?_cons]
    by_cases hx : t.id = x
    · simp [hx]
    · simp [hx]

theorem errors_addDefinition_eq_nil {state : FileMetadata × Dict CachedTemplate} {t : CachedTemplate} :
    (addDefinition state t).1.errors = [] ↔ state.1.errors = [] ∧ state.2.get? t.id = none := by
  obtain ⟨m, templates⟩ := state
  rw [addDefinition]
  cases templates.get? t.id <;> simp

/-- A file gets no error exactly when it defines no id twice and none that is taken. -/
theorem errors_foldl_addDefinition_eq_nil {state : FileMetadata × Dict CachedTemplate} :
    (l.foldl addDefinition state).1.errors = [] ↔
      state.1.errors = [] ∧ (l.map (·.id)).Nodup ∧ ∀ t ∈ l, state.2.get? t.id = none := by
  induction l generalizing state with
  | nil => simp
  | cons t l ih =>
    rw [List.foldl_cons, ih, errors_addDefinition_eq_nil, List.map_cons, List.nodup_cons, List.forall_mem_cons]
    simp only [get?_addDefinition, Option.or_eq_none_iff, ite_eq_right_iff, reduceCtorEq, imp_false]
    constructor
    · rintro ⟨⟨he, ht⟩, hnodup, hfresh⟩
      refine ⟨he, ⟨fun hm => ?_, hnodup⟩, ht, fun t' ht' => (hfresh t' ht').1⟩
      obtain ⟨t', ht', hid⟩ := List.mem_map.mp hm
      exact (hfresh t' ht').2 hid.symm
    · rintro ⟨he, ⟨hm, hnodup⟩, ht, hfresh⟩
      exact ⟨⟨he, ht⟩, hnodup, fun t' ht' => ⟨hfresh t' ht', fun hid => hm (hid ▸ List.mem_map_of_mem ht')⟩⟩

/-- Add the definitions of a file and keep its metadata. -/
def addEntry (state : Dict FileMetadata × Dict CachedTemplate) (e : String × FileMetadata) :
    Dict FileMetadata × Dict CachedTemplate :=
  (state.1.insert e.1 (addFile state.2 e.2).1, (addFile state.2 e.2).2)

theorem deriveTemplates_eq (files : Dict FileMetadata) : deriveTemplates files = files.entries.foldl addEntry (∅, ∅) := rfl

theorem get?_foldl_addEntry (l : List (String × FileMetadata)) (state : Dict FileMetadata × Dict CachedTemplate) (x : String) :
    (l.foldl addEntry state).2.get? x = (state.2.get? x).or ((l.flatMap (·.2.definitions)).find? (·.id = x)) := by
  induction l generalizing state with
  | nil => simp
  | cons e l ih =>
    rw [List.foldl_cons, ih, addEntry, addFile, get?_foldl_addDefinition, List.flatMap_cons, List.find?_append, Option.or_assoc]

theorem files_foldl_addEntry {l : List (String × FileMetadata)} {state : Dict FileMetadata × Dict CachedTemplate} {key : String}
    (h : key ∉ l.map Prod.fst) : (l.foldl addEntry state).1.get? key = state.1.get? key := by
  induction l generalizing state with
  | nil => rfl
  | cons e l ih =>
    rw [List.map_cons, List.mem_cons, not_or] at h
    rw [List.foldl_cons, ih h.2, addEntry, Dict.get?_insert, if_neg h.1]

/-- When no file gets an error, no id is defined twice and none is taken. -/
theorem nodup_of_foldl_addEntry {l : List (String × FileMetadata)} (state : Dict FileMetadata × Dict CachedTemplate)
    (hkeys : (l.map Prod.fst).Nodup)
    (he : ∀ key ∈ l.map Prod.fst, ∀ m, (l.foldl addEntry state).1.get? key = some m → m.errors = []) :
    ((l.flatMap (·.2.definitions)).map (·.id)).Nodup ∧ ∀ t ∈ l.flatMap (·.2.definitions), state.2.get? t.id = none := by
  induction l generalizing state with
  | nil => simp
  | cons e l ih =>
    rw [List.map_cons, List.nodup_cons] at hkeys
    rw [List.map_cons, List.forall_mem_cons] at he
    obtain ⟨hnodup, hfresh⟩ := ih _ hkeys.2 he.2
    -- Nothing changes the metadata of the first file after its definitions are added.
    have hfirst : (addFile state.2 e.2).1.errors = [] := by
      refine he.1 _ ?_
      rw [List.foldl_cons, files_foldl_addEntry hkeys.1, addEntry, Dict.get?_insert_self]
    obtain ⟨-, hnodup₁, hfresh₁⟩ := errors_foldl_addDefinition_eq_nil.mp hfirst
    have hlater : ∀ t ∈ l.flatMap (·.2.definitions), state.2.get? t.id = none ∧ t.id ∉ e.2.definitions.map (·.id) := by
      intro t ht
      have hnone := hfresh t ht
      rw [addEntry, addFile, get?_foldl_addDefinition, Option.or_eq_none_iff, List.find?_eq_none] at hnone
      refine ⟨hnone.1, fun hm => ?_⟩
      obtain ⟨t', ht', hid⟩ := List.mem_map.mp hm
      exact hnone.2 t' ht' (by simpa using hid)
    rw [List.flatMap_cons, List.map_append, List.nodup_append, List.forall_mem_append]
    refine ⟨⟨hnodup₁, hnodup, ?_⟩, hfresh₁, fun t ht => (hlater t ht).1⟩
    intro id hid id' hid' he
    obtain ⟨t, ht, rfl⟩ := List.mem_map.mp hid'
    exact (hlater t ht).2 (he ▸ hid)

/-- Of the files that define an id, the first one in the order of the keys is recorded. -/
theorem IsDerived.get?_templates (h : s.IsDerived) (x : String) :
    s.templates.get? x = (s.files.values.flatMap (·.definitions)).find? (·.id = x) := by
  have hd : s.templates = (s.files.entries.foldl addEntry (∅, ∅)).2 := by rw [← deriveTemplates_eq, h.derived]
  rw [hd, get?_foldl_addEntry, Dict.get?_empty, Option.none_or, Dict.values, List.flatMap_map]

/-- Which template is recorded for an id depends only on what each file defines under this id. -/
theorem IsDerived.get?_templates_congr {s' : Snapshot} (h : s.IsDerived) (h' : s'.IsDerived)
    (hx : ∀ key, (s.files.get? key).bind (·.definitions.find? (·.id = x)) =
      (s'.files.get? key).bind (·.definitions.find? (·.id = x))) : s.templates.get? x = s'.templates.get? x := by
  rw [h.get?_templates, h'.get?_templates, List.find?_flatMap, List.find?_flatMap]
  exact Dict.findSome?_values_congr hx

theorem exists_first_of_find? {l : List (String × FileMetadata)} (hsorted : l.Pairwise fun e e' => e.1 < e'.1) {t : CachedTemplate}
    (h : (l.flatMap (·.2.definitions)).find? (·.id = x) = some t) :
    ∃ e ∈ l, t ∈ e.2.definitions ∧ ∀ e' ∈ l, (∃ t' ∈ e'.2.definitions, t'.id = x) → e.1 ≤ e'.1 := by
  induction l with
  | nil => simp at h
  | cons e l ih =>
    rw [List.pairwise_cons] at hsorted
    rw [List.flatMap_cons, List.find?_append] at h
    cases hf : e.2.definitions.find? (·.id = x) with
    | some t' =>
      rw [hf, Option.some_or, Option.some.injEq] at h
      subst h
      refine ⟨e, List.mem_cons_self, List.mem_of_find?_eq_some hf, fun e' he' _ => ?_⟩
      rcases List.mem_cons.mp he' with rfl | he'
      · exact le_rfl
      · exact (hsorted.1 e' he').le
    | none =>
      rw [hf, Option.none_or] at h
      obtain ⟨e₁, he₁, ht, hleast⟩ := ih hsorted.2 h
      refine ⟨e₁, List.mem_cons_of_mem e he₁, ht, fun e' he' hdefines => ?_⟩
      rcases List.mem_cons.mp he' with rfl | he'
      · obtain ⟨t', ht', hid⟩ := hdefines
        exact absurd hid (by simpa using List.find?_eq_none.mp hf t' ht')
      · exact hleast e' he' hdefines

/-- The recorded template stands in the first file, in the order of the keys, that defines its id. -/
theorem IsDerived.exists_first (h : s.IsDerived) {t : CachedTemplate} (ht : s.templates.get? x = some t) :
    ∃ key m, s.files.get? key = some m ∧ t ∈ m.definitions ∧
      ∀ key' m', s.files.get? key' = some m' → (∃ t' ∈ m'.definitions, t'.id = x) → key ≤ key' := by
  rw [h.get?_templates, Dict.values, List.flatMap_map] at ht
  obtain ⟨e, he, hmem, hleast⟩ := exists_first_of_find? s.files.ordered ht
  exact ⟨e.1, e.2, Dict.mem_entries.mp he, hmem,
    fun key' m' hm' hdefines => hleast (key', m') (Dict.mem_entries.mpr hm') hdefines⟩

/-- When no file has an error, no id is defined twice. -/
theorem IsDerived.nodup_definitions (h : s.IsDerived) (he : ∀ key m, s.files.get? key = some m → m.errors = []) :
    ((s.files.values.flatMap (·.definitions)).map (·.id)).Nodup := by
  have hd : (s.files.entries.foldl addEntry (∅, ∅)).1 = s.files := by rw [← deriveTemplates_eq, h.derived]
  have hall := nodup_of_foldl_addEntry (∅, ∅) s.files.nodup_keys fun key _ m hm => he key m (hd ▸ hm)
  rw [Dict.values, List.flatMap_map]
  exact hall.1

end Snapshot

end MarkdownTemplates
