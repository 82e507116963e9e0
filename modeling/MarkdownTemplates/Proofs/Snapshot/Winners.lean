import MarkdownTemplates.Proofs.Graph.Dependents
import MarkdownTemplates.Proofs.Snapshot.Templates

/-!
# Which definition counts

The definitions of all files stand in an order: that of the keys of their files, and in a file that of its list. Of those with
one id the first counts. Each of the others gives its file one error, which names the first one, and nothing else that concerns
several files is said about a file.
-/

namespace MarkdownTemplates

/-- A definition at its place in the files. -/
structure PlacedTemplate where
  key : String
  position : Nat
  template : CachedTemplate
  deriving DecidableEq

namespace FileMetadata

def placed (key : String) (m : FileMetadata) : List PlacedTemplate := m.definitions.zipIdx.map fun d => ⟨key, d.2, d.1⟩

theorem map_template_placed (key : String) (m : FileMetadata) : (m.placed key).map (·.template) = m.definitions := by
  rw [placed, List.map_map]
  exact List.zipIdx_map_fst 0 m.definitions

theorem nodup_placed (key : String) (m : FileMetadata) : (m.placed key).Nodup := by
  have hpositions : ((m.placed key).map (·.position)).Nodup := by
    rw [placed, List.map_map]
    have hrange : m.definitions.zipIdx.map (fun d => d.2) = List.range' 0 m.definitions.length := List.zipIdx_map_snd 0 _
    exact hrange ▸ List.nodup_range'
  exact hpositions.of_map _

theorem key_of_mem_placed {key : String} {m : FileMetadata} {p : PlacedTemplate} (h : p ∈ m.placed key) : p.key = key := by
  obtain ⟨d, -, rfl⟩ := List.mem_map.mp h
  rfl

end FileMetadata

namespace Snapshot

open FileMetadata (own)

variable {files : Dict FileMetadata} {all earlier later l : List PlacedTemplate} {p : PlacedTemplate} {m : FileMetadata}
  {templates : Dict CachedTemplate} {s : Snapshot} {x y : String}

def placed (files : Dict FileMetadata) : List PlacedTemplate := files.entries.flatMap fun e => e.2.placed e.1

def firstOf? (all : List PlacedTemplate) (x : String) : Option PlacedTemplate := all.find? (·.template.id = x)

/-- Is the definition another one than the first with its id? -/
def IsRepeated (all : List PlacedTemplate) (p : PlacedTemplate) : Prop := firstOf? all p.template.id ≠ some p

instance (all : List PlacedTemplate) (p : PlacedTemplate) : Decidable (IsRepeated all p) :=
  inferInstanceAs (Decidable (_ ≠ _))

/-- Is this an error about several files that says which definition has the id of `p` and comes first, and in which file? -/
def NamesFirst (all : List PlacedTemplate) (p : PlacedTemplate) (e : Problem) : Prop :=
  ∃ first, firstOf? all p.template.id = some first ∧ e = .projectDuplicate first.template p.template ∧
    e.kind = .duplicateDefinition ∧ e.concernsProject = true ∧ e.details.get? "firstFile" = some first.template.file

theorem nodup_placed (files : Dict FileMetadata) : (placed files).Nodup := by
  refine List.nodup_flatMap.mpr ⟨fun e _ => e.2.nodup_placed e.1, ?_⟩
  refine files.ordered.imp fun {e e'} hlt => ?_
  intro p hp hp'
  rw [← FileMetadata.key_of_mem_placed hp, ← FileMetadata.key_of_mem_placed hp'] at hlt
  exact String.lt_irrefl _ hlt

/-! ## One file after the other -/

theorem firstOf?_append (all later : List PlacedTemplate) (x : String) :
    firstOf? (all ++ later) x = (firstOf? all x).or (firstOf? later x) := List.find?_append

theorem firstOf?_of_split (h : all = earlier ++ p :: later) :
    firstOf? all p.template.id = (firstOf? earlier p.template.id).or (some p) := by
  have hself : firstOf? (p :: later) p.template.id = some p := List.find?_cons_of_pos (by simp)
  rw [h, firstOf?_append, hself]

theorem namesFirst_projectDuplicate {first : PlacedTemplate} (h : firstOf? all p.template.id = some first) :
    NamesFirst all p (.projectDuplicate first.template p.template) := by
  refine ⟨first, h, rfl, rfl, Problem.concernsProject_projectDuplicate _ _, ?_⟩
  simp [Problem.projectDuplicate, Problem.withDetail, Dict.get?_insert, Problem.scopeDetail]

/-- One more definition: it is the first one with its id, or an error names the first one. -/
theorem addDefinition_cases (h : all = earlier ++ p :: later) (hn : all.Nodup)
    (ht : ∀ x, templates.get? x = (firstOf? earlier x).map (·.template)) :
    ¬ IsRepeated all p ∧ (addDefinition (m, templates) p.template).1 = m ∨
      IsRepeated all p ∧ ∃ e, NamesFirst all p e ∧
        (addDefinition (m, templates) p.template).1 = { m with errors := m.errors ++ [e] } := by
  have hfirst := firstOf?_of_split h
  cases hf : firstOf? earlier p.template.id with
  | none =>
    rw [hf, Option.none_or] at hfirst
    exact .inl ⟨fun hr => hr hfirst, by simp [addDefinition, ht, hf]⟩
  | some first =>
    rw [hf, Option.some_or] at hfirst
    -- A definition comes only once, so it is not among those before it.
    have hne : first ≠ p := by
      rintro rfl
      exact List.disjoint_of_nodup_append (h ▸ hn) (List.mem_of_find?_eq_some hf) List.mem_cons_self
    refine .inr ⟨fun he => hne (Option.some.inj (hfirst.symm.trans he)), _, namesFirst_projectDuplicate hfirst, ?_⟩
    simp [addDefinition, ht, hf]

theorem get?_addDefinition_of_firstOf? (ht : ∀ x, templates.get? x = (firstOf? earlier x).map (·.template)) (x : String) :
    (addDefinition (m, templates) p.template).2.get? x = (firstOf? (earlier ++ [p]) x).map (·.template) := by
  rw [get?_addDefinition, ht, firstOf?_append, Option.map_or, firstOf?, firstOf?, List.find?_singleton]
  by_cases hx : p.template.id = x <;> simp [hx]

/-- When the templates so far are the first ones of the definitions so far, each definition that follows is a first one too or
adds one error. -/
theorem exists_errors_foldl_addDefinition (hall : all = earlier ++ l ++ later) (hn : all.Nodup)
    (ht : ∀ x, templates.get? x = (firstOf? earlier x).map (·.template)) :
    ∃ added, ((l.map (·.template)).foldl addDefinition (m, templates)).1 = { m with errors := m.errors ++ added } ∧
      List.Forall₂ (NamesFirst all) (l.filter (IsRepeated all)) added := by
  induction l generalizing earlier m templates with
  | nil => exact ⟨[], by simp, .nil⟩
  | cons p l ih =>
    -- The templates stay the first ones of the definitions so far, whether `p` is one of these or not.
    have hall' : all = (earlier ++ [p]) ++ l ++ later := by simp [hall]
    have hsplit : all = earlier ++ p :: (l ++ later) := by simp [hall]
    obtain ⟨added, herrors, hadded⟩ :=
      ih hall' (m := (addDefinition (m, templates) p.template).1) (get?_addDefinition_of_firstOf? ht)
    rw [List.map_cons, List.foldl_cons, herrors]
    rcases addDefinition_cases hsplit hn ht with ⟨hfirst, hstep⟩ | ⟨hrepeated, e, he, hstep⟩
    · rw [hstep, List.filter_cons_of_neg (by simpa using hfirst)]
      exact ⟨added, rfl, hadded⟩
    · rw [hstep, List.filter_cons_of_pos (by simpa using hrepeated)]
      exact ⟨e :: added, by simp, .cons he hadded⟩

theorem firstOf?_placed (key : String) (m : FileMetadata) (x : String) :
    (firstOf? (m.placed key) x).map (·.template) = m.definitions.find? (·.id = x) := by
  rw [← FileMetadata.map_template_placed key m, List.find?_map]
  rfl

/-- Every file keeps its own errors and gets one for each of its definitions that is another one than the first with its id. -/
theorem exists_errors_foldl_addEntry {entries : List (String × FileMetadata)} {state : Dict FileMetadata × Dict CachedTemplate}
    (hall : all = earlier ++ entries.flatMap fun e => e.2.placed e.1) (hn : all.Nodup) (hkeys : (entries.map Prod.fst).Nodup)
    (ht : ∀ x, state.2.get? x = (firstOf? earlier x).map (·.template)) :
    ∀ e ∈ entries, ∃ added, (entries.foldl addEntry state).1.get? e.1 = some { e.2 with errors := e.2.own.errors ++ added } ∧
      List.Forall₂ (NamesFirst all) ((e.2.placed e.1).filter (IsRepeated all)) added := by
  induction entries generalizing earlier state with
  | nil => simp
  | cons e entries ih =>
    rw [List.map_cons, List.nodup_cons] at hkeys
    rw [List.flatMap_cons] at hall
    rw [List.foldl_cons, List.forall_mem_cons]
    constructor
    · obtain ⟨added, herrors, hadded⟩ := exists_errors_foldl_addDefinition (m := e.2.own)
        (hall.trans (List.append_assoc _ _ _).symm) hn ht
      refine ⟨added, ?_, hadded⟩
      rw [FileMetadata.map_template_placed] at herrors
      -- The files that follow have other keys.
      rw [files_foldl_addEntry hkeys.1, addEntry, Dict.get?_insert_self, addFile]
      exact congrArg some herrors
    · have hnext : ∀ x, (addEntry state e).2.get? x = (firstOf? (earlier ++ e.2.placed e.1) x).map (·.template) := by
        intro x
        rw [addEntry, addFile, get?_foldl_addDefinition, ht, firstOf?_append, Option.map_or, firstOf?_placed]
      exact ih (hall.trans (List.append_assoc _ _ _).symm) hkeys.2 hnext

theorem firstOf?_placed_files (files : Dict FileMetadata) (x : String) :
    (firstOf? (placed files) x).map (·.template) = (files.values.flatMap (·.definitions)).find? (·.id = x) := by
  have htemplates : (placed files).map (·.template) = files.values.flatMap (·.definitions) := by
    rw [placed, List.map_flatMap, Dict.values, List.flatMap_map]
    exact List.flatMap_congr fun e _ => FileMetadata.map_template_placed e.1 e.2
  rw [← htemplates, List.find?_map]
  rfl

/-! ## Graphs of templates -/

theorem IsDerived.id_of_get? {c : CachedTemplate} (h : s.IsDerived) (hc : s.templates.get? x = some c) : c.id = x := by
  rw [h.get?_templates] at hc
  simpa using List.find?_some hc

theorem IsDerived.hasEdge_iff (h : s.IsDerived) :
    s.dependencies.HasEdge x y ↔ ∃ c, s.templates.get? x = some c ∧ y ∈ c.dependencies := by
  rw [h.graph, graphOf, DependencyGraph.hasEdge_ofEntries]
  constructor
  · rintro ⟨_, hm, hy⟩
    obtain ⟨c, hc, heq⟩ := List.mem_map.mp hm
    obtain ⟨k, hk⟩ := Dict.mem_values.mp hc
    cases heq
    exact ⟨c, (h.id_of_get? hk).symm ▸ hk, hy⟩
  · rintro ⟨c, hc, hy⟩
    exact ⟨c.dependencies, List.mem_map.mpr ⟨c, Dict.mem_values.mpr ⟨x, hc⟩, by rw [h.id_of_get? hc]⟩, hy⟩

theorem IsDerived.isSome_edges (h : s.IsDerived) : (s.dependencies.edges.get? x).isSome = (s.templates.get? x).isSome := by
  rw [Bool.eq_iff_iff, h.graph, graphOf, DependencyGraph.isSome_get?_edges_ofEntries, List.map_map]
  constructor
  · intro hx
    obtain ⟨c, hc, rfl⟩ := List.mem_map.mp hx
    obtain ⟨k, hk⟩ := Dict.mem_values.mp hc
    rw [Function.comp_apply, h.id_of_get? hk, hk]
    rfl
  · intro hx
    obtain ⟨c, hc⟩ := Option.isSome_iff_exists.mp hx
    exact List.mem_map.mpr ⟨c, Dict.mem_values.mpr ⟨x, hc⟩, h.id_of_get? hc⟩

theorem IsDerived.edges_eq (h : s.IsDerived) :
    s.dependencies.edges = s.templates.mapValues fun _ c => NameSet.ofList c.dependencies := by
  refine Dict.ext_get? fun x => ?_
  rw [Dict.get?_mapValues]
  have hsome := h.isSome_edges (x := x)
  cases hc : s.templates.get? x with
  | none => simpa [hc] using hsome
  | some c =>
    rw [hc, Option.isSome_some] at hsome
    obtain ⟨targets, ht⟩ := Option.isSome_iff_exists.mp hsome
    rw [ht, Option.map_some, Option.some.injEq]
    refine NameSet.ext_contains fun y => ?_
    have hedge := h.hasEdge_iff (x := x) (y := y)
    rw [DependencyGraph.hasEdge_iff] at hedge
    simpa [ht, hc, NameSet.contains_ofList] using hedge

theorem IsDerived.keys_nodes (h : s.IsDerived) : s.dependencies.nodes.keys = s.templates.keys := by
  have hnodes : s.dependencies.nodes.keys = s.dependencies.edges.keys := by
    rw [h.graph, graphOf, DependencyGraph.ofEntries, Dict.keys_mapValues]
  rw [hnodes, h.edges_eq, Dict.keys_mapValues]

/-! ## What deriving leaves -/

/-- Does the snapshot follow from the files? -/
structure FollowsFrom (s : Snapshot) (files : Dict FileMetadata) : Prop where
  templates : ∀ x, s.templates.get? x = (firstOf? (placed files) x).map (·.template)
  keys : s.files.keys = files.keys
  /-- A file keeps its own errors, in their order. Behind them stands one error for each of its definitions that is another one
  than the first with its id, and nothing of the errors about several files that were there before. -/
  errors : ∀ key m, files.get? key = some m → ∃ added,
    s.files.get? key = some { m with errors := m.errors.filter (fun e => !e.concernsProject) ++ added } ∧
      List.Forall₂ (NamesFirst (placed files)) ((m.placed key).filter (IsRepeated (placed files))) added
  nodes : s.dependencies.nodes.keys = s.templates.keys
  edges : s.dependencies.edges = s.templates.mapValues fun _ t => NameSet.ofList t.dependencies

theorem followsFrom_withFiles (s : Snapshot) (now : Nat) (files : Dict FileMetadata) :
    (s.withFiles now files).FollowsFrom files := by
  have hderived := isDerived_withFiles s now files
  refine ⟨fun x => ?_, ?_, fun key m hm => ?_, hderived.keys_nodes, hderived.edges_eq⟩
  · have hget : (s.withFiles now files).templates.get? x = (files.entries.flatMap (·.2.definitions)).find? (·.id = x) :=
      get?_foldl_addEntry files.entries (∅, ∅) x
    rw [hget, firstOf?_placed_files, Dict.values, List.flatMap_map]
  · have hkeys := congrArg Dict.keys (own_withFiles s now files)
    rwa [Dict.keys_mapValues, Dict.keys_mapValues] at hkeys
  · have hall : placed files = [] ++ files.entries.flatMap fun e => e.2.placed e.1 := rfl
    exact exists_errors_foldl_addEntry hall (nodup_placed files) files.nodup_keys (fun _ => rfl) (key, m)
      (Dict.mem_entries.mpr hm)

theorem IsDerived.withFiles_files (h : s.IsDerived) (now : Nat) : s.withFiles now s.files = { s with lastUpdated := now } := by
  simp only [withFiles, h.derived, ← h.graph]

/-- Every definition counts or adds one error to its file. Only what the files say on their own decides which, so neither the rest
of the snapshot nor an older error about several files does, and deriving again changes the time at most. -/
theorem accounts_for_definitions (s : Snapshot) (now : Nat) (files : Dict FileMetadata) :
    (s.withFiles now files).FollowsFrom files ∧
      (∀ s' now' files', files'.mapValues (fun _ => own) = files.mapValues (fun _ => own) →
        (withFiles s' now' files').Agrees (s.withFiles now files)) ∧
      ∀ now', (s.withFiles now files).withFiles now' (s.withFiles now files).files =
        { s.withFiles now files with lastUpdated := now' } := by
  have hderived := isDerived_withFiles s now files
  refine ⟨followsFrom_withFiles s now files, fun s' now' files' h => ?_, hderived.withFiles_files⟩
  refine (isDerived_withFiles s' now' files').agrees hderived ?_
  rw [own_withFiles, own_withFiles, h]

/-- Two files that define `x`, of which the second has the errors. -/
def bothDefine (errors : List Problem) : Dict FileMetadata :=
  .ofList [("a.md", { path := "a.md", size := 0, modified := 0, hash := "", definitions := [⟨"x", "a.md", [], some 1, some 2⟩] }),
    ("b.md", { path := "b.md", size := 0, modified := 0, hash := "", definitions := [⟨"x", "b.md", ["y"], some 1, some 3⟩], errors })]

/-- An error that says that `x` comes first in a file that is gone. -/
def staleError : Problem := .projectDuplicate ⟨"x", "0.md", [], some 1, some 2⟩ ⟨"x", "b.md", ["y"], some 1, some 3⟩

theorem accounts_for_definitions_both :
    (bothDefine [staleError]).mapValues (fun _ => own) = (bothDefine []).mapValues (fun _ => own) ∧
      (withFiles { lastUpdated := 5, root := ⟨"/q"⟩, templates := .ofList [("z", ⟨"z", "0.md", [], none, none⟩)] } 7
        (bothDefine [staleError])).Agrees (withFiles { lastUpdated := 0, root := ⟨"/p"⟩ } 1 (bothDefine [])) := by
  have hown : (bothDefine [staleError]).mapValues (fun _ => own) = (bothDefine []).mapValues (fun _ => own) := by decide
  exact ⟨hown, (accounts_for_definitions _ 1 (bothDefine [])).2.1 _ 7 _ hown⟩

end Snapshot

end MarkdownTemplates
