import MarkdownTemplates.Proofs.Snapshot.Templates

/-!
# Three judgements of a document

The definitions of a document are collected, kept in the metadata of its file, and analyzed. Without references to other files
the three accept the same documents and keep the same of them. Where they do not accept, the collection names the first place
that is wrong, the metadata every place, and the analysis every place without an id and every id with several places.
-/

namespace MarkdownTemplates

variable {α σ ε : Type}

/-- A fold that fails goes well up to one item, and fails there. -/
theorem foldlM_eq_error {step : σ → α → Except ε σ} {l : List α} {s : σ} {e : ε} :
    l.foldlM step s = .error e ↔
      ∃ before a after s', l = before ++ a :: after ∧ before.foldlM step s = .ok s' ∧ step s' a = .error e := by
  constructor
  · intro h
    induction l generalizing s with
    | nil => cases h
    | cons b l ih =>
      rw [List.foldlM_cons] at h
      cases hb : step s b with
      | error e' =>
        rw [hb] at h
        cases h
        exact ⟨[], b, l, s, rfl, rfl, hb⟩
      | ok s₁ =>
        rw [hb] at h
        obtain ⟨before, a, after, s', rfl, hbefore, ha⟩ := ih h
        refine ⟨b :: before, a, after, s', rfl, ?_, ha⟩
        rw [List.foldlM_cons, hb]
        exact hbefore
  · rintro ⟨before, a, after, s', rfl, hbefore, ha⟩
    rw [List.foldlM_append, hbefore]
    show (step s' a >>= fun s => after.foldlM step s) = .error e
    rw [ha]
    rfl

/-! ## The collection -/

namespace Site

/-- Is `p` what is wrong with the place `s` when those of `before` are collected? -/
inductive IsRejected (before : List Site) (s : Site) : Problem → Prop
  | unnamed : s.id? = none → IsRejected before s (.missingId s.file s.node.line?)
  | repeated {id : String} {first : Site} : s.id? = some id → first? before id = some first →
      IsRejected before s (.duplicateInFile id s.file first.node.line? s.node.line?)

end Site

namespace TemplateDefinition

variable {file : Option Path} {root n : Node} {nodes : List Node} {ds : Definitions} {p : Problem}

theorem addNode_eq_error (h : IsCollection (nodes.map (⟨file, ·⟩)) ds) :
    addNode file ds n = .error p ↔ Site.IsRejected (nodes.map (⟨file, ·⟩)) ⟨file, n⟩ p := by
  have hid : (Site.mk file n).id? = n.attribute? "id" := rfl
  rw [addNode]
  constructor
  · cases hn : n.attribute? "id" with
    | none =>
      rintro ⟨⟩
      exact .unnamed (hid.trans hn)
    | some id =>
      dsimp only
      cases hf : ds.get? id with
      | none => rintro ⟨⟩
      | some first =>
        rintro ⟨⟩
        rw [h.get?_eq] at hf
        obtain ⟨s, hs, rfl⟩ := Option.map_eq_some_iff.mp hf
        exact .repeated (hid.trans hn) hs
  · rintro (hn | ⟨hn, hs⟩)
    · rw [hid] at hn
      rw [hn]
    · rw [hid] at hn
      rw [hn]
      dsimp only
      rw [h.get?_eq, hs]
      rfl

/-- A document is not collected exactly when it has a first place that is wrong. -/
theorem collect_eq_error : collect file root = .error p ↔ ∃ before s after,
    Site.all file root = before ++ s :: after ∧ AreDistinct before ∧ s.IsRejected before p := by
  rw [collect, foldlM_eq_error, Site.all]
  constructor
  · rintro ⟨before, n, after, ds, hsplit, hbefore, hn⟩
    have hds := foldlM_addNode_eq_ok.mp hbefore
    exact ⟨_, _, _, by rw [hsplit, List.map_append, List.map_cons], hds.distinct, (addNode_eq_error hds).mp hn⟩
  · rintro ⟨before, s, after, hsplit, hdistinct, hs⟩
    obtain ⟨nodes, rest, hnodes, rfl, hrest⟩ := List.map_eq_append_iff.mp hsplit
    obtain ⟨n, after', rfl, rfl, rfl⟩ := List.map_eq_cons_iff.mp hrest
    obtain ⟨ds, hds⟩ := hdistinct.exists_isCollection
    exact ⟨nodes, n, after', ds, hnodes, foldlM_addNode_eq_ok.mpr hds, (addNode_eq_error hds).mpr hs⟩

/-- A document is collected exactly when its definitions have distinct ids. -/
theorem exists_collect_iff : (∃ ds, collect file root = .ok ds) ↔ AreDistinct (Site.all file root) := by
  constructor
  · rintro ⟨ds, hds⟩
    exact (collect_eq_ok.mp hds).distinct
  · intro h
    obtain ⟨ds, hds⟩ := h.exists_isCollection
    exact ⟨ds, collect_eq_ok.mpr hds⟩

end TemplateDefinition

/-! ## The metadata -/

namespace FileMetadata

variable {l : List Occurrence} {m : FileMetadata} {key content : String} {size modified : Nat} {file : Option Path}

/-- Every place that defines something is either kept or an error. -/
theorem length_addOccurrence (m : FileMetadata) (o : Occurrence) :
    (m.addOccurrence o).errors.length + (m.addOccurrence o).definitions.length =
      m.errors.length + m.definitions.length + 1 := by
  rw [addOccurrence]
  cases o.id with
  | none => simp; omega
  | some id =>
    dsimp only
    cases m.definitions.find? (·.id = id) with
    | none => simp; omega
    | some first => simp; omega

theorem length_foldl_addOccurrence (l : List Occurrence) (m : FileMetadata) :
    (l.foldl addOccurrence m).errors.length + (l.foldl addOccurrence m).definitions.length =
      m.errors.length + m.definitions.length + l.length := by
  induction l generalizing m with
  | nil => rfl
  | cons o l ih =>
    rw [List.foldl_cons, ih, length_addOccurrence, List.length_cons]
    omega

theorem ids_addOccurrence (m : FileMetadata) (o : Occurrence) :
    (m.addOccurrence o).definitions.map (·.id) =
      m.definitions.map (·.id) ++ o.id.toList.filter (· ∉ m.definitions.map (·.id)) := by
  rw [addOccurrence]
  cases o.id with
  | none => simp
  | some id =>
    dsimp only
    cases hf : m.definitions.find? (·.id = id) with
    | none =>
      have hnew : id ∉ m.definitions.map (·.id) := by simpa using hf
      rw [Option.toList_some, List.filter_cons_of_pos (by simpa using hnew), List.map_append]
      rfl
    | some first =>
      have hold : id ∈ m.definitions.map (·.id) :=
        List.mem_map.mpr ⟨first, List.mem_of_find?_eq_some hf, by simpa using List.find?_some hf⟩
      rw [Option.toList_some, List.filter_cons_of_neg (by simpa using hold), List.filter_nil, List.append_nil]

/-- The ids that are kept are those of the places, each where it stands first. -/
theorem ids_foldl_addOccurrence (l : List Occurrence) (hm : m.definitions = []) :
    (l.foldl addOccurrence m).definitions.map (·.id) = (l.filterMap (·.id)).eraseDups := by
  induction l using List.reverseRecOn with
  | nil => simp [hm]
  | append_singleton l o ih =>
    have hlast : [o].filterMap (·.id) = o.id.toList := by cases ho : o.id <;> simp [ho]
    rw [List.foldl_append, List.foldl_cons, List.foldl_nil, ids_addOccurrence, ih, List.filterMap_append, List.eraseDups_append,
      hlast]
    generalize l.filterMap (·.id) = ids
    cases o.id with
    | none => rfl
    | some id => by_cases hid : id ∈ ids <;> simp [List.removeAll, List.eraseDups_cons, hid]

theorem nodup_eraseDups (ids : List String) : ids.eraseDups.Nodup := by
  induction ids using List.reverseRecOn with
  | nil => simp
  | append_singleton ids id ih =>
    rw [List.eraseDups_append]
    by_cases hid : id ∈ ids
    · simp [List.removeAll, hid, ih]
    · have hne : ∀ a ∈ ids, a ≠ id := fun a ha he => hid (he ▸ ha)
      simpa [List.removeAll, List.eraseDups_cons, List.nodup_append, hid, ih] using hne

/-- The metadata of a content keeps each id, in the order in which the ids stand first. -/
theorem ids_ofContent (key content : String) (size modified : Nat) (file : Option Path) :
    (ofContent key content size modified).definitions.map (·.id) =
      ((Site.all file (Document.parse content.toList).root).filterMap Site.id?).eraseDups := by
  rw [ofContent, ids_foldl_addOccurrence _ rfl, Occurrence.all, Site.all, List.filterMap_map, List.filterMap_map]
  rfl

/-- The metadata of a content has an error for each place that it does not keep. -/
theorem length_errors_ofContent (key content : String) (size modified : Nat) (file : Option Path) :
    (ofContent key content size modified).errors.length + (ofContent key content size modified).definitions.length =
      (Site.all file (Document.parse content.toList).root).length := by
  rw [ofContent, length_foldl_addOccurrence, Occurrence.all, Site.all, List.length_map, List.length_map]
  exact Nat.zero_add _

/-- The metadata of a content keeps an id as its first place has it. -/
theorem eq_cached_of_mem_ofContent {t : CachedTemplate} (file : Option Path)
    (ht : t ∈ (ofContent key content size modified).definitions) :
    ∃ s, Site.first? (Site.all file (Document.parse content.toList).root) t.id = some s ∧
      t = ⟨t.id, key, s.node.dependencies, s.node.line?, s.node.endLine?⟩ := by
  have hnodup : ((ofContent key content size modified).definitions.map (·.id)).Nodup := by
    rw [ids_ofContent key content size modified file]
    exact nodup_eraseDups _
  have hfind : (ofContent key content size modified).definitions.find? (·.id = t.id) = some t := by
    obtain ⟨t', ht'⟩ : ∃ t', (ofContent key content size modified).definitions.find? (·.id = t.id) = some t' :=
      Option.isSome_iff_exists.mp (List.find?_isSome.mpr ⟨t, ht, decide_eq_true rfl⟩)
    have hid : t'.id = t.id := by simpa using List.find?_some ht'
    rw [ht', List.inj_on_of_nodup_map hnodup (List.mem_of_find?_eq_some ht') ht hid]
  rw [find?_definitions_ofContent key content size modified file] at hfind
  obtain ⟨s, hs, he⟩ := Option.map_eq_some_iff.mp hfind
  exact ⟨s, hs, he.symm⟩

end FileMetadata

/-! ## The analysis -/

namespace Closure

variable {w : World} {r : Resolver} {file : Option Path} {root : Node} {step : σ → Visit → Except ε σ} {s : σ}

/-- A document without references to other files has no visits. -/
theorem run_eq_of_local (h : ∀ reference ∈ Reference.all root, reference.src = none) :
    run w r file root step s = (.ok s, r) := by
  have hwalk : ∀ (pending : List PendingReference) (fuel : Nat) (seen : NameSet), (∀ p ∈ pending, p.reference.src = none) →
      walk w step fuel ⟨r, seen⟩ s pending = (.ok s, r) := by
    intro pending fuel seen hp
    induction pending with
    | nil => rw [walk]
    | cons p pending ih =>
      rw [List.forall_mem_cons] at hp
      rw [walk_skip fun src hsrc => by simp [hp.1] at hsrc, ih hp.2]
  exact hwalk _ _ _ (List.forall_mem_map.mpr h)

end Closure

namespace Analysis

variable {w : World} {r : Resolver} {file : Option Path} {root : Node} {c : Collected}

theorem run_eq_of_local (h : ∀ reference ∈ Reference.all root, reference.src = none) :
    run w r file root = (ofCollected file root { occurrences := Occurrence.all file root }, r) := by
  rw [run, Closure.run_eq_of_local h]

/-- An id is a duplicate once when it has several places, and never otherwise. -/
theorem nodup_duplicates : ((ofCollected file root c).duplicates.map (·.id)).Nodup := by
  have hsub : ((ofCollected file root c).duplicates.map (·.id)).Sublist (byId c.occurrences).keys := by
    simp only [ofCollected, duplicatesOf, Dict.keys]
    induction (byId c.occurrences).entries with
    | nil => exact List.Sublist.refl _
    | cons e entries ih =>
      rw [List.filterMap_cons, List.map_cons]
      split_ifs with hmany
      · exact ih.cons_cons _
      · exact ih.cons _
  exact hsub.nodup (byId c.occurrences).nodup_keys

/-- The issues of an analysis: first the places without an id, then the ids that have several places. -/
theorem exists_issues_eq (file : Option Path) (root : Node) (c : Collected) : ∃ repeated : List String, repeated.Nodup ∧
    (∀ id, id ∈ repeated ↔ 1 < (c.occurrences.filterMap (·.id)).count id) ∧
    (ofCollected file root c).issues = (c.occurrences.filter (·.id.isNone)).map Problem.occurrenceWithoutId ++
      repeated.map fun id => Problem.severalDefinitions id ((c.occurrences.filterMap (·.id)).count id) := by
  refine ⟨(ofCollected file root c).duplicates.map (·.id), nodup_duplicates, fun id => ?_, ?_⟩
  · rw [← length_getD_byId, List.mem_map]
    constructor
    · rintro ⟨d, hd, rfl⟩
      obtain ⟨hget, hmany⟩ := mem_duplicates.mp hd
      rwa [hget]
    · intro hmany
      cases hget : (byId c.occurrences).get? id with
      | none => simp [hget] at hmany
      | some found => exact ⟨⟨id, found⟩, mem_duplicates.mpr ⟨hget, by simpa [hget] using hmany⟩, rfl⟩
  · have hissues : (ofCollected file root c).issues = (c.occurrences.filter (·.id.isNone)).map Problem.occurrenceWithoutId ++
        (ofCollected file root c).duplicates.map fun d => Problem.severalDefinitions d.id d.occurrences.length := rfl
    rw [hissues, List.map_map]
    congr 1
    refine List.map_congr_left fun d hd => ?_
    rw [Function.comp_apply, ← length_getD_byId, (mem_duplicates.mp hd).1]
    rfl

end Analysis

/-! ## Agreement -/

/-- What all three keep of a definition: its lines, and the ids that it uses. -/
structure DefinitionExtent where
  startLine : Option Nat
  endLine : Option Nat
  dependencies : List String

namespace DefinitionExtent

def ofDefinition (d : TemplateDefinition) : DefinitionExtent := ⟨d.startLine, d.endLine, d.dependencies⟩

def ofCached (t : CachedTemplate) : DefinitionExtent := ⟨t.startLine, t.endLine, t.dependencies⟩

def ofOccurrence (o : Occurrence) : DefinitionExtent := ⟨o.line, o.endLine, o.dependencies⟩

end DefinitionExtent

/-- Do a collection, the metadata of a file and an analysis have the same definitions? -/
structure DefineAlike (ds : Definitions) (m : FileMetadata) (a : Analysis) : Prop where
  metadata_ids : ∀ id, id ∈ m.definitions.map (·.id) ↔ ds.contains id = true
  analysis_ids : ∀ id, a.definitions.contains id = ds.contains id
  metadata_extent : ∀ t ∈ m.definitions, (ds.get? t.id).map DefinitionExtent.ofDefinition = some (.ofCached t)
  analysis_extent : ∀ id o, a.definitions.get? id = some o →
    (ds.get? id).map DefinitionExtent.ofDefinition = some (.ofOccurrence o)

/-- Is this what a collection, the metadata of a file and an analysis make of the definitions at the sites? -/
structure AreJudgedAlike (sites : List Site) (collected : Except Problem Definitions) (m : FileMetadata) (a : Analysis) :
    Prop where
  collected_iff : (∃ ds, collected = .ok ds) ↔ AreDistinct sites
  errors_iff : m.errors = [] ↔ AreDistinct sites
  issues_iff : a.issues = [] ↔ AreDistinct sites
  alike : ∀ ds, collected = .ok ds → DefineAlike ds m a
  /-- The collection ends at the first site without an id or with one that is taken. -/
  problem : ∀ p, collected = .error p → ∃ before s after,
    sites = before ++ s :: after ∧ AreDistinct before ∧ s.IsRejected before p
  /-- The metadata has the ids in the order in which they stand first. -/
  ids : m.definitions.map (·.id) = (sites.filterMap Site.id?).eraseDups
  /-- What it has of an id is what the first site says. -/
  first : ∀ t ∈ m.definitions, ∃ s, Site.first? sites t.id = some s ∧
    t = ⟨t.id, m.path, s.node.dependencies, s.node.line?, s.node.endLine?⟩
  errors_length : m.errors.length + (sites.filterMap Site.id?).eraseDups.length =
    (sites.filter (·.id?.isNone)).length + (sites.filterMap Site.id?).length
  /-- The analysis has an issue for each site without an id, and one for each id with several sites. -/
  issues : ∃ repeated : List String, repeated.Nodup ∧
    (∀ id, id ∈ repeated ↔ 1 < (sites.filterMap Site.id?).count id) ∧
    a.issues = (sites.filter (·.id?.isNone)).map (fun s => Problem.occurrenceWithoutId s.occurrence) ++
      repeated.map fun id => Problem.severalDefinitions id ((sites.filterMap Site.id?).count id)

theorem Site.length_eq (sites : List Site) :
    sites.length = (sites.filter (·.id?.isNone)).length + (sites.filterMap id?).length := by
  induction sites with
  | nil => rfl
  | cons s sites ih => cases hs : s.id? <;> simp [hs, ih] <;> omega

/-- What is kept of the first places of the ids is alike. -/
theorem IsCollection.defineAlike {sites : List Site} {ds : Definitions} {m : FileMetadata} {a : Analysis}
    (h : IsCollection sites ds) (hids : m.definitions.map (·.id) = (sites.filterMap Site.id?).eraseDups)
    (hfirst : ∀ t ∈ m.definitions, ∃ s, Site.first? sites t.id = some s ∧
      t = ⟨t.id, m.path, s.node.dependencies, s.node.line?, s.node.endLine?⟩)
    (hget : ∀ id, a.definitions.get? id = (Site.first? sites id).map Site.occurrence) : DefineAlike ds m a where
  metadata_ids id := by rw [hids, List.mem_eraseDups, h.contains_iff]
  analysis_ids id := by rw [Dict.contains, Dict.contains, hget, h.get?_eq, Option.isSome_map, Option.isSome_map]
  metadata_extent t ht := by
    obtain ⟨s, hs, he⟩ := hfirst t ht
    rw [h.get?_eq, hs, he]
    rfl
  analysis_extent id o ho := by
    rw [hget] at ho
    obtain ⟨s, hs, rfl⟩ := Option.map_eq_some_iff.mp ho
    rw [h.get?_eq, hs]
    rfl

/-- A document without references to other files is judged alike when its definitions are collected, when they are kept in the
metadata of a file with its content, and when it is analyzed. -/
theorem areJudgedAlike_of_local (w : World) (r : Resolver) (file : Option Path) (key content : String) (size modified : Nat)
    (h : ∀ reference ∈ Reference.all (Document.parse content.toList).root, reference.src = none) :
    AreJudgedAlike (Site.all file (Document.parse content.toList).root)
      (TemplateDefinition.collect file (Document.parse content.toList).root)
      (FileMetadata.ofContent key content size modified)
      (Analysis.run w r file (Document.parse content.toList).root).1 := by
  have hids := FileMetadata.ids_ofContent key content size modified file
  have hlength := FileMetadata.length_errors_ofContent key content size modified file
  have hfirst : ∀ t ∈ (FileMetadata.ofContent key content size modified).definitions, ∃ s,
      Site.first? (Site.all file (Document.parse content.toList).root) t.id = some s ∧
        t = ⟨t.id, (FileMetadata.ofContent key content size modified).path, s.node.dependencies, s.node.line?,
          s.node.endLine?⟩ := by
    rw [(FileMetadata.ofContent_eq key content size modified).1]
    exact fun t ht => FileMetadata.eq_cached_of_mem_ofContent file ht
  rw [Analysis.run_eq_of_local h, ← Site.map_occurrence_all]
  obtain ⟨repeated, hnodup, hrepeated, hissues⟩ := Analysis.exists_issues_eq file (Document.parse content.toList).root
    { occurrences := (Site.all file (Document.parse content.toList).root).map Site.occurrence }
  rw [List.filterMap_map] at hrepeated hissues
  refine ⟨TemplateDefinition.exists_collect_iff, FileMetadata.errors_ofContent_eq_nil, ?_, fun ds hds => ?_,
    fun p => TemplateDefinition.collect_eq_error.mp, hids, hfirst, ?_, repeated, hnodup, hrepeated, ?_⟩
  · rw [Analysis.issues_eq_nil, AreDistinct, List.forall_mem_map, List.filterMap_map]
    rfl
  · refine (TemplateDefinition.collect_eq_ok.mp hds).defineAlike hids hfirst fun id => ?_
    rw [Analysis.get?_definitions, List.find?_map]
    rfl
  · rw [← hids, List.length_map, hlength, Site.length_eq]
  · rw [hissues, List.filter_map, List.map_map]
    rfl

/-- A document that defines `a` twice, first around `b` and a use of it, and has a definition without an id between. -/
def nestedContent : String :=
  "::::template\x7bid=\"a\"\x7d\n:::template\x7bid=\"b\"\x7d\n:::\n::template\x7bid=\"b\"\x7d\n::::\n\n" ++
    ":::template\n:::\n\n:::template\x7bid=\"a\"\x7d\n:::\n"

/-- The document is not collected, the metadata has `a` and `b` and two errors, and the analysis has issues. -/
theorem areJudgedAlike_of_local_nested :
    (∀ reference ∈ Reference.all (Document.parse nestedContent.toList).root, reference.src = none) ∧
      (¬ ∃ ds, TemplateDefinition.collect none (Document.parse nestedContent.toList).root = .ok ds) ∧
      (FileMetadata.ofContent "a.md" nestedContent 0 0).definitions.map (·.id) = ["a", "b"] ∧
      (FileMetadata.ofContent "a.md" nestedContent 0 0).errors.length = 2 ∧
      (Analysis.run (fileWorld "") {} none (Document.parse nestedContent.toList).root).1.issues ≠ [] := by
  have hlocal : ∀ reference ∈ Reference.all (Document.parse nestedContent.toList).root, reference.src = none := by
    decide +kernel
  have h := areJudgedAlike_of_local (fileWorld "") {} none "a.md" nestedContent 0 0 hlocal
  have hids : (Site.all none (Document.parse nestedContent.toList).root).filterMap Site.id? = ["a", "b", "a"] := by
    decide +kernel
  have hunnamed : ((Site.all none (Document.parse nestedContent.toList).root).filter (·.id?.isNone)).length = 1 := by
    decide +kernel
  have hrepeated : ¬ AreDistinct (Site.all none (Document.parse nestedContent.toList).root) := by
    decide +kernel
  have hkept : (["a", "b", "a"] : List String).eraseDups = ["a", "b"] := by decide +kernel
  have hlength := h.errors_length
  rw [hids, hkept, hunnamed] at hlength
  exact ⟨hlocal, h.collected_iff.not.mpr hrepeated, by rw [h.ids, hids, hkept], by simpa using hlength,
    h.issues_iff.not.mpr hrepeated⟩

end MarkdownTemplates
