import MarkdownTemplates.Analysis
import MarkdownTemplates.Proofs.Closure
import MarkdownTemplates.Proofs.Template.Collecting

/-!
# Analysis and collection

The analysis of a document and the collection of its definitions make the same visits. The analysis keeps all definitions that
they bring, and the collection is there exactly when the analysis has no issue and every visit is successful.
-/

namespace MarkdownTemplates

namespace Site

def occurrence (s : Site) : Occurrence := .ofNode s.file s.node

theorem map_occurrence_all (file : Option Path) (root : Node) : (all file root).map occurrence = Occurrence.all file root := by
  rw [all, Occurrence.all, List.map_map]
  rfl

end Site

namespace Visit

/-- The definitions in the file of a visit. -/
def sites (v : Visit) : List Site :=
  match v.outcome with
  | .ok file => Site.all (some file.path) file.document.root
  | .error _ => []

/-- The file of a successful visit. -/
def files (v : Visit) : List Path :=
  match v.outcome with
  | .ok file => [file.path]
  | .error _ => []

/-- The failure of a visit for which the document itself has the reference. -/
def unresolved (v : Visit) : List UnresolvedSource :=
  match v.outcome with
  | .ok _ => []
  | .error u => if v.isLocal then [⟨v.reference, u⟩] else []

/-- Does the visit lead to a document? -/
def IsResolved (v : Visit) : Prop := ∃ file, v.outcome = .ok file

end Visit

/-- The definitions of a document and of the files that are visited. -/
def Site.ofVisits (file : Option Path) (root : Node) (visits : List Visit) : List Site :=
  Site.all file root ++ visits.flatMap Visit.sites

/-! ## Collection -/

namespace TemplateDefinition

variable {w : World} {r : Resolver} {file : Option Path} {root : Node} {sites : List Site} {ds ds' : Definitions} {v : Visit}
  {visits : List Visit}

theorem addVisit_eq_ok (h : IsCollection sites ds) :
    addVisit ds v = .ok ds' ↔ v.IsResolved ∧ IsCollection (sites ++ v.sites) ds' := by
  rw [addVisit, Visit.IsResolved, Visit.sites]
  cases v.outcome with
  | error u => simp
  | ok f =>
    simp only [Except.ok.injEq, exists_eq', true_and]
    rw [except_bind_eq_ok]
    constructor
    · rintro ⟨incoming, hi, hm⟩
      exact (merge_eq_ok h (collect_eq_ok.mp hi)).mp hm
    · intro hds
      obtain ⟨incoming, hi⟩ := (areDistinct_append.mp hds.distinct).2.1.exists_isCollection
      exact ⟨incoming, collect_eq_ok.mpr hi, (merge_eq_ok h hi).mpr hds⟩

theorem foldlM_addVisit_eq_ok (h : IsCollection sites ds) : visits.foldlM addVisit ds = .ok ds' ↔
    (∀ v ∈ visits, v.IsResolved) ∧ IsCollection (sites ++ visits.flatMap Visit.sites) ds' := by
  induction visits generalizing sites ds with
  | nil =>
    have hpure : ([] : List Visit).foldlM addVisit ds = .ok ds := rfl
    rw [hpure, List.flatMap_nil, List.append_nil]
    constructor
    · rintro ⟨⟩
      exact ⟨by simp, h⟩
    · rintro ⟨-, h'⟩
      exact congrArg _ (h.unique h')
  | cons v visits ih =>
    rw [List.foldlM_cons, except_bind_eq_ok, List.forall_mem_cons, List.flatMap_cons, ← List.append_assoc]
    constructor
    · rintro ⟨ds₁, hv, hvs⟩
      obtain ⟨hok, h₁⟩ := (addVisit_eq_ok h).mp hv
      obtain ⟨hoks, h₂⟩ := (ih h₁).mp hvs
      exact ⟨⟨hok, hoks⟩, h₂⟩
    · rintro ⟨⟨hok, hoks⟩, h₂⟩
      obtain ⟨ds₁, h₁⟩ := (areDistinct_append.mp h₂.distinct).1.exists_isCollection
      exact ⟨ds₁, (addVisit_eq_ok h).mpr ⟨hok, h₁⟩, (ih h₁).mpr ⟨hoks, h₂⟩⟩

theorem collectAll_eq_bind (hv : Closure.VisitsOf w r.restrict file root visits) (hf : r.IsFaithful w) :
    (collectAll w r file root).1 = collect file root >>= fun ds => visits.foldlM addVisit ds := by
  rw [collectAll]
  cases collect file root with
  | error p => rfl
  | ok ds => exact hv.run_eq hf

/-- A closure is collected exactly when every visit leads to a document and all definitions have distinct ids. -/
theorem collectAll_eq_ok (hv : Closure.VisitsOf w r.restrict file root visits) (hf : r.IsFaithful w) :
    (collectAll w r file root).1 = .ok ds ↔
      (∀ v ∈ visits, v.IsResolved) ∧ IsCollection (Site.ofVisits file root visits) ds := by
  rw [collectAll_eq_bind hv hf, except_bind_eq_ok]
  constructor
  · rintro ⟨ds₁, h₁, h⟩
    exact (foldlM_addVisit_eq_ok (collect_eq_ok.mp h₁)).mp h
  · intro h
    obtain ⟨ds₁, h₁⟩ := (areDistinct_append.mp h.2.distinct).1.exists_isCollection
    exact ⟨ds₁, collect_eq_ok.mpr h₁, (foldlM_addVisit_eq_ok h₁).mpr h⟩

theorem exists_collectAll_iff (hv : Closure.VisitsOf w r.restrict file root visits) (hf : r.IsFaithful w) :
    (∃ ds, (collectAll w r file root).1 = .ok ds) ↔
      (∀ v ∈ visits, v.IsResolved) ∧ AreDistinct (Site.ofVisits file root visits) := by
  constructor
  · rintro ⟨ds, hds⟩
    obtain ⟨hok, hcol⟩ := (collectAll_eq_ok hv hf).mp hds
    exact ⟨hok, hcol.distinct⟩
  · rintro ⟨hok, hdistinct⟩
    obtain ⟨ds, hcol⟩ := hdistinct.exists_isCollection
    exact ⟨ds, (collectAll_eq_ok hv hf).mpr ⟨hok, hcol⟩⟩

end TemplateDefinition

/-! ## Analysis -/

namespace Analysis

variable {w : World} {r : Resolver} {file : Option Path} {root : Node} {c : Collected} {visits : List Visit}

theorem foldl_addVisit (c : Collected) (visits : List Visit) : visits.foldl Collected.addVisit c =
    ⟨c.occurrences ++ (visits.flatMap Visit.sites).map Site.occurrence, c.unresolved ++ visits.flatMap Visit.unresolved,
      c.externalFiles ++ visits.flatMap Visit.files⟩ := by
  induction visits generalizing c with
  | nil => simp
  | cons v visits ih =>
    have hv : c.addVisit v = ⟨c.occurrences ++ v.sites.map Site.occurrence, c.unresolved ++ v.unresolved,
        c.externalFiles ++ v.files⟩ := by
      rw [Collected.addVisit, Visit.sites, Visit.unresolved, Visit.files]
      cases v.outcome with
      | ok f => simp [Site.map_occurrence_all]
      | error u => cases v.isLocal <;> simp
    rw [List.foldl_cons, ih, hv]
    simp

/-- The analysis of a document is that of the definitions, failures and files that the visits bring. -/
theorem run_eq (hv : Closure.VisitsOf w r.restrict file root visits) (hf : r.IsFaithful w) : (run w r file root).1 =
    ofCollected file root ⟨(Site.ofVisits file root visits).map Site.occurrence, visits.flatMap Visit.unresolved,
      visits.flatMap Visit.files⟩ := by
  let start : Collected := { occurrences := Occurrence.all file root }
  let step (c : Collected) (v : Visit) : Except Empty Collected := .ok (c.addVisit v)
  have hrun : (Closure.run w r file root step start).1 = .ok (visits.foldl Collected.addVisit start) := by
    rw [hv.run_eq hf]
    exact List.foldlM_pure
  rw [foldl_addVisit] at hrun
  rw [run]
  rcases hr : Closure.run w r file root step start with ⟨o, r'⟩
  rw [hr] at hrun
  obtain rfl : o = _ := hrun
  rw [Site.ofVisits, List.map_append, Site.map_occurrence_all]
  rfl

/-- A group holds the occurrences of its id in their order. -/
theorem getD_get?_byId (occurrences : List Occurrence) (id : String) :
    ((byId occurrences).get? id).getD [] = occurrences.filter (·.id = some id) := by
  rw [byId, Dict.getD_get?_group]
  induction occurrences with
  | nil => rfl
  | cons o occurrences ih =>
    rw [List.filterMap_cons, List.filter_cons]
    cases ho : o.id with
    | none => simpa using ih
    | some k =>
      rw [Option.map_some, List.filter_cons]
      by_cases hk : k = id <;> simp [hk, ih]

theorem length_getD_byId (occurrences : List Occurrence) (id : String) :
    (((byId occurrences).get? id).getD []).length = (occurrences.filterMap (·.id)).count id := by
  rw [getD_get?_byId, List.count_filterMap, List.countP_eq_length_filter]
  exact congrArg List.length (List.filter_congr fun o _ => (beq_eq_decide _ _).symm)

theorem mem_duplicates {d : DuplicateTemplate} : d ∈ (ofCollected file root c).duplicates ↔
    (byId c.occurrences).get? d.id = some d.occurrences ∧ 1 < d.occurrences.length := by
  simp only [ofCollected, duplicatesOf, List.mem_filterMap]
  constructor
  · rintro ⟨⟨id, found⟩, he, hd⟩
    dsimp only at hd
    split at hd
    · obtain rfl := Option.some.inj hd
      exact ⟨Dict.mem_entries.mp he, ‹_›⟩
    · cases hd
  · rintro ⟨hget, hmany⟩
    exact ⟨(d.id, d.occurrences), Dict.mem_entries.mpr hget, if_pos hmany⟩

theorem duplicates_eq_nil :
    (ofCollected file root c).duplicates = [] ↔ (c.occurrences.filterMap (·.id)).Nodup := by
  rw [List.nodup_iff_count_le_one]
  simp only [ofCollected, duplicatesOf, List.filterMap_eq_nil_iff, ← length_getD_byId]
  constructor
  · intro h id
    cases hid : (byId c.occurrences).get? id with
    | none => simp
    | some found =>
      have hfew := h (id, found) (Dict.mem_entries.mpr hid)
      simpa using hfew
  · rintro h ⟨id, found⟩ he
    have hfew := h id
    rw [Dict.mem_entries.mp he] at hfew
    simpa using hfew

theorem issues_eq_nil : (ofCollected file root c).issues = [] ↔
    (∀ o ∈ c.occurrences, o.id.isSome = true) ∧ (c.occurrences.filterMap (·.id)).Nodup := by
  have hissues : (ofCollected file root c).issues = (c.occurrences.filter (·.id.isNone)).map Problem.occurrenceWithoutId ++
      (ofCollected file root c).duplicates.map fun d => Problem.severalDefinitions d.id d.occurrences.length := rfl
  rw [hissues, List.append_eq_nil_iff, List.map_eq_nil_iff, List.map_eq_nil_iff, duplicates_eq_nil, List.filter_eq_nil_iff]
  simp [Option.isSome_iff_ne_none]

/-- The first occurrence of an id counts. -/
theorem get?_definitions (id : String) :
    (ofCollected file root c).definitions.get? id = c.occurrences.find? (·.id = some id) := by
  calc (ofCollected file root c).definitions.get? id = ((byId c.occurrences).get? id).bind List.head? :=
        Dict.get?_ofList_filterMap _ _ id
    _ = (((byId c.occurrences).get? id).getD []).head? := by cases (byId c.occurrences).get? id <;> rfl
    _ = c.occurrences.find? (·.id = some id) := by rw [getD_get?_byId, List.head?_filter]

/-- The analysis has no issue exactly when the definitions in the closure have distinct ids. -/
theorem issues_run_eq_nil (hv : Closure.VisitsOf w r.restrict file root visits) (hf : r.IsFaithful w) :
    (run w r file root).1.issues = [] ↔ AreDistinct (Site.ofVisits file root visits) := by
  rw [run_eq hv hf, issues_eq_nil, AreDistinct, List.forall_mem_map, List.filterMap_map]
  rfl

theorem get?_definitions_run (hv : Closure.VisitsOf w r.restrict file root visits) (hf : r.IsFaithful w) (id : String) :
    (run w r file root).1.definitions.get? id = (Site.first? (Site.ofVisits file root visits) id).map Site.occurrence := by
  rw [run_eq hv hf, get?_definitions, List.find?_map]
  rfl

theorem externalFiles_run (hv : Closure.VisitsOf w r.restrict file root visits) (hf : r.IsFaithful w) :
    (run w r file root).1.externalFiles = visits.flatMap Visit.files := by
  rw [run_eq hv hf]
  rfl

end Analysis

/-! ## Agreement -/

namespace Closure

variable {σ ε : Type} {step : σ → Visit → Except ε σ}

/-- Do a step of a walk, and note the file of the visit. -/
def noting (step : σ → Visit → Except ε σ) (s : σ × List Path) (v : Visit) : Except ε (σ × List Path) :=
  (step s.1 v).map (·, s.2 ++ v.files)

theorem foldlM_noting {visits : List Visit} {s s' : σ} (h : visits.foldlM step s = .ok s') (files : List Path) :
    visits.foldlM (noting step) (s, files) = .ok (s', files ++ visits.flatMap Visit.files) := by
  induction visits generalizing s files with
  | nil =>
    cases h
    simp [pure, Except.pure]
  | cons v visits ih =>
    rw [List.foldlM_cons, except_bind_eq_ok] at h
    obtain ⟨s₁, h₁, h⟩ := h
    have hv : noting step (s, files) v = .ok (s₁, files ++ v.files) := by simp [noting, h₁, Except.map]
    rw [List.foldlM_cons, hv, List.flatMap_cons, ← List.append_assoc]
    exact ih h _

end Closure

namespace TemplateDefinition

variable {w : World} {r r' : Resolver} {file : Option Path} {root : Node}

/-- The definitions of a closure are collected exactly when all visits lead to documents and the analysis has no issue. They are
then the definitions of the analysis, and both walks visit the same files in the same order. -/
theorem collectAll_agrees_with_analysis (hf : r.IsFaithful w) (hf' : r'.IsFaithful w) (hr : r'.restrict = r.restrict) :
    ∃ visits, Closure.VisitsOf w r.restrict file root visits ∧
      ((∃ ds, (collectAll w r file root).1 = .ok ds) ↔
        (∀ v ∈ visits, v.IsResolved) ∧ (Analysis.run w r' file root).1.issues = []) ∧
      ∀ ds, (collectAll w r file root).1 = .ok ds →
        (∀ id, ds.contains id = (Analysis.run w r' file root).1.definitions.contains id) ∧
        (∀ id d o, ds.get? id = some d → (Analysis.run w r' file root).1.definitions.get? id = some o →
          d.file = o.file ∧ d.startLine = o.line ∧ d.endLine = o.endLine ∧ d.dependencies = o.dependencies) ∧
        ∃ start, collect file root = .ok start ∧
          (Closure.run w r file root (Closure.noting addVisit) (start, [])).1 =
            .ok (ds, (Analysis.run w r' file root).1.externalFiles) := by
  obtain ⟨visits, hv⟩ := Closure.exists_visitsOf w r.restrict file root
  have hv' : Closure.VisitsOf w r'.restrict file root visits := hr ▸ hv
  have hget := Analysis.get?_definitions_run hv' hf'
  refine ⟨visits, hv, ?_, fun ds hds => ⟨fun id => ?_, fun id d o hd ho => ?_, ?_⟩⟩
  · rw [Analysis.issues_run_eq_nil hv' hf', exists_collectAll_iff hv hf]
  · have hcol := ((collectAll_eq_ok hv hf).mp hds).2
    rw [Dict.contains, Dict.contains, hcol.get?_eq, hget, Option.isSome_map, Option.isSome_map]
  · have hcol := ((collectAll_eq_ok hv hf).mp hds).2
    rw [hcol.get?_eq] at hd
    rw [hget] at ho
    obtain ⟨s, hs, rfl⟩ := Option.map_eq_some_iff.mp hd
    obtain rfl : s.occurrence = o := by simpa [hs] using ho
    exact ⟨rfl, rfl, rfl, rfl⟩
  · rw [collectAll_eq_bind hv hf, except_bind_eq_ok] at hds
    obtain ⟨start, hstart, hfold⟩ := hds
    refine ⟨start, hstart, ?_⟩
    rw [hv.run_eq hf, Closure.foldlM_noting hfold [], Analysis.externalFiles_run hv' hf', List.nil_append]

end TemplateDefinition

/-! ### Documents that use one file -/

/-- A world in which there is one file. -/
def fileWorld (source : String) : World := { files := ⟨Dict.ofList [("/b.md", .file source.toUTF8 0)]⟩ }

/-- The visit of that file. -/
def fileVisit (reference : Reference) (source : String) : Visit :=
  ⟨reference, true, .ok ⟨⟨"/b.md"⟩, .parse source.toList⟩⟩

/-- A document with one reference leads to the file, and then to where the references of the file lead. -/
theorem visitsOf_fileWorld {source : String} {root : Node} {reference : Reference} {visits : List Visit}
    (hread : (fileWorld source).files.readText ⟨"/b.md"⟩ = .ok source) (hrefs : Reference.all root = [reference])
    (hsrc : reference.src = some "b.md")
    (h : Closure.Visits (fileWorld source) none (NameSet.insert (.ofList []) "/b.md")
      ((Reference.all (Document.parse source.toList).root).map (⟨·, some ⟨"/b.md"⟩, false⟩)) visits) :
    Closure.VisitsOf (fileWorld source) none none root (fileVisit reference source :: visits) := by
  have hpath : Resolver.resolvePath (fileWorld source).cwd "b.md" none = ⟨"/b.md"⟩ := by
    show Resolver.resolvePath ⟨"/"⟩ "b.md" none = ⟨"/b.md"⟩
    decide +kernel
  have hjoin : (fileWorld source).cwd.join ⟨"/b.md"⟩ = ⟨"/b.md"⟩ := by
    show Path.join ⟨"/"⟩ ⟨"/b.md"⟩ = ⟨"/b.md"⟩
    decide +kernel
  have hnew : (NameSet.ofList []).contains "/b.md" = false := by decide +kernel
  rw [Closure.VisitsOf, hrefs]
  refine .step hsrc ?_ (by rw [Resolver.outcome_none, hpath, hjoin, hread]) ?_
  · rw [hpath]
    exact hnew
  · rw [hpath]
    exact h

/-- A template `b` in a file. -/
def linkedSource : String := ":::template\x7bid=\"b\"\x7d\n:::\n"

/-- A template `a` that uses the one in the file. -/
def linkedDocument : Document :=
  .parse ":::template\x7bid=\"a\"\x7d\n::template\x7bid=\"b\" src=\"b.md\"\x7d\n:::\n".toList

/-- The reference in the document. -/
def linkedReference : Reference := ⟨"b", some "b.md", some 2, some 1⟩

theorem visitsOf_linked :
    Closure.VisitsOf (fileWorld linkedSource) none none linkedDocument.root [fileVisit linkedReference linkedSource] := by
  have hnone : Reference.all (Document.parse linkedSource.toList).root = [] := by decide +kernel
  refine visitsOf_fileWorld (by decide +kernel) (by decide +kernel) rfl ?_
  rw [hnone]
  exact .done

theorem areDistinct_linked :
    AreDistinct (Site.ofVisits none linkedDocument.root [fileVisit linkedReference linkedSource]) := by
  decide +kernel

/-- The file has a document and the ids `a` and `b` are distinct, so the closure is collected. The analysis finds the same ids,
also where the resolver has the file already. -/
theorem collectAll_agrees_with_analysis_linked :
    ∃ ds, (TemplateDefinition.collectAll (fileWorld linkedSource) {} none linkedDocument.root).1 = .ok ds ∧
      ∀ id, ds.contains id = (Analysis.run (fileWorld linkedSource)
        (Resolver.resolve (fileWorld linkedSource) {} "b.md" none).2 none linkedDocument.root).1.definitions.contains id := by
  have hf : Resolver.IsFaithful (fileWorld linkedSource) {} := Resolver.isFaithful_of_memo rfl
  have hf' : (Resolver.resolve (fileWorld linkedSource) {} "b.md" none).2.IsFaithful (fileWorld linkedSource) := hf.resolve.2
  have hr : (Resolver.resolve (fileWorld linkedSource) {} "b.md" none).2.restrict = none := Resolver.restrict_resolve
  obtain ⟨visits, hv, hiff, hagree⟩ := @TemplateDefinition.collectAll_agrees_with_analysis (fileWorld linkedSource) {} _ none
    linkedDocument.root hf hf' hr
  obtain rfl := hv.unique visitsOf_linked
  have hresolved : ∀ v ∈ [fileVisit linkedReference linkedSource], v.IsResolved := by simp [Visit.IsResolved, fileVisit]
  have hissues := (Analysis.issues_run_eq_nil (hr ▸ visitsOf_linked) hf').mpr areDistinct_linked
  obtain ⟨ds, hds⟩ := hiff.mpr ⟨hresolved, hissues⟩
  exact ⟨ds, hds, (hagree ds hds).1⟩

end MarkdownTemplates
