import MarkdownTemplates.Proofs.Closure.Imports
import MarkdownTemplates.Proofs.Graph.NamedCycles
import MarkdownTemplates.Proofs.Lint.Clean

/-!
# What the default rules report

Each defect of a document is reported once: every definition of an id but the first, every reference to an id without a definition,
every path that the document names and that leads to no document, and every cycle that is found among the first definitions.
-/

namespace MarkdownTemplates

open Resolver (outcome resolvePath)

/-! ## Sources that cannot be loaded -/

namespace Reference

variable {w : World} {restrict : Option Path} {cwd : Path} {file : Option Path} {seen : NameSet} {r : Reference} {refs : List Reference}
  {p : Path}

/-- The path that the reference names when it stands in `file`. -/
def path? (cwd : Path) (file : Option Path) (r : Reference) : Option Path := r.src.map (resolvePath cwd · file)

/-- Why the file that the reference names cannot be loaded. -/
def failure? (w : World) (restrict file : Option Path) (r : Reference) : Option Unresolved :=
  r.src.bind fun src =>
    match outcome w restrict src file with
    | .ok _ => none
    | .error u => some u

/-- The paths that the references name, each once, but not those of `seen`. -/
def paths (cwd : Path) (file : Option Path) (seen : NameSet) (refs : List Reference) : List Path :=
  ((refs.filterMap (path? cwd file)).filter fun p => !seen.contains p.text).eraseDups

/-- The paths that cannot be loaded, each with the first reference that names it. -/
def unloadable (w : World) (restrict file : Option Path) (seen : NameSet) (refs : List Reference) : List UnresolvedSource :=
  (paths w.cwd file seen refs).filterMap fun p =>
    (refs.find? fun r => r.path? w.cwd file = some p).bind fun r => (r.failure? w restrict file).map (⟨r, ·⟩)

theorem mem_paths : p ∈ paths cwd file seen refs ↔ (∃ r ∈ refs, r.path? cwd file = some p) ∧ seen.contains p.text = false := by
  simp [paths, List.mem_eraseDups, List.mem_filter]

theorem unloadable_cons_of_seen (h : ∀ p, r.path? w.cwd file = some p → seen.contains p.text = true) :
    unloadable w restrict file seen (r :: refs) = unloadable w restrict file seen refs := by
  have hpaths : paths w.cwd file seen (r :: refs) = paths w.cwd file seen refs := by
    rw [paths, List.filterMap_cons]
    cases hr : r.path? w.cwd file with
    | none => rfl
    | some p =>
      dsimp only
      rw [List.filter_cons_of_neg (by simp [h p hr])]
      rfl
  rw [unloadable, hpaths]
  refine List.filterMap_congr fun p hp => ?_
  rw [List.find?_cons_of_neg]
  intro hr
  have hseen := h p (by simpa using hr)
  rw [(mem_paths.mp hp).2] at hseen
  cases hseen

theorem unloadable_cons_of_new (hr : r.path? w.cwd file = some p) (hnew : seen.contains p.text = false) :
    unloadable w restrict file seen (r :: refs) =
      ((r.failure? w restrict file).map (UnresolvedSource.mk r)).toList ++ unloadable w restrict file (seen.insert p.text) refs := by
  have hpaths : paths w.cwd file seen (r :: refs) = p :: paths w.cwd file (seen.insert p.text) refs := by
    have hinsert : ∀ q : Path, (!(seen.insert p.text).contains q.text) = (!q == p && !seen.contains q.text) := by
      intro q
      have hq : q.text = p.text ↔ q = p := ⟨fun h => congrArg Path.mk h, fun h => congrArg Path.text h⟩
      rw [Bool.eq_iff_iff]
      simp [← Bool.not_eq_true, NameSet.contains_insert, hq]
    rw [paths, List.filterMap_cons, hr]
    dsimp only
    rw [List.filter_cons_of_pos (by simp [hnew]), List.eraseDups_cons, List.filter_filter, paths]
    simp only [hinsert]
  rw [unloadable, hpaths, List.filterMap_cons, List.find?_cons_of_pos (by simpa using hr), Option.bind_some]
  have hrest : (paths w.cwd file (seen.insert p.text) refs).filterMap (fun q =>
      ((r :: refs).find? fun r => r.path? w.cwd file = some q).bind fun r => (r.failure? w restrict file).map (UnresolvedSource.mk r)) =
      unloadable w restrict file (seen.insert p.text) refs := by
    refine List.filterMap_congr fun q hq => ?_
    rw [List.find?_cons_of_neg]
    intro he
    obtain rfl : p = q := by simpa [hr] using he
    have hseen := (mem_paths.mp hq).2
    rw [NameSet.contains_insert.mpr (.inl rfl)] at hseen
    cases hseen
  cases r.failure? w restrict file with
  | none => simp [hrest]
  | some u => simp [hrest]

end Reference

namespace Closure

variable {w : World} {restrict : Option Path} {seen : NameSet} {pending : List PendingReference} {visits : List Visit}

/-- Failures in other files do not count. -/
theorem Visits.unresolved_eq_nil (h : Visits w restrict seen pending visits) (hp : ∀ r ∈ pending, r.isLocal = false) :
    visits.flatMap Visit.unresolved = [] := by
  have hfound : ∀ (r : PendingReference) src, r.isLocal = false → r.reference.src = some src →
      seen.contains (resolvePath w.cwd src r.base).text = false → ∀ r' ∈ found (outcome w restrict src r.base), r'.isLocal = false := by
    intro _ _ _ _ _ r' hr'
    obtain ⟨_, -, _, -, rfl⟩ := mem_found.mp hr'
    rfl
  refine List.flatMap_eq_nil_iff.mpr fun v hv => Visit.unresolved_eq_nil.mpr fun hl => ?_
  obtain ⟨r, src, hr, -, rfl⟩ := h.follows hp hfound v hv
  exact absurd hl (by simp [hr])

/-- The references of the document come first, so each path that they name is followed from the first of them. -/
theorem Visits.unresolved_eq {file : Option Path} {refs : List Reference} {further : List PendingReference}
    (h : Visits w restrict seen (refs.map (⟨·, file, true⟩) ++ further) visits) (hfurther : ∀ r ∈ further, r.isLocal = false) :
    visits.flatMap Visit.unresolved = Reference.unloadable w restrict file seen refs := by
  induction refs generalizing seen further visits with
  | nil => exact h.unresolved_eq_nil hfurther
  | cons r refs ih =>
    rw [List.map_cons, List.cons_append] at h
    cases h with
    | skip hs h =>
      rw [ih h hfurther, Reference.unloadable_cons_of_seen]
      intro p hp
      obtain ⟨src, hsrc, rfl⟩ := Option.map_eq_some_iff.mp hp
      exact hs src hsrc
    | @visit _ _ src _ visits hsrc hnew h =>
      have hpath : r.path? w.cwd file = some (resolvePath w.cwd src file) := by
        rw [Reference.path?, show r.src = some src from hsrc]
        rfl
      rw [List.append_assoc] at h
      have hall : ∀ r' ∈ further ++ found (outcome w restrict src file), r'.isLocal = false := by
        intro r' hr'
        rcases List.mem_append.mp hr' with hr' | hr'
        · exact hfurther r' hr'
        · obtain ⟨_, -, _, -, rfl⟩ := mem_found.mp hr'
          rfl
      rw [List.flatMap_cons, ih h hall, Reference.unloadable_cons_of_new hpath hnew]
      congr 1
      rw [Visit.unresolved, Reference.failure?, show r.src = some src from hsrc, Option.bind_some]
      dsimp only
      cases outcome w restrict src file <;> rfl

end Closure

/-! ## What a finding is about -/

/-- Is the finding one of the rule, at the place, with the subject under the key of its details? -/
structure Finding.Reports (f : Finding) (rule key : String) (subject : Detail) (line column : Option Nat) : Prop where
  rule : f.ruleId = rule
  subject : f.details.get? key = some subject
  line : f.line = line.getD 1
  column : f.column = column

namespace Finding

variable {f : Finding} {key key' : String}

theorem get?_withText_of_ne (value : String) (h : key' ≠ key) : (f.withText key value).details.get? key' = f.details.get? key' := by
  rw [withText, Dict.get?_insert, if_neg h]

theorem get?_withPath_of_ne (p : Option Path) (h : key' ≠ key) : (f.withPath key p).details.get? key' = f.details.get? key' := by
  cases p with
  | none => rfl
  | some p => exact get?_withText_of_ne _ h

theorem ruleId_withPath (p : Option Path) : (f.withPath key p).ruleId = f.ruleId := by cases p <;> rfl

theorem line_withPath (p : Option Path) : (f.withPath key p).line = f.line := by cases p <;> rfl

theorem column_withPath (p : Option Path) : (f.withPath key p).column = f.column := by cases p <;> rfl

end Finding

namespace Rule

variable {unresolved : List UnresolvedSource}

theorem reports_duplicateFindings (file : Option Path) (id : String) (first : Occurrence) (rest : List Occurrence) :
    List.Forall₂ (fun o f => f.Reports duplicateIdName "templateId" (.text id) o.line o.column) rest
      (duplicateFindings file ⟨id, first :: rest⟩) := by
  refine List.forall₂_map_right_iff.mpr (List.forall₂_same.mpr fun o _ => ?_)
  constructor
  · simp only [Finding.ruleId_withPath]
    rfl
  · rw [Finding.get?_withPath_of_ne _ (by decide), Finding.get?_withPath_of_ne _ (by decide)]
    simp [Dict.get?_insert, Finding.withText]
  · simp only [Finding.line_withPath]
    rfl
  · simp only [Finding.column_withPath]
    rfl

theorem reports_withReason {f : Finding} {rule key : String} {subject : Detail} {line column : Option Nat} (u : UnresolvedSource)
    (h : f.Reports rule key subject line column) (hreason : key ≠ "reason") (hpath : key ≠ "attemptedPath") :
    (withReason f u).Reports rule key subject line column where
  rule := h.rule
  subject := by rw [withReason, Finding.get?_withPath_of_ne _ hpath, Finding.get?_withText_of_ne _ hreason, h.subject]
  line := h.line
  column := h.column

theorem reason_withReason (f : Finding) (u : UnresolvedSource) :
    (withReason f u).details.get? "reason" = some (.text u.failure.kind.problemKind.name) := by
  rw [withReason, Finding.get?_withPath_of_ne _ (by decide), Finding.withText, Dict.get?_insert_self]

/-- Without a failure to give as the reason, the finding is as if nothing had failed. -/
theorem undefinedFinding_of_none {unresolved : List UnresolvedSource} {r : Reference}
    (h : unresolved.find? (·.reference.src = r.src) = none) : undefinedFinding unresolved r = undefinedFinding [] r := by
  rw [undefinedFinding, h]
  rfl

theorem undefinedFinding_of_some {unresolved : List UnresolvedSource} {r : Reference} {u : UnresolvedSource}
    (h : unresolved.find? (·.reference.src = r.src) = some u) :
    ∃ message, undefinedFinding unresolved r = withReason { undefinedFinding [] r with message } u := by
  rw [undefinedFinding, h]
  exact ⟨_, rfl⟩

theorem reports_undefinedFinding (unresolved : List UnresolvedSource) (r : Reference) :
    (undefinedFinding unresolved r).Reports undefinedReferenceName "templateId" (.text r.id) r.line r.column := by
  have hplain : (undefinedFinding [] r).Reports undefinedReferenceName "templateId" (.text r.id) r.line r.column := by
    rw [undefinedFinding]
    cases r.src <;> exact ⟨rfl, by simp [Dict.get?_insert, Finding.withText], rfl, rfl⟩
  cases h : unresolved.find? (·.reference.src = r.src) with
  | none => rwa [undefinedFinding_of_none h]
  | some u =>
    obtain ⟨message, hf⟩ := undefinedFinding_of_some h
    rw [hf]
    exact reports_withReason u ⟨hplain.rule, hplain.subject, hplain.line, hplain.column⟩ (by decide) (by decide)

theorem reports_unloadableFinding (u : UnresolvedSource) :
    (unloadableFinding u).Reports undefinedReferenceName "templateId" (.text u.reference.id) u.reference.line u.reference.column ∧
      (unloadableFinding u).details.get? "reason" = some (.text u.failure.kind.problemKind.name) :=
  ⟨reports_withReason u ⟨rfl, by simp [Dict.get?_insert, Finding.withText], rfl, rfl⟩ (by decide) (by decide), reason_withReason _ u⟩

theorem reports_circularFinding (c : CircularReference) :
    (circularFinding c).Reports circularReferenceName "cyclePath" (.texts c.cycle) c.line none := by
  rw [circularFinding]
  constructor
  · exact Finding.ruleId_withPath _
  · rw [Finding.get?_withPath_of_ne _ (by decide), Dict.get?_insert_self]
  · exact Finding.line_withPath _
  · exact Finding.column_withPath _

end Rule

/-! ## All findings -/

namespace Analysis

variable {w : World} {r : Resolver} {file : Option Path} {root : Node} {visits : List Visit} {c : Collected}

/-- The ids that are defined, in their order. -/
def ids (occurrences : List Occurrence) : List String := (byId occurrences).keys

theorem mem_ids {occurrences : List Occurrence} {id : String} : id ∈ ids occurrences ↔ ∃ o ∈ occurrences, o.id = some id := by
  rw [ids, Dict.mem_keys, Dict.contains, byId, Dict.isSome_get?_group]
  simp only [List.mem_map, List.mem_filterMap, Option.map_eq_some_iff]
  constructor
  · rintro ⟨_, ⟨o, ho, id, hid, rfl⟩, rfl⟩
    exact ⟨o, ho, hid⟩
  · rintro ⟨o, ho, hid⟩
    exact ⟨(id, o), ⟨o, ho, id, hid, rfl⟩, rfl⟩

theorem mem_ids_iff_mem_map {occurrences : List Occurrence} {id : String} : id ∈ ids occurrences ↔ some id ∈ occurrences.map (·.id) := by
  rw [mem_ids, List.mem_map]

theorem entries_byId (occurrences : List Occurrence) :
    (byId occurrences).entries = (ids occurrences).map fun id => (id, occurrences.filter (·.id = some id)) := by
  rw [ids, Dict.keys, List.map_map]
  refine (List.map_id _).symm.trans (List.map_congr_left fun e he => ?_)
  obtain ⟨id, found⟩ := e
  have hfound := getD_get?_byId occurrences id
  rw [Dict.mem_entries.mp he, Option.getD_some] at hfound
  rw [hfound]
  rfl

/-- The definitions of each id but the first, in the order of the ids. -/
def later (occurrences : List Occurrence) : List (String × Occurrence) :=
  (ids occurrences).flatMap fun id => (occurrences.filter (·.id = some id)).tail.map (id, ·)

theorem duplicates_eq (file : Option Path) (root : Node) (c : Collected) :
    (ofCollected file root c).duplicates.flatMap (Rule.duplicateFindings file) =
      (ids c.occurrences).flatMap fun id => Rule.duplicateFindings file ⟨id, c.occurrences.filter (·.id = some id)⟩ := by
  have hduplicates : (ofCollected file root c).duplicates = duplicatesOf (byId c.occurrences) := rfl
  rw [hduplicates, duplicatesOf, entries_byId, List.filterMap_map, List.filterMap_eq_flatMap_toList, List.flatMap_assoc]
  refine List.flatMap_congr fun id _ => ?_
  dsimp only [Function.comp_apply]
  split_ifs with hmany
  · simp
  · rw [Rule.duplicateFindings_eq_nil.mpr (Nat.le_of_not_lt hmany)]
    rfl

theorem reports_duplicates (file : Option Path) (root : Node) (c : Collected) :
    List.Forall₂ (fun p f => f.Reports Rule.duplicateIdName "templateId" (.text p.1) p.2.line p.2.column) (later c.occurrences)
      ((ofCollected file root c).duplicates.flatMap (Rule.duplicateFindings file)) := by
  rw [duplicates_eq, later]
  refine List.rel_flatMap (R := Eq) (List.forall₂_same.mpr fun _ _ => rfl) fun id id' hid => ?_
  subst hid
  cases c.occurrences.filter (·.id = some id) with
  | nil => exact .nil
  | cons first rest => exact List.forall₂_map_left_iff.mpr (Rule.reports_duplicateFindings file id first rest)

theorem contains_definitions (file : Option Path) (root : Node) (c : Collected) (id : String) :
    (ofCollected file root c).definitions.contains id = true ↔ id ∈ ids c.occurrences := by
  rw [Dict.contains, get?_definitions, List.find?_isSome, mem_ids]
  simp

theorem undefined_eq (file : Option Path) (root : Node) (c : Collected) :
    (ofCollected file root c).undefined = ((Reference.all root).filter fun r => r.id ∉ ids c.occurrences).map (⟨·, file⟩) := by
  have hundefined : (ofCollected file root c).undefined = ((Reference.all root).map (⟨·, file⟩)).filter fun l =>
      !(ofCollected file root c).definitions.contains l.reference.id := rfl
  rw [hundefined, List.filter_map]
  refine congrArg _ (List.filter_congr fun r _ => ?_)
  rw [Bool.eq_iff_iff]
  simp [← contains_definitions file root c]

/-- The graph of the first definitions. -/
def graph (occurrences : List Occurrence) : DependencyGraph :=
  .ofEntries ((ids occurrences).filterMap fun id => (occurrences.find? (·.id = some id)).map fun o => (id, o.dependencies))

theorem hasEdge_graph {occurrences : List Occurrence} {x y : String} :
    (graph occurrences).HasEdge x y ↔ ∃ o, occurrences.find? (·.id = some x) = some o ∧ y ∈ o.dependencies := by
  rw [graph, DependencyGraph.hasEdge_ofEntries]
  simp only [List.mem_filterMap, Option.map_eq_some_iff, Prod.mk.injEq]
  constructor
  · rintro ⟨_, ⟨id, -, o, ho, rfl, rfl⟩, hy⟩
    exact ⟨o, ho, hy⟩
  · rintro ⟨o, ho, hy⟩
    have hid : o.id = some x := by simpa using List.find?_some ho
    exact ⟨_, ⟨x, mem_ids.mpr ⟨o, List.mem_of_find?_eq_some ho, hid⟩, o, ho, rfl, rfl⟩, hy⟩

theorem circular_eq (file : Option Path) (root : Node) (c : Collected) :
    (ofCollected file root c).circular = (graph c.occurrences).cycles.map fun cycle =>
      let first := cycle.head?.bind fun id => c.occurrences.find? (·.id = some id)
      ⟨cycle, first.bind (·.line), first.bind (·.file)⟩ := by
  have hdefinitions : (ofCollected file root c).definitions = (byId c.occurrences).filterMap List.head? :=
    Dict.ofList_entries ((byId c.occurrences).filterMap List.head?)
  have hentries : (ofCollected file root c).definitions.entries.map (fun e => (e.1, e.2.dependencies)) =
      (ids c.occurrences).filterMap fun id => (c.occurrences.find? (·.id = some id)).map fun o => (id, o.dependencies) := by
    rw [hdefinitions, Dict.filterMap]
    dsimp only
    rw [entries_byId, List.filterMap_map, List.map_filterMap]
    refine List.filterMap_congr fun id _ => ?_
    rw [Function.comp_apply, List.head?_filter, Option.map_map]
    rfl
  have hcircular : (ofCollected file root c).circular =
      (DependencyGraph.ofEntries ((ofCollected file root c).definitions.entries.map fun e => (e.1, e.2.dependencies))).cycles.map
        fun cycle =>
          let first := cycle.head?.bind (ofCollected file root c).definitions.get?
          ⟨cycle, first.bind (·.line), first.bind (·.file)⟩ := rfl
  rw [hcircular, hentries, graph]
  simp only [funext get?_definitions]

end Analysis

namespace Linter

open Analysis (ids later graph)

variable {w : World} {r : Resolver} {file : Option Path} {root : Node}

/-- The paths that references of the document name and that lead to no document, each with the first of the references. The path of the
document itself is not followed. -/
def unloadable (w : World) (restrict file : Option Path) (root : Node) : List UnresolvedSource :=
  Reference.unloadable w restrict file (.ofList (file.map (·.normalize.text)).toList) (Reference.all root)

/-- The findings of the default rules, when there are the definitions in the closure of the document. -/
structure ReportsEachOnce (w : World) (restrict file : Option Path) (root : Node) (occurrences : List Occurrence)
    (duplicate undefined unloaded circular : List Finding) : Prop where
  sorted : (ids occurrences).Pairwise (· < ·)
  mem_ids : ∀ id, id ∈ ids occurrences ↔ ∃ o ∈ occurrences, o.id = some id
  /-- Of each id, every definition but the first is reported. -/
  duplicate : List.Forall₂ (fun p f => f.Reports Rule.duplicateIdName "templateId" (.text p.1) p.2.line p.2.column) (later occurrences)
    duplicate
  undefined : List.Forall₂ (fun r f => f.Reports Rule.undefinedReferenceName "templateId" (.text r.id) r.line r.column)
    ((Reference.all root).filter fun r => r.id ∉ ids occurrences) undefined
  /-- A path without a document is reported with its first reference, when the id of that is defined. -/
  unloaded : List.Forall₂ (fun u f => f.Reports Rule.undefinedReferenceName "templateId" (.text u.reference.id) u.reference.line
      u.reference.column ∧ f.details.get? "reason" = some (.text u.failure.kind.problemKind.name))
    ((unloadable w restrict file root).filter fun u => u.reference.id ∈ ids occurrences) unloaded
  circular : List.Forall₂ (fun cycle f => f.Reports Rule.circularReferenceName "cyclePath" (.texts cycle)
      ((cycle.head?.bind fun id => occurrences.find? (·.id = some id)).bind (·.line)) none)
    (graph occurrences).cycles circular
  edges : ∀ x y, (graph occurrences).HasEdge x y ↔ ∃ o, occurrences.find? (·.id = some x) = some o ∧ y ∈ o.dependencies
  simple : ∀ cycle ∈ (graph occurrences).cycles, IsSimpleCycle (graph occurrences).HasEdge cycle
  /-- Each of the cycles is closed by an edge of its own, and no way leads back to its start without one of these edges. -/
  closing : (graph occurrences).closingEdges.Nodup ∧ ∀ walk, IsClosedWalk (graph occurrences).HasEdge walk →
    ∃ e ∈ walk.zip walk.tail, ∃ cycle ∈ (graph occurrences).cycles, closingEdge? cycle = some e

theorem unresolved_eq {visits : List Visit} {restrict : Option Path} (hv : Closure.VisitsOf w restrict file root visits) :
    visits.flatMap Visit.unresolved = unloadable w restrict file root :=
  Closure.Visits.unresolved_eq (by rw [List.append_nil]; exact hv) (by simp)

/-- What the visits bring to the analysis of the document. -/
def collected (w : World) (restrict file : Option Path) (root : Node) (visits : List Visit) : Analysis.Collected :=
  ⟨(Site.ofVisits file root visits).map Site.occurrence, unloadable w restrict file root, visits.flatMap Visit.files⟩

/-- The findings of each rule in turn. -/
theorem findings_eq (hf : r.IsFaithful w) {visits : List Visit} (hv : Closure.VisitsOf w r.restrict file root visits) :
    let c := collected w r.restrict file root visits
    (Linter.run {} w r file root).1.findings =
      (Analysis.ofCollected file root c).duplicates.flatMap (Rule.duplicateFindings file) ++
        ((Reference.all root).filter fun r => r.id ∉ ids c.occurrences).map (Rule.undefinedFinding c.unresolved) ++
        (c.unresolved.filter fun u => u.reference.id ∈ ids c.occurrences).map Rule.unloadableFinding ++
        (Analysis.ofCollected file root c).circular.map Rule.circularFinding := by
  intro c
  have hrun : (Analysis.run w r file root).1 = .ofCollected file root c := by rw [Analysis.run_eq hv hf, unresolved_eq hv]; rfl
  have hdefined : ∀ u : UnresolvedSource, (Analysis.ofCollected file root c).definitions.contains u.reference.id =
      decide (u.reference.id ∈ ids c.occurrences) := fun u => by
    rw [Bool.eq_iff_iff, decide_eq_true_iff]
    exact Analysis.contains_definitions file root c u.reference.id
  rw [findings_run, hrun, List.append_nil, ← List.append_assoc, ← List.append_assoc, Analysis.undefined_eq, List.map_map]
  simp only [hdefined]
  rfl

/-- The default rules report each defect once, and nothing else. -/
theorem findings_exact (hf : r.IsFaithful w) : ∃ visits duplicate undefined unloaded circular,
    Closure.VisitsOf w r.restrict file root visits ∧
      (Linter.run {} w r file root).1.findings = duplicate ++ undefined ++ unloaded ++ circular ∧
        ReportsEachOnce w r.restrict file root ((Site.ofVisits file root visits).map Site.occurrence) duplicate undefined unloaded
          circular := by
  obtain ⟨visits, hv⟩ := Closure.exists_visitsOf w r.restrict file root
  let c := collected w r.restrict file root visits
  refine ⟨visits, _, _, _, _, hv, findings_eq hf hv, ?_⟩
  constructor
  case sorted => exact List.pairwise_map.mpr (Analysis.byId c.occurrences).ordered
  case mem_ids => exact fun id => Analysis.mem_ids
  case duplicate => exact Analysis.reports_duplicates file root c
  case undefined => exact List.forall₂_map_right_iff.mpr (List.forall₂_same.mpr fun r _ => Rule.reports_undefinedFinding _ r)
  case unloaded => exact List.forall₂_map_right_iff.mpr (List.forall₂_same.mpr fun u _ => Rule.reports_unloadableFinding u)
  case circular =>
    rw [Analysis.circular_eq, List.map_map]
    exact List.forall₂_map_right_iff.mpr (List.forall₂_same.mpr fun cycle _ => Rule.reports_circularFinding _)
  case edges => exact fun x y => Analysis.hasEdge_graph
  case simple => exact (DependencyGraph.search_ofEntries _).1
  case closing =>
    refine ⟨(DependencyGraph.search_ofEntries _).2.1, fun walk hwalk => ?_⟩
    obtain ⟨e, he, cycle, hcycle, hclosing, -⟩ := DependencyGraph.exists_cycle_of_isClosedWalk hwalk
    exact ⟨e, he, cycle, hcycle, hclosing⟩

/-- A document that defines `b`, which the file defines too. -/
def twiceDocument : Document :=
  .parse ":::template\x7bid=\"b\"\x7d\n:::\n::template\x7bid=\"b\" src=\"b.md\"\x7d\n".toList

theorem visitsOf_twice : Closure.VisitsOf (fileWorld linkedSource) none none twiceDocument.root
    [fileVisit ⟨"b", some "b.md", some 3, some 1⟩ linkedSource] := by
  have hnone : Reference.all (Document.parse linkedSource.toList).root = [] := by decide +kernel
  refine visitsOf_fileWorld (by decide +kernel) (by decide +kernel) rfl ?_
  rw [hnone]
  exact .done

/-- The definition in the file is the only defect. -/
theorem findings_exact_twice : ∃ f, (Linter.run {} (fileWorld linkedSource) {} none twiceDocument.root).1.findings = [f] ∧
    f.Reports "M002" "templateId" (.text "b") (some 1) (some 1) := by
  have hf : Resolver.IsFaithful (fileWorld linkedSource) {} := Resolver.isFaithful_of_memo rfl
  obtain ⟨visits, duplicate, undefined, unloaded, circular, hv, hfindings, hreports⟩ :=
    @findings_exact (fileWorld linkedSource) {} none twiceDocument.root hf
  obtain rfl := hv.unique visitsOf_twice
  let occurrences := (Site.ofVisits none twiceDocument.root [fileVisit ⟨"b", some "b.md", some 3, some 1⟩ linkedSource]).map
    Site.occurrence
  replace hreports : ReportsEachOnce (fileWorld linkedSource) none none twiceDocument.root occurrences duplicate undefined unloaded
    circular := hreports
  have hall : occurrences.map (·.id) = [some "b", some "b"] := by decide +kernel
  have hids : ids occurrences = ["b"] := by
    refine List.perm_singleton.mp ((List.perm_ext_iff_of_nodup (Dict.nodup_keys _) (List.nodup_singleton _)).mpr fun id => ?_)
    rw [← ids, Analysis.mem_ids_iff_mem_map, hall]
    simp
  have hlater : (later occurrences).map (fun p => (p.1, p.2.line, p.2.column)) = [("b", some 1, some 1)] := by
    rw [later, hids]
    decide +kernel
  have hdefined : (Reference.all twiceDocument.root).filter (fun r => r.id ∉ ids occurrences) = [] := by
    rw [hids]
    decide +kernel
  have hloaded : (unloadable (fileWorld linkedSource) none none twiceDocument.root).map (·.reference) = [] := by
    decide +kernel
  have hcycles : (graph occurrences).cycles = [] := by
    have hentries : (["b"].filterMap fun id => (occurrences.find? (·.id = some id)).map fun o => (id, o.dependencies)) = [("b", [])] := by
      decide +kernel
    rw [graph, hids, hentries, DependencyGraph.cycles_ofEntries_eq_nil]
    intro x hx
    obtain ⟨y, hy, -⟩ := Relation.TransGen.head'_iff.mp hx
    obtain ⟨targets, hm, hy⟩ := DependencyGraph.hasEdge_ofEntries.mp hy
    simp_all
  obtain ⟨⟨id, o⟩, hp, he⟩ := List.map_eq_singleton_iff.mp hlater
  obtain ⟨rfl, hline, hcolumn⟩ : id = "b" ∧ o.line = some 1 ∧ o.column = some 1 := by simpa using he
  obtain ⟨f, more, hf, hnil, rfl⟩ := List.forall₂_cons_left_iff.mp (hp ▸ hreports.duplicate)
  obtain rfl := List.forall₂_nil_left_iff.mp hnil
  obtain rfl := List.forall₂_nil_left_iff.mp (hdefined ▸ hreports.undefined)
  have hunloaded := hreports.unloaded
  rw [List.map_eq_nil_iff.mp hloaded, List.filter_nil] at hunloaded
  obtain rfl := List.forall₂_nil_left_iff.mp hunloaded
  obtain rfl := List.forall₂_nil_left_iff.mp (hcycles ▸ hreports.circular)
  rw [hline, hcolumn] at hf
  exact ⟨f, hfindings, hf⟩

end Linter

end MarkdownTemplates
