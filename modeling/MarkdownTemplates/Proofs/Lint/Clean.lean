import MarkdownTemplates.Lint.Report
import MarkdownTemplates.Proofs.Analysis
import MarkdownTemplates.Proofs.Graph.Cycles

/-!
# Reports without findings

The default rules find nothing exactly when no id is defined twice, every reference of the document has a definition, each of its
files can be read, and no id leads back to itself through references without `src`.
-/

namespace MarkdownTemplates

open Relation (TransGen)

namespace Site

/-- Does the first definition of `x` have a reference to `y` without `src`, at any depth? -/
def Depends (sites : List Site) (x y : String) : Prop := ∃ s, first? sites x = some s ∧ y ∈ s.node.dependencies

end Site

namespace Closure

variable {w : World} {restrict : Option Path} {visits : List Visit} {file : Option Path} {root : Node} {v : Visit}

/-- A visit counts as local only where the document has the reference. -/
theorem VisitsOf.reference_mem (h : VisitsOf w restrict file root visits) (hv : v ∈ visits) (hl : v.isLocal = true) :
    v.reference ∈ Reference.all root := by
  let P (p : PendingReference) : Prop := p.isLocal = true → p.reference ∈ Reference.all root
  have hstart : ∀ p ∈ (Reference.all root).map (⟨·, file, true⟩), P p := by
    intro p hp _
    obtain ⟨r, hr, rfl⟩ := List.mem_map.mp hp
    exact hr
  have hfound : ∀ p src, P p → p.reference.src = some src →
      (NameSet.ofList (file.map (·.normalize.text)).toList).contains (Resolver.resolvePath w.cwd src p.base).text = false →
      ∀ q ∈ found (Resolver.outcome w restrict src p.base), P q := by
    intro p src _ _ _ q hq hl
    obtain ⟨_, -, _, -, rfl⟩ := mem_found.mp hq
    exact absurd hl Bool.false_ne_true
  obtain ⟨p, src, hp, -, rfl⟩ := Visits.follows h hstart hfound v hv
  exact hp hl

end Closure

theorem Visit.unresolved_eq_nil {v : Visit} : v.unresolved = [] ↔ (v.isLocal = true → v.IsResolved) := by
  rw [unresolved, IsResolved]
  cases v.outcome with
  | ok f => simp
  | error u => cases v.isLocal <;> simp

theorem Visit.of_mem_unresolved {v : Visit} {u : UnresolvedSource} (h : u ∈ v.unresolved) :
    v.isLocal = true ∧ u.reference = v.reference := by
  rw [unresolved] at h
  cases ho : v.outcome with
  | ok f => simp [ho] at h
  | error e =>
    cases hl : v.isLocal with
    | false => simp [ho, hl] at h
    | true =>
      obtain rfl : u = ⟨v.reference, e⟩ := by simpa [ho, hl] using h
      exact ⟨rfl, rfl⟩

namespace Rule

variable {file : Option Path} {d : DuplicateTemplate}

theorem duplicateFindings_eq_nil : duplicateFindings file d = [] ↔ d.occurrences.length ≤ 1 := by
  rw [duplicateFindings]
  cases d.occurrences with
  | nil => simp
  | cons first rest => cases rest <;> simp

end Rule

namespace Analysis

variable {w : World} {r : Resolver} {file : Option Path} {root : Node} {visits : List Visit} {c : Collected}

theorem undefined_eq_nil : (ofCollected file root c).undefined = [] ↔
    ∀ ref ∈ Reference.all root, (ofCollected file root c).definitions.contains ref.id = true := by
  have hfilter : (ofCollected file root c).undefined = ((Reference.all root).map (⟨·, file⟩)).filter fun l =>
      !(ofCollected file root c).definitions.contains l.reference.id := rfl
  rw [hfilter, List.filter_eq_nil_iff, List.forall_mem_map]
  simp only [Bool.not_eq_true', Bool.not_eq_false]

/-- Is there nothing that a default rule reports? -/
structure IsClean (a : Analysis) : Prop where
  duplicates : a.duplicates = []
  undefined : a.undefined = []
  unresolved : a.unresolved = []
  circular : a.circular = []

theorem circular_eq_nil (hv : Closure.VisitsOf w r.restrict file root visits) (hf : r.IsFaithful w) :
    (run w r file root).1.circular = [] ↔
      ∀ x, ¬ TransGen (Site.Depends (Site.ofVisits file root visits)) x x := by
  have hedge : (DependencyGraph.ofEntries
      ((run w r file root).1.definitions.entries.map fun e => (e.1, e.2.dependencies))).HasEdge =
      Site.Depends (Site.ofVisits file root visits) := by
    funext x y
    rw [eq_iff_iff, DependencyGraph.hasEdge_ofEntries, Site.Depends]
    constructor
    · rintro ⟨targets, hm, hy⟩
      obtain ⟨⟨id, o⟩, ho, he⟩ := List.mem_map.mp hm
      obtain ⟨rfl, rfl⟩ := Prod.mk.inj he
      rw [Dict.mem_entries, get?_definitions_run hv hf] at ho
      obtain ⟨s, hs, rfl⟩ := Option.map_eq_some_iff.mp ho
      exact ⟨s, hs, hy⟩
    · rintro ⟨s, hs, hy⟩
      refine ⟨s.node.dependencies, List.mem_map.mpr ⟨(x, s.occurrence), Dict.mem_entries.mpr ?_, rfl⟩, hy⟩
      rw [get?_definitions_run hv hf, hs]
      rfl
  have hcycles : (run w r file root).1.circular = [] ↔ (DependencyGraph.ofEntries
      ((run w r file root).1.definitions.entries.map fun e => (e.1, e.2.dependencies))).cycles = [] := by
    rw [run_eq hv hf]
    exact List.map_eq_nil_iff
  rw [hcycles, DependencyGraph.cycles_ofEntries_eq_nil, hedge]

/-- The analysis is clean exactly when ids are defined once, the references of the document have definitions and its files
documents, and no definition depends on itself. -/
theorem isClean_run_iff (hv : Closure.VisitsOf w r.restrict file root visits) (hf : r.IsFaithful w) :
    (run w r file root).1.IsClean ↔
      ((Site.ofVisits file root visits).filterMap Site.id?).Nodup ∧
      (∀ ref ∈ Reference.all root, ref.id ∈ (Site.ofVisits file root visits).filterMap Site.id?) ∧
      (∀ v ∈ visits, v.isLocal = true → v.IsResolved) ∧
      ∀ x, ¬ TransGen (Site.Depends (Site.ofVisits file root visits)) x x := by
  have hduplicates : (run w r file root).1.duplicates = [] ↔ ((Site.ofVisits file root visits).filterMap Site.id?).Nodup := by
    rw [run_eq hv hf, duplicates_eq_nil, List.filterMap_map]
    rfl
  have hundefined : (run w r file root).1.undefined = [] ↔
      ∀ ref ∈ Reference.all root, ref.id ∈ (Site.ofVisits file root visits).filterMap Site.id? := by
    have hdefined : ∀ id, (run w r file root).1.definitions.contains id = true ↔
        id ∈ (Site.ofVisits file root visits).filterMap Site.id? := by
      intro id
      rw [Dict.contains, get?_definitions_run hv hf, Option.isSome_map, Site.isSome_first?]
    simp only [← hdefined]
    rw [run_eq hv hf]
    exact undefined_eq_nil
  have hunresolved : (run w r file root).1.unresolved = [] ↔ ∀ v ∈ visits, v.isLocal = true → v.IsResolved := by
    rw [run_eq hv hf]
    exact List.flatMap_eq_nil_iff.trans (forall₂_congr fun _ _ => Visit.unresolved_eq_nil)
  rw [← hduplicates, ← hundefined, ← hunresolved, ← circular_eq_nil hv hf]
  exact ⟨fun h => ⟨h.duplicates, h.undefined, h.unresolved, h.circular⟩, fun h => ⟨h.1, h.2.1, h.2.2.1, h.2.2.2⟩⟩

end Analysis

namespace Linter

variable {w : World} {r : Resolver} {file : Option Path} {root : Node}

theorem values_rules : ({} : Linter).rules.values = Rule.builtin := by
  rfl

theorem findings_run : (Linter.run {} w r file root).1.findings =
    (Analysis.run w r file root).1.duplicates.flatMap (Rule.duplicateFindings file) ++
      (((Analysis.run w r file root).1.undefined.map fun l =>
          Rule.undefinedFinding (Analysis.run w r file root).1.unresolved l.reference) ++
        ((Analysis.run w r file root).1.unresolved.filter fun u =>
          (Analysis.run w r file root).1.definitions.contains u.reference.id).map Rule.unloadableFinding ++
        ((Analysis.run w r file root).1.circular.map Rule.circularFinding ++ [])) := by
  have hrules : (Linter.run {} w r file root).1.findings =
      Rule.builtin.flatMap (findings {} ⟨file, (Analysis.run w r file root).1⟩) := by
    rw [← values_rules]
    rfl
  rw [hrules]
  rfl

/-- The default rules find nothing exactly in a clean analysis. -/
theorem findings_eq_nil (hf : r.IsFaithful w) :
    (Linter.run {} w r file root).1.findings = [] ↔ (Analysis.run w r file root).1.IsClean := by
  obtain ⟨visits, hv⟩ := Closure.exists_visitsOf w r.restrict file root
  rw [findings_run]
  simp only [List.append_eq_nil_iff, List.map_eq_nil_iff, List.flatMap_eq_nil_iff, List.filter_eq_nil_iff]
  constructor
  · rintro ⟨hduplicates, ⟨hundefined, hunloadable⟩, hcircular, -⟩
    refine ⟨List.eq_nil_iff_forall_not_mem.mpr fun d hd => ?_, hundefined, List.eq_nil_iff_forall_not_mem.mpr fun u hu => ?_,
      hcircular⟩
    · have hfew := Rule.duplicateFindings_eq_nil.mp (hduplicates d hd)
      rw [Analysis.run_eq hv hf] at hd
      exact absurd (Analysis.mem_duplicates.mp hd).2 (Nat.not_lt.mpr hfew)
    · -- The document has the reference, so it has a definition, and the rule reports that its file has no document.
      rw [Analysis.run_eq hv hf] at hu hundefined hunloadable
      obtain ⟨v, hv', hu'⟩ := List.mem_flatMap.mp hu
      obtain ⟨hl, href⟩ := Visit.of_mem_unresolved hu'
      exact hunloadable u hu (Analysis.undefined_eq_nil.mp hundefined _ (href ▸ hv.reference_mem hv' hl))
  · rintro ⟨hduplicates, hundefined, hunresolved, hcircular⟩
    simp [hduplicates, hundefined, hunresolved, hcircular]

end Linter

end MarkdownTemplates
