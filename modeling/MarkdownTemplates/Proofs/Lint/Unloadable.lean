import MarkdownTemplates.Proofs.Lint.Findings

/-!
# Sources that are reported

A path that the document itself names and that leads to no document is reported with the reason, whichever of the references to it is
met first. What the files in the closure name is followed, but a failure there is not reported.
-/

namespace MarkdownTemplates

open Resolver (outcome resolvePath)

/-! ## Failures by path -/

namespace Reference

variable {w : World} {restrict file : Option Path} {seen : NameSet} {r r' : Reference} {refs : List Reference} {p : Path} {u : Unresolved}

theorem failure?_eq_some : r.failure? w restrict file = some u ↔ ∃ src, r.src = some src ∧ outcome w restrict src file = .error u := by
  rw [failure?, Option.bind_eq_some_iff]
  refine exists_congr fun src => and_congr_right fun _ => ?_
  cases outcome w restrict src file <;> simp

theorem failure?_congr_src (h : r.src = r'.src) : r.failure? w restrict file = r'.failure? w restrict file := by
  rw [failure?, failure?, h]

/-- References that name one path fail alike. -/
theorem failure?_congr (hr : r.path? w.cwd file = some p) (hr' : r'.path? w.cwd file = some p) :
    r.failure? w restrict file = r'.failure? w restrict file := by
  obtain ⟨src, hsrc, hp⟩ := Option.map_eq_some_iff.mp hr
  obtain ⟨src', hsrc', hp'⟩ := Option.map_eq_some_iff.mp hr'
  rw [failure?, failure?, hsrc, hsrc', Option.bind_some, Option.bind_some, Resolver.outcome_congr (hp.trans hp'.symm)]

theorem failure?_of_mem_unloadable {s : UnresolvedSource} (h : s ∈ unloadable w restrict file seen refs) :
    s.reference.failure? w restrict file = some s.failure := by
  obtain ⟨p, -, hp⟩ := List.mem_filterMap.mp h
  obtain ⟨r, -, hr⟩ := Option.bind_eq_some_iff.mp hp
  obtain ⟨u, hu, rfl⟩ := Option.map_eq_some_iff.mp hr
  exact hu

/-- The first reference to a path that fails is noted. -/
theorem mem_unloadable (hfirst : refs.find? (fun r => r.path? w.cwd file = some p) = some r) (hnew : seen.contains p.text = false)
    (hu : r.failure? w restrict file = some u) : ⟨r, u⟩ ∈ unloadable w restrict file seen refs := by
  have hr : r.path? w.cwd file = some p := by simpa using List.find?_some hfirst
  refine List.mem_filterMap.mpr ⟨p, mem_paths.mpr ⟨⟨r, List.mem_of_find?_eq_some hfirst, hr⟩, hnew⟩, ?_⟩
  rw [hfirst, Option.bind_some, hu]
  rfl

end Reference

namespace Rule

variable {unresolved : List UnresolvedSource} {r : Reference} {u : UnresolvedSource}

/-- When a source with the spelling of the reference has failed, the finding gives the reason of such a failure. -/
theorem reason_undefinedFinding (hu : u ∈ unresolved) (hsrc : u.reference.src = r.src) : ∃ u' ∈ unresolved, u'.reference.src = r.src ∧
    (undefinedFinding unresolved r).details.get? "reason" = some (.text u'.failure.kind.problemKind.name) := by
  cases h : unresolved.find? (·.reference.src = r.src) with
  | none =>
    have hne := List.find?_eq_none.mp h u hu
    simp [hsrc] at hne
  | some u' =>
    obtain ⟨message, hf⟩ := undefinedFinding_of_some h
    refine ⟨u', List.mem_of_find?_eq_some h, by simpa using List.find?_some h, ?_⟩
    rw [hf]
    exact reason_withReason _ u'

theorem reason_undefinedFinding_of_none (h : unresolved.find? (·.reference.src = r.src) = none) :
    (undefinedFinding unresolved r).details.get? "reason" = none := by
  rw [undefinedFinding_of_none h, undefinedFinding]
  cases r.src <;> simp [Finding.withText, Dict.get?_insert, finding]

theorem ruleId_of_mem_duplicateFindings {file : Option Path} {d : DuplicateTemplate} {f : Finding} (h : f ∈ duplicateFindings file d) :
    f.ruleId = duplicateIdName := by
  obtain ⟨id, - | ⟨first, rest⟩⟩ := d
  · cases h
  · obtain ⟨o, -, rfl⟩ := List.mem_map.mp h
    simp only [Finding.ruleId_withPath]
    rfl

theorem src_undefinedFinding (unresolved : List UnresolvedSource) (r : Reference) :
    (undefinedFinding unresolved r).details.get? "src" = r.src.map .text := by
  have hplain : (undefinedFinding [] r).details.get? "src" = r.src.map .text := by
    rw [undefinedFinding]
    cases r.src <;> simp [Finding.withText, Dict.get?_insert, finding]
  cases h : unresolved.find? (·.reference.src = r.src) with
  | none => rw [undefinedFinding_of_none h, hplain]
  | some u =>
    obtain ⟨message, hf⟩ := undefinedFinding_of_some h
    rw [hf, withReason, Finding.get?_withPath_of_ne _ (by decide), Finding.get?_withText_of_ne _ (by decide)]
    exact hplain

theorem src_unloadableFinding (u : UnresolvedSource) : (unloadableFinding u).details.get? "src" = none := by
  rw [unloadableFinding, withReason, Finding.get?_withPath_of_ne _ (by decide), Finding.get?_withText_of_ne _ (by decide)]
  rfl

end Rule

/-! ## The report -/

namespace Linter

open Analysis (ids)

variable {w : World} {r : Resolver} {restrict file : Option Path} {root : Node} {ref first : Reference} {p : Path} {u : Unresolved}

/-- Does the finding give the reason of the failure? -/
def GivesReason (f : Finding) (u : Unresolved) : Prop :=
  f.ruleId = Rule.undefinedReferenceName ∧ f.details.get? "reason" = some (.text u.kind.problemKind.name)

theorem mem_unloadable (hfirst : (Reference.all root).find? (fun r => r.path? w.cwd file = some p) = some first)
    (hown : ∀ own ∈ file, p ≠ own.normalize) (hu : first.failure? w restrict file = some u) :
    ⟨first, u⟩ ∈ unloadable w restrict file root := by
  refine Reference.mem_unloadable hfirst ?_ hu
  rw [← Bool.not_eq_true, NameSet.contains_ofList, Option.mem_toList]
  intro hm
  obtain ⟨own, hfile, he⟩ := Option.mem_map.mp hm
  exact hown own hfile (congrArg Path.mk he).symm

/-- A finding for a reference that is spelled as the first one to its path gives the reason. -/
theorem givesReason_undefinedFinding (hm : ⟨first, u⟩ ∈ unloadable w restrict file root) (hsrc : first.src = ref.src) :
    GivesReason (Rule.undefinedFinding (unloadable w restrict file root) ref) u := by
  obtain ⟨u', hu', hsrc', hreason⟩ := Rule.reason_undefinedFinding hm hsrc
  have hfailure : u'.reference.failure? w restrict file = first.failure? w restrict file :=
    Reference.failure?_congr_src (hsrc'.trans hsrc.symm)
  rw [Reference.failure?_of_mem_unloadable hu', Reference.failure?_of_mem_unloadable hm] at hfailure
  obtain rfl := Option.some.inj hfailure
  exact ⟨(Rule.reports_undefinedFinding _ ref).rule, hreason⟩

section

variable (hf : r.IsFaithful w) {visits : List Visit} (hv : Closure.VisitsOf w r.restrict file root visits)

include hf hv

theorem undefinedFinding_mem (href : ref ∈ Reference.all root) (hid : ref.id ∉ ids (collected w r.restrict file root visits).occurrences) :
    Rule.undefinedFinding (unloadable w r.restrict file root) ref ∈ (Linter.run {} w r file root).1.findings := by
  rw [findings_eq hf hv]
  simp only [List.mem_append]
  exact .inl (.inl (.inr (List.mem_map_of_mem (List.mem_filter.mpr ⟨href, decide_eq_true hid⟩))))

theorem unloadableFinding_mem {u : UnresolvedSource} (hu : u ∈ unloadable w r.restrict file root)
    (hid : u.reference.id ∈ ids (collected w r.restrict file root visits).occurrences) :
    Rule.unloadableFinding u ∈ (Linter.run {} w r file root).1.findings := by
  rw [findings_eq hf hv]
  simp only [List.mem_append]
  exact .inl (.inr (List.mem_map_of_mem (List.mem_filter.mpr ⟨hu, decide_eq_true hid⟩)))

/-- The findings of the rule are for undefined references and for paths without documents. -/
theorem cases_of_ruleId {f : Finding} (hm : f ∈ (Linter.run {} w r file root).1.findings) (hrule : f.ruleId = Rule.undefinedReferenceName) :
    (∃ ref ∈ Reference.all root, ref.id ∉ ids (collected w r.restrict file root visits).occurrences ∧
        f = Rule.undefinedFinding (unloadable w r.restrict file root) ref) ∨
      ∃ u ∈ unloadable w r.restrict file root, u.reference.id ∈ ids (collected w r.restrict file root visits).occurrences ∧
        f = Rule.unloadableFinding u := by
  rw [findings_eq hf hv] at hm
  simp only [List.mem_append] at hm
  rcases hm with ((hm | hm) | hm) | hm
  · obtain ⟨d, -, hd⟩ := List.mem_flatMap.mp hm
    rw [Rule.ruleId_of_mem_duplicateFindings hd] at hrule
    exact absurd hrule (by decide)
  · obtain ⟨ref, href, rfl⟩ := List.mem_map.mp hm
    obtain ⟨href, hid⟩ := List.mem_filter.mp href
    exact .inl ⟨ref, href, of_decide_eq_true hid, rfl⟩
  · obtain ⟨u, hu, rfl⟩ := List.mem_map.mp hm
    obtain ⟨hu, hid⟩ := List.mem_filter.mp hu
    exact .inr ⟨u, hu, of_decide_eq_true hid, rfl⟩
  · obtain ⟨cycle, -, rfl⟩ := List.mem_map.mp hm
    rw [(Rule.reports_circularFinding cycle).rule] at hrule
    exact absurd hrule (by decide)

end

/-- The report gives the reason for each path that the document itself names, but that of its own file, and that leads to no document. -/
structure ReportsUnloadable (w : World) (restrict file : Option Path) (root : Node) (findings : List Finding) : Prop where
  each : ∀ ref ∈ Reference.all root, ∀ p u, ref.path? w.cwd file = some p → (∀ own ∈ file, p ≠ own.normalize) →
    ref.failure? w restrict file = some u → ∃ f ∈ findings, GivesReason f u
  /-- An undefined reference with the `src` of the first one to its path. No other finding has a `src`. -/
  undefined : ∀ f ∈ findings, f.ruleId = Rule.undefinedReferenceName → ∀ src, f.details.get? "src" = some (.text src) → ∀ first p u,
    (Reference.all root).find? (fun r => r.path? w.cwd file = some p) = some first → first.src = some src →
      (∀ own ∈ file, p ≠ own.normalize) → first.failure? w restrict file = some u → GivesReason f u

/-- Whatever the spelling, the failure of a reference of the document is reported with its reason, by the finding of the first
reference to the path. -/
theorem reportsUnloadable_run (hf : r.IsFaithful w) :
    ReportsUnloadable w r.restrict file root (Linter.run {} w r file root).1.findings := by
  obtain ⟨visits, hv⟩ := Closure.exists_visitsOf w r.restrict file root
  constructor
  case each =>
    intro ref href p u hpath hown hu
    obtain ⟨first, hfirst⟩ := Option.isSome_iff_exists.mp
      (List.find?_isSome.mpr ⟨ref, href, decide_eq_true hpath⟩ : ((Reference.all root).find? fun r => r.path? w.cwd file = some p).isSome)
    have hfirstPath : first.path? w.cwd file = some p := by simpa using List.find?_some hfirst
    have hfailure : first.failure? w r.restrict file = some u := (Reference.failure?_congr hfirstPath hpath).trans hu
    have hm := mem_unloadable hfirst hown hfailure
    by_cases hid : first.id ∈ ids (collected w r.restrict file root visits).occurrences
    · obtain ⟨hreports, hreason⟩ := Rule.reports_unloadableFinding ⟨first, u⟩
      exact ⟨_, unloadableFinding_mem hf hv hm hid, hreports.rule, hreason⟩
    · exact ⟨_, undefinedFinding_mem hf hv (List.mem_of_find?_eq_some hfirst) hid, givesReason_undefinedFinding hm rfl⟩
  case undefined =>
    intro f hmem hrule src hsrc first p u hfirst hspelled hown hu
    rcases cases_of_ruleId hf hv hmem hrule with ⟨ref, -, -, rfl⟩ | ⟨s, -, -, rfl⟩
    · rw [Rule.src_undefinedFinding] at hsrc
      obtain ⟨src', hsrc', he⟩ := Option.map_eq_some_iff.mp hsrc
      obtain rfl := Detail.text.inj he
      exact givesReason_undefinedFinding (mem_unloadable hfirst hown hu) (hspelled.trans hsrc'.symm)
    · rw [Rule.src_unloadableFinding] at hsrc
      cases hsrc

/-- What is said of a file that is not there. -/
def missing (path : String) : Unresolved := .ofFileError ⟨path⟩ .noEntry

/-- A reference to a file that is not there. -/
def missingReference : Reference := ⟨"c", some "missing.md", some 1, some 1⟩

def missingDocument : Document := .parse "::template\x7bid=\"c\" src=\"missing.md\"\x7d\n".toList

theorem reportsUnloadable_run_missing :
    let findings := (Linter.run {} (fileWorld linkedSource) {} none missingDocument.root).1.findings
    (∃ f ∈ findings, GivesReason f (missing "/missing.md")) ∧
      ∀ f ∈ findings, f.ruleId = Rule.undefinedReferenceName → f.details.get? "src" = some (.text "missing.md") →
        GivesReason f (missing "/missing.md") := by
  have hf : Resolver.IsFaithful (fileWorld linkedSource) {} := Resolver.isFaithful_of_memo rfl
  have hreports := @reportsUnloadable_run (fileWorld linkedSource) {} none missingDocument.root hf
  have hpath : missingReference.path? (fileWorld linkedSource).cwd none = some ⟨"/missing.md"⟩ := by decide +kernel
  have hfailure : missingReference.failure? (fileWorld linkedSource) none none = some (missing "/missing.md") := by decide +kernel
  have hfirst : (Reference.all missingDocument.root).find? (fun r => r.path? (fileWorld linkedSource).cwd none = some ⟨"/missing.md"⟩) =
      some missingReference := by decide +kernel
  exact ⟨hreports.each missingReference (by decide +kernel) _ _ hpath (by simp) hfailure, fun f hm hrule hsrc =>
    hreports.undefined f hm hrule _ hsrc _ _ _ hfirst rfl (by simp) hfailure⟩

/-- Is every failure in the closure reported with its reason, and every undefined reference whose own `src` fails? -/
def ReportsEveryFailure (w : World) (r : Resolver) (file : Option Path) (root : Node) : Prop :=
  let findings := (Linter.run {} w r file root).1.findings
  (∀ visits, Closure.VisitsOf w r.restrict file root visits → ∀ v ∈ visits, ∀ u, v.outcome = .error u →
      ∃ f ∈ findings, GivesReason f u) ∧
    ∀ f ∈ findings, f.ruleId = Rule.undefinedReferenceName → ∀ src, f.details.get? "src" = some (.text src) →
      ∀ u, outcome w r.restrict src file = .error u → GivesReason f u

/-- An undefined reference is silent about its failure when none is noted for its spelling. -/
theorem not_reportsEveryFailure_of_silent (hf : r.IsFaithful w) {visits : List Visit}
    (hv : Closure.VisitsOf w r.restrict file root visits) (href : ref ∈ Reference.all root)
    (hid : ref.id ∉ ids (collected w r.restrict file root visits).occurrences) (hu : ref.failure? w r.restrict file = some u)
    (hnone : (unloadable w r.restrict file root).find? (·.reference.src = ref.src) = none) : ¬ ReportsEveryFailure w r file root := by
  rintro ⟨-, hundefined⟩
  obtain ⟨src, hsrc, houtcome⟩ := Reference.failure?_eq_some.mp hu
  have hdetail : (Rule.undefinedFinding (unloadable w r.restrict file root) ref).details.get? "src" = some (.text src) := by
    rw [Rule.src_undefinedFinding, hsrc]
    rfl
  obtain ⟨-, hreason⟩ := hundefined _ (undefinedFinding_mem hf hv href hid) (Rule.reports_undefinedFinding _ ref).rule src hdetail u houtcome
  rw [Rule.reason_undefinedFinding_of_none hnone] at hreason
  cases hreason

theorem notMem_ids {occurrences : List Occurrence} (h : occurrences.map (·.id) = []) (id : String) : id ∉ ids occurrences := by
  rw [Analysis.mem_ids_iff_mem_map, h]
  exact List.not_mem_nil

/-- A file whose template needs one that is not there. -/
def danglingSource : String := ":::template\x7bid=\"b\"\x7d\n::template\x7bid=\"c\" src=\"c.md\"\x7d\n:::\n"

def danglingReference : Reference := ⟨"b", some "b.md", some 1, some 1⟩

def danglingDocument : Document := .parse "::template\x7bid=\"b\" src=\"b.md\"\x7d\n".toList

def danglingVisits : List Visit :=
  [fileVisit danglingReference danglingSource, ⟨⟨"c", some "c.md", some 2, some 1⟩, false, .error (missing "/c.md")⟩]

theorem visitsOf_dangling : Closure.VisitsOf (fileWorld danglingSource) none none danglingDocument.root danglingVisits := by
  have hfailure : (⟨"c", some "c.md", some 2, some 1⟩ : Reference).failure? (fileWorld danglingSource) none (some ⟨"/b.md"⟩) =
      some (missing "/c.md") := by decide +kernel
  obtain ⟨src, hsrc, houtcome⟩ := Reference.failure?_eq_some.mp hfailure
  have hrefs : Reference.all (Document.parse danglingSource.toList).root = [⟨"c", some "c.md", some 2, some 1⟩] := by decide +kernel
  refine visitsOf_fileWorld (by decide +kernel) (by decide +kernel) rfl ?_
  rw [hrefs]
  exact .step hsrc (by cases hsrc; decide +kernel) houtcome .done

/-- The same file, spelled in two ways. -/
def respelledDocument : Document :=
  .parse "::template\x7bid=\"c\" src=\"missing.md\"\x7d\n::template\x7bid=\"d\" src=\"./missing.md\"\x7d\n".toList

def respelledReference : Reference := ⟨"d", some "./missing.md", some 2, some 1⟩

theorem visitsOf_respelled : Closure.VisitsOf (fileWorld linkedSource) none none respelledDocument.root
    [⟨missingReference, true, .error (missing "/missing.md")⟩] := by
  have hfailure : missingReference.failure? (fileWorld linkedSource) none none = some (missing "/missing.md") := by decide +kernel
  obtain ⟨src, hsrc, houtcome⟩ := Reference.failure?_eq_some.mp hfailure
  have hrefs : Reference.all respelledDocument.root = [missingReference, respelledReference] := by decide +kernel
  rw [Closure.VisitsOf, hrefs]
  refine .step hsrc (by cases hsrc; decide +kernel) houtcome (.skip ?_ .done)
  rintro src' ⟨⟩
  cases hsrc
  decide +kernel

/-- A document that names its own file, which is not there. -/
def selfDocument : Document := .parse "::template\x7bid=\"c\" src=\"a.md\"\x7d\n".toList

def selfReference : Reference := ⟨"c", some "a.md", some 1, some 1⟩

theorem visitsOf_self : Closure.VisitsOf {} none (some ⟨"/a.md"⟩) selfDocument.root [] := by
  have hrefs : Reference.all selfDocument.root = [selfReference] := by decide +kernel
  rw [Closure.VisitsOf, hrefs]
  refine .skip ?_ .done
  rintro src ⟨⟩
  decide +kernel

/-- A failure that only a file in the closure meets is not reported. No reason is given for another spelling of a path, or where a
document names its own file. -/
theorem not_reportsEveryFailure : ¬ ReportsEveryFailure (fileWorld danglingSource) {} none danglingDocument.root ∧
    ¬ ReportsEveryFailure (fileWorld linkedSource) {} none respelledDocument.root ∧
      ¬ ReportsEveryFailure {} {} (some ⟨"/a.md"⟩) selfDocument.root := by
  have hfaithful : ∀ w : World, Resolver.IsFaithful w {} := fun w => Resolver.isFaithful_of_memo rfl
  refine ⟨?_, ?_, ?_⟩
  · rintro ⟨hvisits, -⟩
    obtain ⟨f, hm, hrule, -⟩ := hvisits _ visitsOf_dangling _ (List.mem_cons_of_mem _ (List.mem_singleton_self _)) _ rfl
    rcases cases_of_ruleId (hfaithful _) visitsOf_dangling hm hrule with ⟨ref, href, hid, -⟩ | ⟨u, hu, -⟩
    · have hrefs : Reference.all danglingDocument.root = [danglingReference] := by decide +kernel
      rw [hrefs] at href
      obtain rfl := List.mem_singleton.mp href
      exact hid (Analysis.mem_ids_iff_mem_map.mpr (by decide +kernel))
    · have hloaded : (unloadable (fileWorld danglingSource) none none danglingDocument.root).map (·.reference) = [] := by decide +kernel
      rw [List.map_eq_nil_iff.mp hloaded] at hu
      cases hu
  · have hfailure : respelledReference.failure? (fileWorld linkedSource) none none = some (missing "/missing.md") := by decide +kernel
    have hnone : ((unloadable (fileWorld linkedSource) none none respelledDocument.root).find?
        fun u => u.reference.src = respelledReference.src).isNone = true := by decide +kernel
    exact not_reportsEveryFailure_of_silent (hfaithful _) visitsOf_respelled (by decide +kernel) (notMem_ids (by decide +kernel) _)
      hfailure (Option.isNone_iff_eq_none.mp hnone)
  · have hfailure : selfReference.failure? {} none (some ⟨"/a.md"⟩) = some (missing "/a.md") := by decide +kernel
    have hnone : ((unloadable {} none (some ⟨"/a.md"⟩) selfDocument.root).find?
        fun u => u.reference.src = selfReference.src).isNone = true := by decide +kernel
    exact not_reportsEveryFailure_of_silent (hfaithful _) visitsOf_self (by decide +kernel) (notMem_ids (by decide +kernel) _)
      hfailure (Option.isNone_iff_eq_none.mp hnone)

end Linter

end MarkdownTemplates
