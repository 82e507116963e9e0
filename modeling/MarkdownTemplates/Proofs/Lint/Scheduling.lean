import MarkdownTemplates.Lint.Task
import MarkdownTemplates.Proofs.Dict

/-!
# Reports and the order of the tasks

The tasks of a job may finish in any order, and their results may be received in any order. The report is the same each time,
and a check that fails takes nothing from the findings of the other rules.
-/

namespace MarkdownTemplates

open Relation (ReflTransGen)

namespace LintConfig

variable {c : LintConfig} {id : String}

/-- A rule is switched on unless an entry of the configuration switches it off. -/
theorem enabled_rule_iff : (c.rule id).enabled = true ↔ ∀ settings, c.rules.get? id = some settings → settings.enabled = true := by
  rw [rule]
  cases c.rules.get? id <;> simp

/-- The severity of a rule is set where an entry of the configuration sets it. -/
theorem severity_rule : (c.rule id).severity = (c.rules.get? id).bind RuleConfig.severity := by
  rw [rule]
  cases c.rules.get? id <;> rfl

/-- A rule that is switched on or off keeps the rest of its settings, and so do the other rules. -/
theorem get?_setEnabled (c : LintConfig) (id id' : String) (enabled : Bool) :
    (c.setEnabled id enabled).rules.get? id' =
      if id' = id then some { (c.rules.get? id).getD {} with enabled } else c.rules.get? id' :=
  Dict.get?_insert ..

/-- A rule whose severity is set keeps the rest of its settings, and so do the other rules. -/
theorem get?_setSeverity (c : LintConfig) (id id' : String) (severity : Severity) :
    (c.setSeverity id severity).rules.get? id' =
      if id' = id then some { (c.rules.get? id).getD {} with severity := some severity } else c.rules.get? id' :=
  Dict.get?_insert ..

end LintConfig

theorem Finding.overrideSeverity_eq (severity : Option Severity) (found : List Finding) :
    overrideSeverity severity found = found.map fun f => { f with severity := severity.getD f.severity } := by
  cases severity with
  | none => exact (List.map_id' found).symm
  | some s => rfl

namespace LintTask

/-- What is kept of the findings of the task, unless its check fails. -/
def outcome (c : RuleContext) (t : LintTask) : Option (List Finding) :=
  (t.rule.check c).map (Finding.overrideSeverity t.severity)

end LintTask

namespace LintJob

variable {c : RuleContext} {ts : List LintTask} {j j' : LintJob}

/-! ## What a job has collected -/

/-- Every task of the job runs, or has finished, or has been received, and the findings are those of the last kind. -/
structure Serves (c : RuleContext) (ts received : List LintTask) (j : LintJob) : Prop where
  context : j.context = c
  tasks : (received ++ j.finished.map Prod.fst ++ j.running).Perm ts
  results : ∀ f ∈ j.finished, f.2 = f.1.rule.check c
  collected : ∀ i found, j.collected[i]? = some found ↔ ∃ t ∈ received, t.index = i ∧ t.outcome c = some found

theorem getElem?_collect (j : LintJob) (t : LintTask) (i : Nat) :
    (j.collect t (t.rule.check c))[i]? = if t.index = i then (t.outcome c).or j.collected[i]? else j.collected[i]? := by
  cases hr : t.rule.check c with
  | none => simp [collect, LintTask.outcome, hr]
  | some found => simp [collect, LintTask.outcome, hr, Std.TreeMap.getElem?_insert]

/-- The places of the tasks differ, so a new result replaces none that has been received. -/
theorem Serves.collect_eq_some {received : List LintTask} (hs : j.Serves c ts received) {t : LintTask}
    (hnew : ∀ t' ∈ received, t'.index ≠ t.index) (i : Nat) (found : List Finding) :
    (j.collect t (t.rule.check c))[i]? = some found ↔ ∃ t' ∈ t :: received, t'.index = i ∧ t'.outcome c = some found := by
  rw [getElem?_collect]
  by_cases he : t.index = i
  · have hnone : j.collected[i]? = none := by
      refine Option.eq_none_iff_forall_ne_some.mpr fun found hf => ?_
      obtain ⟨t', ht', hi', -⟩ := (hs.collected i found).mp hf
      exact hnew t' ht' (hi'.trans he.symm)
    rw [if_pos he, hnone, Option.or_none]
    constructor
    · exact fun ho => ⟨t, List.mem_cons_self, he, ho⟩
    · rintro ⟨t', ht', hi', ho⟩
      rcases List.mem_cons.mp ht' with rfl | ht'
      · exact ho
      · exact absurd (hi'.trans he.symm) (hnew t' ht')
  · rw [if_neg he, hs.collected]
    simp [he]

theorem Serves.step {received : List LintTask} (hs : j.Serves c ts received) (hi : (ts.map LintTask.index).Nodup)
    (h : Step j j') : ∃ received', j'.Serves c ts received' := by
  cases h with
  | @finish before after t h =>
    refine ⟨received, hs.context, ?_, ?_, hs.collected⟩
    · refine List.Perm.trans ?_ hs.tasks
      rw [h, List.map_cons, List.append_assoc, List.append_assoc]
      refine List.Perm.append_left _ ?_
      rw [List.cons_append, ← List.append_assoc, ← List.append_assoc]
      exact List.perm_middle.symm
    · intro f hf
      rcases List.mem_cons.mp hf with rfl | hf
      · rw [hs.context]
      · exact hs.results f hf
  | @receive before after t result h =>
    have hr : result = t.rule.check c := hs.results (t, result) (h ▸ List.mem_append_right _ List.mem_cons_self)
    have hp : (t :: received ++ (before ++ after).map Prod.fst ++ j.running).Perm ts := by
      refine List.Perm.trans ?_ hs.tasks
      rw [h, List.map_append, List.map_append, List.map_cons]
      refine List.Perm.append_right _ ?_
      rw [List.cons_append, ← List.append_assoc, ← List.append_assoc]
      exact List.perm_middle.symm
    have hnew : ∀ t' ∈ received, t'.index ≠ t.index := by
      have hnd := (hp.map LintTask.index).nodup_iff.mpr hi
      rw [List.append_assoc, List.cons_append, List.map_cons, List.nodup_cons, List.map_append] at hnd
      exact fun t' ht' he => hnd.1 (List.mem_append_left _ (List.mem_map.mpr ⟨t', ht', he⟩))
    refine ⟨t :: received, hs.context, hp, fun f hf => hs.results f ?_, fun i found => ?_⟩
    · rw [h]
      exact ((List.sublist_cons_self _ _).append_left _).subset hf
    · exact hr ▸ hs.collect_eq_some hnew i found

theorem Serves.run (hs : j.Serves c ts []) (hi : (ts.map LintTask.index).Nodup) (h : ReflTransGen Step j j') :
    ∃ received, j'.Serves c ts received := by
  induction h with
  | refl => exact ⟨[], hs⟩
  | tail _ h ih =>
    obtain ⟨received, hs⟩ := ih
    exact hs.step hi h

/-! ## Jobs come to their end -/

theorem exists_step (h : ¬ j.IsDone) : ∃ j', Step j j' := by
  cases hr : j.running with
  | cons t after => exact ⟨_, @Step.finish j [] after _ hr⟩
  | nil =>
    cases hf : j.finished with
    | cons f after => exact ⟨_, @Step.receive j [] after _ _ hf⟩
    | nil => exact absurd ⟨hr, hf⟩ h

/-- How many steps are left. -/
def remaining (j : LintJob) : Nat := 2 * j.running.length + j.finished.length

theorem remaining_of_step (h : Step j j') : j.remaining = j'.remaining + 1 := by
  cases h with
  | finish h =>
    simp only [remaining, h, List.length_append, List.length_cons]
    omega
  | receive h =>
    simp only [remaining, h, List.length_append, List.length_cons]
    omega

theorem exists_isDone (j : LintJob) : ∃ j', ReflTransGen Step j j' ∧ j'.IsDone := by
  -- Every step leaves one less to be done.
  induction hn : j.remaining generalizing j with
  | zero =>
    refine ⟨j, .refl, ?_⟩
    simp only [remaining, Nat.add_eq_zero_iff, Nat.mul_eq_zero, List.length_eq_zero_iff] at hn
    exact ⟨hn.1.resolve_left (by decide), hn.2⟩
  | succ n ih =>
    by_cases hd : j.IsDone
    · exact ⟨j, .refl, hd⟩
    · obtain ⟨j₁, hs⟩ := exists_step hd
      obtain ⟨j₂, hr, hd⟩ := ih j₁ (by have := remaining_of_step hs; omega)
      exact ⟨j₂, .head hs hr, hd⟩

/-! ## The findings in the end -/

/-- When everything has been received, the findings are in the order of the tasks. -/
theorem Serves.toList_collected {received : List LintTask} (hs : j.Serves c ts received) (hd : j.IsDone)
    (ho : ts.Pairwise fun t t' => t.index < t'.index) :
    j.collected.toList = ts.filterMap fun t => (t.outcome c).map (t.index, ·) := by
  have hp : received.Perm ts := by simpa [hd.1, hd.2] using hs.tasks
  have hleft : j.collected.toList.Pairwise fun a b => a.1 < b.1 := by
    refine Std.TreeMap.ordered_keys_toList.imp fun h => ?_
    exact Nat.compare_eq_lt.mp h
  have hright : (ts.filterMap fun t => (t.outcome c).map (t.index, ·)).Pairwise fun a b => a.1 < b.1 := by
    refine ho.filterMap _ fun t t' hlt b hb b' hb' => ?_
    obtain ⟨_, -, rfl⟩ := Option.map_eq_some_iff.mp hb
    obtain ⟨_, -, rfl⟩ := Option.map_eq_some_iff.mp hb'
    exact hlt
  have hm : ∀ e, e ∈ j.collected.toList ↔ e ∈ ts.filterMap fun t => (t.outcome c).map (t.index, ·) := by
    rintro ⟨i, found⟩
    rw [Std.TreeMap.mem_toList_iff_getElem?_eq_some, hs.collected, List.mem_filterMap]
    simp only [Option.map_eq_some_iff, Prod.mk.injEq, hp.mem_iff]
    constructor
    · rintro ⟨t, ht, hi, ho⟩
      exact ⟨t, ht, found, ho, hi, rfl⟩
    · rintro ⟨t, ht, _, ho, hi, rfl⟩
      exact ⟨t, ht, hi, ho⟩
  exact hleft.eq_of_mem_iff hright hm

end LintJob

namespace Linter

variable {l : Linter} {c : RuleContext} {j : LintJob}

theorem index_of_task? {rule : Rule} {i : Nat} {t : LintTask} (h : l.task? rule i = some t) : t.index = i := by
  rw [task?] at h
  split at h
  · exact (Option.some.inj h) ▸ rfl
  · cases h

theorem pairwise_tasks (l : Linter) : l.tasks.Pairwise fun t t' => t.index < t'.index := by
  have hi : l.rules.values.zipIdx.Pairwise fun e e' => e.2 < e'.2 := by
    rw [← List.pairwise_map, List.zipIdx_map_snd]
    exact List.pairwise_lt_range'
  refine hi.filterMap _ fun e e' hlt t ht t' ht' => ?_
  rw [index_of_task? ht, index_of_task? ht']
  exact hlt

theorem serves_start (l : Linter) (c : RuleContext) : (l.start c).Serves c l.tasks [] where
  context := rfl
  tasks := .refl _
  results := by simp [start]
  collected := by simp [start]

theorem findings_of_task? (c : RuleContext) (rule : Rule) (i : Nat) :
    l.findings c rule = (((l.task? rule i).bind fun t => (t.outcome c).map (t.index, ·)).map Prod.snd).getD [] := by
  rw [findings, task?]
  split
  · cases hr : rule.check c <;> simp [LintTask.outcome, hr, Finding.overrideSeverity_eq]
  · rfl

theorem flatMap_tasks (l : Linter) (c : RuleContext) :
    (l.tasks.filterMap fun t => (t.outcome c).map (t.index, ·)).flatMap Prod.snd = l.rules.values.flatMap (l.findings c) := by
  rw [tasks, List.filterMap_filterMap]
  generalize 0 = k
  induction l.rules.values generalizing k with
  | nil => rfl
  | cons rule rules ih =>
    rw [List.zipIdx_cons, List.filterMap_cons, List.flatMap_cons, ← ih (k + 1), findings_of_task? c rule k]
    cases ((l.task? rule k).bind fun t => (t.outcome c).map (t.index, ·)) <;> rfl

/-- Whatever the order of the tasks, the report is that of the rules one after the other. -/
theorem report_eq_of_isDone (h : ReflTransGen LintJob.Step (l.start c) j) (hd : j.IsDone) :
    j.report = ⟨c.file, l.rules.values.flatMap (l.findings c)⟩ := by
  have hi : (l.tasks.map LintTask.index).Nodup :=
    List.pairwise_map.mpr (l.pairwise_tasks.imp fun h => Nat.ne_of_lt h)
  obtain ⟨received, hs⟩ := (l.serves_start c).run hi h
  rw [LintJob.report, hs.context, hs.toList_collected hd l.pairwise_tasks, flatMap_tasks]

/-! ## Registered rules -/

/-- The linter with rules that are registered one after the other. -/
def ofRules (config : LintConfig) (registered : List Rule) : Linter :=
  registered.foldl register { rules := ∅, config }

/-- Is the rule the last one with its id? -/
def IsRegistered (registered : List Rule) (rule : Rule) : Prop :=
  ∃ before after, registered = before ++ rule :: after ∧ ∀ r ∈ after, r.id ≠ rule.id

theorem isRegistered_concat {registered : List Rule} {r rule : Rule} :
    IsRegistered (registered ++ [r]) rule ↔ rule = r ∨ rule.id ≠ r.id ∧ IsRegistered registered rule := by
  constructor
  · rintro ⟨before, after, he, hafter⟩
    cases after using List.reverseRecOn with
    | nil => exact .inl (List.singleton_injective (List.append_inj' he rfl).2).symm
    | append_singleton after r' =>
      rw [← List.cons_append, ← List.append_assoc] at he
      obtain ⟨hinit, hr⟩ := List.append_inj' he rfl
      obtain rfl : r = r' := List.singleton_injective hr
      exact .inr ⟨(hafter r (List.mem_append_right _ List.mem_cons_self)).symm, before, after, hinit,
        fun r' hr' => hafter r' (List.mem_append_left _ hr')⟩
  · rintro (rfl | ⟨hne, before, after, rfl, hafter⟩)
    · exact ⟨registered, [], rfl, by simp⟩
    · refine ⟨before, after ++ [r], by simp, fun r' hr' => ?_⟩
      rcases List.mem_append.mp hr' with hr' | hr'
      · exact hafter r' hr'
      · rw [List.mem_singleton.mp hr']
        exact hne.symm

theorem config_foldl_register (registered : List Rule) (l : Linter) : (registered.foldl register l).config = l.config := by
  induction registered generalizing l with
  | nil => rfl
  | cons r registered ih => exact ih (l.register r)

/-- Of the rules with an id, the last one that was registered is kept. -/
theorem get?_rules_ofRules {config : LintConfig} {registered : List Rule} {id : String} {rule : Rule} :
    (ofRules config registered).rules.get? id = some rule ↔ rule.id = id ∧ IsRegistered registered rule := by
  induction registered using List.reverseRecOn with
  | nil => simp [ofRules, IsRegistered]
  | append_singleton registered r ih =>
    have hr : (ofRules config (registered ++ [r])).rules = (ofRules config registered).rules.insert r.id r := by
      rw [ofRules, List.foldl_append]
      rfl
    rw [hr, Dict.get?_insert, isRegistered_concat]
    split <;> grind

theorem mem_values_ofRules {config : LintConfig} {registered : List Rule} {rule : Rule} :
    rule ∈ (ofRules config registered).rules.values ↔ IsRegistered registered rule := by
  simp [Dict.mem_values, get?_rules_ofRules]

theorem pairwise_values_ofRules (config : LintConfig) (registered : List Rule) :
    (ofRules config registered).rules.values.Pairwise fun a b => a.id < b.id := by
  refine List.pairwise_map.mpr ((ofRules config registered).rules.ordered.imp_of_mem fun ha hb hlt => ?_)
  rw [(get?_rules_ofRules.mp (Dict.mem_entries.mp ha)).1, (get?_rules_ofRules.mp (Dict.mem_entries.mp hb)).1]
  exact hlt

/-- Rules that are switched off, and those whose checks fail, can be left out. -/
theorem flatMap_findings (l : Linter) (c : RuleContext) (rules : List Rule) :
    rules.flatMap (l.findings c) =
      (rules.filter fun rule => (l.config.rule rule.id).enabled && (rule.check c).isSome).flatMap fun rule =>
        ((rule.check c).getD []).map fun f => { f with severity := (l.config.rule rule.id).severity.getD f.severity } := by
  induction rules with
  | nil => rfl
  | cons rule rules ih =>
    rw [List.flatMap_cons, ih, findings, Finding.overrideSeverity_eq]
    cases he : (l.config.rule rule.id).enabled <;> cases hr : rule.check c <;> simp [he, hr]

end Linter

namespace LintReport

/-- Every finding is an error, a warning or an information. -/
theorem sum_counts (r : LintReport) : r.errorCount + r.warningCount + r.infoCount = r.findings.length := by
  rw [errorCount, warningCount, infoCount, count, count, count]
  induction r.findings with
  | nil => rfl
  | cons f findings ih =>
    cases hf : f.severity <;> simp [hf] <;> omega

end LintReport

namespace Linter

/-- Whatever the order in which the tasks finish and are received, linting comes to its end, and the report has the findings of
the rules that no entry of the configuration switches off and whose checks do not fail, in the order of their ids and with the
severities that the entries set. -/
theorem report_of_schedule (config : LintConfig) (registered : List Rule) (w : World) (r : Resolver) (file : Option Path)
    (root : Node) :
    let l := ofRules config registered
    let c : RuleContext := ⟨file, (Analysis.run w r file root).1⟩
    ∃ active : List Rule, active.Pairwise (fun a b => a.id < b.id) ∧
      (∀ rule, rule ∈ active ↔
        IsRegistered registered rule ∧ (∀ settings, config.rules.get? rule.id = some settings → settings.enabled = true) ∧
          (rule.check c).isSome = true) ∧
      ∀ j, ReflTransGen LintJob.Step (l.start c) j →
        (∃ j', ReflTransGen LintJob.Step j j' ∧ j'.IsDone) ∧
        (j.IsDone →
          j.report = (l.run w r file root).1 ∧
          j.report.findings = active.flatMap (fun rule =>
            ((rule.check c).getD []).map fun f =>
              { f with severity := ((config.rules.get? rule.id).bind RuleConfig.severity).getD f.severity }) ∧
          j.report.errorCount = j.report.findings.countP (·.severity = .error) ∧
          j.report.warningCount = j.report.findings.countP (·.severity = .warn) ∧
          j.report.infoCount = j.report.findings.countP (·.severity = .info) ∧
          j.report.errorCount + j.report.warningCount + j.report.infoCount = j.report.findings.length) := by
  intro l c
  have hconfig : l.config = config := config_foldl_register registered _
  refine ⟨l.rules.values.filter fun rule => (config.rule rule.id).enabled && (rule.check c).isSome,
    (pairwise_values_ofRules config registered).filter _, fun rule => ?_, fun j h => ⟨j.exists_isDone, fun hd => ?_⟩⟩
  · rw [List.mem_filter, mem_values_ofRules, Bool.and_eq_true, LintConfig.enabled_rule_iff]
  · have hreport := report_eq_of_isDone h hd
    refine ⟨hreport, ?_, rfl, rfl, rfl, j.report.sum_counts⟩
    simp only [hreport, flatMap_findings, hconfig, LintConfig.severity_rule]

end Linter

end MarkdownTemplates
