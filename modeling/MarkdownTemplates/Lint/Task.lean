import MarkdownTemplates.Lint.Report
import Std.Data.TreeMap

/-!
# Rules at work

All rules that are switched on look at an analysis at the same time, each in a task of its own. What they find is received in the
order in which the tasks finish, and is put in the order of the rules at the end.
-/

namespace MarkdownTemplates

/-- A rule at work. -/
structure LintTask where
  /-- The place of the rule among all that are registered. -/
  index : Nat
  rule : Rule
  /-- The severity that is set for the rule. -/
  severity : Option Severity

/-- Tasks that share a context, and what has come of them. -/
structure LintJob where
  context : RuleContext
  running : List LintTask
  /-- The tasks from which nothing has been received yet, with the results of their checks. -/
  finished : List (LintTask × Option (List Finding)) := []
  /-- The findings that have been received, by the places of the rules. -/
  collected : Std.TreeMap Nat (List Finding) := ∅

namespace LintJob

/-- The findings together with the result of one more task. A check that failed adds nothing. -/
def collect (j : LintJob) (t : LintTask) (result : Option (List Finding)) : Std.TreeMap Nat (List Finding) :=
  match result with
  | none => j.collected
  | some found => j.collected.insert t.index (Finding.overrideSeverity t.severity found)

/-- What can happen next: any task that runs may finish, and the result of any task that has finished may be received. -/
inductive Step : LintJob → LintJob → Prop
  | finish {j : LintJob} {before after : List LintTask} {t : LintTask} (h : j.running = before ++ t :: after) :
      Step j { j with running := before ++ after, finished := (t, t.rule.check j.context) :: j.finished }
  | receive {j : LintJob} {before after : List (LintTask × Option (List Finding))} {t : LintTask}
      {result : Option (List Finding)} (h : j.finished = before ++ (t, result) :: after) :
      Step j { j with finished := before ++ after, collected := j.collect t result }

/-- Has everything been received? -/
def IsDone (j : LintJob) : Prop := j.running = [] ∧ j.finished = []

def report (j : LintJob) : LintReport := ⟨j.context.file, j.collected.toList.flatMap Prod.snd⟩

end LintJob

namespace Linter

/-- The task of a rule, unless the rule is switched off. -/
def task? (l : Linter) (rule : Rule) (index : Nat) : Option LintTask :=
  let config := l.config.rule rule.id
  if config.enabled then some ⟨index, rule, config.severity⟩ else none

/-- The tasks of all rules, in the order of their ids. -/
def tasks (l : Linter) : List LintTask := l.rules.values.zipIdx.filterMap fun e => l.task? e.1 e.2

/-- The job with which linting begins. -/
def start (l : Linter) (c : RuleContext) : LintJob := { context := c, running := l.tasks }

end Linter

end MarkdownTemplates
