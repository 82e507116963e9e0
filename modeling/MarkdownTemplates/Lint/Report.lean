import MarkdownTemplates.Lint.Rule

/-!
# Lint reports

A document is analyzed once, and every rule that is not switched off looks at the analysis. The findings come in the order of
the ids of the rules.
-/

namespace MarkdownTemplates

structure RuleConfig where
  enabled : Bool := true
  /-- The severity of all findings of the rule, when it is not the rule's own. -/
  severity : Option Severity := none
  deriving DecidableEq, Repr

/-- Settings of rules by their ids. A rule without an entry is as it is. -/
structure LintConfig where
  rules : Dict RuleConfig := ∅
  deriving DecidableEq

namespace LintConfig

def rule (c : LintConfig) (id : String) : RuleConfig := (c.rules.get? id).getD {}

def setEnabled (c : LintConfig) (id : String) (enabled : Bool) : LintConfig :=
  ⟨c.rules.insert id { c.rule id with enabled }⟩

def setSeverity (c : LintConfig) (id : String) (severity : Severity) : LintConfig :=
  ⟨c.rules.insert id { c.rule id with severity := some severity }⟩

end LintConfig

/-- The findings with the severity that is set, if one is set. -/
def Finding.overrideSeverity (severity : Option Severity) (found : List Finding) : List Finding :=
  match severity with
  | none => found
  | some severity => found.map fun f => { f with severity }

/-- Rules by their ids, and how they are set. -/
structure Linter where
  rules : Dict Rule := Dict.ofList (Rule.builtin.map fun r => (r.id, r))
  config : LintConfig := {}

structure LintReport where
  file : Option Path
  findings : List Finding

namespace LintReport

def count (r : LintReport) (s : Severity) : Nat := r.findings.countP (·.severity == s)

def errorCount (r : LintReport) : Nat := r.count .error

def warningCount (r : LintReport) : Nat := r.count .warn

def infoCount (r : LintReport) : Nat := r.count .info

def hasErrors (r : LintReport) : Bool := 0 < r.errorCount

end LintReport

namespace Linter

/-- Register a rule in place of the one with its id. -/
def register (l : Linter) (r : Rule) : Linter := { l with rules := l.rules.insert r.id r }

/-- The findings of a rule. A rule that is switched off has none, nor has one whose check fails. -/
def findings (l : Linter) (c : RuleContext) (r : Rule) : List Finding :=
  let config := l.config.rule r.id
  if config.enabled then Finding.overrideSeverity config.severity ((r.check c).getD []) else []

/-- Lint a document, which stands in `file`. -/
def run (l : Linter) (w : World) (r : Resolver) (file : Option Path) (root : Node) : LintReport × Resolver :=
  let (analysis, r) := Analysis.run w r file root
  (⟨file, l.rules.values.flatMap (l.findings ⟨file, analysis⟩)⟩, r)

end Linter

end MarkdownTemplates
