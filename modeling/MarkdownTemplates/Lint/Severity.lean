/-!
# Severities
-/

namespace MarkdownTemplates

inductive Severity where
  | error
  | warn
  | info
  deriving DecidableEq, Repr

namespace Severity

def name : Severity → String
  | error => "error"
  | warn => "warn"
  | info => "info"

/-- The severity with exactly this name. -/
def ofName? (s : String) : Option Severity := [error, warn, info].find? (·.name == s)

/-- The severity that a user means. Warnings have a long name too. -/
def parse? (s : String) : Option Severity := if s = "warning" then some warn else ofName? s

end Severity

end MarkdownTemplates
