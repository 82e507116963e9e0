import MarkdownTemplates.Dict

/-!
# Problems with templates

A problem has a kind, a message and details such as the id of the template.
-/

namespace MarkdownTemplates

inductive ProblemKind where
  | duplicateDefinition
  | undefinedReference
  | circularReference
  | invalidDefinition
  | fileNotFound
  | accessDenied
  | parseError
  | maxDepthExceeded
  /-- The stored snapshot cannot be used. This leads to a new one and is never reported. -/
  | cacheInvalid
  deriving DecidableEq, Repr

namespace ProblemKind

def all : List ProblemKind :=
  [duplicateDefinition, undefinedReference, circularReference, invalidDefinition, fileNotFound, accessDenied, parseError,
    maxDepthExceeded, cacheInvalid]

def name : ProblemKind → String
  | duplicateDefinition => "duplicate-definition"
  | undefinedReference => "undefined-reference"
  | circularReference => "circular-reference"
  | invalidDefinition => "invalid-definition"
  | fileNotFound => "file-not-found"
  | accessDenied => "access-denied"
  | parseError => "parse-error"
  | maxDepthExceeded => "max-depth-exceeded"
  | cacheInvalid => "cache-invalid"

def ofName? (s : String) : Option ProblemKind := all.find? (·.name == s)

def help? : ProblemKind → Option String
  | duplicateDefinition => some "each template id must be unique across the files it is resolved with"
  | undefinedReference =>
    some ("define the template with `:::template\x7bid=\"...\"\x7d` or point `src` at the file that defines it")
  | circularReference => some "break the cycle by removing one of the references"
  | invalidDefinition => some "add an `id` attribute to the template directive"
  | fileNotFound => some "check the `src` path"
  | accessDenied => some "check the file permissions"
  | maxDepthExceeded => some "raise `[expansion] max_depth` in mdck.toml"
  | parseError => none
  | cacheInvalid => none

end ProblemKind

structure Problem where
  kind : ProblemKind
  message : String
  details : Dict String := ∅
  deriving DecidableEq

namespace Problem

def withDetail (p : Problem) (key value : String) : Problem := { p with details := p.details.insert key value }

/-- Add a detail when there is one. -/
def withDetail? (p : Problem) (key : String) (value : Option String) : Problem :=
  match value with
  | none => p
  | some v => p.withDetail key v

end Problem

end MarkdownTemplates
