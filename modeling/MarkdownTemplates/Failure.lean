import MarkdownTemplates.FileTree
import MarkdownTemplates.Lint.Severity
import MarkdownTemplates.Template.Problem

/-!
# Failures

What ends a command early, with the message, the code and the hint that the user is shown, and the status with which the program
ends.
-/

namespace MarkdownTemplates

inductive ExitStatus where
  | success
  | general
  | lintErrors
  | config
  | fileNotFound
  | permissionDenied
  | invalidArgument
  | cache
  | templateNotFound
  deriving DecidableEq, Repr

def ExitStatus.code : ExitStatus → Nat
  | success => 0
  | general => 1
  | lintErrors => 2
  | config => 3
  | fileNotFound => 4
  | permissionDenied => 5
  | invalidArgument => 6
  | cache => 7
  | templateNotFound => 8

inductive Failure where
  | io (error : FileError)
  | markdown (message : String)
  | template (problem : Problem)
  | fileNotFound (path : String)
  | accessDenied (path : String)
  | configParse (message : String)
  | unknownRule (id : String)
  | invalidSeverity (value : String)
  | cache (message : String)
  | symlinkCycle (path : String)
  deriving DecidableEq

namespace Failure

/-- A failure to use the file at `path`. -/
def ofFileError (path : String) : FileError → Failure
  | .noEntry => fileNotFound path
  | .denied => accessDenied path
  | e => io e

def quoted (s : String) : String := "`" ++ s ++ "`"

def message : Failure → String
  | io error => error.message
  | markdown message => "failure to load markdown: " ++ message
  | template problem => problem.message
  | fileNotFound path => "file not found: " ++ quoted path
  | accessDenied path => "permission denied: " ++ quoted path
  | configParse message => "failed to parse config file: " ++ message
  | unknownRule id => "unknown lint rule: " ++ quoted id
  | invalidSeverity value => "invalid severity " ++ quoted value
  | cache message => "cache operation failed: " ++ message
  | symlinkCycle path => "symlink cycle detected at: " ++ quoted path

/-- The code of a failure, which does not depend on what it is about. -/
def code : Failure → String
  | io _ => "mdck::io_error"
  | markdown _ => "mdck::markdown"
  | template problem => "mdck::" ++ String.ofList (problem.kind.name.toList.map fun c => if c = '-' then '_' else c)
  | fileNotFound _ => "mdck::file_not_found"
  | accessDenied _ => "mdck::access_denied"
  | configParse _ => "mdck::config_parse"
  | unknownRule _ => "mdck::unknown_rule"
  | invalidSeverity _ => "mdck::invalid_severity"
  | cache _ => "mdck::cache"
  | symlinkCycle _ => "mdck::symlink_cycle"

def help? : Failure → Option String
  | io _ => none
  | markdown _ => none
  | template problem => problem.kind.help?
  | fileNotFound _ => some "check that the path exists and is spelled correctly"
  | accessDenied _ => some "check the file permissions for the current user"
  | configParse _ =>
    some "check that mdck.toml is valid TOML with [lint], [cache], [resolver] and [expansion] sections"
  | unknownRule _ => some "available rules: M002, M003, M004"
  | invalidSeverity _ => some "use one of: error, warn, info, off"
  | cache _ => some "run `mdck cache --clear` to discard the cached snapshot"
  | symlinkCycle _ => some "remove the circular symlink or exclude this path"

def exitStatus : Failure → ExitStatus
  | fileNotFound _ => .fileNotFound
  | accessDenied _ => .permissionDenied
  | configParse _ => .config
  | invalidSeverity _ => .config
  | unknownRule _ => .invalidArgument
  | cache _ => .cache
  | template problem =>
    match problem.kind with
    | .undefinedReference => .templateNotFound
    | .fileNotFound => .fileNotFound
    | .accessDenied => .permissionDenied
    | _ => .general
  | io _ => .general
  | markdown _ => .general
  | symlinkCycle _ => .general

end Failure

/-- The severity that a user means, or a failure. -/
def Severity.read (s : String) : Except Failure Severity :=
  match parse? s with
  | some severity => .ok severity
  | none => .error (.invalidSeverity s)

end MarkdownTemplates
