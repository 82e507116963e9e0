import MarkdownTemplates.CommandLine.Session
import MarkdownTemplates.Lint.Report

/-!
# The command `lint`

Files are linted one after the other with one resolver, and the findings are printed as text or as JSON.
-/

namespace MarkdownTemplates

/-- The settings when only the rules `only` are wanted, and those in `disabled` are not. -/
def LintConfig.select (c : LintConfig) (only disabled : List String) : Except Failure LintConfig :=
  match (only ++ disabled).find? fun id => !Rule.builtinIds.contains id with
  | some id => .error (.unknownRule id)
  | none =>
    let unwanted := if only.isEmpty then [] else Rule.builtinIds.filter fun id => !only.contains id
    .ok ((unwanted ++ disabled).foldl (fun c id => c.setEnabled id false) c)

namespace Linter

/-- Lint the documents in files. The first one that cannot be read is a failure. -/
def runFiles (l : Linter) (w : World) (r : Resolver) : List Path → Except Failure (List LintReport)
  | [] => .ok []
  | p :: rest => do
    let document ← w.document p
    let (report, r) := l.run w r (some p) document.root
    return report :: (← runFiles l w r rest)

end Linter

/-! ## Output -/

namespace Detail

def toJson : Detail → JsonValue
  | text s => .string s
  | number n => .natural n
  | texts l => .strings l

end Detail

namespace Finding

def toJson (f : Finding) : JsonValue :=
  .object ((match f.column with
      | some column => [("column", .natural column)]
      | none => [])
    ++ (if f.details.isEmpty then [] else [("details", JsonValue.ofDict Detail.toJson f.details)])
    ++ [("fixable", .bool f.fixable), ("line", .natural f.line), ("message", .string f.message),
      ("ruleId", .string f.ruleId), ("severity", .string f.severity.name)])

/-- The lines of a finding in a listing. -/
def toText (style : Style) (f : Finding) : String :=
  let place := toString f.line ++ ":" ++ toString (f.column.getD 1)
  let severity := match f.severity with
    | .error => style.red "error"
    | .warn => style.yellow "warn"
    | .info => style.bold "info"
  "  " ++ Style.pad 8 place ++ " " ++ Style.pad 5 severity ++ "  " ++ f.message ++ "  " ++ f.ruleId ++ "\n"

end Finding

namespace LintReport

def toJson (root : Path) (r : LintReport) : JsonValue :=
  .object ([("errorCount", .natural r.errorCount)]
    ++ (match r.file with
      | some p => [("filePath", .string (Path.key root p))]
      | none => [])
    ++ [("infoCount", .natural r.infoCount), ("results", .array (r.findings.map Finding.toJson)),
      ("warningCount", .natural r.warningCount)])

def toText (style : Style) (root : Path) (r : LintReport) : String :=
  if r.findings.isEmpty then ""
  else
    let title := ((r.file.map (Path.key root)).getD "")
    style.bold title ++ "\n" ++ String.join (r.findings.map (Finding.toText style)) ++ "\n"

def totals (reports : List LintReport) : Nat × Nat × Nat :=
  let total (count : LintReport → Nat) : Nat := reports.foldl (fun n r => n + count r) 0
  (total errorCount, total warningCount, total infoCount)

def listJson (root : Path) (reports : List LintReport) : JsonValue :=
  let (errors, warnings, infos) := totals reports
  .object [("errorCount", .natural errors), ("fileCount", .natural reports.length),
    ("files", .array (reports.map (toJson root))), ("infoCount", .natural infos), ("warningCount", .natural warnings)]

/-- What is said about all files, at the end. -/
def summaryLine (style : Style) (reports : List LintReport) : String :=
  let (errors, warnings, infos) := totals reports
  (if 0 < errors then style.cross else style.yellow "!") ++ " " ++ toString (errors + warnings + infos) ++ " problem(s) ("
    ++ toString errors ++ " error(s), " ++ toString warnings ++ " warning(s), " ++ toString infos ++ " info)"

end LintReport

namespace Session

def lintText (s : Session) (reports : List LintReport) : String :=
  String.join (reports.map (LintReport.toText s.style s.root)) ++
    if reports.all (·.findings.isEmpty) then
      s.unlessQuiet (s.style.checkMark ++ " No problems found in " ++ toString reports.length ++ " file(s).")
    else LintReport.summaryLine s.style reports ++ "\n"

/-- The files to lint: those that are named, or else all of the project. -/
def lintFiles (s : Session) (a : LintArguments) : Except CommandError (List Path) × FileTree :=
  if a.files.isEmpty then
    let (found, files) := s.projectFiles (s.config.cache.enabled && !a.noCache)
    (found.mapError .failure, files)
  else (s.filesOf a.files, s.world.files)

def lintReports (s : Session) (files : FileTree) (config : LintConfig) (paths : List Path) :
    Except CommandError (List LintReport) :=
  let linter : Linter := { config }
  (linter.runFiles { s.world with files } s.resolver paths).mapError .failure

def lint (s : Session) (a : LintArguments) : Outcome × FileTree :=
  match s.config.lintConfig.bind fun c => c.select a.rules a.disabledRules with
  | .error e => (.fail e, s.world.files)
  | .ok config =>
    let (paths, files) := s.lintFiles a
    match paths.bind (s.lintReports files config) with
    | .error e => (.fail e, files)
    | .ok reports =>
      let output := match a.format with
        | .json => (LintReport.listJson s.root reports).pretty ++ "\n"
        | .text => s.lintText reports
      let status := if reports.any LintReport.hasErrors then .lintErrors else .success
      ({ output, ending := .ok status }, files)

end Session

end MarkdownTemplates
