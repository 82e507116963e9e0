import MarkdownTemplates.CommandLine.Session

/-!
# The command `validate`

The diagnostics of documents are printed, each on a line of its own.
-/

namespace MarkdownTemplates

namespace Session

def diagnosticLine (s : Session) (p : Path) (d : Diagnostic) : String :=
  s.shown p ++ ":" ++ toString d.line ++ " " ++ s.style.red "error:" ++ " " ++ d.message ++ "\n"

/-- The lines for files, up to the first one that cannot be read, and that failure. -/
def diagnosticLines (s : Session) : List Path → List String × Option Failure
  | [] => ([], none)
  | p :: rest =>
    match s.world.document p with
    | .error e => ([], some e)
    | .ok document =>
      let (lines, failure) := s.diagnosticLines rest
      (document.diagnostics.map (s.diagnosticLine p) ++ lines, failure)

def validateFiles (s : Session) (operands : List String) : Except CommandError (List Path) :=
  if operands.isEmpty then s.discover.mapError .failure else s.filesOf operands

def validate (s : Session) (operands : List String) : Outcome :=
  match s.validateFiles operands with
  | .error e => .fail e
  | .ok paths =>
    match s.diagnosticLines paths with
    | (lines, some e) => { output := String.join lines, ending := .error e }
    | ([], none) =>
      .print (s.unlessQuiet
        (s.style.checkMark ++ " " ++ toString paths.length ++ " file(s) validated, no problems found."))
    | (lines, none) =>
      let summary := "\n" ++ s.style.cross ++ " " ++ toString lines.length ++ " problem(s) in "
        ++ toString paths.length ++ " file(s)\n"
      { output := String.join lines ++ summary, ending := .ok .lintErrors }

end Session

end MarkdownTemplates
