import MarkdownTemplates.CommandLine.Cache
import MarkdownTemplates.CommandLine.Generate
import MarkdownTemplates.CommandLine.Lint
import MarkdownTemplates.CommandLine.Validate

/-!
# The command line

A program call as a function from files to files, with what it prints and the status with which it ends.
-/

namespace MarkdownTemplates

/-- What a program call leaves behind. -/
structure Output where
  stdout : String := ""
  stderr : String := ""
  status : Nat := 0
  files : FileTree

namespace Output

def versionLine : String := "mdck_cli 0.1.0\n"

def helpText : String :=
  "Lint and expand reusable template directives in markdown checklists.\n\n" ++
  "Usage: mdck [OPTIONS] [COMMAND]\n\n" ++
  "Commands:\n" ++
  "  lint      Lint markdown files for template problems\n" ++
  "  generate  Expand a template into plain markdown\n" ++
  "  cache     Inspect or maintain the project metadata cache\n" ++
  "  validate  Report directive syntax problems such as unclosed containers\n\n" ++
  "Options:\n" ++
  "  -p, --path <PATH>      Path to the project root directory\n" ++
  "      --config <CONFIG>  Path to a config file\n" ++
  "  -v, --verbose          Enable verbose output\n" ++
  "  -q, --quiet            Only print errors\n" ++
  "      --no-color         Disable colored output\n" ++
  "  -h, --help             Print help\n" ++
  "  -V, --version          Print version\n"

def noCommandLine : String := "No subcommand specified. Run `mdck --help` for usage.\n"

/-- The status after a command line that could not be read. -/
def usageStatus : Nat := 2

/-- A failure with its code in the first line. -/
def failureText (style : Style) (f : Failure) : String :=
  style.wrap 31 0 f.code ++ "\n\n  x " ++ f.message ++ "\n" ++
    match f.help? with
    | some help => "  help: " ++ help ++ "\n"
    | none => ""

def errorText (style : Style) : CommandError → String
  | .failure f => failureText style f
  | .other _ message => style.red "error:" ++ " " ++ message ++ "\n"

def ofOutcome (style : Style) (o : Outcome) (files : FileTree) : Output :=
  match o.ending with
  | .ok status => { stdout := o.output, stderr := o.notes, status := status.code, files }
  | .error e =>
    { stdout := o.output, stderr := o.notes ++ errorText style e, status := e.exitStatus.code, files }

def ofStop (files : FileTree) : UsageStop → Output
  | .help => { stdout := helpText, files }
  | .version => { stdout := versionLine, files }
  | .problem p =>
    { stderr := "error: " ++ p.message ++ "\n\nFor more information, try '--help'.\n", status := usageStatus, files }

end Output

namespace Session

/-- Run a command. -/
def run (s : Session) : Command → Outcome × FileTree
  | .lint a => s.lint a
  | .generate a => s.generate a
  | .cache a => s.cache a
  | .validate files => (s.validate files, s.world.files)

end Session

/-- Call the program with the given words. -/
def runCommandLine (words : List String) (colored : Bool) (now : Nat) (w : World) : Output :=
  match Arguments.parse words with
  | .error stop => .ofStop w.files stop
  | .ok a =>
    let style : Style := ⟨colored && !a.noColor⟩
    match a.command with
    | none => { stderr := Output.noCommandLine, status := ExitStatus.general.code, files := w.files }
    | some command =>
      match Session.start a w now style with
      | .error e => .ofOutcome style (.fail e) w.files
      | .ok s =>
        let (outcome, files) := s.run command
        .ofOutcome style outcome files

end MarkdownTemplates
