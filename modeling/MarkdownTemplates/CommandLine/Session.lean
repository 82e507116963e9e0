import MarkdownTemplates.CommandLine.Arguments
import MarkdownTemplates.CommandLine.Style
import MarkdownTemplates.Document.Load
import MarkdownTemplates.Project

/-!
# Sessions

What all commands have in common: the project with its configuration, the files that a user means, and how a command ends.
-/

namespace MarkdownTemplates

/-- Why a command fails. -/
inductive CommandError where
  | failure (f : Failure)
  | other (status : ExitStatus) (message : String)

namespace CommandError

def exitStatus : CommandError → ExitStatus
  | failure f => f.exitStatus
  | other status _ => status

end CommandError

instance : Coe Failure CommandError := ⟨.failure⟩

/-- What a command prints and how it ends. -/
structure Outcome where
  output : String := ""
  /-- Lines for the error stream. -/
  notes : String := ""
  ending : Except CommandError ExitStatus := .ok .success

namespace Outcome

def fail (e : CommandError) : Outcome := { ending := .error e }

def print (output : String) : Outcome := { output }

end Outcome

/-- What a command works on. -/
structure Session where
  arguments : Arguments
  world : World
  /-- The time, in milliseconds. -/
  now : Nat
  style : Style
  /-- The root of the project. -/
  root : Path
  config : Config

namespace Session

/-- Begin to run a command. -/
def start (arguments : Arguments) (world : World) (now : Nat) (style : Style) : Except Failure Session := do
  let root := (arguments.path.getD world.cwd).absolute world.cwd
  let config ← match arguments.config with
    | some p => Config.loadFrom world.files p (world.cwd.join p)
    | none => (Config.load world.files root).map (·.getD {})
  return { arguments, world, now, style, root, config }

def project (s : Session) : Project := { root := s.root, options := s.config.cacheOptions }

def resolver (s : Session) : Resolver := s.config.resolver s.root

/-- A line, unless the user wants none that tells of a success. -/
def unlessQuiet (s : Session) (line : String) : String := if s.arguments.quiet then "" else line ++ "\n"

/-- The path of a file as it is shown to the user. -/
def shown (s : Session) (p : Path) : String := Path.key s.root p

/-! ## Files -/

def discover (s : Session) : Except Failure (List Path) :=
  Discovery.run s.world s.root (s.root.join s.config.cache.dir) s.config.exclude

/-- The Markdown files of the project, as they are or as the snapshot has them. -/
def projectFiles (s : Session) (useCache : Bool) : Except Failure (List Path) × FileTree :=
  if useCache then
    let (snapshot, state) := s.project.get s.now { files := s.world.files }
    (snapshot.map fun snapshot => snapshot.files.keys.map fun key => s.root.join ⟨key⟩, state.files)
  else (s.discover, s.world.files)

/-- Is an operand a pattern, and not the path of a file? -/
def isPattern (operand : String) : Bool := operand.toList.any fun c => c == '*' || c == '?' || c == '[' || c == '\x7b'

def patternStyle : GlobStyle := { staysInDirectory := false, allowsOpenSet := false }

/-- The pattern or the file that an operand means. -/
def readOperand (s : Session) (operand : String) : Except CommandError (Glob ⊕ Path) :=
  if isPattern operand then
    match Glob.read patternStyle operand.toList with
    | .ok g => .ok (.inl g)
    | .error e => .error (.other .invalidArgument
        ("invalid pattern `" ++ operand ++ "`: error parsing glob '" ++ operand ++ "': " ++ e.message))
  else
    let p := s.root.join ⟨operand⟩
    if s.world.files.isFile (s.world.cwd.join p) then .ok (.inr p) else .error (.failure (.fileNotFound p.text))

/-- Paths in their order, each once. Of several texts for one path the first is kept. -/
def inOrder (paths : List Path) : List Path :=
  (paths.mergeSort fun a b => !b.before a).eraseDupsBy fun a b => a.same b

/-- The files that operands mean. A pattern means all Markdown files of the project that it matches. -/
def filesOf (s : Session) (operands : List String) : Except CommandError (List Path) := do
  let read ← operands.mapM s.readOperand
  let globs := read.filterMap Sum.getLeft?
  let files := read.filterMap Sum.getRight?
  if globs.isEmpty then return inOrder files
  let matching (p : Path) : Bool := globs.any fun g => g.accepts (s.shown p).toUTF8.toList
  return inOrder (files ++ (← s.discover.mapError .failure).filter matching)

end Session

end MarkdownTemplates
