import MarkdownTemplates.CommandLine.Session
import MarkdownTemplates.Document.Render
import MarkdownTemplates.Template.Expansion

/-!
# The command `generate`

One template is expanded. Its definition and those that it needs come from the files in which the snapshot has them, or from a
file that is named and what that file refers to.
-/

namespace MarkdownTemplates

namespace Session

/-- Definitions to which those of further files are added. An id that is there keeps its definition. -/
def addMissing (definitions more : Definitions) : Definitions :=
  more.entries.foldl (fun all e => if all.contains e.1 then all else all.insert e.1 e.2) definitions

/-- The definitions in the closures of files, of which the first that defines an id counts. -/
def collectFiles (w : World) (r : Resolver) (definitions : Definitions) : List Path → Except Failure Definitions
  | [] => .ok definitions
  | p :: rest => do
    let document ← w.document p
    let (found, r) := TemplateDefinition.collectAll w r (some p) document.root
    collectFiles w r (addMissing definitions (← found.mapError .template)) rest

/-- The keys of the files that define a template and what it depends on. -/
def keysFor (snapshot : Snapshot) (id : String) : List String :=
  let needed := id :: (snapshot.dependencies.transitiveDependencies [id]).toList
  (NameSet.ofList (needed.filterMap fun id => (snapshot.templates.get? id).map (·.file))).toList

/-- The definitions that a template needs, from the files in which the snapshot has them. -/
def cachedDefinitions (s : Session) (id : String) : Except CommandError Definitions × FileTree :=
  let (snapshot, state) := s.project.get s.now { files := s.world.files }
  let definitions : Except CommandError Definitions := do
    let snapshot ← snapshot.mapError .failure
    if !snapshot.templates.contains id then
      .error (.other .templateNotFound ("template \"" ++ id ++ "\" is not defined in any project file"))
    else
      let paths := (keysFor snapshot id).map fun key => s.root.join ⟨key⟩
      (collectFiles { s.world with files := state.files } s.resolver ∅ paths).mapError .failure
  (definitions, state.files)

/-- The definitions in a file and its closure. -/
def fileDefinitions (s : Session) (p : Path) : Except CommandError Definitions := do
  let document ← (s.world.document p).mapError .failure
  let (definitions, _) := TemplateDefinition.collectAll s.world s.resolver (some p) document.root
  definitions.mapError fun p => .failure (.template p)

/-- The Markdown of the expanded template. -/
def expansion (s : Session) (a : GenerateArguments) : Except CommandError String × FileTree :=
  let (definitions, files) := match a.file with
    | some p => (s.fileDefinitions (s.root.join p), s.world.files)
    | none => s.cachedDefinitions a.template
  let markdown : Except CommandError String := do
    let e ← ((← definitions).expand s.config.maxDepth a.template).mapError fun p => .failure (.template p)
    return String.ofList (Node.toMarkdown e.nodes)
  (markdown, files)

/-- Is there a file that the output must not replace? -/
def isBlocked (s : Session) (a : GenerateArguments) : Bool :=
  !a.force && a.output.any fun p => s.world.files.contains (s.world.cwd.join p)

def blockedMessage (p : Path) : String := "output file `" ++ p.text ++ "` already exists, use --force to overwrite it"

def generate (s : Session) (a : GenerateArguments) : Outcome × FileTree :=
  if s.isBlocked a then (.fail (.other .invalidArgument (blockedMessage (a.output.getD ⟨""⟩))), s.world.files)
  else
    let (markdown, files) := s.expansion a
    match markdown, a.output with
    | .error e, _ => (.fail e, files)
    | .ok markdown, none => (.print markdown, files)
    | .ok markdown, some p =>
      match files.write (s.world.cwd.join p) markdown.toUTF8 s.now with
      | .error e => (.fail (.failure (.ofFileError p.text e)), files)
      | .ok files =>
        let line := s.style.checkMark ++ " Wrote template \"" ++ a.template ++ "\" to " ++ p.text
        (.print (s.unlessQuiet line), files)

end Session

end MarkdownTemplates
