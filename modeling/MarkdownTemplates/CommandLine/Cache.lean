import MarkdownTemplates.CommandLine.Session
import MarkdownTemplates.Template.Expansion

/-!
# The command `cache`

The snapshot of the project is removed, made anew, brought up to date or described.
-/

namespace MarkdownTemplates

namespace Session

/-- A failure to use a file is one of the cache here. -/
def cacheFailure : Failure → Failure
  | .io e => .cache e.message
  | f => f

def title (s : Session) (text : String) : String := "\n" ++ s.style.bold text ++ "\n"

def row (label value : String) : String := Style.pad 28 label ++ " " ++ value ++ "\n"

def describe (s : Session) (i : SnapshotInfo) : String :=
  String.join
    ([s.title "Cache", row "Location:" s.project.cachePath.text, row "Version:" i.version,
      row "Last updated (unix ms):" (toString i.lastUpdated), s.title "Contents", row "Files:" (toString i.fileCount),
      row "Templates:" (toString i.templateCount), row "Dependencies:" (toString i.edgeCount),
      row "Files with errors:" (toString i.filesWithErrors), row "Cycles:" (toString i.cycles.length)]
    ++ i.cycles.map fun cycle => "  " ++ s.style.yellow (formatCycle cycle) ++ "\n")

def refreshLine (s : Session) (r : RefreshReport) : String :=
  s.style.checkMark ++
    if r.hasChanges then
      " Refreshed cache: " ++ toString r.added.length ++ " added, " ++ toString r.updated.length ++ " updated, "
        ++ toString r.removed.length ++ " removed, " ++ toString r.affected.size ++ " template(s) affected"
    else " Cache is up to date."

def warning (s : Session) (e : FileFailure) : String :=
  s.style.yellow "warning:" ++ " " ++ e.path ++ ": " ++ e.message ++ "\n"

def rebuildLine (s : Session) (snapshot : Snapshot) : String :=
  s.style.checkMark ++ " Rebuilt cache: " ++ toString snapshot.files.size ++ " file(s), "
    ++ toString snapshot.templates.size ++ " template(s)"

/-- How an operation on the snapshot ends. -/
def cacheOutcome {α : Type} (outcome : α → Outcome) (r : Except Failure α × ProjectState) : Outcome × FileTree :=
  (match r.1 with
    | .ok a => outcome a
    | .error e => .fail (cacheFailure e), r.2.files)

/-- Of several wishes the first of clearing, rebuilding and refreshing counts. -/
def cache (s : Session) (a : CacheArguments) : Outcome × FileTree :=
  let state : ProjectState := { files := s.world.files }
  if a.clear then
    let line := s.style.checkMark ++ " Cleared cache at " ++ s.project.cachePath.text
    cacheOutcome (fun _ => .print (s.unlessQuiet line)) (s.project.clear state)
  else if a.rebuild then
    cacheOutcome (fun snapshot => .print (s.unlessQuiet (s.rebuildLine snapshot))) (s.project.rebuild s.now state)
  else if a.refresh then
    let outcome (r : RefreshReport) : Outcome :=
      { output := s.unlessQuiet (s.refreshLine r), notes := String.join (r.errors.map s.warning) }
    cacheOutcome outcome (s.project.refresh s.now none state)
  else cacheOutcome (fun i => .print (s.describe i)) (s.project.info s.now state)

end Session

end MarkdownTemplates
