import MarkdownTemplates.Failure
import MarkdownTemplates.Ignore
import MarkdownTemplates.Resolver

/-!
# Discovery

The Markdown files of a project are all those below its root, except in directories that never hold any and where the rules of
the project leave paths out. Links to directories are followed; a directory that is reached twice is an error.
-/

namespace MarkdownTemplates

/-- What is left out of a search. -/
structure SearchRules where
  cacheDir : Path
  /-- The rules in the file of rules at the root. -/
  shared : IgnoreList
  /-- The rules in the configuration. -/
  excluded : IgnoreList

namespace SearchRules

def isSkippedName (name : String) : Bool :=
  Text.startsWith name.toList ['.'] || name == "node_modules" || name == "target"

/-- Is a directory left out whatever the rules say? -/
def skipsDirectory (r : SearchRules) (p : Path) : Bool :=
  (match p.fileName? with
    | some name => isSkippedName name
    | none => false) || p.same r.cacheDir

def skips (r : SearchRules) (p : Path) (isDirectory : Bool) : Bool :=
  (isDirectory && r.skipsDirectory p) || r.shared.ignores p isDirectory || r.excluded.ignores p isDirectory

end SearchRules

namespace Discovery

/-- The paths of all directories of a tree. -/
def directories (files : FileTree) : List Path :=
  ⟨"/"⟩ :: files.entries.entries.filterMap fun e =>
    match e.2 with
    | .directory => some ⟨e.1⟩
    | _ => none

/-- The paths in a directory that are not left out, and whether they are directories. -/
def entriesOf (w : World) (rules : SearchRules) (dir : Path) (names : List String) : List (Path × Bool) :=
  (names.map fun name =>
    let p := dir.join ⟨name⟩
    (p, w.files.isDirectory (w.cwd.join p))).filter fun e => !rules.skips e.1 e.2

/-- Search the pending directories, the last one that was found first. Every directory that is searched is one of `left`, which
holds those that were not reached yet. -/
def search (w : World) (rules : SearchRules) (left : List Path) (found : List Path) :
    List Path → Except Failure (List Path)
  | [] => .ok found
  | dir :: pending =>
    match w.files.names (w.cwd.join dir), w.files.canonical (w.cwd.join dir) with
    | .error e, _ => .error (.io e)
    | .ok _, .error e => .error (.io e)
    | .ok names, .ok place =>
      if _h : place ∈ left then
        let entries := entriesOf w rules dir names
        let below := (entries.filter (·.2)).map (·.1)
        let markdown := (entries.filter fun e => !e.2 && e.1.isMarkdown).map (·.1)
        search w rules (left.erase place) (found ++ markdown) (below.reverse ++ pending)
      else .error (.symlinkCycle dir.text)
  termination_by left.length
  decreasing_by
    have := List.length_pos_of_mem _h
    have := List.length_erase_of_mem _h
    omega

def excludeRules (root : Path) (patterns : List String) : Except Failure IgnoreList :=
  (IgnoreList.ofLines root patterns).mapError fun e =>
    .configParse ("invalid exclude pattern `" ++ e.1 ++ "`: " ++ e.2.message)

/-- The Markdown files below `root`, in the order of their paths. -/
def run (w : World) (root cacheDir : Path) (exclude : List String) : Except Failure (List Path) := do
  let rules : SearchRules :=
    { cacheDir, shared := IgnoreList.load w.files root (w.cwd.join root), excluded := ← excludeRules root exclude }
  let found ← search w rules (directories w.files) [] [root]
  return found.mergeSort fun a b => !b.before a

end Discovery

end MarkdownTemplates
