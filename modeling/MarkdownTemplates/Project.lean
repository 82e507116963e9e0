import MarkdownTemplates.Config
import MarkdownTemplates.Discovery
import MarkdownTemplates.Project.Refresh
import MarkdownTemplates.Snapshot.Codec

/-!
# Projects

A project is a directory with Markdown files. Its snapshot is kept in memory and in a file of the cache directory. A snapshot
that was read from the file is used only while it describes the project; otherwise the project is scanned again.
-/

namespace MarkdownTemplates

structure Project where
  /-- The directory of the project, which is absolute. -/
  root : Path
  options : CacheOptions := {}

/-- The files of a machine, and the snapshot in memory. -/
structure ProjectState where
  files : FileTree
  snapshot : Option Snapshot := none

namespace Project

def snapshotName : Path := ⟨"metadata.json"⟩

def cacheDir (p : Project) : Path := p.root.join p.options.dir

/-- The file of the snapshot. -/
def cachePath (p : Project) : Path := p.cacheDir.join snapshotName

/-- The file in which a snapshot is written before it takes its place. -/
def temporaryPath (p : Project) (now : Nat) : Path := p.cacheDir.join ⟨snapshotName.text ++ ".tmp-" ++ toString now⟩

/-! ## Reading -/

/-- The Markdown files of the project. -/
def discover (p : Project) (files : FileTree) : Except Failure (List Path) :=
  Discovery.run { files, cwd := p.root } p.root p.cacheDir p.options.exclude

/-- The snapshot of the project as it is. Files that cannot be read are left out. -/
def scan (p : Project) (now : Nat) (files : FileTree) : Except Failure Snapshot := do
  let add (all : Dict FileMetadata) (file : Path) : Dict FileMetadata :=
    match FileMetadata.read files (Path.key p.root file) file with
    | .ok m => all.insert m.path m
    | .error _ => all
  return .ofFiles p.root now ((← p.discover files).foldl add ∅)

/-- The snapshot in the file, whether it is usable or not. -/
def persisted (p : Project) (files : FileTree) : Except Failure (Option Snapshot) :=
  match files.readText p.cachePath with
  | .error .noEntry => .ok none
  | .error e => .error (.io e)
  | .ok text =>
    match Snapshot.decode? text with
    | some s => .ok (some s)
    | none => .error (.cache "invalid snapshot")

/-- Is a snapshot one of this project, and young enough? -/
def isCurrent (p : Project) (now : Nat) (s : Snapshot) : Bool :=
  s.version == snapshotVersion && s.root.same p.root && now - s.lastUpdated ≤ p.options.maxAge

/-- Does a file of a snapshot still look as it did? -/
def isUnchanged (p : Project) (files : FileTree) (key : String) (m : FileMetadata) : Bool :=
  match files.info (p.root.join ⟨key⟩) with
  | .ok i => m.matchesFingerprint i.size i.modified
  | .error _ => false

/-- Does a snapshot have the files of the project, all of them unchanged? -/
def isFaithful (p : Project) (files : FileTree) (s : Snapshot) : Bool :=
  s.files.entries.all (fun e => p.isUnchanged files e.1 e.2) &&
    match p.discover files with
    | .ok found => found.all (fun file => s.files.contains (Path.key p.root file)) && found.length == s.files.size
    | .error _ => false

/-- The snapshot in the file, when it is usable. With `checkFiles` it is usable only while no file has changed. -/
def load? (p : Project) (now : Nat) (checkFiles : Bool) (files : FileTree) : Option Snapshot :=
  match p.persisted files with
  | .ok (some s) => if p.isCurrent now s && (!checkFiles || p.isFaithful files s) then some s else none
  | _ => none

/-! ## Writing -/

/-- Put a snapshot into its file, by way of a temporary file that is removed when this fails. -/
def save (p : Project) (now : Nat) (s : Snapshot) (files : FileTree) : Except Failure Unit × FileTree :=
  match files.makeDirectories p.cacheDir with
  | (.error e, files) => (.error (.io e), files)
  | (.ok (), files) =>
    match files.write (p.temporaryPath now) s.encode.toUTF8 now with
    | .error e => (.error (.io e), files)
    | .ok written =>
      match written.rename (p.temporaryPath now) p.cachePath with
      | .error e =>
        (.error (.cache ("failed to write " ++ p.cachePath.text ++ ": " ++ e.message)),
          (written.remove (p.temporaryPath now)).toOption.getD written)
      | .ok renamed => (.ok (), renamed)

/-- Scan the project and replace the snapshot. -/
def rebuild (p : Project) (now : Nat) (state : ProjectState) : Except Failure Snapshot × ProjectState :=
  match p.scan now state.files with
  | .error e => (.error e, state)
  | .ok s =>
    match p.save now s state.files with
    | (.error e, files) => (.error e, { state with files })
    | (.ok (), files) => (.ok s, { files, snapshot := some s })

/-- The snapshot in memory, or else the usable one in the file, or else a new one. -/
def obtain (p : Project) (now : Nat) (checkFiles : Bool) (state : ProjectState) : Except Failure Snapshot × ProjectState :=
  match state.snapshot with
  | some s => (.ok s, state)
  | none =>
    match p.load? now checkFiles state.files with
    | some s => (.ok s, { state with snapshot := some s })
    | none => p.rebuild now state

/-- The snapshot of the project. -/
def get (p : Project) (now : Nat) (state : ProjectState) : Except Failure Snapshot × ProjectState :=
  p.obtain now true state

/-- The files that a refresh looks at: the targets, or without any those of the project. -/
def candidates (p : Project) (targets : Option (List Path)) (files : FileTree) : Except Failure (List Path) :=
  match targets with
  | some targets => .ok (targets.map fun t => (p.root.join t).normalize)
  | none => p.discover files

/-- Bring the snapshot up to date with the targets, or without any with all files of the project. -/
def refresh (p : Project) (now : Nat) (targets : Option (List Path)) (state : ProjectState) :
    Except Failure RefreshReport × ProjectState :=
  match p.obtain now false state with
  | (.error e, state) => (.error e, state)
  | (.ok s, state) =>
    match p.candidates targets state.files with
    | .error e => (.error e, { state with snapshot := none })
    | .ok candidates =>
      let keyed := candidates.map fun file => (Path.key p.root file, file)
      let r := Refresh.run state.files targets.isNone keyed s.files
      let s := s.withFiles now r.files
      let (saved, files) := p.save now s state.files
      (saved.map fun _ => r.report s.dependencies, { files, snapshot := some s })

/-- Forget the snapshot and remove its file. -/
def clear (p : Project) (state : ProjectState) : Except Failure Unit × ProjectState :=
  match state.files.remove p.cachePath with
  | .ok files => (.ok (), { files })
  | .error .noEntry => (.ok (), { files := state.files })
  | .error e => (.error (.io e), { files := state.files })

def info (p : Project) (now : Nat) (state : ProjectState) : Except Failure SnapshotInfo × ProjectState :=
  let (s, state) := p.get now state
  (s.map Snapshot.info, state)

end Project

end MarkdownTemplates
