import MarkdownTemplates.CommandLine
import MarkdownTemplates.Template.Reference

/-!
# The program

Reads the files that a call may need, runs the command on them, writes what has changed and prints the output.
-/

namespace MarkdownTemplates

namespace Disk

def milliseconds (t : IO.FS.SystemTime) : Nat := (t.sec * 1000 + (t.nsec.toNat / 1000000 : Nat)).toNat

/-- The time now, which is the time of a file that is made now. -/
def now : IO Nat := do
  let (_, p) ← IO.FS.createTempFile
  let m ← p.metadata
  IO.FS.removeFile p
  return milliseconds m.modified

/-- A path of this library as one of the system. -/
def entry (p : Path) : IO.FS.DirEntry := ⟨p.text, ""⟩

/-- Put an entry into a tree, with the directories above it. -/
def put (files : FileTree) (p : Path) (e : Entry) : FileTree :=
  let add (files : FileTree) (d : Path) : FileTree :=
    if d.text == "/" || files.entries.contains d.text then files else ⟨files.entries.insert d.text .directory⟩
  ⟨(((FileTree.withParents p).drop 1).foldl add files).entries.insert p.text e⟩

/-- Add what is at a path, and what is below it except in directories in which no project looks for files. A link is added with
the place to which it leads, and one that leads nowhere leads to itself. What cannot be read is left out. -/
partial def load (files : FileTree) (p : Path) : IO FileTree := do
  if (files.entries.get? p.text).isSome then return files
  try
    match (← (entry p).root.symlinkMetadata).type with
    | .dir =>
      let mut all := if p.text == "/" then files else put files p .directory
      for e in ← (entry p).root.readDir do
        let below := p.join ⟨e.fileName⟩
        if SearchRules.isSkippedName e.fileName && (← (entry below).root.isDir) then continue
        all ← load all below
      return all
    | .symlink =>
      try
        let target : Path := ⟨(← IO.FS.realPath (entry p).root).toString⟩
        load (put files p (.link target)) target
      catch _ => return put files p (.link p)
    | _ =>
      let m ← (entry p).root.metadata
      return put files p (.file (← IO.FS.readBinFile (entry p).root) (milliseconds m.modified))
  catch _ => return files

/-- Add the files to which the Markdown files of a tree refer, until there are no more. -/
partial def loadSources (files : FileTree) (cwd : Path) : IO FileTree := do
  let mut all := files
  for e in files.entries.entries do
    if let .file bytes _ := e.2 then
      if let some text := String.fromUTF8? bytes then
        if Path.isMarkdown ⟨e.1⟩ then
          for r in Reference.all (Document.parse text.toList).root do
            if let some src := r.src then
              all ← load all (Resolver.resolvePath cwd src (some ⟨e.1⟩))
  if all.entries.size == files.entries.size then return all else loadSources all cwd

/-- The paths that a call names. -/
def namedPaths (a : Arguments) (root cwd : Path) : List Path :=
  let fromCommand := match a.command with
    | some (.lint l) => l.files.map fun f => root.join ⟨f⟩
    | some (.validate files) => files.map fun f => root.join ⟨f⟩
    | some (.generate g) => (g.file.map root.join).toList ++ (g.output.map cwd.join).toList
    | _ => []
  configNames.map root.join ++ (a.config.map cwd.join).toList ++ fromCommand

/-- The files that a call may need. -/
def loadFor (a : Arguments) (cwd : Path) : IO FileTree := do
  let root := (a.path.getD cwd).absolute cwd
  let mut files ← load {} root
  if !files.entries.contains cwd.text then files := put files cwd .directory
  for p in namedPaths a root cwd do
    files ← load files p.normalize
  if let .ok s := Session.start a { files, cwd } 0 ⟨false⟩ then
    files ← load files s.project.cachePath.normalize
  loadSources files cwd

/-- Has an entry other content than before? -/
def differs (old : FileTree) (p : String) (bytes : ByteArray) : Bool :=
  match old.entries.get? p with
  | some (.file before _) => before != bytes
  | _ => true

/-- Write the files that are not as they were, and remove those that are gone. -/
def store (old new : FileTree) : IO Unit := do
  for e in new.entries.entries do
    match e.2 with
    | .directory => IO.FS.createDirAll e.1
    | .file bytes _ => if differs old e.1 bytes then IO.FS.writeBinFile e.1 bytes
    | .link _ => pure ()
  for e in old.entries.entries do
    if (new.entries.get? e.1).isNone then IO.FS.removeFile e.1

/-- Does the user want colours? -/
def wantsColor : IO Bool := do
  if (← IO.getEnv "NO_COLOR").isSome then return false
  match ← IO.getEnv "FORCE_COLOR" with
  | some v => return v != "0" && v != "false"
  | none => (← IO.getStdout).isTty

end Disk

end MarkdownTemplates

open MarkdownTemplates in
def main (words : List String) : IO UInt32 := do
  let cwd : Path := ⟨(← IO.currentDir).toString⟩
  let files ← match Arguments.parse words with
    | .ok a => Disk.loadFor a cwd
    | .error _ => pure {}
  let output := runCommandLine words (← Disk.wantsColor) (← Disk.now) { files, cwd }
  Disk.store files output.files
  IO.print output.stdout
  IO.eprint output.stderr
  return output.status.toUInt32
