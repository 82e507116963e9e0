import MarkdownTemplates.Dict
import MarkdownTemplates.Path

/-!
# File trees

A file tree holds files, directories and symbolic links under the places where they are. A path leads to a place from the root
of the tree; links on the way are followed, up to a limit.
-/

namespace MarkdownTemplates

/-- Why a path cannot be used. -/
inductive FileError where
  | noEntry
  | denied
  | exists
  | notDirectory
  | isDirectory
  | nameTooLong
  | tooManyLinks
  /-- The path has a character that no name may have. -/
  | invalidName
  /-- The bytes of a file are no text. -/
  | notText
  /-- Another failure, in the words of the system. -/
  | other (message : String)
  deriving DecidableEq, Repr

namespace FileError

def message : FileError → String
  | noEntry => "No such file or directory (os error 2)"
  | denied => "Permission denied (os error 13)"
  | .exists => "File exists (os error 17)"
  | notDirectory => "Not a directory (os error 20)"
  | isDirectory => "Is a directory (os error 21)"
  | nameTooLong => "File name too long (os error 36)"
  | tooManyLinks => "Too many levels of symbolic links (os error 40)"
  | invalidName => "file name contained an unexpected NUL byte"
  | notText => "stream did not contain valid UTF-8"
  | other message => message

end FileError

inductive Entry where
  /-- A file and the time of its last change, in milliseconds. -/
  | file (bytes : ByteArray) (modified : Nat)
  | directory
  | link (target : Path)

/-- Names from a place up to the root. -/
abbrev Place := List String

namespace Place

def text (place : Place) : String := String.join (place.reverse.map ("/" ++ ·))

def path (place : Place) : Path := if place.isEmpty then ⟨"/"⟩ else ⟨place.text⟩

end Place

/-- The entries below the root, by the texts of their places. -/
structure FileTree where
  entries : Dict Entry := ∅

structure FileInfo where
  isDirectory : Bool
  size : Nat
  modified : Nat
  deriving DecidableEq, Repr

namespace FileTree

def lookup? (t : FileTree) (place : Place) : Option Entry :=
  if place.isEmpty then some .directory else t.entries.get? place.text

def isDirectoryAt (t : FileTree) (place : Place) : Bool :=
  match t.lookup? place with
  | some .directory => true
  | _ => false

/-! ## Following paths -/

/-- The steps along a path. A slash at the end asks for a directory, as a dot does. -/
def steps (p : Path) : List PathPart :=
  let step? (segment : List Char) := if segment = ['.'] then some .current else PathPart.ofSegment? segment
  p.segments.filterMap step? ++ (if p.segments.getLast? = some [] then [.current] else [])

def maxNameSize : Nat := 255

def maxPathSize : Nat := 4095

def maxLinks : Nat := 40

/-- The place to which steps lead from `here`. Only the last step may lead to a place where nothing is. A link at the last
place is followed when `follow` says so. Where the steps go on behind a link is for `jump` to say. -/
def walkWith (t : FileTree) (follow : Bool) (jump : Place → List PathPart → Except FileError Place) (here : Place) :
    List PathPart → Except FileError Place
  | [] => .ok here
  | part :: rest =>
    match t.lookup? here with
    | none => .error .noEntry
    | some (.file _ _) => .error .notDirectory
    | some (.link _) => .error .notDirectory
    | some .directory =>
      match part with
      | .root => walkWith t follow jump here rest
      | .current => walkWith t follow jump here rest
      | .parent => walkWith t follow jump here.tail rest
      | .name s =>
        if maxNameSize < s.utf8ByteSize then .error .nameTooLong
        else
          match t.lookup? (s :: here) with
          | some (.link target) =>
            if rest.isEmpty ∧ ¬ follow then .ok (s :: here)
            else jump (if target.isAbsolute then [] else here) (steps target ++ rest)
          | _ => walkWith t follow jump (s :: here) rest

/-- The place to which steps lead when so many links may be followed. -/
def walk (t : FileTree) (follow : Bool) : (links : Nat) → Place → List PathPart → Except FileError Place
  | 0 => walkWith t follow fun _ _ => .error .tooManyLinks
  | links + 1 => walkWith t follow (walk t follow links)

/-- The place to which a path leads. -/
def locate (t : FileTree) (follow : Bool) (p : Path) : Except FileError Place :=
  if p.text.isEmpty then .error .noEntry
  else if p.text.toList.contains '\x00' then .error .invalidName
  else if maxPathSize < p.text.utf8ByteSize then .error .nameTooLong
  else t.walk follow maxLinks [] (steps p)

/-- The entry to which a path leads, and its place. -/
def find (t : FileTree) (follow : Bool) (p : Path) : Except FileError (Place × Entry) := do
  let place ← t.locate follow p
  match t.lookup? place with
  | none => .error .noEntry
  | some e => .ok (place, e)

/-- The path of an entry without links, dots and slashes that do not count. -/
def canonical (t : FileTree) (p : Path) : Except FileError Path := (t.find true p).map fun (place, _) => Place.path place

/-! ## Reading -/

def readBytes (t : FileTree) (p : Path) : Except FileError ByteArray := do
  match ← t.find true p with
  | (_, .file bytes _) => .ok bytes
  | _ => .error .isDirectory

def readText (t : FileTree) (p : Path) : Except FileError String := do
  match String.fromUTF8? (← t.readBytes p) with
  | some s => .ok s
  | none => .error .notText

/-- The size that a directory itself has. -/
def directorySize : Nat := 4096

def info (t : FileTree) (p : Path) : Except FileError FileInfo := do
  match ← t.find true p with
  | (_, .file bytes modified) => .ok ⟨false, bytes.size, modified⟩
  | _ => .ok ⟨true, directorySize, 0⟩

def isFile (t : FileTree) (p : Path) : Bool :=
  match t.info p with
  | .ok i => !i.isDirectory
  | .error _ => false

def isDirectory (t : FileTree) (p : Path) : Bool :=
  match t.info p with
  | .ok i => i.isDirectory
  | .error _ => false

/-- Does the path lead to an entry? A path that cannot be followed does not. -/
def contains (t : FileTree) (p : Path) : Bool := (t.info p).toBool

/-- The name of an entry in the directory `place`. -/
def nameIn? (place : Place) (key : String) : Option String := do
  let name ← Text.dropStart? (place.text.toList ++ ['/']) key.toList
  guard !(name.contains '/')
  return String.ofList name

/-- The names in a directory, in increasing order. -/
def names (t : FileTree) (p : Path) : Except FileError (List String) := do
  match ← t.find true p with
  | (place, .directory) => .ok (t.entries.keys.filterMap (nameIn? place))
  | _ => .error .notDirectory

/-! ## Writing -/

def put (t : FileTree) (place : Place) (e : Entry) : FileTree := ⟨t.entries.insert place.text e⟩

def write (t : FileTree) (p : Path) (bytes : ByteArray) (modified : Nat) : Except FileError FileTree := do
  let place ← t.locate true p
  if t.isDirectoryAt place then .error .isDirectory else .ok (t.put place (.file bytes modified))

/-- Add an entry where nothing is. -/
def add (t : FileTree) (p : Path) (e : Entry) : Except FileError FileTree := do
  let place ← t.locate false p
  if (t.lookup? place).isSome then .error .exists else .ok (t.put place e)

def addDirectory (t : FileTree) (p : Path) : Except FileError FileTree :=
  t.add ⟨String.ofList (if p.parts.length ≤ 1 then p.text.toList else Text.dropEndWhile (· == '/') p.text.toList)⟩ .directory

/-- Add the first of these directories, and the others, which stand above it, as far as it needs them. Those that have been added
stay when the first one cannot be. -/
def makeDirectoryBelow (t : FileTree) : List Path → Except FileError Unit × FileTree
  | [] => (.error .noEntry, t)
  | p :: above =>
    match t.addDirectory p with
    | .ok t => (.ok (), t)
    | .error .noEntry =>
      match t.makeDirectoryBelow above with
      | (.error e, t) => (.error e, t)
      | (.ok (), t) =>
        match t.addDirectory p with
        | .ok t => (.ok (), t)
        | .error e => (if t.isDirectory p then .ok () else .error e, t)
    | .error e => (if t.isDirectory p then .ok () else .error e, t)

/-- The path and those of the directories above it, innermost first. -/
def withParents (p : Path) : List Path :=
  p :: ((List.range (p.parts.length - 1)).map fun n => Path.ofParts (p.parts.take (n + 1))).reverse

/-- Add a directory, and those above it that are missing. The tree is what there is afterwards in any case. -/
def makeDirectories (t : FileTree) (p : Path) : Except FileError Unit × FileTree := t.makeDirectoryBelow (withParents p)

/-- The tree with a directory, and with those above it that were missing. -/
def addDirectories (t : FileTree) (p : Path) : Except FileError FileTree :=
  let (made, t) := t.makeDirectories p
  made.map fun _ => t

def link (t : FileTree) (p target : Path) : Except FileError FileTree := t.add p (.link target)

/-- Remove an entry that is not a directory. -/
def remove (t : FileTree) (p : Path) : Except FileError FileTree := do
  match ← t.find false p with
  | (_, .directory) => .error .isDirectory
  | (place, _) => .ok ⟨t.entries.erase place.text⟩

/-- Remove an entry and all below it. -/
def removeAll (t : FileTree) (p : Path) : Except FileError FileTree := do
  let (place, _) ← t.find false p
  let below := place.text.toList ++ ['/']
  .ok ⟨(t.entries.erase place.text).filter fun key _ => !Text.startsWith key.toList below⟩

/-- Put a file where another path leads, in place of the entry that is there. -/
def rename (t : FileTree) (source target : Path) : Except FileError FileTree := do
  let (old, e) ← t.find false source
  let place ← t.locate false target
  if t.isDirectoryAt place then .error .isDirectory
  else .ok (put ⟨t.entries.erase old.text⟩ place e)

def setModified (t : FileTree) (p : Path) (modified : Nat) : Except FileError FileTree := do
  match ← t.find true p with
  | (place, .file bytes _) => .ok (t.put place (.file bytes modified))
  | _ => .ok t

/-- More than the number of normal paths that lead to an entry: a path has at most as many names between two links as the tree
has entries. -/
def pathBound (t : FileTree) : Nat := .pow (t.entries.size + 1) ((maxLinks + 1) * (t.entries.size + 1))

end FileTree

end MarkdownTemplates
