import MarkdownTemplates.Document
import MarkdownTemplates.FileTree
import MarkdownTemplates.Template.Problem

/-!
# Resolvers

A resolver finds the file that a `src` names and reads it as a document. It keeps every document under the path of its file, and
reads none twice. It may be kept inside one directory.
-/

namespace MarkdownTemplates

inductive UnresolvedKind where
  | notFound
  | accessDenied
  | parseError
  deriving DecidableEq, Repr

namespace UnresolvedKind

def name : UnresolvedKind → String
  | notFound => "not-found"
  | accessDenied => "access-denied"
  | parseError => "parse-error"

def problemKind : UnresolvedKind → ProblemKind
  | notFound => .fileNotFound
  | accessDenied => .accessDenied
  | parseError => .parseError

end UnresolvedKind

/-- A `src` without a document. -/
structure Unresolved where
  kind : UnresolvedKind
  message : String
  attempted : Path
  deriving DecidableEq, Repr

namespace Unresolved

def problem (u : Unresolved) : Problem :=
  { kind := u.kind.problemKind, message := u.message, details := (∅ : Dict String).insert "path" u.attempted.text }

def ofFileError (p : Path) : FileError → Unresolved
  | .noEntry => ⟨.notFound, "File not found: " ++ p.text, p⟩
  | .denied => ⟨.accessDenied, "Permission denied: " ++ p.text, p⟩
  | e => ⟨.parseError, "Failed to read " ++ p.text ++ ": " ++ e.message, p⟩

def outside (p base : Path) : Unresolved :=
  ⟨.accessDenied, "Access denied: " ++ p.text ++ " is outside of " ++ base.text, p⟩

end Unresolved

/-- A file and the document in it. -/
structure ResolvedFile where
  path : Path
  document : Document

/-- Files, and the directory at which relative paths start. -/
structure World where
  files : FileTree := {}
  cwd : Path := ⟨"/"⟩

structure Resolver where
  /-- The directory outside of which nothing is read. -/
  restrict : Option Path := none
  /-- The documents read so far, by the paths of their files. -/
  memo : Dict Document := ∅

namespace Resolver

/-- The path of the file that `src` names in the file `base`. -/
def resolvePath (cwd : Path) (src : String) (base : Option Path) : Path :=
  let src : Path := ⟨src⟩
  if src.isAbsolute then src.normalize
  else ((((base.bind Path.parent?).getD cwd).join src).absolute cwd)

def allows (cwd : Path) (r : Resolver) (p : Path) : Bool :=
  match r.restrict with
  | none => true
  | some base => p.isBelow (base.absolute cwd)

/-- The document in the file that `src` names, and the resolver that keeps it. -/
def resolve (w : World) (r : Resolver) (src : String) (base : Option Path) : Except Unresolved ResolvedFile × Resolver :=
  let p := resolvePath w.cwd src base
  if ¬ r.allows w.cwd p then (.error (.outside p (r.restrict.getD ⟨""⟩)), r)
  else
    match r.memo.get? p.text with
    | some d => (.ok ⟨p, d⟩, r)
    | none =>
      match w.files.readText (w.cwd.join p) with
      | .error e => (.error (.ofFileError p e), r)
      | .ok text =>
        let d := Document.parse text.toList
        (.ok ⟨p, d⟩, { r with memo := r.memo.insert p.text d })

def clear (r : Resolver) : Resolver := { r with memo := ∅ }

/-- Forget the document of a file. -/
def invalidate (r : Resolver) (p : Path) : Resolver := { r with memo := r.memo.erase p.normalize.text }

/-- The files whose documents are kept, in the order of their paths. -/
def cachedPaths (r : Resolver) : List Path := (r.memo.keys.map Path.mk).mergeSort fun a b => !b.before a

end Resolver

end MarkdownTemplates
