import MarkdownTemplates.Resolver
import MarkdownTemplates.Template.Definition

/-!
# The closure of a document

The references of a document lead to the files that their `src` names, the references of those files to further files, and so
on. The files are visited in the order in which they are named, each at most once.
-/

namespace MarkdownTemplates

/-- A reference that is still to be followed. -/
structure PendingReference where
  reference : Reference
  /-- The file in which it stands. -/
  base : Option Path
  /-- Does it stand in the document from which the walk starts? -/
  isLocal : Bool

/-- A reference that was followed, and what it led to. -/
structure Visit where
  reference : Reference
  isLocal : Bool
  outcome : Except Unresolved ResolvedFile

namespace Closure

/-- Where a walk stands. -/
structure Walk where
  resolver : Resolver
  /-- The paths that are not visited again. -/
  processed : NameSet

variable {σ ε : Type}

/-- Follow the pending references, and fold `step` over the visits. The first error of `step` ends the walk. No more than `fuel`
files are read. -/
def walk (w : World) (step : σ → Visit → Except ε σ) (fuel : Nat) (k : Walk) (s : σ) :
    List PendingReference → Except ε σ × Resolver
  | [] => (.ok s, k.resolver)
  | p :: rest =>
    match p.reference.src with
    | none => walk w step fuel k s rest
    | some src =>
      let path := Resolver.resolvePath w.cwd src p.base
      if k.processed.contains path.text then walk w step fuel k s rest
      else
        let (outcome, resolver) := k.resolver.resolve w src p.base
        let k := { resolver, processed := k.processed.insert path.text }
        match step s ⟨p.reference, p.isLocal, outcome⟩ with
        | .error e => (.error e, resolver)
        | .ok s =>
          match outcome, fuel with
          | .error _, fuel => walk w step fuel k s rest
          | .ok _, 0 => (.ok s, resolver)
          | .ok file, fuel + 1 =>
            let found := (Reference.all file.document.root).map (⟨·, some file.path, false⟩)
            walk w step fuel k s (rest ++ found)
  termination_by pending => (fuel, pending.length)

/-- Follow the references of a document, which stands in `file`. -/
def run (w : World) (r : Resolver) (file : Option Path) (root : Node) (step : σ → Visit → Except ε σ) (s : σ) :
    Except ε σ × Resolver :=
  let processed := NameSet.ofList (file.map (·.normalize.text)).toList
  walk w step (w.files.pathBound + r.memo.size) ⟨r, processed⟩ s ((Reference.all root).map (⟨·, file, true⟩))

end Closure

namespace TemplateDefinition

/-- Add the definitions of a visited file. -/
def addVisit (definitions : Definitions) (v : Visit) : Except Problem Definitions :=
  match v.outcome with
  | .error u => .error (u.problem.withDetail "templateId" v.reference.id)
  | .ok file => do merge definitions (← collect (some file.path) file.document.root)

/-- The definitions of a document and of all files in its closure. -/
def collectAll (w : World) (r : Resolver) (file : Option Path) (root : Node) : Except Problem Definitions × Resolver :=
  match collect file root with
  | .error e => (.error e, r)
  | .ok definitions => Closure.run w r file root addVisit definitions

end TemplateDefinition

end MarkdownTemplates
