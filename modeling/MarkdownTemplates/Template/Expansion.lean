import MarkdownTemplates.Template.Definition

/-!
# Expansion

A template is expanded by putting the expanded content of the named template in the place of each reference among the direct
members of its content. The path of ids that leads to a template is kept for every branch alone, so that one template may
be used in many places but never inside itself.
-/

namespace MarkdownTemplates

/-- How deep references may nest when nothing else is said. -/
def defaultMaxDepth : Nat := 64

structure Expansion where
  nodes : List Node
  /-- The ids of the templates that were expanded. -/
  used : NameSet

/-- Ids that lead from one to the next, with arrows between them. -/
def formatCycle (ids : List String) : String := " → ".intercalate ids

namespace Problem

/-- The ids of `ancestors` come innermost first. -/
def circular (id : String) (ancestors : List String) : Problem :=
  let path := formatCycle (ancestors.reverse ++ [id])
  let p : Problem := { kind := .circularReference, message := "Circular reference detected: " ++ path }
  (p.withDetail "templateId" id).withDetail "path" path

def tooDeep (id : String) (limit : Nat) : Problem :=
  let p : Problem :=
    { kind := .maxDepthExceeded
      message := "Maximum expansion depth of " ++ toString limit ++ " exceeded while expanding \"" ++ id ++ "\"" }
  (p.withDetail "templateId" id).withDetail "maxDepth" (toString limit)

def undefined (id : String) (user : Option String) : Problem :=
  let p : Problem := { kind := .undefinedReference, message := "Template not found: " ++ id }
  (p.withDetail "templateId" id).withDetail? "referencedFrom" user

end Problem

namespace Expansion

mutual

/-- Expand the template `id`, to which `ancestors` lead. -/
def expandId (definitions : Definitions) (limit : Nat) (ancestors : List String) (used : NameSet) (id : String) :
    Except Problem Expansion :=
  if id ∈ ancestors then .error (.circular id ancestors)
  else if _h : limit < ancestors.length then .error (.tooDeep id limit)
  else
    match definitions.get? id with
    | none => .error (.undefined id ancestors.head?)
    | some d => expandNodes definitions limit (id :: ancestors) (used.insert id) d.content
  termination_by (limit + 1 - ancestors.length, 0)

/-- Expand the references in a list of nodes. A reference without an id leaves nothing behind. -/
def expandNodes (definitions : Definitions) (limit : Nat) (ancestors : List String) (used : NameSet) :
    List Node → Except Problem Expansion
  | [] => .ok ⟨[], used⟩
  | n :: ns =>
    if n.isReference then
      match n.attribute? "id" with
      | none => expandNodes definitions limit ancestors used ns
      | some id =>
        match expandId definitions limit ancestors used id with
        | .error e => .error e
        | .ok first =>
          (expandNodes definitions limit ancestors first.used ns).map fun rest => ⟨first.nodes ++ rest.nodes, rest.used⟩
    else (expandNodes definitions limit ancestors used ns).map fun rest => ⟨n :: rest.nodes, rest.used⟩
  termination_by ns => (limit + 1 - ancestors.length, ns.length + 1)

end

end Expansion

/-- Expand a template, with references at most `limit` deep. -/
def Definitions.expand (definitions : Definitions) (limit : Nat) (root : String) : Except Problem Expansion :=
  (Expansion.expandId definitions limit [] ∅ root).mapError (·.withDetail "rootTemplateId" root)

end MarkdownTemplates
