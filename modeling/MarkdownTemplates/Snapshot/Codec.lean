import MarkdownTemplates.Json.Reader
import MarkdownTemplates.Snapshot

/-!
# Stored snapshots

How a snapshot is written as JSON, and how it is read.
-/

namespace MarkdownTemplates

open JsonValue

namespace ProblemKind

/-- A kind is given by its name, or by an object whose only member is null. -/
def ofJson? : JsonValue → Option ProblemKind
  | .string s => ofName? s
  | .object [(s, .null)] => ofName? s
  | _ => none

end ProblemKind

namespace Problem

def fields : List String := ["kind", "message", "details"]

def toJson (p : Problem) : JsonValue :=
  .object ([("kind", .string p.kind.name), ("message", .string p.message)]
    ++ if p.details.isEmpty then [] else [("details", ofDict .string p.details)])

def ofJson? (v : JsonValue) : Option Problem := do
  let r ← v.asRecord? fields 1
  let kind ← field? r "kind" ProblemKind.ofJson?
  let message ← field? r "message" asString?
  let details ← fieldOr? r "details" (asDict? asString?) ∅
  return { kind, message, details }

end Problem

namespace CachedTemplate

def fields : List String := ["id", "file_path", "dependencies", "start_line", "end_line"]

def toJson (t : CachedTemplate) : JsonValue :=
  .object [("id", .string t.id), ("file_path", .string t.file), ("dependencies", strings t.dependencies),
    ("start_line", optional .natural t.startLine), ("end_line", optional .natural t.endLine)]

def ofJson? (v : JsonValue) : Option CachedTemplate := do
  let r ← v.asRecord? fields 0
  let id ← field? r "id" asString?
  let file ← field? r "file_path" asString?
  let dependencies ← field? r "dependencies" (asList? asString?)
  let startLine ← optionalField? r "start_line" asNatural?
  let endLine ← optionalField? r "end_line" asNatural?
  return { id, file, dependencies, startLine, endLine }

end CachedTemplate

namespace FileMetadata

def fields : List String :=
  ["path", "size", "modified_unix_ms", "content_hash", "template_ids", "reference_ids", "external_references", "definitions",
    "errors"]

def toJson (m : FileMetadata) : JsonValue :=
  .object ([("path", .string m.path), ("size", .natural m.size), ("modified_unix_ms", .natural m.modified),
    ("content_hash", .string m.hash), ("template_ids", strings m.templateIds), ("reference_ids", strings m.referenceIds),
    ("external_references", strings m.externalReferences),
    ("definitions", .array (m.definitions.map CachedTemplate.toJson))]
    ++ if m.errors.isEmpty then [] else [("errors", .array (m.errors.map Problem.toJson))])

def ofJson? (v : JsonValue) : Option FileMetadata := do
  let r ← v.asRecord? fields 1
  let path ← field? r "path" asString?
  let size ← field? r "size" asNatural?
  let modified ← field? r "modified_unix_ms" asNatural?
  let hash ← field? r "content_hash" asString?
  let templateIds ← field? r "template_ids" (asList? asString?)
  let referenceIds ← field? r "reference_ids" (asList? asString?)
  let externalReferences ← field? r "external_references" (asList? asString?)
  let definitions ← field? r "definitions" (asList? CachedTemplate.ofJson?)
  let errors ← fieldOr? r "errors" (asList? Problem.ofJson?) []
  return { path, size, modified, hash, templateIds, referenceIds, externalReferences, definitions, errors }

end FileMetadata

namespace DependencyGraph

def fields : List String := ["nodes", "edges", "reverse_edges", "cycles"]

def setToJson (s : NameSet) : JsonValue := strings s.toList

def setOfJson? (v : JsonValue) : Option NameSet := (asList? asString? v).map NameSet.ofList

def toJson (g : DependencyGraph) : JsonValue :=
  .object [("nodes", setToJson g.nodes), ("edges", ofDict setToJson g.edges),
    ("reverse_edges", ofDict setToJson g.reverseEdges), ("cycles", .array (g.cycles.map strings))]

def ofJson? (v : JsonValue) : Option DependencyGraph := do
  let r ← v.asRecord? fields 0
  let nodes ← field? r "nodes" setOfJson?
  let edges ← field? r "edges" (asDict? setOfJson?)
  let reverseEdges ← field? r "reverse_edges" (asDict? setOfJson?)
  let cycles ← field? r "cycles" (asList? (asList? asString?))
  return { nodes, edges, reverseEdges, cycles }

end DependencyGraph

namespace Snapshot

def fields : List String := ["version", "last_updated_unix_ms", "project_root", "files", "templates", "dependencies"]

def toJson (s : Snapshot) : JsonValue :=
  .object [("version", .string s.version), ("last_updated_unix_ms", .natural s.lastUpdated),
    ("project_root", .string s.root.text), ("files", ofDict FileMetadata.toJson s.files),
    ("templates", ofDict CachedTemplate.toJson s.templates), ("dependencies", s.dependencies.toJson)]

def ofJson? (v : JsonValue) : Option Snapshot := do
  let r ← v.asRecord? fields 0
  let version ← field? r "version" asString?
  let lastUpdated ← field? r "last_updated_unix_ms" asNatural?
  let root ← field? r "project_root" asString?
  let files ← field? r "files" (asDict? FileMetadata.ofJson?)
  let templates ← field? r "templates" (asDict? CachedTemplate.ofJson?)
  let dependencies ← field? r "dependencies" DependencyGraph.ofJson?
  return { version, lastUpdated, root := ⟨root⟩, files, templates, dependencies }

/-- The text of a stored snapshot. -/
def encode (s : Snapshot) : String := s.toJson.pretty

/-- The snapshot with the given text. -/
def decode? (text : String) : Option Snapshot := (JsonValue.read? text.toList).bind ofJson?

end Snapshot

end MarkdownTemplates
