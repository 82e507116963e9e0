import MarkdownTemplates.Proofs.Dict
import MarkdownTemplates.Proofs.Json.RoundTrip
import MarkdownTemplates.Snapshot.Codec

/-!
# What a stored snapshot says

A snapshot that is written and read is the same snapshot, unless one of its numbers takes more than sixty-four bits. Then
nothing is read.
-/

namespace MarkdownTemplates

open JsonValue

namespace JsonValue

variable {α : Type} {k k' : String} {v : JsonValue} {ms : List (String × JsonValue)}

theorem reread_string (s : String) : (string s).reread = string s := rfl

theorem reread_object (ms : List (String × JsonValue)) : (object ms).reread = object (ms.map fun m => (m.1, m.2.reread)) := by
  rw [reread, rereadMembers_eq_map]

theorem asRecord?_object {fields : List String} {spare : Nat} (hs : ∀ m ∈ ms, m.1 ∈ fields)
    (hn : (ms.map Prod.fst).Nodup) : asRecord? fields spare (object ms) = some ms := by
  have hf : (ms.filter fun m => fields.contains m.1) = ms := by simpa using hs
  simp only [asRecord?, hf, hn, if_true]

theorem field?_cons_self (f : JsonValue → Option α) : field? ((k, v) :: ms) k f = f v := by
  simp [field?]

theorem field?_cons_of_ne (h : (k == k') = false) (f : JsonValue → Option α) :
    field? ((k', v) :: ms) k f = field? ms k f := by
  simp [field?, List.lookup, h]

theorem fieldOr?_cons_of_ne (h : (k == k') = false) (f : JsonValue → Option α) (a : α) :
    fieldOr? ((k', v) :: ms) k f a = fieldOr? ms k f a := by
  simp [fieldOr?, List.lookup, h]

theorem optionalField?_cons_of_ne (h : (k == k') = false) (f : JsonValue → Option α) :
    optionalField? ((k', v) :: ms) k f = optionalField? ms k f := by
  simp [optionalField?, List.lookup, h]

theorem asString?_reread (s : String) : (string s).reread.asString? = some s := rfl

end JsonValue

/-- Does reading give back exactly those values that satisfy `p`? -/
def Restores {α : Type} (write : α → JsonValue) (read : JsonValue → Option α) (p : α → Bool) : Prop :=
  ∀ a, read (write a).reread = Option.guard p a

namespace Restores

variable {α : Type} {write : α → JsonValue} {read : JsonValue → Option α} {p : α → Bool}

/-- Does a number take at most sixty-four bits? -/
def isShort (n : Nat) : Bool := n < 2 ^ 64

theorem string : Restores JsonValue.string asString? fun _ => true := fun _ => rfl

theorem natural : Restores JsonValue.natural asNatural? isShort := by
  intro n
  by_cases h : n < 2 ^ 64
  · rw [reread, if_pos h, Option.guard_pos (by simpa [isShort] using h)]
    rfl
  · rw [reread, if_neg h, Option.guard_eq_none_iff.mpr (by simpa [isShort] using h)]
    rfl

theorem mapM_guard (l : List α) : l.mapM (Option.guard p) = Option.guard (fun l => l.all p) l := by
  induction l with
  | nil => rfl
  | cons a l ih =>
    rw [List.mapM_cons, ih]
    cases ha : p a <;> cases hl : l.all p <;> simp [Option.guard, ha, hl]

theorem list (h : Restores write read p) : Restores (fun l => array (l.map write)) (asList? read) fun l => l.all p := by
  intro l
  have hf : (fun a => read (write a).reread) = Option.guard p := funext h
  simp only [reread, rereadItems_eq_map, asList?, List.map_map, List.mapM_map, Function.comp_def, hf]
  exact mapM_guard l

theorem strings : Restores JsonValue.strings (asList? asString?) fun _ => true := by
  intro l
  simpa [JsonValue.strings, Option.guard] using string.list l

theorem dict (h : Restores write read p) : Restores (ofDict write) (asDict? read) fun d => d.values.all p := by
  intro d
  have hf : (fun e : String × α => (read (write e.2).reread).map fun a => (e.1, a)) = Option.guard fun e => p e.2 := by
    funext e
    rw [h e.2]
    cases he : p e.2 <;> simp [Option.guard, he]
  have hv : d.values.all p = d.entries.all fun e => p e.2 := by simp [Dict.values, Function.comp_def]
  simp only [ofDict, reread, rereadMembers_eq_map, asDict?, List.map_map, List.mapM_map, Function.comp_def, hf]
  rw [mapM_guard]
  cases he : d.entries.all fun e => p e.2 <;> simp [Option.guard, hv, he, Dict.ofList_entries]

theorem optionalField?_natural (o : Option Nat) (k : String) (ms : List (String × JsonValue)) :
    optionalField? ((k, (JsonValue.optional .natural o).reread) :: ms) k asNatural? =
      Option.guard (fun o => o.all isShort) o := by
  rw [optionalField?, List.lookup_cons_self]
  cases o with
  | none => rfl
  | some n =>
    rw [JsonValue.optional]
    by_cases hs : n < 2 ^ 64
    · rw [reread, if_pos hs, Option.guard_pos (by simpa [isShort] using hs)]
      rfl
    · rw [reread, if_neg hs, Option.guard_eq_none_iff.mpr (by simpa [isShort] using hs)]
      rfl

end Restores

open Restores (isShort)

/-! ## Records -/

namespace ProblemKind

theorem ofName?_name (k : ProblemKind) : ofName? k.name = some k := by
  cases k <;> rfl

end ProblemKind

namespace Problem

theorem restores : Restores toJson ofJson? fun _ => true := by
  intro p
  obtain ⟨kind, message, details⟩ := p
  have hd : asDict? asString? (ofDict string details).reread = some details := by
    simpa [Option.guard] using Restores.string.dict details
  by_cases h : details.isEmpty
  · cases Dict.eq_empty h
    simp [toJson, reread_object, reread_string, ofJson?, asRecord?, fields, field?, fieldOr?, ProblemKind.ofJson?, asString?,
      ProblemKind.ofName?_name, h, List.lookup]
  · simp [toJson, reread_object, reread_string, ofJson?, asRecord?, fields, field?, fieldOr?, ProblemKind.ofJson?, asString?,
      ProblemKind.ofName?_name, h, List.lookup, hd]

end Problem

namespace CachedTemplate

/-- Can the template be stored? -/
def isStorable (t : CachedTemplate) : Bool := t.startLine.all isShort && t.endLine.all isShort

theorem restores : Restores toJson ofJson? isStorable := by
  intro t
  obtain ⟨id, file, dependencies, startLine, endLine⟩ := t
  have hd := Restores.strings dependencies
  have hs := Restores.optionalField?_natural startLine
  have he := Restores.optionalField?_natural endLine
  simp only [Option.guard, if_true] at hd hs he
  rw [toJson, reread_object, ofJson?, asRecord?_object (by simp [fields]) (by simp)]
  simp only [List.map_cons, List.map_nil]
  simp (disch := decide) only [field?_cons_self, field?_cons_of_ne, optionalField?_cons_of_ne, Option.bind_eq_bind,
    Option.bind_some, asString?_reread, hd, hs, he]
  by_cases hs' : startLine.all isShort <;> by_cases he' : endLine.all isShort <;>
    simp [isStorable, Option.guard, hs', he']

end CachedTemplate

namespace FileMetadata

/-- Can the metadata be stored? -/
def isStorable (m : FileMetadata) : Bool :=
  isShort m.size && isShort m.modified && m.definitions.all CachedTemplate.isStorable

theorem restores : Restores toJson ofJson? isStorable := by
  intro m
  obtain ⟨path, size, modified, hash, templateIds, referenceIds, externalReferences, definitions, errors⟩ := m
  have hz := Restores.natural size
  have hm := Restores.natural modified
  have ht := Restores.strings templateIds
  have hr := Restores.strings referenceIds
  have hx := Restores.strings externalReferences
  have hd := CachedTemplate.restores.list definitions
  have he : fieldOr? ((if errors.isEmpty then [] else [("errors", JsonValue.array (errors.map Problem.toJson))]).map
      fun m => (m.1, m.2.reread)) "errors" (asList? Problem.ofJson?) [] = some errors := by
    cases errors with
    | nil => rfl
    | cons e es => simpa [fieldOr?, Option.guard] using Problem.restores.list (e :: es)
  simp only [Option.guard, if_true] at hz hm ht hr hx hd
  rw [toJson, reread_object, ofJson?, asRecord?_object (by simp [fields]) (by simp; split <;> simp)]
  simp only [List.map_cons, List.cons_append, List.nil_append]
  simp (disch := decide) only [field?_cons_self, field?_cons_of_ne, fieldOr?_cons_of_ne, Option.bind_eq_bind,
    Option.bind_some, asString?_reread, hz, hm, ht, hr, hx, hd, he]
  by_cases hz' : isShort size <;> by_cases hm' : isShort modified <;>
    by_cases hd' : definitions.all CachedTemplate.isStorable <;> simp [isStorable, Option.guard, hz', hm', hd']

end FileMetadata

namespace DependencyGraph

theorem restores_set : Restores setToJson setOfJson? fun _ => true := by
  intro s
  have h := Restores.strings s.toList
  simp only [Option.guard, if_true] at h
  simp [setToJson, setOfJson?, h, Option.guard, NameSet.ofList_toList]

theorem restores : Restores toJson ofJson? fun _ => true := by
  intro g
  obtain ⟨nodes, edges, reverseEdges, cycles⟩ := g
  have hn := restores_set nodes
  have he := restores_set.dict edges
  have hr := restores_set.dict reverseEdges
  have hc := Restores.strings.list cycles
  simp only [Option.guard, if_true, List.all_eq_true, implies_true] at hn he hr hc
  rw [toJson, reread_object, ofJson?, asRecord?_object (by simp [fields]) (by simp)]
  simp only [List.map_cons, List.map_nil]
  simp (disch := decide) only [field?_cons_self, field?_cons_of_ne, Option.bind_eq_bind, Option.bind_some, hn, he, hr, hc]
  rfl

end DependencyGraph

namespace Snapshot

/-- Can the snapshot be stored? -/
def isStorable (s : Snapshot) : Bool :=
  isShort s.lastUpdated && s.files.values.all FileMetadata.isStorable && s.templates.values.all CachedTemplate.isStorable

theorem restores : Restores toJson ofJson? isStorable := by
  intro s
  obtain ⟨version, lastUpdated, root, files, templates, dependencies⟩ := s
  have hl := Restores.natural lastUpdated
  have hf := FileMetadata.restores.dict files
  have ht := CachedTemplate.restores.dict templates
  have hd := DependencyGraph.restores dependencies
  simp only [Option.guard, if_true] at hl hf ht hd
  rw [toJson, reread_object, ofJson?, asRecord?_object (by simp [fields]) (by simp)]
  simp only [List.map_cons, List.map_nil]
  simp (disch := decide) only [field?_cons_self, field?_cons_of_ne, Option.bind_eq_bind, Option.bind_some,
    asString?_reread, hl, hf, ht, hd]
  by_cases hl' : isShort lastUpdated <;> by_cases hf' : files.values.all FileMetadata.isStorable <;>
    by_cases ht' : templates.values.all CachedTemplate.isStorable <;> simp [isStorable, Option.guard, hl', hf', ht']

/-- A stored snapshot is read as it was written, or not at all. -/
theorem decode?_encode (s : Snapshot) : decode? s.encode = if s.isStorable then some s else none := by
  rw [decode?, encode, read?_pretty]
  exact restores s

/-- The text of a snapshot says no other snapshot, and it says this one exactly when its numbers take at most sixty-four bits. -/
theorem decode?_encode_eq_some {s s' : Snapshot} : decode? s.encode = some s' ↔ s' = s ∧ s.isStorable = true := by
  rw [decode?_encode]
  cases s.isStorable <;> simp [eq_comm]

theorem eq_of_decode?_encode {s s' : Snapshot} (h : decode? s.encode = some s') : s' = s := by
  rw [decode?_encode] at h
  split at h
  · exact (Option.some.inj h).symm
  · cases h

end Snapshot

end MarkdownTemplates
