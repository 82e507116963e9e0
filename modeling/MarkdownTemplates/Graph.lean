import MarkdownTemplates.Template.Definition
import Std.Data.TreeMap
import Std.Data.TreeSet

/-!
# Dependency graphs

The vertices are the ids of templates, and an edge leads from a template to each id on which it depends, whether that is
defined or not. Cycles are found by a depth first search: every edge back to a vertex on the current path closes one.
-/

namespace MarkdownTemplates

/-- Sets of names by names, for searches. -/
abbrev Adjacency := Std.TreeMap String (List String)

namespace Adjacency

def ofDict (edges : Dict NameSet) : Adjacency :=
  Std.TreeMap.ofList (edges.entries.map fun (id, targets) => (id, targets.toList))

def targets (a : Adjacency) (id : String) : List String := a.getD id []

end Adjacency

theorem size_erase_lt {s : Std.TreeSet String} {a : String} (h : a ∈ s) : (s.erase a).size < s.size := by
  have hc : s.contains a = true := h
  have hp : s.size ≠ 0 := by
    intro h0
    have := Std.TreeSet.isEmpty_eq_false_iff_exists_mem.2 ⟨a, h⟩
    simp [Std.TreeSet.isEmpty_eq_size_eq_zero, h0] at this
  simp only [Std.TreeSet.size_erase, hc, if_true]
  omega

/-! ## Depth first search -/

/-- A vertex on the current path, with the targets at which the search has not looked yet. -/
structure Frame where
  vertex : String
  targets : List String

structure Search where
  unvisited : Std.TreeSet String
  /-- The current path, innermost first. -/
  frames : List Frame
  /-- The cycles so far, last one first. -/
  cycles : List (List String)

namespace Search

/-- The work that is left in the frames. -/
def pending (s : Search) : Nat := s.frames.foldr (fun f n => f.targets.length + 1 + n) 0

/-- The vertices from `id` on to the end of the path, and `id` again. -/
def cycleTo (id : String) (frames : List Frame) : List String :=
  id :: (id :: (frames.map Frame.vertex).takeWhile (· != id)).reverse

/-- Look at one target of the innermost vertex, or leave the vertex when there is none. -/
def step (edges : Adjacency) (s : Search) : Search :=
  match s.frames with
  | [] => s
  | ⟨_, []⟩ :: rest => { s with frames := rest }
  | ⟨v, t :: ts⟩ :: rest =>
    let frames := ⟨v, ts⟩ :: rest
    if t ∈ s.unvisited then
      { s with unvisited := s.unvisited.erase t, frames := ⟨t, edges.targets t⟩ :: frames }
    else if t ∈ frames.map Frame.vertex then { s with frames, cycles := cycleTo t frames :: s.cycles }
    else { s with frames }

theorem step_decreases (edges : Adjacency) (s : Search) (h : s.frames ≠ []) :
    (s.step edges).unvisited.size < s.unvisited.size ∨
      (s.step edges).unvisited.size = s.unvisited.size ∧ (s.step edges).pending < s.pending := by
  obtain ⟨unvisited, frames, cycles⟩ := s
  match frames with
  | [] => exact absurd rfl h
  | ⟨v, []⟩ :: rest => right; simp [step, pending]
  | ⟨v, t :: ts⟩ :: rest =>
    simp only [step]
    split
    · rename_i ht
      exact .inl (size_erase_lt ht)
    · right; split <;> simp [pending]

/-- Search until the path is empty. -/
def run (edges : Adjacency) (s : Search) : Search :=
  if _h : s.frames = [] then s else run edges (s.step edges)
  termination_by (s.unvisited.size, s.pending)
  decreasing_by
    rcases step_decreases edges s _h with h | ⟨h, h'⟩
    · exact Prod.Lex.left _ _ h
    · rw [h]; exact Prod.Lex.right _ h'

/-- Search from a vertex, unless it has been visited. -/
def start (edges : Adjacency) (s : Search) (v : String) : Search :=
  if v ∈ s.unvisited then
    run edges { s with unvisited := s.unvisited.erase v, frames := [⟨v, edges.targets v⟩] }
  else s

end Search

/-! ## Graphs -/

structure DependencyGraph where
  nodes : NameSet := ∅
  edges : Dict NameSet := ∅
  reverseEdges : Dict NameSet := ∅
  /-- Each cycle ends with the id with which it starts. -/
  cycles : List (List String) := []
  deriving DecidableEq

namespace DependencyGraph

/-- Every edge the other way round. -/
def reverse (edges : Dict NameSet) : Dict NameSet :=
  (Dict.group (edges.entries.flatMap fun (source, targets) => targets.toList.map (·, source))).mapValues
    fun _ sources => NameSet.ofList sources

/-- One cycle for every edge that leads back to the path of the search. The search starts at the nodes in their order, and
looks at the targets of a node in their order. -/
def findCycles (nodes : NameSet) (edges : Dict NameSet) : List (List String) :=
  let adjacency := Adjacency.ofDict edges
  let vertices := nodes.toList ++ edges.values.flatMap NameSet.toList
  (nodes.toList.foldl (Search.start adjacency) ⟨Std.TreeSet.ofList vertices, [], []⟩).cycles.reverse

/-- The graph of ids with the ids on which they depend. An id may come more than once. -/
def ofEntries (entries : List (String × List String)) : DependencyGraph :=
  let edges := (Dict.group entries).mapValues fun _ targets => NameSet.ofList targets.flatten
  let nodes := edges.mapValues fun _ _ => ()
  { nodes, edges, reverseEdges := reverse edges, cycles := findCycles nodes edges }

def ofDefinitions (definitions : Definitions) : DependencyGraph :=
  ofEntries (definitions.values.map fun d => (d.id, d.dependencies))

def hasCycles (g : DependencyGraph) : Bool := !g.cycles.isEmpty

def dependencies (g : DependencyGraph) (id : String) : List String := ((g.edges.get? id).map NameSet.toList).getD []

/-- The ids whose templates depend on `id` directly. -/
def dependents (g : DependencyGraph) (id : String) : List String :=
  ((g.reverseEdges.get? id).map NameSet.toList).getD []

def edgeCount (g : DependencyGraph) : Nat := g.edges.values.foldl (fun n targets => n + targets.size) 0

/-! ## Reachable ids -/

/-- Follow edges from the pending ids. Only ids of `unfound` are found, each once. -/
def follow (edges : Adjacency) (unfound : Std.TreeSet String) (found : List String) : (pending : List String) → List String
  | [] => found
  | id :: pending =>
    match _h : (edges.targets id).find? (· ∈ unfound) with
    | none => follow edges unfound found pending
    | some t => follow edges (unfound.erase t) (t :: found) (t :: id :: pending)
  termination_by pending => (unfound.size, pending.length)
  decreasing_by
    · exact Prod.Lex.right _ (by simp)
    · have ht : t ∈ unfound := by simpa using List.find?_some _h
      exact Prod.Lex.left _ _ (size_erase_lt ht)

/-- The ids at the end of a path of at least one edge from one of `ids`. -/
def reachable (edges : Dict NameSet) (ids : List String) : NameSet :=
  NameSet.ofList (follow (Adjacency.ofDict edges) (Std.TreeSet.ofList (edges.values.flatMap NameSet.toList)) [] ids)

/-- The ids whose templates depend on one of `ids`, directly or through others. -/
def transitiveDependents (g : DependencyGraph) (ids : List String) : NameSet := reachable g.reverseEdges ids

/-- The ids on which the templates of `ids` depend, directly or through others. -/
def transitiveDependencies (g : DependencyGraph) (ids : List String) : NameSet := reachable g.edges ids

end DependencyGraph

end MarkdownTemplates
