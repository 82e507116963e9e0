import MarkdownTemplates.Proofs.Graph.Reachable

/-!
# Transitive dependents

The graph of some entries has each listed edge, forwards and backwards, and nothing else about the entries matters to it: neither
their order nor how the dependencies of an id are spread over them. From which ids an edge leads on to given ones is what the
backward edges find.
-/

namespace MarkdownTemplates

namespace DependencyGraph

variable {entries entries' : List (String × List String)} {s t x : String}

/-- The edges out of an id are kept when an entry names it. -/
theorem isSome_get?_edges_ofEntries :
    ((ofEntries entries).edges.get? x).isSome = true ↔ x ∈ entries.map Prod.fst := by
  rw [ofEntries, Dict.get?_mapValues, Option.isSome_map, Dict.isSome_get?_group]

theorem mem_dependents_ofEntries : s ∈ (ofEntries entries).dependents t ↔ (ofEntries entries).HasEdge s t := by
  have hreverse : (ofEntries entries).reverseEdges = reverse (ofEntries entries).edges := rfl
  rw [dependents, hreverse, ← Adjacency.targets_ofDict]
  exact leads_reverse

/-- The edges of a graph are determined by the ids that have any and by the edges themselves. -/
theorem edges_ofEntries_congr (hids : ∀ x, x ∈ entries.map Prod.fst ↔ x ∈ entries'.map Prod.fst)
    (hedges : ∀ x y, (ofEntries entries).HasEdge x y ↔ (ofEntries entries').HasEdge x y) :
    (ofEntries entries).edges = (ofEntries entries').edges := by
  refine Dict.ext_get? fun x => ?_
  have hsome : ((ofEntries entries).edges.get? x).isSome = true ↔ ((ofEntries entries').edges.get? x).isSome = true := by
    rw [isSome_get?_edges_ofEntries, isSome_get?_edges_ofEntries, hids]
  have htargets := hedges x
  simp only [hasEdge_iff] at htargets
  cases h : (ofEntries entries).edges.get? x with
  | none =>
    cases h' : (ofEntries entries').edges.get? x with
    | none => rfl
    | some targets' => simp [h, h'] at hsome
  | some targets =>
    cases h' : (ofEntries entries').edges.get? x with
    | none => simp [h, h'] at hsome
    | some targets' =>
      have hsame : ∀ y, targets.contains y = true ↔ targets'.contains y = true := by
        simpa [h, h'] using htargets
      rw [NameSet.ext_contains hsame]

/-- Everything else about a graph follows from its edges. -/
theorem ofEntries_eq_of_edges (h : (ofEntries entries).edges = (ofEntries entries').edges) :
    ofEntries entries = ofEntries entries' := by
  have hall : ∀ l, ofEntries l =
      { nodes := (ofEntries l).edges.mapValues fun _ _ => ()
        edges := (ofEntries l).edges
        reverseEdges := reverse (ofEntries l).edges
        cycles := findCycles ((ofEntries l).edges.mapValues fun _ _ => ()) (ofEntries l).edges } := fun _ => rfl
  rw [hall entries, hall entries', h]

/-- Entries give the same graph exactly when they name the same ids and list the same dependencies for each. -/
theorem ofEntries_eq_iff : ofEntries entries = ofEntries entries' ↔
    (∀ x, x ∈ entries.map Prod.fst ↔ x ∈ entries'.map Prod.fst) ∧
      ∀ x y, (∃ targets, (x, targets) ∈ entries ∧ y ∈ targets) ↔ ∃ targets, (x, targets) ∈ entries' ∧ y ∈ targets := by
  constructor
  · intro h
    refine ⟨fun x => ?_, fun x y => ?_⟩
    · rw [← contains_nodes_ofEntries, h, contains_nodes_ofEntries]
    · rw [← hasEdge_ofEntries, h, hasEdge_ofEntries]
  · rintro ⟨hids, hedges⟩
    refine ofEntries_eq_of_edges (edges_ofEntries_congr hids fun x y => ?_)
    rw [hasEdge_ofEntries, hasEdge_ofEntries, hedges]

/-- In the graph of some entries an id is a dependent of those that an entry lists for it, as these are its dependencies. Other
entries have the same graph, with the same cycles, exactly when they name the same ids and list the same dependencies, in whichever
order and however split. The transitive dependents of some ids are the ids from which one edge or more lead to one of them, be it
defined or not. -/
theorem transitiveDependents_exact (entries : List (String × List String)) :
    (∀ s t, s ∈ (ofEntries entries).dependents t ↔ t ∈ (ofEntries entries).dependencies s) ∧
      (∀ s t, t ∈ (ofEntries entries).dependencies s ↔ ∃ targets, (s, targets) ∈ entries ∧ t ∈ targets) ∧
      (∀ entries', ofEntries entries' = ofEntries entries ↔
        (∀ x, x ∈ entries'.map Prod.fst ↔ x ∈ entries.map Prod.fst) ∧
          ∀ x y, (∃ targets, (x, targets) ∈ entries' ∧ y ∈ targets) ↔ ∃ targets, (x, targets) ∈ entries ∧ y ∈ targets) ∧
      ∀ ids x, ((ofEntries entries).transitiveDependents ids).contains x = true ↔
        ∃ y ∈ ids, Relation.TransGen (ofEntries entries).HasEdge x y :=
  ⟨fun _ _ => mem_dependents_ofEntries, fun _ _ => hasEdge_ofEntries, fun _ => ofEntries_eq_iff,
    fun _ _ => contains_transitiveDependents rfl⟩

end DependencyGraph

end MarkdownTemplates
