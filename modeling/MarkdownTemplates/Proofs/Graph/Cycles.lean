import MarkdownTemplates.Proofs.Dict
import MarkdownTemplates.Proofs.Graph.Search

/-!
# Cycles of dependency graphs

The reported cycles are simple cycles of the graph, no two of them are closed by one edge, and without the closing edges the
graph has no cycle.
-/

namespace MarkdownTemplates

/-- A chain of edges in which no two neighbours satisfy `p`. -/
theorem isChain_and_not_of_zip_tail {edge p : String → String → Prop} {walk : List String} (h : walk.IsChain edge)
    (hp : ∀ e ∈ walk.zip walk.tail, ¬ p e.1 e.2) : walk.IsChain (fun x y => edge x y ∧ ¬ p x y) := by
  induction walk with
  | nil => exact .nil
  | cons x rest ih =>
    cases rest with
    | nil => exact .singleton _
    | cons y rest =>
      rw [List.isChain_cons_cons] at h ⊢
      exact ⟨⟨h.1, hp (x, y) (by simp)⟩, ih h.2 fun e he => hp e (by simpa using .inr he)⟩

theorem Adjacency.targets_ofDict (edges : Dict NameSet) (x : String) :
    (Adjacency.ofDict edges).targets x = ((edges.get? x).map NameSet.toList).getD [] := by
  have hd : (edges.entries.map fun e => (e.1, e.2.toList)).Pairwise
      (fun a b => ¬ compare a.1 b.1 = .eq) := by
    rw [List.pairwise_map]
    refine edges.ordered.imp fun hlt he => ?_
    rw [compare_eq_iff_eq.mp he] at hlt
    exact String.lt_irrefl _ hlt
  cases hg : edges.get? x with
  | some targets =>
    have hm : (x, targets.toList) ∈ edges.entries.map fun e => (e.1, e.2.toList) :=
      List.mem_map.mpr ⟨(x, targets), Dict.mem_entries.mpr hg, rfl⟩
    exact Std.TreeMap.getD_ofList_of_mem (compare_eq_iff_eq.mpr rfl) hd hm
  | none =>
    refine Std.TreeMap.getD_ofList_of_contains_eq_false ?_
    have hm : x ∉ edges.keys := fun hm => by simp [Dict.mem_keys, Dict.contains, hg] at hm
    simpa [Dict.keys] using hm

namespace DependencyGraph

/-- Does the template `x` depend on `y` directly? -/
def HasEdge (g : DependencyGraph) (x y : String) : Prop := y ∈ g.dependencies x

/-- The edges that close the reported cycles. -/
def closingEdges (g : DependencyGraph) : List (String × String) := g.cycles.filterMap closingEdge?

theorem hasEdge_iff {g : DependencyGraph} {x y : String} :
    g.HasEdge x y ↔ ∃ targets, g.edges.get? x = some targets ∧ targets.contains y = true := by
  simp only [HasEdge, dependencies]
  cases g.edges.get? x <;> simp [NameSet.mem_toList]

/-- The edges of a graph are those that its entries list. -/
theorem hasEdge_ofEntries {entries : List (String × List String)} {x y : String} :
    (ofEntries entries).HasEdge x y ↔ ∃ targets, (x, targets) ∈ entries ∧ y ∈ targets := by
  simp only [hasEdge_iff, ofEntries, Dict.get?_mapValues, Option.map_eq_some_iff]
  constructor
  · rintro ⟨_, ⟨lists, hl, rfl⟩, hy⟩
    obtain ⟨targets, ht, hm⟩ := List.mem_flatten.mp (NameSet.contains_ofList.mp hy)
    exact ⟨targets, Dict.mem_group.mp ⟨lists, hl, ht⟩, hm⟩
  · rintro ⟨targets, ht, hy⟩
    obtain ⟨lists, hl, hm⟩ := Dict.mem_group.mpr ht
    exact ⟨_, ⟨lists, hl, rfl⟩, NameSet.contains_ofList.mpr (List.mem_flatten.mpr ⟨targets, hm, hy⟩)⟩

theorem leads_ofDict {g : DependencyGraph} : (Adjacency.ofDict g.edges).Leads = g.HasEdge := by
  funext x y
  rw [Adjacency.Leads, Adjacency.targets_ofDict]
  rfl

/-- What a finished search has found: simple cycles with closing edges of their own, and an order in which all other edges go
down. -/
theorem search_ofEntries (entries : List (String × List String)) :
    (∀ c ∈ (ofEntries entries).cycles, IsSimpleCycle (ofEntries entries).HasEdge c) ∧
      (ofEntries entries).closingEdges.Nodup ∧
      ∃ rank : String → Nat, ∀ x y, (ofEntries entries).HasEdge x y → (x, y) ∉ (ofEntries entries).closingEdges →
        rank x < rank y := by
  set g := ofEntries entries with hg
  set a := Adjacency.ofDict g.edges with ha
  set vertices := g.nodes.toList ++ g.edges.values.flatMap NameSet.toList with hvertices
  set start : Search := ⟨Std.TreeSet.ofList vertices, [], []⟩ with hstart
  set final := g.nodes.toList.foldl (Search.start a) start with hfinal
  have hcycles : g.cycles = final.cycles.reverse := rfl
  have hn : ∀ x, (a.targets x).Nodup := by
    intro x
    rw [ha, Adjacency.targets_ofDict]
    cases g.edges.get? x with
    | none => exact List.nodup_nil
    | some targets => exact targets.nodup_toList
  have hv : ∀ x y, a.Leads x y → y ∈ vertices := by
    intro x y h
    rw [ha, leads_ofDict, hasEdge_iff] at h
    obtain ⟨targets, ht, hy⟩ := h
    refine List.mem_append_right _ (List.mem_flatMap.mpr ⟨targets, Dict.mem_values.mpr ⟨x, ht⟩, ?_⟩)
    exact NameSet.mem_toList.mpr hy
  have h₀ : Search.Invariant a vertices [] start := by
    refine ⟨List.nodup_nil, by simp [hstart, Search.path], fun x hx => .inl ?_, trivial, trivial, ?_, ?_, List.nodup_nil⟩
    · simpa [hstart] using hx
    · simp [hstart, Search.closing]
    · simp [hstart]
  obtain ⟨left, h, hf, hu⟩ := h₀.starts rfl hn hv g.nodes.toList
  have hpath : final.path = [] := by rw [Search.path, hfinal, hf]; rfl
  have hclosing : ∀ e, e ∈ g.closingEdges ↔ e ∈ final.closing := by
    intro e
    simp [closingEdges, Search.closing, hcycles]
  have hlead : a.Leads = g.HasEdge := leads_ofDict
  refine ⟨fun c hc => ?_, ?_, left.idxOf, fun x y he hc => ?_⟩
  · rw [← hlead]
    exact h.cycles c (List.mem_reverse.mp (hcycles ▸ hc))
  · rw [closingEdges, hcycles, List.filterMap_reverse]
    exact List.nodup_reverse.mpr h.distinct
  · -- An edge starts at a node of the graph, where the search has started or been before.
    have hx : x ∈ g.nodes.toList := by
      obtain ⟨targets, ht, -⟩ := hasEdge_iff.mp he
      refine NameSet.mem_toList.mpr ?_
      simp only [hg, ofEntries, Dict.contains, Dict.get?_mapValues, Option.isSome_map] at ht ⊢
      simp [Option.map_eq_some_iff] at ht
      obtain ⟨_, ht, -⟩ := ht
      simp [ht]
    have hleft : x ∈ left := by
      have hk := (h.known x (List.mem_append_left _ hx)).resolve_left fun hm => (hu x hm).2 hx
      simpa [← hfinal, hpath] using hk
    have hnd : left.Nodup := (List.nodup_append.mp h.nodup).2.1
    exact h.settled.idxOf_lt hnd hleft (hlead ▸ he) fun hm => hc ((hclosing _).mpr hm)

theorem contains_nodes_ofEntries {entries : List (String × List String)} {x : String} :
    (ofEntries entries).nodes.contains x = true ↔ x ∈ entries.map Prod.fst := by
  simp [ofEntries, Dict.contains, Dict.get?_mapValues, Dict.isSome_get?_group]

/-- No cycle is reported exactly when no id leads back to itself. -/
theorem cycles_ofEntries_eq_nil {entries : List (String × List String)} :
    (ofEntries entries).cycles = [] ↔ ∀ v, ¬ Relation.TransGen (ofEntries entries).HasEdge v v := by
  obtain ⟨hcycles, -, rank, hrank⟩ := search_ofEntries entries
  constructor
  · intro hnil
    exact not_transGen_of_rank fun x y he => hrank x y he (by simp [closingEdges, hnil])
  · intro hnone
    by_contra hne
    obtain ⟨c, hc⟩ := List.exists_mem_of_ne_nil _ hne
    obtain ⟨v, hv⟩ := (hcycles c hc).1.transGen
    exact hnone v hv

/-- The graph of some entries has the edges that the entries list. Every reported cycle is a simple one, no two cycles are
closed by the same edge, and every closed walk uses an edge that closes a reported cycle. -/
theorem cycles_ofEntries_sound_complete (entries : List (String × List String)) :
    (∀ x y, (ofEntries entries).HasEdge x y ↔ ∃ targets, (x, targets) ∈ entries ∧ y ∈ targets) ∧
      (∀ c ∈ (ofEntries entries).cycles, IsSimpleCycle (ofEntries entries).HasEdge c) ∧
      ((ofEntries entries).closingEdges.length = (ofEntries entries).cycles.length ∧
        (ofEntries entries).closingEdges.Nodup) ∧
      (∀ walk, IsClosedWalk (ofEntries entries).HasEdge walk →
        ∃ e ∈ walk.zip walk.tail, e ∈ (ofEntries entries).closingEdges) ∧
      ((ofEntries entries).hasCycles = true ↔ ∃ v, Relation.TransGen (ofEntries entries).HasEdge v v) := by
  obtain ⟨hcycles, hnodup, rank, hrank⟩ := search_ofEntries entries
  refine ⟨fun x y => hasEdge_ofEntries, hcycles, ⟨?_, hnodup⟩, fun walk hw => ?_, fun h => ?_, fun ⟨v, hv⟩ => ?_⟩
  · rw [closingEdges, List.length_filterMap_eq_countP, List.countP_eq_length]
    intro c hc
    obtain ⟨e, he⟩ := (hcycles c hc).1.exists_closingEdge?
    simp [he]
  · by_contra hne
    have hc : walk.IsChain fun x y => (ofEntries entries).HasEdge x y ∧ (x, y) ∉ (ofEntries entries).closingEdges :=
      isChain_and_not_of_zip_tail hw.2 fun e he hm => hne ⟨e, he, hm⟩
    obtain ⟨v, hv⟩ := IsClosedWalk.transGen ⟨hw.1, hc⟩
    exact not_transGen_of_rank (fun x y h => hrank x y h.1 h.2) v hv
  · obtain ⟨c, hc⟩ := List.exists_mem_of_ne_nil (ofEntries entries).cycles (by simpa [hasCycles] using h)
    exact (hcycles c hc).1.transGen
  · by_contra hne
    have hnil : (ofEntries entries).closingEdges = [] := by
      have hc : (ofEntries entries).cycles = [] := by simpa [hasCycles] using hne
      simp [closingEdges, hc]
    exact not_transGen_of_rank (fun x y h => hrank x y h (by simp [hnil])) v hv

end DependencyGraph

end MarkdownTemplates
