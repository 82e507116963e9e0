import MarkdownTemplates.Proofs.Graph.Cycles

/-!
# Ids on cycles

Only ids on cycles are named in the reported cycles, but not all of them: the search reports one cycle for each edge that leads
back, so of two cycles with such an edge in common it may report one. What can be said of every id on a cycle is that a reported
cycle has an edge in common with its own, and that the id itself is named when no cycle with such an edge avoids it.
-/

namespace MarkdownTemplates

open Relation (TransGen)

variable {edge : String → String → Prop} {walk : List String} {x y : String} {e : String × String}

/-- From every vertex of a closed walk there is a way to every other. -/
theorem IsClosedWalk.transGen_of_mem (h : IsClosedWalk edge walk) (hx : x ∈ walk) (hy : y ∈ walk) : TransGen edge x y := by
  obtain ⟨⟨v, vs, rfl⟩, hc⟩ := h
  have hpairs : (v :: vs ++ [v]).Pairwise (TransGen edge) :=
    List.isChain_iff_pairwise.mp (hc.imp fun _ _ => TransGen.single)
  -- The walk passes from its start to the vertex, and from there to its end, which is the start.
  have hround : ∀ z ∈ v :: (vs ++ [v]), TransGen edge v z ∧ TransGen edge z v := by
    have hv : TransGen edge v v := hpairs.rel_of_mem_append (by simp) (by simp)
    intro z hz
    rcases List.mem_cons.mp hz with rfl | hz
    · exact ⟨hv, hv⟩
    · rcases List.mem_append.mp hz with hz | hz
      · exact ⟨(List.pairwise_cons.mp hpairs).1 z (by simp [hz]),
          hpairs.rel_of_mem_append (List.mem_cons_of_mem _ hz) (by simp)⟩
      · rw [List.mem_singleton.mp hz]
        exact ⟨hv, hv⟩
  exact (hround x hx).2.trans (hround y hy).1

/-- The last two vertices of a walk are an edge of it. -/
theorem mem_zip_tail_concat (a b : String) (l : List String) : (a, b) ∈ (l ++ [a, b]).zip (l ++ [a, b]).tail := by
  induction l with
  | nil => simp
  | cons c l ih =>
    cases hl : l ++ [a, b] with
    | nil => simp at hl
    | cons x rest =>
      rw [hl] at ih
      rw [List.cons_append, List.tail_cons, hl, List.zip_cons_cons]
      exact List.mem_cons_of_mem _ ih

theorem mem_zip_of_closingEdge? (h : closingEdge? walk = some e) : e ∈ walk.zip walk.tail := by
  unfold closingEdge? at h
  split at h
  · rename_i b a l hr
    obtain rfl := Option.some.inj h
    have hw : walk = l.reverse ++ [a, b] := by
      rw [← List.reverse_reverse walk, hr]
      simp
    rw [hw]
    exact mem_zip_tail_concat a b l.reverse
  · cases h

theorem mem_of_mem_zip_tail (h : e ∈ walk.zip walk.tail) : e.1 ∈ walk ∧ e.2 ∈ walk :=
  (List.of_mem_zip h).imp_right List.mem_of_mem_tail

namespace DependencyGraph

variable {entries : List (String × List String)}

/-- Every closed walk has an edge that closes a reported cycle, which is a simple one. -/
theorem exists_cycle_of_isClosedWalk (h : IsClosedWalk (ofEntries entries).HasEdge walk) :
    ∃ e ∈ walk.zip walk.tail, ∃ c ∈ (ofEntries entries).cycles,
      closingEdge? c = some e ∧ IsSimpleCycle (ofEntries entries).HasEdge c := by
  obtain ⟨hcycles, -, rank, hrank⟩ := search_ofEntries entries
  have hedge : ∃ e ∈ walk.zip walk.tail, e ∈ (ofEntries entries).closingEdges := by
    by_contra hne
    have hopen : walk.IsChain fun x y => (ofEntries entries).HasEdge x y ∧ (x, y) ∉ (ofEntries entries).closingEdges :=
      isChain_and_not_of_zip_tail h.2 fun e he hm => hne ⟨e, he, hm⟩
    obtain ⟨v, hv⟩ := IsClosedWalk.transGen ⟨h.1, hopen⟩
    exact not_transGen_of_rank (fun x y he => hrank x y he.1 he.2) v hv
  obtain ⟨e, he, hm⟩ := hedge
  obtain ⟨c, hc, hclosing⟩ := List.mem_filterMap.mp hm
  exact ⟨e, he, c, hc, hclosing, hcycles c hc⟩

/-- The ids in reported cycles are on cycles. On every closed walk there are two neighbours of which a reported cycle that the edge
between them closes names both, and from there a way leads to all ids of the walk and back. An id of the walk is named itself when
every simple cycle that has an edge in common with the walk passes through it. -/
theorem cycles_ofEntries_name (entries : List (String × List String)) :
    (∀ c ∈ (ofEntries entries).cycles, ∀ x ∈ c, TransGen (ofEntries entries).HasEdge x x) ∧
      ∀ walk, IsClosedWalk (ofEntries entries).HasEdge walk →
        (∃ e ∈ walk.zip walk.tail, ∃ c ∈ (ofEntries entries).cycles, closingEdge? c = some e ∧ e.1 ∈ c ∧ e.2 ∈ c ∧
          ∀ x ∈ walk, ∀ y ∈ c,
            TransGen (ofEntries entries).HasEdge x y ∧ TransGen (ofEntries entries).HasEdge y x) ∧
        ∀ x ∈ walk, (∀ c, IsSimpleCycle (ofEntries entries).HasEdge c →
            (∃ e ∈ walk.zip walk.tail, e ∈ c.zip c.tail) → x ∈ c) →
          ∃ c ∈ (ofEntries entries).cycles, x ∈ c := by
  refine ⟨fun c hc x hx => ?_, fun walk hwalk => ?_⟩
  · obtain ⟨hcycles, -⟩ := search_ofEntries entries
    exact (hcycles c hc).1.transGen_of_mem hx hx
  · obtain ⟨e, he, c, hc, hclosing, hsimple⟩ := exists_cycle_of_isClosedWalk hwalk
    have hcommon := mem_zip_of_closingEdge? hclosing
    obtain ⟨hsource, htarget⟩ := mem_of_mem_zip_tail hcommon
    have hmeet := (mem_of_mem_zip_tail he).1
    refine ⟨⟨e, he, c, hc, hclosing, hsource, htarget, fun x hx y hy => ⟨?_, ?_⟩⟩, fun x _ hall => ?_⟩
    · exact (hwalk.transGen_of_mem hx hmeet).trans (hsimple.1.transGen_of_mem hsource hy)
    · exact (hsimple.1.transGen_of_mem hy hsource).trans (hwalk.transGen_of_mem hmeet hx)
    · exact ⟨c, hc, hall c hsimple ⟨e, he, hcommon⟩⟩

/-! ## Two cycles with an edge in common -/

/-- One way from `a` back to itself leads over `b`, another one over `c` and `b`. -/
def sharing : List (String × List String) := [("a", ["b", "c"]), ("b", ["a"]), ("c", ["b"])]

theorem cycles_sharing : (ofEntries sharing).cycles = [["a", "b", "a"]] := by
  cbv

theorem hasEdge_sharing : (ofEntries sharing).HasEdge x y ↔ (x, y) ∈ [("a", "b"), ("a", "c"), ("b", "a"), ("c", "b")] := by
  rw [hasEdge_ofEntries]
  constructor
  · rintro ⟨targets, hm, hy⟩
    simp only [sharing, List.mem_cons, Prod.mk.injEq, List.not_mem_nil, or_false] at hm
    rcases hm with ⟨rfl, rfl⟩ | ⟨rfl, rfl⟩ | ⟨rfl, rfl⟩ <;> simpa using hy
  · simp only [List.mem_cons, Prod.mk.injEq, List.not_mem_nil, or_false]
    rintro (⟨rfl, rfl⟩ | ⟨rfl, rfl⟩ | ⟨rfl, rfl⟩ | ⟨rfl, rfl⟩) <;> simp [sharing]

theorem isClosedWalk_sharing : IsClosedWalk (ofEntries sharing).HasEdge ["a", "c", "b", "a"] ∧
    IsClosedWalk (ofEntries sharing).HasEdge ["a", "b", "a"] := by
  refine ⟨⟨⟨"a", ["c", "b"], rfl⟩, ?_⟩, ⟨⟨"a", ["b"], rfl⟩, ?_⟩⟩ <;> simp [hasEdge_sharing]

/-- The longer cycle has an edge in common with the reported one. The id `b` is named, as no cycle over the edges between `a` and
`b` avoids it. -/
theorem cycles_ofEntries_name_sharing :
    (∃ e ∈ [("a", "c"), ("c", "b"), ("b", "a")], ∃ c ∈ (ofEntries sharing).cycles,
      closingEdge? c = some e ∧ e.1 ∈ c ∧ e.2 ∈ c ∧ ∀ y ∈ c, TransGen (ofEntries sharing).HasEdge "c" y) ∧
      ∃ c ∈ (ofEntries sharing).cycles, "b" ∈ c := by
  obtain ⟨-, hname⟩ := cycles_ofEntries_name sharing
  obtain ⟨hlong, hshort⟩ := isClosedWalk_sharing
  obtain ⟨⟨e, he, c, hc, hclosing, hsource, htarget, hall⟩, -⟩ := hname _ hlong
  refine ⟨⟨e, he, c, hc, hclosing, hsource, htarget, fun y hy => (hall "c" (by simp) y hy).1⟩, ?_⟩
  refine (hname _ hshort).2 "b" (by simp) fun c _ ⟨e, he, hm⟩ => ?_
  obtain ⟨hsource, htarget⟩ := mem_of_mem_zip_tail hm
  simp only [List.tail_cons, List.zip_cons_cons, List.zip_nil_right, List.mem_cons, List.not_mem_nil, or_false] at he
  rcases he with rfl | rfl
  · exact htarget
  · exact hsource

/-- The id `c` is on a cycle, but the only cycle that is reported avoids it. -/
theorem not_cycles_ofEntries_name :
    ¬ ∀ (entries : List (String × List String)) (x : String), TransGen (ofEntries entries).HasEdge x x →
      ∃ c ∈ (ofEntries entries).cycles, x ∈ c := by
  intro h
  obtain ⟨c, hc, hx⟩ := h sharing "c" (isClosedWalk_sharing.1.transGen_of_mem (by simp) (by simp))
  rw [cycles_sharing, List.mem_singleton] at hc
  simp [hc] at hx

end DependencyGraph

end MarkdownTemplates
