import MarkdownTemplates.Proofs.Graph.Cycles

/-!
# Reachable ids

What the search finds from some ids is closed under the edges of the graph, and all of it is at the end of a path. So the
transitive dependencies of a template are the ids to which at least one edge leads, and its transitive dependents those from
which one leads to it.
-/

namespace MarkdownTemplates

open Relation (TransGen)

namespace DependencyGraph

variable {a : Adjacency} {unfound : Std.TreeSet String} {found pending ids : List String} {x y : String}

theorem mem_unfound_erase {t : String} (hy : y ∈ unfound) (hne : y ≠ t) : y ∈ unfound.erase t := by
  rw [Std.TreeSet.mem_erase]
  exact ⟨fun he => hne (compare_eq_iff_eq.mp he).symm, hy⟩

theorem mem_follow_of_mem (h : y ∈ found) : y ∈ follow a unfound found pending := by
  fun_induction follow with
  | case1 => exact h
  | case2 _ _ _ _ _ ih => exact ih h
  | case3 _ _ _ _ t _ ih => exact ih (List.mem_cons_of_mem t h)

/-- Nothing to which a pending id leads is left out. -/
theorem mem_follow_of_pending (hx : x ∈ pending) (he : a.Leads x y) (hy : y ∈ unfound) :
    y ∈ follow a unfound found pending := by
  fun_induction follow with
  | case1 => simp at hx
  | case2 unfound found id pending hnone ih =>
    rcases List.mem_cons.mp hx with rfl | hx
    · -- All targets of this id have been found before.
      exact absurd hy (by simpa using List.find?_eq_none.mp hnone y he)
    · exact ih hx hy
  | case3 unfound found id pending t hsome ih =>
    by_cases ht : y = t
    · exact mem_follow_of_mem (ht ▸ List.mem_cons_self)
    · exact ih (List.mem_cons_of_mem t hx) (mem_unfound_erase hy ht)

/-- Nothing to which an id leads is left out once the id is found. -/
theorem mem_follow_of_follow (hx : x ∈ follow a unfound found pending) (hnew : x ∉ found) (he : a.Leads x y)
    (hy : y ∈ unfound) : y ∈ follow a unfound found pending := by
  fun_induction follow with
  | case1 => exact absurd hx hnew
  | case2 unfound found id pending hnone ih => exact ih hx hnew hy
  | case3 unfound found id pending t hsome ih =>
    by_cases ht : y = t
    · exact mem_follow_of_mem (ht ▸ List.mem_cons_self)
    · have hy := mem_unfound_erase hy ht
      by_cases hxt : x = t
      · exact mem_follow_of_pending (hxt ▸ List.mem_cons_self) he hy
      · exact ih hx (by simp [hxt, hnew]) hy

/-- What is found is at the end of a path from a pending id. -/
theorem transGen_of_mem_follow (h : y ∈ follow a unfound found pending) :
    y ∈ found ∨ ∃ x ∈ pending, TransGen a.Leads x y := by
  fun_induction follow with
  | case1 => exact .inl h
  | case2 unfound found id pending hnone ih =>
    exact (ih h).imp_right fun ⟨x, hx, hp⟩ => ⟨x, List.mem_cons_of_mem id hx, hp⟩
  | case3 unfound found id pending t hsome ih =>
    have ht : a.Leads id t := List.mem_of_find?_eq_some hsome
    rcases ih h with hf | ⟨x, hx, hp⟩
    · rcases List.mem_cons.mp hf with rfl | hf
      · exact .inr ⟨id, List.mem_cons_self, .single ht⟩
      · exact .inl hf
    · rcases List.mem_cons.mp hx with rfl | hx
      · exact .inr ⟨id, List.mem_cons_self, .head ht hp⟩
      · exact .inr ⟨x, hx, hp⟩

/-- The search that starts with nothing found finds exactly the ids at the ends of paths, when no target is left out. -/
theorem mem_follow (hall : ∀ x y, a.Leads x y → y ∈ unfound) :
    y ∈ follow a unfound [] ids ↔ ∃ x ∈ ids, TransGen a.Leads x y := by
  constructor
  · intro h
    exact (transGen_of_mem_follow h).resolve_left List.not_mem_nil
  · rintro ⟨x, hx, hp⟩
    induction hp with
    | single he => exact mem_follow_of_pending hx he (hall _ _ he)
    | tail _ he ih => exact mem_follow_of_follow ih List.not_mem_nil he (hall _ _ he)

theorem contains_reachable {edges : Dict NameSet} :
    (reachable edges ids).contains y = true ↔ ∃ x ∈ ids, TransGen (Adjacency.ofDict edges).Leads x y := by
  rw [reachable, NameSet.contains_ofList]
  refine mem_follow fun x y he => ?_
  rw [Adjacency.Leads, Adjacency.targets_ofDict] at he
  cases ht : edges.get? x with
  | none => simp [ht] at he
  | some targets =>
    have hm : y ∈ edges.values.flatMap NameSet.toList :=
      List.mem_flatMap.mpr ⟨targets, Dict.mem_values.mpr ⟨x, ht⟩, by simpa [ht] using he⟩
    rw [Std.TreeSet.mem_ofList]
    simpa using hm

/-- The transitive dependencies are the ids to which at least one edge leads. -/
theorem contains_transitiveDependencies {g : DependencyGraph} :
    (g.transitiveDependencies ids).contains y = true ↔ ∃ x ∈ ids, TransGen g.HasEdge x y := by
  rw [transitiveDependencies, contains_reachable, leads_ofDict]

theorem leads_reverse {g : DependencyGraph} : (Adjacency.ofDict (reverse g.edges)).Leads y x ↔ g.HasEdge x y := by
  have hpairs : (y, x) ∈ g.edges.entries.flatMap (fun e => e.2.toList.map (·, e.1)) ↔ g.HasEdge x y := by
    rw [List.mem_flatMap, hasEdge_iff]
    constructor
    · rintro ⟨⟨source, targets⟩, he, hm⟩
      obtain ⟨target, ht, heq⟩ := List.mem_map.mp hm
      obtain ⟨rfl, rfl⟩ := Prod.mk.inj heq
      exact ⟨targets, Dict.mem_entries.mp he, NameSet.mem_toList.mp ht⟩
    · rintro ⟨targets, ht, hy⟩
      exact ⟨(x, targets), Dict.mem_entries.mpr ht, List.mem_map.mpr ⟨y, NameSet.mem_toList.mpr hy, rfl⟩⟩
  rw [← hpairs, ← Dict.mem_group, Adjacency.Leads, Adjacency.targets_ofDict, reverse, Dict.get?_mapValues]
  cases (Dict.group (g.edges.entries.flatMap fun e => e.2.toList.map (·, e.1))).get? y with
  | none => simp
  | some sources => simp [NameSet.mem_toList, NameSet.contains_ofList]

/-- The transitive dependents are the ids from which at least one edge leads to the given ones. -/
theorem contains_transitiveDependents {g : DependencyGraph} (h : g.reverseEdges = reverse g.edges) :
    (g.transitiveDependents ids).contains x = true ↔ ∃ y ∈ ids, TransGen g.HasEdge x y := by
  have hswap : (Adjacency.ofDict (reverse g.edges)).Leads = Function.swap g.HasEdge := by
    funext y x
    exact propext leads_reverse
  rw [transitiveDependents, h, contains_reachable, hswap]
  simp only [Relation.transGen_swap]

end DependencyGraph

end MarkdownTemplates
