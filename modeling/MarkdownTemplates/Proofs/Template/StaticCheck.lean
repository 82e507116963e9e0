import MarkdownTemplates.Document
import MarkdownTemplates.Proofs.Graph.Cycles
import MarkdownTemplates.Proofs.Template.Acyclic
import MarkdownTemplates.Proofs.Template.Collecting
import MarkdownTemplates.Proofs.Template.Reference

/-!
# The graph of a collection

The graph of collected definitions knows the references without `src` at every depth, and expansion follows the references among
the direct members, with or without `src`. Where these are the same, the graph tells which definitions expand.
-/

namespace MarkdownTemplates

open Relation (ReflTransGen TransGen)

namespace Node

/-- Do all references with an id below the node stand among its children, without a `src`? -/
def HasDirectReferences (n : Node) : Prop :=
  ∀ m ∈ preorderList n.children, ∀ y, m.RefersTo y → m ∈ n.children ∧ m.attribute? "src" = none

theorem HasDirectReferences.of_leaves {n : Node} (h : ∀ m ∈ n.children, m.children = [] ∧ m.attribute? "src" = none) :
    n.HasDirectReferences := by
  intro m hm y _
  rw [preorderList_of_leaves fun m hm => (h m hm).1] at hm
  exact ⟨hm, (h m hm).2⟩

theorem HasDirectReferences.mem_dependencies {n : Node} (h : n.HasDirectReferences) {y : String} :
    y ∈ n.dependencies ↔ ∃ m ∈ n.children, m.RefersTo y := by
  rw [Node.mem_dependencies]
  constructor
  · rintro ⟨m, hm, hy, -⟩
    exact ⟨m, (h m hm y hy).1, hy⟩
  · rintro ⟨m, hm, hy⟩
    exact ⟨m, mem_preorderList_of_mem hm, hy, (h m (mem_preorderList_of_mem hm) y hy).2⟩

end Node

namespace Definitions

variable {ds : Definitions} {limit : Nat} {file : Option Path} {root : Node} {x y : String}

theorem exists_node_of_collect (h : TemplateDefinition.collect file root = .ok ds) {d : TemplateDefinition}
    (hd : ds.get? x = some d) : ∃ n ∈ root.preorder, n.isDefinition = true ∧ d = .ofNode x file n := by
  obtain ⟨s, hs, -, rfl⟩ := (TemplateDefinition.collect_eq_ok.mp h).exists_of_get? hd
  obtain ⟨n, hn, rfl⟩ := List.mem_map.mp hs
  obtain ⟨hn, hdef⟩ := List.mem_filter.mp hn
  exact ⟨n, hn, hdef, rfl⟩

theorem id_of_collect (h : TemplateDefinition.collect file root = .ok ds) {d : TemplateDefinition}
    (hd : ds.get? x = some d) : d.id = x := by
  obtain ⟨n, -, -, rfl⟩ := exists_node_of_collect h hd
  rfl

theorem hasEdge_ofDefinitions (h : TemplateDefinition.collect file root = .ok ds) :
    (DependencyGraph.ofDefinitions ds).HasEdge x y ↔ ∃ d, ds.get? x = some d ∧ y ∈ d.dependencies := by
  rw [DependencyGraph.ofDefinitions, DependencyGraph.hasEdge_ofEntries]
  constructor
  · rintro ⟨targets, hm, hy⟩
    obtain ⟨d, hd, he⟩ := List.mem_map.mp hm
    obtain ⟨k, hk⟩ := Dict.mem_values.mp hd
    obtain ⟨rfl, rfl⟩ := Prod.mk.inj he
    exact ⟨d, by rwa [id_of_collect h hk], hy⟩
  · rintro ⟨d, hd, hy⟩
    exact ⟨d.dependencies, List.mem_map.mpr ⟨d, Dict.mem_values.mpr ⟨x, hd⟩, by rw [id_of_collect h hd]⟩, hy⟩

theorem contains_nodes_ofDefinitions (h : TemplateDefinition.collect file root = .ok ds) :
    (DependencyGraph.ofDefinitions ds).nodes.contains x = true ↔ ds.contains x = true := by
  rw [DependencyGraph.ofDefinitions, DependencyGraph.contains_nodes_ofEntries, List.map_map, Dict.contains_iff]
  constructor
  · intro hm
    obtain ⟨d, hd, rfl⟩ := List.mem_map.mp hm
    obtain ⟨k, hk⟩ := Dict.mem_values.mp hd
    exact ⟨d, by simpa [id_of_collect h hk] using hk⟩
  · rintro ⟨d, hd⟩
    exact List.mem_map.mpr ⟨d, Dict.mem_values.mpr ⟨x, hd⟩, id_of_collect h hd⟩

/-- With direct references only, the edges of the graph are the uses. -/
theorem uses_iff_hasEdge (h : TemplateDefinition.collect file root = .ok ds)
    (hr : ∀ n ∈ root.preorder, n.isDefinition = true → n.HasDirectReferences) :
    ds.Uses = (DependencyGraph.ofDefinitions ds).HasEdge := by
  funext x y
  rw [eq_iff_iff, hasEdge_ofDefinitions h]
  refine exists_congr fun d => and_congr_right fun hd => ?_
  obtain ⟨n, hn, hdef, rfl⟩ := exists_node_of_collect h hd
  exact (hr n hn hdef).mem_dependencies.symm

/-- Everything expands exactly when nothing leads back to itself and everything that is used is defined. -/
theorem forall_exists_expand_iff (hl : ds.size ≤ limit) :
    (∀ x, ds.contains x = true → ∃ e, ds.expand limit x = .ok e) ↔
      (∀ x, ¬ TransGen ds.Uses x x) ∧ ∀ x y, ds.Uses x y → ds.contains y = true := by
  have hkey : ∀ {x y}, ds.Uses x y → ds.contains x = true := fun ⟨d, hd, _⟩ => Dict.contains_iff.mpr ⟨d, hd⟩
  constructor
  · intro hall
    refine ⟨fun x hx => ?_, fun x y hu => ?_⟩
    · obtain ⟨y, hu, -⟩ := TransGen.head'_iff.mp hx
      exact (exists_expand_of_size_le hl).mp (hall x (hkey hu)) |>.2 x .refl hx
    · exact (exists_expand_of_size_le hl).mp (hall x (hkey hu)) |>.1 y (.single hu)
  · rintro ⟨hacyclic, hclosed⟩ x hx
    refine (exists_expand_of_size_le hl).mpr ⟨fun y hy => ?_, fun y _ => hacyclic y⟩
    rcases ReflTransGen.cases_tail hy with rfl | ⟨z, -, hu⟩
    · exact hx
    · exact hclosed z y hu

/-- Where every reference below a definition is a direct member of it without `src`, all definitions of a document expand
exactly when their graph has no cycle and no edge to an id without definition. No expansion then reports a circular reference
unless the graph has a cycle. -/
theorem expands_iff_graph (h : TemplateDefinition.collect file root = .ok ds)
    (hr : ∀ n ∈ root.preorder, n.isDefinition = true → n.HasDirectReferences) (hl : ds.size ≤ limit) :
    ((∀ x, ds.contains x = true → ∃ e, ds.expand limit x = .ok e) ↔
      (DependencyGraph.ofDefinitions ds).cycles = [] ∧
        ∀ x y, (DependencyGraph.ofDefinitions ds).HasEdge x y → (DependencyGraph.ofDefinitions ds).nodes.contains y = true) ∧
    ∀ x p, ds.expand limit x = .error p → p.kind = .circularReference →
      (DependencyGraph.ofDefinitions ds).hasCycles = true := by
  have hcycles : (DependencyGraph.ofDefinitions ds).cycles = [] ↔ ∀ x, ¬ TransGen ds.Uses x x := by
    rw [uses_iff_hasEdge h hr]
    exact DependencyGraph.cycles_ofEntries_eq_nil
  constructor
  · simp only [forall_exists_expand_iff hl, hcycles, contains_nodes_ofDefinitions h, ← uses_iff_hasEdge h hr]
  · intro x p hx hp
    by_contra hno
    have hnil : (DependencyGraph.ofDefinitions ds).cycles = [] := by simpa [DependencyGraph.hasCycles] using hno
    obtain ⟨y, hy⟩ := exists_transGen_of_expand hx hp
    exact hcycles.mp hnil y hy

/-- The template `a` uses `b`. -/
def pairDocument : Document :=
  .parse ":::template\x7bid=\"a\"\x7d\n::template\x7bid=\"b\"\x7d\n:::\n:::template\x7bid=\"b\"\x7d\n:::\n".toList

/-- The only edge of the graph leads from `a` to `b`, so both templates expand. -/
theorem expands_iff_graph_pair : ∃ ds, TemplateDefinition.collect none pairDocument.root = .ok ds ∧ ds.contains "a" = true ∧
    ∀ x, ds.contains x = true → ∃ e, ds.expand 2 x = .ok e := by
  have hread : (TemplateDefinition.collect none pairDocument.root).toOption.map
      (fun ds => (ds.contains "a", ds.size, ds.values.map fun d => (d.id, d.dependencies))) =
      some (true, 2, [("a", ["b"]), ("b", [])]) := by decide +kernel
  have hleaves : (pairDocument.root.preorder.filter Node.isDefinition).all (fun n =>
      n.children.all fun m => m.children.isEmpty && (m.attribute? "src").isNone) = true := by decide +kernel
  have hdirect : ∀ n ∈ pairDocument.root.preorder, n.isDefinition = true → n.HasDirectReferences := by
    intro n hn hdef
    have hn := List.all_eq_true.mp hleaves n (List.mem_filter.mpr ⟨hn, hdef⟩)
    exact .of_leaves fun m hm => by simpa using List.all_eq_true.mp hn m hm
  cases hds : TemplateDefinition.collect none pairDocument.root with
  | error p => simp [hds, Except.toOption] at hread
  | ok ds =>
    obtain ⟨ha, hsize, hentries⟩ : ds.contains "a" = true ∧ ds.size = 2 ∧
        (ds.values.map fun d => (d.id, d.dependencies)) = [("a", ["b"]), ("b", [])] := by
      simpa [hds, Except.toOption] using hread
    have hgraph : DependencyGraph.ofDefinitions ds = .ofEntries [("a", ["b"]), ("b", [])] := by
      rw [DependencyGraph.ofDefinitions, hentries]
    have hedge : ∀ x y, (DependencyGraph.ofDefinitions ds).HasEdge x y → x = "a" ∧ y = "b" := by
      intro x y he
      obtain ⟨targets, ht, hy⟩ := DependencyGraph.hasEdge_ofEntries.mp (hgraph ▸ he)
      rcases List.mem_pair.mp ht with h | h <;> obtain ⟨rfl, rfl⟩ := Prod.mk.inj h <;> simp at hy
      exact ⟨rfl, hy⟩
    refine ⟨ds, rfl, ha, (expands_iff_graph hds hdirect hsize.le).1.mpr ⟨?_, fun x y he => ?_⟩⟩
    · let rank : String → Nat := fun v => if v = "a" then 0 else 1
      have hrank : ∀ x y, (DependencyGraph.ofDefinitions ds).HasEdge x y → rank x < rank y := by
        intro x y he
        obtain ⟨rfl, rfl⟩ := hedge x y he
        decide
      exact DependencyGraph.cycles_ofEntries_eq_nil.mpr (not_transGen_of_rank hrank)
    · obtain ⟨-, rfl⟩ := hedge x y he
      rw [hgraph, DependencyGraph.contains_nodes_ofEntries]
      decide

end Definitions

end MarkdownTemplates
