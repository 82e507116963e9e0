import MarkdownTemplates.Proofs.Template.Expansion

/-!
# References below a node

The walk of a document comes to every node, and to the children of each node that it comes to. The dependencies of a node are the
ids of the references without `src` to which the walk comes below it.
-/

namespace MarkdownTemplates

namespace Node

theorem mem_preorder_self (n : Node) : n ∈ n.preorder := by
  cases n
  simp [preorder]

theorem mem_preorderList_of_mem {ns : List Node} {n : Node} (h : n ∈ ns) : n ∈ preorderList ns := by
  induction ns with
  | nil => simp at h
  | cons m ns ih =>
    rw [preorderList, List.mem_append]
    rcases List.mem_cons.mp h with rfl | h
    · exact .inl (mem_preorder_self n)
    · exact .inr (ih h)

mutual

theorem mem_preorder_of_mem_children {n m : Node} : ∀ root : Node, m ∈ root.preorder → n ∈ m.children → n ∈ root.preorder
  | ⟨kind, name, label, attributes, value, checked, depth, children, span, raw⟩, hm, hn => by
    rw [preorder, List.mem_cons] at hm ⊢
    rcases hm with rfl | hm
    · exact .inr (mem_preorderList_of_mem hn)
    · exact .inr (mem_preorderList_of_mem_children children hm hn)

theorem mem_preorderList_of_mem_children {n m : Node} :
    ∀ ns : List Node, m ∈ preorderList ns → n ∈ m.children → n ∈ preorderList ns
  | [], hm, _ => by simp [preorderList] at hm
  | k :: ns, hm, hn => by
    rw [preorderList, List.mem_append] at hm ⊢
    exact hm.imp (fun hm => mem_preorder_of_mem_children k hm hn) fun hm => mem_preorderList_of_mem_children ns hm hn

end

theorem preorderList_of_leaves {ns : List Node} (h : ∀ n ∈ ns, n.children = []) : preorderList ns = ns := by
  induction ns with
  | nil => rfl
  | cons n ns ih =>
    have hn : n.preorder = [n] := by
      have hc := h n List.mem_cons_self
      cases n
      simp only at hc
      simp [preorder, hc, preorderList]
    rw [preorderList, hn, ih fun m hm => h m (List.mem_cons_of_mem _ hm)]
    rfl

theorem localReference?_eq_some {n : Node} {y : String} :
    n.localReference? = some y ↔ n.RefersTo y ∧ n.attribute? "src" = none := by
  rw [localReference?, RefersTo]
  cases n.isReference <;> cases n.attribute? "src" <;> simp

theorem mem_dependencies {n : Node} {y : String} :
    y ∈ n.dependencies ↔ ∃ m ∈ preorderList n.children, m.RefersTo y ∧ m.attribute? "src" = none := by
  simp [dependencies, List.mem_eraseDups, List.mem_filterMap, localReference?_eq_some]

end Node

end MarkdownTemplates
