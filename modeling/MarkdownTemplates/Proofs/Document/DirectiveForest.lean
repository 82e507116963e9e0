import MarkdownTemplates.Proofs.Document.Writing

/-!
# Forests of directives

Containers and leaves that stand in containers, and nothing else. What is written for such a forest is read as the forest, to any
depth and whatever stands in the values of its attributes.
-/

namespace MarkdownTemplates

/-- A head that keeps to the grammar and takes one line. -/
structure Head.IsWritable (h : Head) : Prop extends h.IsReadable where
  label_line : ∀ l ∈ h.label, '\n' ∉ l.toList
  values_line : ∀ v ∈ h.attributes.values.values, '\n' ∉ v.toList

instance (h : Head) : Decidable h.IsWritable :=
  decidable_of_iff (h.IsReadable ∧ h.label.toList.all (fun l => '\n' ∉ l.toList) = true
      ∧ h.attributes.values.values.all (fun v => '\n' ∉ v.toList) = true)
    ⟨fun ⟨h₁, h₂, h₃⟩ => ⟨h₁, by simpa using h₂, by simpa using h₃⟩,
      fun h => ⟨h.toIsReadable, by simpa using h.label_line, by simpa using h.values_line⟩⟩

theorem Head.IsWritable.lineFeed_notMem {h : Head} (hw : h.IsWritable) : '\n' ∉ h.source :=
  hw.toIsReadable.lineFeed_notMem hw.label_line hw.values_line

namespace Node

def leafNode (head : Head) (span : Option Span) : Node where
  kind := .leafDirective
  name := head.name
  label := head.label
  attributes := head.attributes
  span := span

def containerNode (head : Head) (span : Option Span) (children : List Node) : Node :=
  { leafNode head span with kind := .containerDirective, children }

inductive IsDirectiveForest : List Node → Prop
  | nil : IsDirectiveForest []
  | leaf {head : Head} {span : Option Span} {ns : List Node} (hhead : head.IsWritable) (hns : IsDirectiveForest ns) :
      IsDirectiveForest (leafNode head span :: ns)
  | container {head : Head} {span : Option Span} {children ns : List Node} (hhead : head.IsWritable)
      (hchildren : IsDirectiveForest children) (hns : IsDirectiveForest ns) :
      IsDirectiveForest (containerNode head span children :: ns)

mutual

/-- The node without places, and without the lines that its leaves keep. -/
def bare : Node → Node
  | ⟨kind, name, label, attributes, value, checked, depth, children, _, raw⟩ =>
    ⟨kind, name, label, attributes, value, checked, depth, bareAll children, none,
      if kind = .leafDirective then none else raw⟩

def bareAll : List Node → List Node
  | [] => []
  | n :: ns => n.bare :: bareAll ns

end

theorem bareAll_append (ns ms : List Node) : bareAll (ns ++ ms) = bareAll ns ++ bareAll ms := by
  induction ns with
  | nil => rw [bareAll]; rfl
  | cons n ns ih => rw [List.cons_append, bareAll, bareAll, ih, List.cons_append]

theorem source_leafNode (head : Head) (span : Option Span) : (leafNode head span).source = head.line 2 := by
  rw [source.eq_def]
  rfl

theorem IsDirectiveForest.writesBack {ns : List Node} (h : IsDirectiveForest ns) (read : List Char → List Node) (fence : Nat)
    (lead : List Char) : WritesBack read (fun ms ns => bareAll ms = bareAll ns) fence lead ns := by
  induction h generalizing fence lead with
  | nil => exact .nil
  | @leaf head span ns hhead hns ih =>
    have hline : LineKind.ofLine (leafNode head span).source = .leaf head := by
      rw [source_leafNode, LineKind.ofLine_line hhead.toIsReadable le_rfl]
      rfl
    have hbody : LineKind.body (leafNode head span).source = (leafNode head span).source := by
      rw [source_leafNode]
      exact LineKind.body_line hhead.toIsReadable 2
    have hlf : '\n' ∉ (leafNode head span).source := by
      simp [source_leafNode, Head.line, hhead.lineFeed_notMem]
    refine .leaf hline hbody hlf (fun s => ?_) (ih fence _)
    simp [bareAll, bare, ofLeaf, leafNode]
  | @container head span children ns hhead hchildren hns ihc ih =>
    refine .container rfl hhead.toIsReadable rfl hhead.lineFeed_notMem (ihc _ _) (fun ms s hms => ?_) (ih fence _)
    have hms : bareAll ms = bareAll children := hms
    simp only [bareAll, bare, ofContainer, containerNode, leafNode, hms]

/-- Reading undoes writing on forests of directives. -/
theorem IsDirectiveForest.parse_toMarkdown {ns : List Node} (h : IsDirectiveForest ns) :
    (Document.parse (toMarkdown ns)).diagnostics = []
      ∧ bareAll (Document.parse (toMarkdown ns)).root.children = bareAll ns := by
  have hwritten := h.writesBack Markdown.read 0 []
  refine WritesBack.parseWith_toMarkdown (R := fun ms ns => bareAll ms = bareAll ns) (fun hab hcd => ?_) rfl hwritten
  rw [bareAll_append, bareAll_append, hab, hcd]

/-- A value that holds quotes, braces, backslashes and a fence, in a container in a container. -/
theorem IsDirectiveForest.parse_toMarkdown_nested :
    let hard : Head := ⟨"note", "a [b", { values := Dict.ofList [("k", "\"\x7d\\ ::: '"), ("empty", "")], flags := NameSet.insert ∅ "-x" }⟩
    let forest := [containerNode hard none [leafNode ⟨"x", none, {}⟩ none, containerNode ⟨"y", "", {}⟩ none []], leafNode hard none]
    IsDirectiveForest forest ∧ (Document.parse (toMarkdown forest)).diagnostics = []
      ∧ bareAll (Document.parse (toMarkdown forest)).root.children = bareAll forest := by
  intro hard forest
  have hx : (⟨"x", none, {}⟩ : Head).IsWritable := by decide +kernel
  have hy : (⟨"y", "", {}⟩ : Head).IsWritable := by decide +kernel
  have hhard : hard.IsWritable := by decide +kernel
  have hforest : IsDirectiveForest forest := .container hhard (.leaf hx (.container hy .nil .nil)) (.leaf hhard .nil)
  exact ⟨hforest, IsDirectiveForest.parse_toMarkdown hforest⟩

end Node

end MarkdownTemplates
