import MarkdownTemplates.Document
import MarkdownTemplates.Document.Render
import MarkdownTemplates.Proofs.Text

/-!
# The directives of a document

The containers and the leaves of a document with their heads, nested as they stand. Neither they nor what is written for a node
depend on the places of the nodes, and so a chunk of Markdown may be read anywhere.
-/

namespace MarkdownTemplates

inductive DirectiveTree where
  | leaf (head : Head)
  | container (head : Head) (children : List DirectiveTree)

namespace DirectiveTree

mutual

def decEq : (t u : DirectiveTree) → Decidable (t = u)
  | leaf h, leaf k => decidable_of_iff (h = k) (by simp)
  | leaf _, container _ _ => isFalse (by simp)
  | container _ _, leaf _ => isFalse (by simp)
  | container h ts, container k us =>
    have := decEqAll ts us
    decidable_of_iff (h = k ∧ ts = us) (by simp)

def decEqAll : (ts us : List DirectiveTree) → Decidable (ts = us)
  | [], [] => isTrue rfl
  | [], _ :: _ => isFalse (by simp)
  | _ :: _, [] => isFalse (by simp)
  | t :: ts, u :: us =>
    have := decEq t u
    have := decEqAll ts us
    decidable_of_iff (t = u ∧ ts = us) (by simp)

end

instance : DecidableEq DirectiveTree := decEq

end DirectiveTree

namespace Node

def head (n : Node) : Head := ⟨n.name.getD "", n.label, n.attributes.getD {}⟩

mutual

/-- The containers and leaves of a node. Other nodes only pass on what is below them. -/
def directives : Node → List DirectiveTree
  | ⟨kind, name, label, attributes, value, checked, depth, children, span, raw⟩ =>
    let n : Node := ⟨kind, name, label, attributes, value, checked, depth, children, span, raw⟩
    if kind = .containerDirective then [.container n.head (directivesAll children)]
    else if kind = .leafDirective then [.leaf n.head]
    else directivesAll children

def directivesAll : List Node → List DirectiveTree
  | [] => []
  | n :: ns => n.directives ++ directivesAll ns

end

theorem directives_container {n : Node} (h : n.kind = .containerDirective) :
    n.directives = [.container n.head (directivesAll n.children)] := by
  cases n
  rw [directives.eq_def]
  exact if_pos h

theorem directivesAll_append (ns ms : List Node) : directivesAll (ns ++ ms) = directivesAll ns ++ directivesAll ms := by
  induction ns with
  | nil => rw [directivesAll]; rfl
  | cons n ns ih => rw [List.cons_append, directivesAll, directivesAll, ih, List.append_assoc]

theorem containerDepthList_append (ns ms : List Node) :
    containerDepthList (ns ++ ms) = max (containerDepthList ns) (containerDepthList ms) := by
  induction ns with
  | nil => rw [containerDepthList, List.nil_append, Nat.zero_max]
  | cons n ns ih => rw [List.cons_append, containerDepthList, containerDepthList, ih, Nat.max_assoc]

/-! ## Places -/

mutual

/-- The node without places. -/
def unplaced : Node → Node
  | ⟨kind, name, label, attributes, value, checked, depth, children, _, raw⟩ =>
    ⟨kind, name, label, attributes, value, checked, depth, unplacedAll children, none, raw⟩

def unplacedAll : List Node → List Node
  | [] => []
  | n :: ns => n.unplaced :: unplacedAll ns

end

theorem unplacedAll_append (ns ms : List Node) : unplacedAll (ns ++ ms) = unplacedAll ns ++ unplacedAll ms := by
  induction ns with
  | nil => rw [unplacedAll]; rfl
  | cons n ns ih => rw [List.cons_append, unplacedAll, unplacedAll, ih, List.cons_append]

mutual

theorem containerDepth_unplaced : ∀ n : Node, n.unplaced.containerDepth = n.containerDepth
  | ⟨_, _, _, _, _, _, _, children, _, _⟩ => by
    rw [unplaced, containerDepth, containerDepth, containerDepthList_unplacedAll children]

theorem containerDepthList_unplacedAll : ∀ ns : List Node, containerDepthList (unplacedAll ns) = containerDepthList ns
  | [] => by rw [unplacedAll]
  | n :: ns => by
    have hkind : n.unplaced.kind = n.kind := by cases n; rw [unplaced]
    rw [unplacedAll, containerDepthList, containerDepthList, containerDepth_unplaced n, containerDepthList_unplacedAll ns, hkind]

end

mutual

theorem source_unplaced : ∀ n : Node, n.unplaced.source = n.source
  | ⟨kind, name, label, attributes, value, checked, depth, children, span, raw⟩ => by
    have hdepth := containerDepth_unplaced ⟨kind, name, label, attributes, value, checked, depth, children, span, raw⟩
    rw [unplaced] at hdepth
    rw [unplaced, source.eq_def, source.eq_def]
    simp only [hdepth, sources_unplacedAll children]
    rfl

theorem sources_unplacedAll : ∀ ns : List Node, sources (unplacedAll ns) = sources ns
  | [] => by rw [unplacedAll]
  | n :: ns => by rw [unplacedAll, sources, sources, source_unplaced n, sources_unplacedAll ns]

end

mutual

theorem directives_unplaced : ∀ n : Node, n.unplaced.directives = n.directives
  | ⟨kind, name, label, attributes, value, checked, depth, children, span, raw⟩ => by
    rw [unplaced, directives.eq_def, directives.eq_def]
    simp only [directivesAll_unplacedAll children]
    rfl

theorem directivesAll_unplacedAll : ∀ ns : List Node, directivesAll (unplacedAll ns) = directivesAll ns
  | [] => by rw [unplacedAll]
  | n :: ns => by rw [unplacedAll, directivesAll, directivesAll, directives_unplaced n, directivesAll_unplacedAll ns]

end

/-! ## Chunks -/

theorem unplacedAll_shiftAll (base : Point) : ∀ ns : List Node, unplacedAll (shiftAll base ns) = unplacedAll ns
  | [] => by rw [shiftAll]
  | ⟨kind, name, label, attributes, value, checked, depth, children, span, raw⟩ :: ns => by
    rw [shiftAll, unplacedAll, unplacedAll, unplaced, unplaced, unplacedAll_shiftAll base children, unplacedAll_shiftAll base ns]

theorem unplacedAll_toNodes (stop stop' start start' : Option Point) (segments : List Segment) :
    unplacedAll (Segment.toNodes stop start segments) = unplacedAll (Segment.toNodes stop' start' segments) := by
  induction segments generalizing start start' with
  | nil => rfl
  | cons s segments ih =>
    cases segments with
    | nil => cases s <;> simp [Segment.toNodes, Segment.toNode, unplacedAll, unplaced]
    | cons t segments =>
      have hrest := ih (start.map (·.advance s.source)) (start'.map (·.advance s.source))
      cases s <;> simp only [Segment.toNodes, Segment.toNode, unplacedAll, unplaced, hrest]

theorem unplacedAll_splitText (n m : Node) (h : n.unplaced = m.unplaced) :
    unplacedAll n.splitText = unplacedAll m.splitText := by
  have hvalue : n.value = m.value := by
    have := congrArg Node.value h
    cases n; cases m
    simpa [unplaced] using this
  rw [splitText, splitText, hvalue]
  split
  · simp [unplacedAll, h]
  · dsimp only
    split_ifs
    · exact unplacedAll_toNodes _ _ _ _ _
    · simp [unplacedAll, h]

/-- Cutting text at its directives does not look at the places of nodes. -/
theorem unplacedAll_splitInline : ∀ {ns ms : List Node}, unplacedAll ns = unplacedAll ms →
    unplacedAll (splitInline ns) = unplacedAll (splitInline ms)
  | [], [], _ => rfl
  | [], m :: ms, h => by simp [unplacedAll] at h
  | n :: ns, [], h => by simp [unplacedAll] at h
  | ⟨kind, name, label, attributes, value, checked, depth, children, span, raw⟩ :: ns,
    ⟨kind', name', label', attributes', value', checked', depth', children', span', raw'⟩ :: ms, h => by
    rw [unplacedAll, unplacedAll] at h
    obtain ⟨hn, hns⟩ := List.cons.inj h
    have hrest := unplacedAll_splitInline hns
    have hsplit := unplacedAll_splitText _ _ hn
    have hnode := hn
    simp only [unplaced, Node.mk.injEq] at hn
    obtain ⟨rfl, rfl, rfl, rfl, rfl, rfl, rfl, hchildren, -, rfl⟩ := hn
    have hbelow := unplacedAll_splitInline hchildren
    rw [splitInline, splitInline]
    by_cases htext : kind = .text
    · rw [if_pos htext, if_pos htext, unplacedAll_append, unplacedAll_append, hsplit, hrest]
    · by_cases hverbatim : kind = .code ∨ kind = .inlineCode ∨ kind = .html
      · simp [htext, isVerbatim, or_assoc, hverbatim, unplacedAll, hnode, hrest]
      · simp [htext, isVerbatim, or_assoc, hverbatim, unplacedAll, unplaced, hbelow, hrest]

end Node

theorem Chunk.unplacedAll_nodes (read : List Char → List Node) (start start' : Point) (text : List Char) :
    Node.unplacedAll (Chunk.nodes read ⟨start, text⟩) = Node.unplacedAll (Chunk.nodes read ⟨start', text⟩) := by
  refine Node.unplacedAll_splitInline ?_
  rw [Node.unplacedAll_shiftAll, Node.unplacedAll_shiftAll]

end MarkdownTemplates
