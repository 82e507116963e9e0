import Mathlib
import MarkdownTemplates.Markdown.Tree

/-!
# Markdown holds no directives

The nodes that are read from Markdown are blocks and inline content. None of them is a directive, to any depth: directives stand
on lines of their own or are cut out of text afterwards.
-/

namespace MarkdownTemplates

namespace Node

variable {n : Node} {ns ms : List Node}

theorem preorderList_append (ns ms : List Node) : preorderList (ns ++ ms) = preorderList ns ++ preorderList ms := by
  induction ns with
  | nil => rw [preorderList]; rfl
  | cons n ns ih => rw [List.cons_append, preorderList, preorderList, ih, List.append_assoc]

theorem preorder_eq (n : Node) : n.preorder = n :: preorderList n.children := by
  cases n
  rw [preorder]

/-- Is no node of the list a directive, and none below them? -/
def ArePlain (ns : List Node) : Prop := ∀ n ∈ preorderList ns, n.kind.isDirective = false

@[simp] theorem arePlain_nil : ArePlain [] := by simp [ArePlain, preorderList]

@[simp] theorem arePlain_cons : ArePlain (n :: ns) ↔ (n.kind.isDirective = false ∧ ArePlain n.children) ∧ ArePlain ns := by
  simp [ArePlain, preorderList, preorder_eq, or_imp, forall_and, and_assoc]

theorem arePlain_singleton (hkind : n.kind.isDirective = false) (hchildren : ArePlain n.children) : ArePlain [n] :=
  arePlain_cons.mpr ⟨⟨hkind, hchildren⟩, arePlain_nil⟩

theorem arePlain_iff : ArePlain ns ↔ ∀ n ∈ ns, ArePlain [n] := by
  induction ns with
  | nil => simp
  | cons n ns ih => rw [arePlain_cons, List.forall_mem_cons, ← ih, arePlain_cons]; simp

end Node

namespace Markdown

open Node

variable {n : Node} {items : List Item}

/-! ## Items -/

/-- Is no node among the items a directive, and none below them? -/
def Item.ArePlain (items : List Item) : Prop := ∀ n, .node n ∈ items → Node.ArePlain [n]

theorem Item.arePlain_node {n : Node} (hn : Node.ArePlain [n]) (h : ArePlain items) : ArePlain (.node n :: items) := by
  intro m hm
  rcases List.mem_cons.mp hm with he | hm
  · exact Item.node.inj he ▸ hn
  · exact h m hm

theorem Item.ArePlain.of_mem {items' : List Item} (h : ArePlain items) (hmem : ∀ n, .node n ∈ items' → .node n ∈ items) :
    ArePlain items' := fun n hn => h n (hmem n hn)

theorem Item.ArePlain.tail {i : Item} (h : ArePlain (i :: items)) : ArePlain items := h.of_mem fun _ => List.mem_cons_of_mem i

theorem Item.node_mem_settle (h : .node n ∈ items.map settle) : .node n ∈ items := by
  obtain ⟨i, hi, he⟩ := List.mem_map.mp h
  cases i with
  | node m => exact he ▸ hi
  | _ => cases he

theorem Item.node_mem_joinPlain (h : .node n ∈ joinPlain items) : .node n ∈ items := by
  induction items with
  | nil => cases h
  | cons i r ih =>
    simp only [joinPlain] at h
    split at h
    · rename_i a b rest hr
      have hrest : .node n ∈ rest := by simpa using h
      exact List.mem_cons_of_mem _ (ih (by rw [hr]; exact List.mem_cons_of_mem _ hrest))
    · rcases List.mem_cons.mp h with rfl | h
      · exact List.mem_cons_self
      · exact List.mem_cons_of_mem _ (ih h)

theorem Item.node_notMem_trimStop (beforeEol : Bool) (gs : List Glyph) : .node n ∉ trimStop beforeEol gs := by
  simp only [trimStop]
  split
  · split_ifs <;> simp
  · split_ifs <;> simp

theorem Item.node_mem_trimLines {atStart atStop : Bool} (h : .node n ∈ trimLines atStart atStop items) : .node n ∈ items := by
  induction items generalizing atStart with
  | nil => cases h
  | cons i r ih =>
    cases i with
    | plain gs =>
      simp only [trimLines] at h
      refine List.mem_cons_of_mem _ (ih ((List.mem_append.mp h).resolve_left fun hm => ?_))
      revert hm
      split
      · split_ifs <;> simp [node_notMem_trimStop]
      · split_ifs <;> simp [node_notMem_trimStop]
    | _ =>
      simp only [trimLines, List.mem_cons] at h ⊢
      exact h.imp_right ih

/-! ## Pieces -/

@[simp] theorem arePlain_textNode (text : List Char) (span : Span) : Node.ArePlain [textNode text span] :=
  arePlain_singleton rfl arePlain_nil

@[simp] theorem arePlain_literalLink (span : Span) (address : List Glyph) : Node.ArePlain [literalLink span address] :=
  arePlain_singleton rfl (arePlain_textNode _ _)

theorem Piece.arePlain_of_mem_ofPlain {inLink : Bool} {gs : List Glyph} (h : .node n ∈ ofPlain inLink gs) : Node.ArePlain [n] := by
  rw [ofPlain] at h
  split_ifs at h
  · cases h
  · simp at h
  · obtain ⟨⟨isMail, part⟩, -, he⟩ := List.mem_map.mp h
    cases isMail
    · cases he
    · obtain rfl := Piece.node.inj he
      exact arePlain_literalLink _ _

theorem Piece.arePlain_of_mem_ofItems {inLink : Bool} (hitems : Item.ArePlain items) (h : .node n ∈ ofItems inLink items) :
    Node.ArePlain [n] := by
  fun_induction ofItems inLink items with
  | case1 => cases h
  | case2 start g r ih =>
    rcases List.mem_cons.mp h with he | h
    · obtain rfl := Piece.node.inj he
      exact arePlain_singleton rfl arePlain_nil
    · exact ih hitems.tail.tail h
  | case3 start r _ ih => exact ih hitems.tail h
  | case4 gs r ih => exact (List.mem_append.mp h).elim arePlain_of_mem_ofPlain (ih hitems.tail)
  | case5 t s r ih => exact ih hitems.tail (by simpa using h)
  | case6 g r ih => exact ih hitems.tail (by simpa using h)
  | case7 m r ih =>
    rcases List.mem_cons.mp h with he | h
    · exact hitems n (Piece.node.inj he ▸ List.mem_cons_self)
    · exact ih hitems.tail h
  | case8 run r ih => exact (List.mem_append.mp h).elim arePlain_of_mem_ofPlain (ih hitems.tail)
  | case9 b r ih => exact (List.mem_append.mp h).elim arePlain_of_mem_ofPlain (ih hitems.tail)

theorem Piece.node_mem_joinTexts {ps : List Piece} (h : .node n ∈ joinTexts ps) : .node n ∈ ps := by
  induction ps with
  | nil => cases h
  | cons p r ih =>
    cases p with
    | node m =>
      rw [joinTexts, List.mem_cons] at h
      exact List.mem_cons.mpr (h.imp_right ih)
    | text t s =>
      simp only [joinTexts] at h
      refine List.mem_cons_of_mem _ (ih ?_)
      split at h
      · rename_i hr
        rw [hr]
        simpa using h
      · simpa using h

theorem arePlain_nodesOf {atStart atStop inLink : Bool} (h : Item.ArePlain items) : Node.ArePlain (nodesOf atStart atStop inLink items) := by
  refine arePlain_iff.mpr fun n hn => ?_
  obtain ⟨p, hp, rfl⟩ := List.mem_map.mp hn
  cases p with
  | text t s => exact arePlain_textNode t s
  | node m =>
    have hsettled : Item.ArePlain (Item.trimLines atStart atStop (Item.joinPlain (items.map Item.settle))) :=
      h.of_mem fun n hn => Item.node_mem_settle (Item.node_mem_joinPlain (Item.node_mem_trimLines hn))
    exact Piece.arePlain_of_mem_ofItems hsettled (Piece.node_mem_joinTexts hp)

/-! ## Emphasis -/

theorem eq_of_findOpener {closer opener : Run} {between before : List Item}
    (h : findOpener closer items = some (between, opener, before)) : items = between ++ .run opener :: before := by
  induction items generalizing between with
  | nil => cases h
  | cons i rest ih =>
    have hcons : (findOpener closer rest).map (fun p => (i :: p.1, p.2)) = some (between, opener, before) →
        i :: rest = between ++ .run opener :: before := by
      intro h
      obtain ⟨⟨between, opener, before⟩, hrest, he⟩ := Option.map_eq_some_iff.mp h
      cases he
      rw [ih hrest]
      rfl
    cases i with
    | run r =>
      rw [findOpener] at h
      split_ifs at h
      · cases h
        rfl
      · exact hcons h
    | _ => exact hcons h

theorem arePlain_emphasisNode (inLink : Bool) (openMarks closeMarks : List Glyph) (mark : Char) {between : List Item}
    (h : Item.ArePlain between) : Node.ArePlain [emphasisNode inLink openMarks closeMarks mark between] := by
  refine arePlain_singleton ?_ (arePlain_nodesOf (h.of_mem (by simp)))
  simp only [emphasisNode]
  split_ifs <;> rfl

theorem arePlain_closeRun (inLink : Bool) (r : Run) {done : List Item} (h : Item.ArePlain done) :
    Item.ArePlain (closeRun inLink r done) := by
  fun_induction closeRun inLink r done with
  | case1 => exact h
  | case2 r done first rest => exact h.of_mem (by simp)
  | case3 r done first rest _ between opener before hopener used kept closeMarks node ih =>
    have hfound : findOpener r done = some (between, opener, before) := by
      split_ifs at hopener
      exact hopener
    rw [eq_of_findOpener hfound] at h
    have hnode : Node.ArePlain [node] := arePlain_emphasisNode inLink _ _ _ (h.of_mem (by simp +contextual))
    refine ih (Item.arePlain_node hnode (h.of_mem fun n hn => ?_))
    rw [pushRun] at hn
    split_ifs at hn
    · simp [hn]
    · simp_all

theorem arePlain_pairRuns (inLink : Bool) (h : Item.ArePlain items) : Item.ArePlain (pairRuns inLink items) := by
  rw [pairRuns]
  refine (List.foldlRecOn (motive := Item.ArePlain) items _ (by simp [Item.ArePlain]) fun done hdone i hi => ?_).of_mem
    fun n hn => List.mem_reverse.mp hn
  cases i with
  | run r => exact arePlain_closeRun inLink r hdone
  | node n => exact Item.arePlain_node (h n hi) hdone
  | _ => exact hdone.of_mem (by simp)

theorem arePlain_emphasize {atStart atStop inLink : Bool} (h : Item.ArePlain items) :
    Node.ArePlain (emphasize atStart atStop inLink items) := arePlain_nodesOf (arePlain_pairRuns inLink h)

/-! ## Brackets -/

theorem eq_of_splitAtBracket {inner inner' before : List Item} {b : Bracket}
    (h : splitAtBracket inner items = some (inner', b, before)) : inner.reverse ++ items = inner'.reverse ++ .bracket b :: before := by
  fun_induction splitAtBracket inner items with
  | case1 => cases h
  | case2 inner b' rest =>
    cases h
    rfl
  | case3 inner i rest _ ih =>
    rw [← ih h]
    simp

theorem arePlain_bracketNode {context : InlineContext} {b : Bracket} {close : Glyph} {r rest : List Glyph}
    (hitems : Item.ArePlain items) (h : bracketNode context b items close r = some (n, rest)) : Node.ArePlain [n] := by
  simp only [bracketNode, Option.bind_eq_bind, Option.bind_eq_some_iff] at h
  obtain ⟨-, -, h⟩ := h
  split at h
  · cases h
    exact arePlain_singleton rfl arePlain_nil
  · obtain ⟨⟨isResource, rest'⟩, -, h⟩ := Option.bind_eq_some_iff.mp h
    cases h
    refine arePlain_singleton ?_ ?_
    · dsimp only
      split_ifs <;> rfl
    · dsimp only
      split_ifs
      · exact arePlain_nil
      all_goals exact arePlain_emphasize (hitems.of_mem (by simp))

theorem node_mem_deactivate (h : .node n ∈ items.map deactivate) : .node n ∈ items := by
  obtain ⟨i, hi, he⟩ := List.mem_map.mp h
  cases i with
  | node m => exact he ▸ hi
  | _ => cases he

theorem arePlain_closeBracket (context : InlineContext) {done : List Item} (close : Glyph) (r : List Glyph) (h : Item.ArePlain done) :
    Item.ArePlain (closeBracket context done close r).1 := by
  simp only [closeBracket]
  split
  · exact h.of_mem (by simp)
  · rename_i inner b before hsplit
    have heq := eq_of_splitAtBracket hsplit
    simp only [List.reverse_nil, List.nil_append] at heq
    subst heq
    split
    · rename_i n rest hn
      have hinner : Item.ArePlain inner := h.of_mem (by simp +contextual)
      refine Item.arePlain_node (arePlain_bracketNode hinner hn) ?_
      split_ifs
      · exact h.of_mem (by simp +contextual)
      · exact h.of_mem fun n hn => by simp [node_mem_deactivate hn]
    · exact h.of_mem (by simp +contextual)

theorem arePlain_readItem (context : InlineContext) (previous : Option Char) {done : List Item} (g : Glyph) (r : List Glyph)
    (h : Item.ArePlain done) : Item.ArePlain (readItem context previous done g r).1 := by
  have hother : ∀ {i : Item} {done : List Item}, (∀ n, i ≠ .node n) → Item.ArePlain done → Item.ArePlain (i :: done) :=
    fun hi h n hn => h n ((List.mem_cons.mp hn).resolve_left fun he => hi n he.symm)
  fun_cases readItem context previous done g r
  case case2 e _ _ => exact hother (by simp) (hother (by simp) h)
  case case8 => exact Item.arePlain_node (arePlain_singleton rfl arePlain_nil) h
  case case10 => exact Item.arePlain_node (arePlain_literalLink _ _) h
  case case11 => exact Item.arePlain_node (arePlain_singleton rfl arePlain_nil) h
  case case20 done' rest _ hclose =>
    have hdone := arePlain_closeBracket context g r h
    rw [hclose] at hdone
    exact hdone
  case case21 => exact Item.arePlain_node (arePlain_literalLink _ _) h
  -- What is left adds one item that is no node.
  all_goals exact hother (by simp) h

theorem arePlain_readItems (context : InlineContext) (previous : Option Char) {done : List Item} (skip : Nat) (gs : List Glyph)
    (h : Item.ArePlain done) : Item.ArePlain (readItems context previous done skip gs) := by
  fun_induction readItems context previous done skip gs with
  | case1 => exact h.of_mem (by simp)
  | case2 previous done skip g r ih => exact ih h
  | case3 previous done g r done' skip hread ih =>
    refine ih ?_
    have := arePlain_readItem context previous g r h
    rwa [hread] at this

theorem arePlain_inlineNodes (context : InlineContext) (gs : List Glyph) : Node.ArePlain (inlineNodes context gs) :=
  arePlain_emphasize (arePlain_readItems context none 0 gs (by simp [Item.ArePlain]))

theorem arePlain_inlineNodesAfter (previous : Char) (context : InlineContext) (gs : List Glyph) :
    Node.ArePlain (inlineNodesAfter previous context gs) :=
  arePlain_emphasize (arePlain_readItems context previous 0 gs (by simp [Item.ArePlain]))

/-! ## Blocks -/

theorem arePlain_paragraphNode (context : InlineContext) (gs : List Glyph) : Node.ArePlain [paragraphNode context gs] :=
  arePlain_singleton rfl (arePlain_inlineNodes context gs)

theorem arePlain_taskParagraph (context : InlineContext) (stop start : Point) (gs : List Glyph) :
    Node.ArePlain [taskParagraph context stop start gs] := by
  have hnodes := arePlain_inlineNodesAfter ']' context gs
  simp only [taskParagraph]
  split
  · rename_i first rest hsplit
    rw [hsplit] at hnodes
    have hrest := (arePlain_cons.mp hnodes).2
    split_ifs
    · exact arePlain_singleton rfl hrest
    · exact arePlain_singleton rfl (arePlain_cons.mpr ⟨⟨rfl, arePlain_nil⟩, hrest⟩)
    · exact arePlain_singleton rfl hnodes
  · exact arePlain_singleton rfl arePlain_nil

theorem arePlain_itemParagraph (context : InlineContext) (gs : List Glyph) : Node.ArePlain [(itemParagraph context gs).2] := by
  rw [itemParagraph]
  split
  · exact arePlain_taskParagraph _ _ _ _
  · exact arePlain_paragraphNode _ _

theorem arePlain_rowNode (context : InlineContext) (r : Row) : Node.ArePlain [rowNode context r] := by
  refine arePlain_singleton rfl (arePlain_iff.mpr fun n hn => ?_)
  obtain ⟨c, -, rfl⟩ := List.mem_map.mp hn
  exact arePlain_singleton rfl (arePlain_inlineNodes _ _)

theorem arePlain_addItem {mark : Char} {item : Node} {rest : List (Option Char × Node)} (hitem : Node.ArePlain [item])
    (hrest : Node.ArePlain (rest.map Prod.snd)) : Node.ArePlain ((addItem mark item rest).map Prod.snd) := by
  obtain ⟨hitem, -⟩ := arePlain_cons.mp hitem
  simp only [addItem]
  split
  · rename_i m list rest
    obtain ⟨⟨hkind, hchildren⟩, hbehind⟩ := arePlain_cons.mp hrest
    split_ifs
    · exact arePlain_cons.mpr ⟨⟨hkind, arePlain_cons.mpr ⟨hitem, hchildren⟩⟩, hbehind⟩
    · exact arePlain_cons.mpr ⟨⟨rfl, arePlain_cons.mpr ⟨hitem, arePlain_nil⟩⟩, hrest⟩
  · exact arePlain_cons.mpr ⟨⟨rfl, arePlain_cons.mpr ⟨hitem, arePlain_nil⟩⟩, hrest⟩

theorem arePlain_markedNodes (context : InlineContext) (blocks : List Block) :
    Node.ArePlain ((markedNodes context blocks).map Prod.snd) := by
  have hcons : ∀ {n : Node} {rest : List (Option Char × Node)}, Node.ArePlain [n] → Node.ArePlain (rest.map Prod.snd) →
      Node.ArePlain (((none, n) :: rest).map Prod.snd) :=
    fun hn hrest => arePlain_cons.mpr ⟨(arePlain_cons.mp hn).1, hrest⟩
  fun_induction markedNodes context blocks with
  | case1 => exact arePlain_nil
  | case2 rest _ gs ih => exact hcons (arePlain_paragraphNode context gs) ih
  | case3 rest _ depth span gs ih => exact hcons (arePlain_singleton rfl (arePlain_inlineNodes context gs)) ih
  | case4 rest _ span ih => exact hcons (arePlain_singleton rfl arePlain_nil) ih
  | case5 rest _ span value ih => exact hcons (arePlain_singleton rfl arePlain_nil) ih
  | case6 rest _ span value ih => exact hcons (arePlain_singleton rfl arePlain_nil) ih
  | case7 rest _ span ih => exact hcons (arePlain_singleton rfl arePlain_nil) ih
  | case8 rest _ span rows ih =>
    refine hcons (arePlain_singleton rfl (arePlain_iff.mpr fun n hn => ?_)) ih
    obtain ⟨r, -, rfl⟩ := List.mem_map.mp hn
    exact arePlain_rowNode context r
  | case9 rest _ span blocks ih ihb => exact hcons (arePlain_singleton rfl ihb) ih
  | case10 rest _ span blocks ih ihb => exact hcons (arePlain_singleton rfl ihb) ih
  | case11 rest _ mark span gs blocks checked paragraph hitem children ih ihb =>
    have hparagraph := arePlain_itemParagraph context gs
    rw [hitem] at hparagraph
    exact arePlain_addItem (arePlain_singleton rfl (arePlain_cons.mpr ⟨(arePlain_cons.mp hparagraph).1, ihb⟩)) ih
  | case12 rest _ mark span blocks _ ih ihb => exact arePlain_addItem (arePlain_singleton rfl ihb) ih

/-- No directive is read from Markdown. -/
theorem arePlain_read (source : List Char) : Node.ArePlain (read source) := arePlain_markedNodes _ _

end Markdown

end MarkdownTemplates
