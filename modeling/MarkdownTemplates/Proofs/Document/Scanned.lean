import MarkdownTemplates.Proofs.Document.Scan

/-!
# Trees that were read

A document that was read holds leaves with the lines that they stood on, containers with the heads that opened them, and blocks. No
block of Markdown is a container or a leaf of its own.
-/

namespace MarkdownTemplates

namespace Node

/-- Does the node stand on lines of its own as a directive? -/
def isOwnLine (n : Node) : Bool := n.kind = .containerDirective || n.kind = .leafDirective

/-- Can the node stand for a block of Markdown? -/
def IsMarkdownBlock (n : Node) : Prop := n.kind ≠ .text ∧ n.isOwnLine = false

/-! ## Blocks of Markdown -/

theorem isMarkdownBlock_shiftAll {base : Point} {ns : List Node} (h : ∀ n ∈ ns, n.IsMarkdownBlock) :
    ∀ n ∈ shiftAll base ns, n.IsMarkdownBlock := by
  induction ns with
  | nil => simp [shiftAll]
  | cons n ns ih =>
    obtain ⟨hn, hns⟩ := List.forall_mem_cons.mp h
    cases n
    rw [shiftAll]
    exact List.forall_mem_cons.mpr ⟨hn, ih hns⟩

theorem isMarkdownBlock_splitInline {ns : List Node} (h : ∀ n ∈ ns, n.IsMarkdownBlock) :
    ∀ n ∈ splitInline ns, n.IsMarkdownBlock := by
  induction ns with
  | nil => simp [splitInline]
  | cons n ns ih =>
    obtain ⟨hn, hns⟩ := List.forall_mem_cons.mp h
    cases n
    rw [splitInline, if_neg hn.1]
    split_ifs
    · exact List.forall_mem_cons.mpr ⟨hn, ih hns⟩
    · exact List.forall_mem_cons.mpr ⟨hn, ih hns⟩

end Node

namespace Markdown

theorem isMarkdownBlock_addItem {mark : Char} {item : Node} {rest : List (Option Char × Node)}
    (h : ∀ p ∈ rest, p.2.IsMarkdownBlock) : ∀ p ∈ addItem mark item rest, p.2.IsMarkdownBlock := by
  have hlist : ∀ list : Node, list.kind = .list → list.IsMarkdownBlock := by
    intro list hk
    simp [Node.IsMarkdownBlock, Node.isOwnLine, hk]
  intro p hp
  simp only [addItem] at hp
  split at hp
  · rename_i m list rest'
    obtain ⟨hfirst, hrest⟩ := List.forall_mem_cons.mp h
    split_ifs at hp
    · rcases List.mem_cons.mp hp with rfl | hp
      · exact hfirst
      · exact hrest p hp
    · rcases List.mem_cons.mp hp with rfl | hp
      · exact hlist _ rfl
      · exact h p hp
  · rcases List.mem_cons.mp hp with rfl | hp
    · exact hlist _ rfl
    · exact h p hp

theorem isMarkdownBlock_markedNodes (context : InlineContext) (blocks : List Block) :
    ∀ p ∈ markedNodes context blocks, p.2.IsMarkdownBlock := by
  induction blocks with
  | nil => simp [markedNodes]
  | cons b rest ih =>
    have hcons : ∀ {n : Node}, n.IsMarkdownBlock → ∀ p ∈ (none, n) :: markedNodes context rest, p.2.IsMarkdownBlock :=
      fun hn => List.forall_mem_cons.mpr ⟨hn, ih⟩
    cases b with
    | item mark span blocks =>
      rcases blocks with - | ⟨b, blocks⟩
      · simp only [markedNodes]
        exact isMarkdownBlock_addItem ih
      · cases b <;> simp only [markedNodes] <;> exact isMarkdownBlock_addItem ih
    | _ =>
      simp only [markedNodes]
      exact hcons (by simp [Node.IsMarkdownBlock, Node.isOwnLine, paragraphNode])

theorem isMarkdownBlock_read (source : List Char) : ∀ n ∈ read source, n.IsMarkdownBlock := by
  intro n hn
  obtain ⟨p, hp, rfl⟩ := List.mem_map.mp hn
  exact isMarkdownBlock_markedNodes _ _ p hp

end Markdown

variable {read : List Char → List Node}

theorem Chunk.isOwnLine_nodes (hread : ∀ text, ∀ n ∈ read text, n.IsMarkdownBlock) (c : Chunk) :
    ∀ n ∈ c.nodes read, n.isOwnLine = false := by
  have hkept : ∀ n ∈ (read c.text).map (Node.keepSource c.text), n.IsMarkdownBlock := by
    intro n hn
    obtain ⟨m, hm, rfl⟩ := List.mem_map.mp hn
    exact hread c.text m hm
  exact fun n hn => (Node.isMarkdownBlock_splitInline (Node.isMarkdownBlock_shiftAll hkept) n hn).2

theorem Chunk.isOwnLine_contents (hread : ∀ text, ∀ n ∈ read text, n.IsMarkdownBlock) (c : Chunk) :
    ∀ n ∈ c.contents read, n.isOwnLine = false := by
  rw [Chunk.contents]
  split_ifs
  · simp
  · exact c.isOwnLine_nodes hread

/-! ## Scanned nodes -/

namespace Node

/-- The nodes of a container or of a whole document, as a scan finds them. -/
inductive IsScanned : List Node → Prop
  | nil : IsScanned []
  | leaf {head : Head} {line : List Char} {span : Span} {ns : List Node} (hline : LineKind.ofLine line = .leaf head)
      (hbody : LineKind.body line = line) (hlf : '\n' ∉ line) (hns : IsScanned ns) : IsScanned (ofLeaf head line span :: ns)
  | container {head : Head} {children ns : List Node} {span : Span} (hhead : head.IsReadable)
      (hlabel : ∀ l ∈ head.label, '\n' ∉ l.toList) (hchildren : IsScanned children) (hns : IsScanned ns) :
      IsScanned (ofContainer head children span :: ns)
  | block {n : Node} {ns : List Node} (hn : n.isOwnLine = false) (hns : IsScanned ns) : IsScanned (n :: ns)

variable {ns ms : List Node}

theorem IsScanned.append (hns : IsScanned ns) (hms : IsScanned ms) : IsScanned (ns ++ ms) := by
  induction hns with
  | nil => exact hms
  | leaf hline hbody hlf _ ih => exact .leaf hline hbody hlf ih
  | container hhead hlabel hchildren _ _ ih => exact .container hhead hlabel hchildren ih
  | block hn _ ih => exact .block hn ih

theorem IsScanned.of_blocks (h : ∀ n ∈ ns, n.isOwnLine = false) : IsScanned ns := by
  induction ns with
  | nil => exact .nil
  | cons n ns ih =>
    obtain ⟨hn, hns⟩ := List.forall_mem_cons.mp h
    exact .block hn (ih hns)

end Node

/-! ## What a scan puts together -/

open Node in
/-- Does the property hold of all nodes that a scan puts in one place, when it holds of the parts? -/
structure Scan.Collects (read : List Char → List Node) (P : List Node → Prop) : Prop where
  nil : P []
  append : ∀ {ns ms}, P ns → P ms → P (ns ++ ms)
  leaf : ∀ {head line span}, LineKind.ofLine line = .leaf head → LineKind.body line = line → '\n' ∉ line → P [ofLeaf head line span]
  container : ∀ {head children span}, head.IsReadable → (∀ l ∈ head.label, '\n' ∉ l.toList) → P children →
    P [ofContainer head children span]
  chunk : ∀ c : Chunk, P (c.contents read)

namespace Scan

open Node

variable {P : List Node → Prop} {s : Scan} {line : List Char}

/-- An open container, with what stands in front of it. -/
structure IsOpened (P : List Node → Prop) (c : OpenContainer) : Prop where
  head : c.head.IsReadable
  label : ∀ l ∈ c.head.label, '\n' ∉ l.toList
  before : P c.before

structure HasScanned (P : List Node → Prop) (s : Scan) : Prop where
  nodes : P s.nodes
  stack : ∀ c ∈ s.stack, IsOpened P c

theorem HasScanned.addMarkdown (h : s.HasScanned P) (line : List Char) : (s.addMarkdown line).HasScanned P := by
  rw [addMarkdown_eq]
  exact ⟨h.nodes, h.stack⟩

theorem HasScanned.flush (hP : Collects read P) (h : s.HasScanned P) : (s.flush read).HasScanned P := by
  rw [flush_eq]
  refine ⟨hP.append h.nodes ?_, h.stack⟩
  cases s.chunk with
  | none => exact hP.nil
  | some c => exact hP.chunk c

theorem HasScanned.closeContainer (hP : Collects read P) (h : s.HasScanned P) (stop : Point) : (s.closeContainer stop).HasScanned P := by
  rw [Scan.closeContainer]
  split
  · exact h
  · rename_i c stack hstack
    have hopened := h.stack c (by rw [hstack]; exact List.mem_cons_self)
    refine ⟨hP.append hopened.before (hP.container hopened.head hopened.label h.nodes), fun c' hc => ?_⟩
    exact h.stack c' (by rw [hstack]; exact List.mem_cons_of_mem _ hc)

theorem HasScanned.addOuterLine (hP : Collects read P) (h : s.HasScanned P) (hlf : '\n' ∉ LineKind.body line) :
    (s.addOuterLine read line).HasScanned P := by
  have hflush := h.flush hP
  simp only [Scan.addOuterLine]
  split
  · exact h.addMarkdown line
  · rw [addMarkdown_eq]
    exact ⟨h.nodes, h.stack⟩
  · rw [addClosingFence]
    split
    · rw [addMarkdown_eq]
      exact ⟨h.nodes, h.stack⟩
    · split_ifs
      · exact hflush.closeContainer hP _
      · exact h.addMarkdown line
  · rename_i size head hline
    obtain ⟨hhead, hlabel⟩ := LineKind.ofLine_eq_directive (.inr hline)
    refine ⟨hP.nil, fun c hc => ?_⟩
    rcases List.mem_cons.mp hc with rfl | hc
    · exact ⟨hhead, fun l hl hm => hlf (hlabel l hl _ hm), hflush.nodes⟩
    · exact hflush.stack c hc
  · rename_i head hline
    refine ⟨hP.append hflush.nodes (hP.leaf ?_ (LineKind.body_body line) hlf), hflush.stack⟩
    rw [LineKind.ofLine_body, hline]

theorem HasScanned.addLine (hP : Collects read P) (h : s.HasScanned P) (hlf : '\n' ∉ LineKind.body line) :
    (s.addLine read line).HasScanned P := by
  simp only [Scan.addLine]
  split
  · rw [addMarkdown_eq]
    exact ⟨h.nodes, h.stack⟩
  · have hline := h.addOuterLine hP hlf
    exact ⟨hline.nodes, hline.stack⟩

theorem HasScanned.foldl {lines : List (List Char)} (hP : Collects read P) (h : s.HasScanned P)
    (hlines : ∀ line ∈ lines, '\n' ∉ LineKind.body line) : (lines.foldl (Scan.addLine read) s).HasScanned P := by
  induction lines generalizing s with
  | nil => exact h
  | cons line lines ih =>
    obtain ⟨hline, hlines⟩ := List.forall_mem_cons.mp hlines
    exact ih (h.addLine hP hline) hlines

theorem HasScanned.closeAll (hP : Collects read P) (h : s.HasScanned P) : s.closeAll.HasScanned P := by
  have hclosed : ∀ (cs : List OpenContainer) {s : Scan}, s.HasScanned P →
      (cs.foldl (fun s _ => s.closeContainer s.point) s).HasScanned P := by
    intro cs
    induction cs with
    | nil => exact fun h => h
    | cons c cs ih => exact fun h => ih (h.closeContainer hP _)
  exact ⟨(hclosed s.stack h).nodes, (hclosed s.stack h).stack⟩

/-- What holds of all that a scan puts together holds of the document. -/
theorem Collects.parseWith (hP : Collects read P) (source : List Char) : P (Document.parseWith read source).root.children := by
  have hempty : ({} : Scan).HasScanned P := ⟨hP.nil, by simp⟩
  have hlines := hempty.foldl hP fun line hl => LineKind.notMem_body (s := source) hl
  exact ((hlines.flush hP).closeAll hP).nodes

end Scan

theorem Document.isScanned_parse (source : List Char) : Node.IsScanned (Document.parse source).root.children := by
  have hscanned : Scan.Collects Markdown.read Node.IsScanned :=
    { nil := .nil
      append := .append
      leaf := fun hline hbody hlf => .leaf hline hbody hlf .nil
      container := fun hhead hlabel hchildren => .container hhead hlabel hchildren .nil
      chunk := fun c => .of_blocks (c.isOwnLine_contents Markdown.isMarkdownBlock_read) }
  exact hscanned.parseWith source

end MarkdownTemplates
