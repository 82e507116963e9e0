import MarkdownTemplates.Proofs.Document.CodeFence
import MarkdownTemplates.Proofs.Position

/-!
# Where a scan puts its nodes

While a source is scanned, the nodes of the open containers reach up to the chunk that waits to be read, and the chunk reaches up to
the next line. A property of nodes that stand between two offsets holds of a whole document when it holds of the leaves, of the
containers and of the chunks, at the places where these stand in the source.
-/

namespace MarkdownTemplates

open Text (byteSize sliceBytes?)

/-- Is the place the one in front of a line of the source? -/
def Point.IsLineStart (source : List Char) (p : Point) : Prop :=
  p.column = 1 ∧ ∃ front behind, source = front ++ behind ∧ byteSize front = p.offset ∧ p.line = 1 + front.count '\n'

/-- The chunks that end while a scan goes on along the lines, and at the end of them. -/
def Scan.chunksFrom (read : List Char → List Node) (s : Scan) : List (List Char) → List Chunk
  | [] => s.chunk.toList
  | line :: lines =>
    (if (s.addLine read line).chunk.isNone then s.chunk.toList else []) ++ chunksFrom read (s.addLine read line) lines

/-- The chunks of a source, each of which is read on its own. -/
def Document.chunks (read : List Char → List Node) (source : List Char) : List Chunk :=
  Scan.chunksFrom read {} (Text.lines source)

namespace Scan

open Node

variable {read : List Char → List Node} {source front line : List Char} {s : Scan} {lo hi : Nat} {ns ms : List Node}
  {stack : List OpenContainer} {P : Nat → Nat → List Node → Prop}

/-- What a line does to a scan: it is put into the chunk, it opens a container, it is a leaf, or it closes the innermost container. -/
theorem addLine_cases (read : List Char → List Node) (s : Scan) (line : List Char) :
    (∃ code diagnostics, s.addLine read line =
        ⟨s.stack, s.nodes, some ⟨s.chunkStart, s.chunkText ++ line⟩, code, diagnostics, s.point.advance line⟩) ∨
      (∃ head size, s.addLine read line =
        ⟨⟨head, size, s.point, (s.flush read).nodes⟩ :: s.stack, [], none, none, s.diagnostics, s.point.advance line⟩) ∨
      (∃ head, s.addLine read line =
        ⟨s.stack, (s.flush read).nodes ++ [.ofLeaf head (LineKind.body line) ⟨s.point, s.point.advance (LineKind.body line)⟩], none, none,
          s.diagnostics, s.point.advance line⟩) ∨
      ∃ c stack, s.stack = c :: stack ∧ s.addLine read line =
        ⟨stack, c.before ++ [.ofContainer c.head (s.flush read).nodes ⟨c.start, s.point.advance (LineKind.body line)⟩], none, none,
          s.diagnostics, s.point.advance line⟩ := by
  cases hcode : s.codeFence with
  | some fence =>
    refine .inl ⟨fenceAfter fence line, s.diagnostics, ?_⟩
    simp only [addLine, hcode, addMarkdown_eq]
    rfl
  | none =>
    cases hline : LineKind.ofLine line with
    | markdown =>
      refine .inl ⟨none, s.diagnostics, ?_⟩
      simp only [addLine, hcode, addOuterLine, hline, addMarkdown_eq]
    | codeFence mark size =>
      refine .inl ⟨some (mark, size), s.diagnostics, ?_⟩
      simp only [addLine, hcode, addOuterLine, hline, addMarkdown_eq]
      rfl
    | container size head =>
      refine .inr (.inl ⟨head, size, ?_⟩)
      rw [addLine_container read hcode hline, hcode]
    | leaf head =>
      refine .inr (.inr (.inl ⟨head, ?_⟩))
      simp only [addLine, hcode, addOuterLine, hline, flush_eq, addLeaf]
      rfl
    | closingFence size =>
      cases hstack : s.stack with
      | nil =>
        refine .inl ⟨none, s.diagnostics ++ [.unexpectedClosingFence s.point.line], ?_⟩
        simp only [addLine, hcode, addOuterLine, hline, addClosingFence, hstack, addMarkdown_eq]
        rfl
      | cons c stack =>
        by_cases hsize : c.fence ≤ size
        · refine .inr (.inr (.inr ⟨c, stack, rfl, ?_⟩))
          rw [addLine_closingFence read hcode hstack hsize hline, hcode]
        · refine .inl ⟨none, s.diagnostics, ?_⟩
          simp only [addLine, hcode, addOuterLine, hline, addClosingFence, hstack, if_neg hsize, addMarkdown_eq]

theorem isLineStart_advance (hline : ∀ c ∈ front.getLast?, c = '\n') (h : front <+: source) :
    (({} : Point).advance front).IsLineStart source := by
  obtain ⟨behind, rfl⟩ := h
  refine ⟨?_, front, behind, rfl, by simp, line_advance _ _⟩
  rcases List.eq_nil_or_concat front with rfl | ⟨front, c, rfl⟩
  · rfl
  · obtain rfl := hline c (by simp)
    rw [List.concat_eq_append, Point.column_advance_lineFeed]

theorem exists_eq_body_append (line : List Char) : ∃ eol, line = LineKind.body line ++ eol := by
  refine ⟨(line.reverse.takeWhile LineKind.isEol).reverse, ?_⟩
  rw [LineKind.body, Text.dropEndWhile, ← List.reverse_append, List.takeWhile_append_dropWhile, List.reverse_reverse]

/-- Does the property hold of all nodes that a scan puts between two offsets of the source, when it holds of the parts? -/
structure Places (read : List Char → List Node) (source : List Char) (P : Nat → Nat → List Node → Prop) : Prop where
  nil : ∀ {start stop}, start ≤ stop → P start stop []
  append : ∀ {start mid stop ns ms}, P start mid ns → P mid stop ms → P start stop (ns ++ ms)
  leaf : ∀ {head raw} {start stop : Point}, start.IsLineStart source → sliceBytes? source start.offset stop.offset = some raw →
    P start.offset stop.offset [.ofLeaf head raw ⟨start, stop⟩]
  container : ∀ {head children} {start stop : Point}, start.IsLineStart source → P start.offset stop.offset children →
    P start.offset stop.offset [.ofContainer head children ⟨start, stop⟩]
  chunk : ∀ {c : Chunk} {front behind : List Char}, c ∈ Document.chunks read source → source = front ++ c.text ++ behind →
    c.start = ({} : Point).advance front → P (byteSize front) (byteSize (front ++ c.text)) (c.contents read)

theorem Places.mono (hP : Places read source P) {start mid stop : Nat} (h : P start mid ns) (hle : mid ≤ stop) : P start stop ns := by
  simpa using hP.append h (hP.nil hle)

/-- Does the property hold of the nodes in each open container, which reach up to the next one, and the last up to an offset? -/
def FillUpTo (P : Nat → Nat → List Node → Prop) (source : List Char) : Nat → List Node → List OpenContainer → Prop
  | stop, ns, [] => P 0 stop ns
  | stop, ns, c :: stack => P c.start.offset stop ns ∧ c.start.IsLineStart source ∧ FillUpTo P source c.start.offset c.before stack

theorem FillUpTo.append (hP : Places read source P) (h : FillUpTo P source lo ns stack) (hms : P lo hi ms) :
    FillUpTo P source hi (ns ++ ms) stack := by
  cases stack with
  | nil => exact hP.append h hms
  | cons c stack => exact ⟨hP.append h.1 hms, h.2⟩

theorem FillUpTo.close (hP : Places read source P) {c : OpenContainer} {head : Head} {stop : Point}
    (h : FillUpTo P source lo ns (c :: stack)) (hle : lo ≤ stop.offset) (hhi : stop.offset ≤ hi) :
    FillUpTo P source hi (c.before ++ [.ofContainer head ns ⟨c.start, stop⟩]) stack :=
  h.2.2.append hP (hP.mono (hP.container h.2.1 (hP.mono h.1 hle)) hhi)

/-- What is known of a scan behind `front`, in the source: the nodes reach up to the chunk, and the chunk up to the next line. -/
structure HasReached (P : Nat → Nat → List Node → Prop) (source front : List Char) (s : Scan) : Prop where
  inSource : front <+: source
  point : s.point = ({} : Point).advance front
  chunk : ∃ before, front = before ++ s.chunkText ∧ s.chunkStart = ({} : Point).advance before
  nodes : FillUpTo P source s.chunkStart.offset s.nodes s.stack

/-- When the chunk is read, the nodes reach up to the next line. -/
theorem HasReached.flush (hP : Places read source P) (h : HasReached P source front s)
    (hchunks : s.chunk.toList ⊆ Document.chunks read source) :
    FillUpTo P source (byteSize front) (s.flush read).nodes s.stack := by
  obtain ⟨before, hfront, hstart⟩ := h.chunk
  obtain ⟨behind, hsource⟩ := h.inSource
  have hoffset : s.chunkStart.offset = byteSize before := by rw [hstart, Point.offset_advance, Nat.zero_add]
  rw [flush_eq]
  refine h.nodes.append hP ?_
  rw [hoffset, hfront]
  cases hc : s.chunk with
  | none => exact hP.nil (by rw [Text.byteSize_append]; exact Nat.le_add_right _ _)
  | some c =>
    have htext : s.chunkText = c.text := by rw [chunkText, hc]; rfl
    have hchunk : s.chunkStart = c.start := by rw [chunkStart, hc]; rfl
    have hpieces : source = before ++ c.text ++ behind := by rw [← hsource, hfront, htext]
    rw [htext]
    exact hP.chunk (hchunks (Option.mem_toList.mpr hc)) hpieces (hchunk ▸ hstart)

/-- A line leads a scan on, from the start of the line to its end. -/
theorem HasReached.addLine (hP : Places read source P) (h : HasReached P source front s) (hline : ∀ c ∈ front.getLast?, c = '\n')
    (hfront : front ++ line <+: source)
    (hchunks : (s.addLine read line).chunk = none → s.chunk.toList ⊆ Document.chunks read source) :
    HasReached P source (front ++ line) (s.addLine read line) := by
  have hpoint : s.point.advance line = ({} : Point).advance (front ++ line) := by rw [h.point, ← Point.advance_append]
  have hstart : s.point.IsLineStart source := h.point ▸ isLineStart_advance hline h.inSource
  have hoffset : s.point.offset = byteSize front := by rw [h.point, Point.offset_advance, Nat.zero_add]
  obtain ⟨eol, heol⟩ := exists_eq_body_append line
  have hstop : (s.point.advance (LineKind.body line)).offset = byteSize (front ++ LineKind.body line) := by
    rw [Point.offset_advance, hoffset, Text.byteSize_append]
  have hbody : byteSize (front ++ LineKind.body line) ≤ (s.point.advance line).offset := by
    rw [Point.offset_advance, hoffset, Text.byteSize_append, congrArg byteSize heol, Text.byteSize_append (LineKind.body line)]
    omega
  have hnone : ∃ before, front ++ line = before ++ [] ∧ s.point.advance line = ({} : Point).advance before :=
    ⟨front ++ line, (List.append_nil _).symm, hpoint⟩
  rcases addLine_cases read s line with ⟨code, ds, hs⟩ | ⟨head, size, hs⟩ | ⟨head, hs⟩ | ⟨c, stack, hstack, hs⟩ <;> rw [hs] at hchunks ⊢
  · obtain ⟨before, hbefore, hchunk⟩ := h.chunk
    refine ⟨hfront, hpoint, ⟨before, ?_, hchunk⟩, h.nodes⟩
    rw [hbefore, List.append_assoc]
    rfl
  · refine ⟨hfront, hpoint, hnone, hP.nil ?_, hstart, ?_⟩
    · exact (Nat.le_add_right _ _).trans_eq (Point.offset_advance _ _).symm
    · rw [hoffset]
      exact h.flush hP (hchunks rfl)
  · refine ⟨hfront, hpoint, hnone, ?_⟩
    have hflush := h.flush hP (hchunks rfl)
    rw [← hoffset] at hflush
    refine hflush.append hP (hP.mono (hP.leaf hstart ?_) (hstop.trans_le hbody))
    obtain ⟨behind, rfl⟩ := hfront
    refine Text.sliceBytes?_eq_some.mpr ⟨front, eol ++ behind, ?_, hoffset.symm, hstop.symm⟩
    rw [← List.append_assoc, List.append_assoc front (LineKind.body line), ← heol]
  · refine ⟨hfront, hpoint, hnone, ?_⟩
    have hflush := h.flush hP (hchunks rfl)
    rw [hstack] at hflush
    refine hflush.close hP ?_ (hstop.trans_le hbody)
    rw [hstop, Text.byteSize_append]
    exact Nat.le_add_right _ _

theorem HasReached.foldl (hP : Places read source P) (lines : List (List Char)) (h : HasReached P source front s)
    (hlines : ∀ line ∈ lines.dropLast, line.getLast? = some '\n') (hline : ∀ c ∈ front.getLast?, c = '\n')
    (hfront : front ++ lines.flatten <+: source) (hchunks : chunksFrom read s lines ⊆ Document.chunks read source) :
    HasReached P source (front ++ lines.flatten) (lines.foldl (Scan.addLine read) s) ∧
      (lines.foldl (Scan.addLine read) s).chunk.toList ⊆ Document.chunks read source := by
  induction lines generalizing s front with
  | nil => exact ⟨by simpa using h, hchunks⟩
  | cons line lines ih =>
    rw [List.flatten_cons, ← List.append_assoc] at hfront ⊢
    obtain ⟨hended, hchunks⟩ := List.append_subset.mp hchunks
    have hstep := h.addLine hP hline ((List.prefix_append _ _).trans hfront) fun hnone => by simpa [hnone] using hended
    rcases eq_or_ne lines [] with rfl | hne
    · exact ⟨by simpa using hstep, hchunks⟩
    · rw [List.dropLast_cons_of_ne_nil hne] at hlines
      obtain ⟨hfirst, hrest⟩ := List.forall_mem_cons.mp hlines
      exact ih hstep hrest (by simp [hfirst]) hfront hchunks

/-- When all containers are closed, all nodes stand in one place. -/
theorem FillUpTo.closeAll (hP : Places read source P) (h : FillUpTo P source s.point.offset s.nodes s.stack) :
    P 0 s.point.offset s.closeAll.nodes ∧ s.closeAll.point = s.point := by
  have hclosed : ∀ (stack : List OpenContainer) (s : Scan), s.stack = stack → FillUpTo P source s.point.offset s.nodes s.stack →
      P 0 s.point.offset (stack.foldl (fun s _ => s.closeContainer s.point) s).nodes ∧
        (stack.foldl (fun s _ => s.closeContainer s.point) s).point = s.point := by
    intro stack
    induction stack with
    | nil =>
      intro s hs h
      rw [hs] at h
      exact ⟨h, rfl⟩
    | cons c stack ih =>
      intro s hs h
      have hclose : s.closeContainer s.point =
          { s with stack, nodes := c.before ++ [.ofContainer c.head s.nodes ⟨c.start, s.point⟩] } := by
        rw [closeContainer, hs]
        rfl
      rw [hs] at h
      rw [List.foldl_cons, hclose]
      exact ih { s with stack, nodes := c.before ++ [.ofContainer c.head s.nodes ⟨c.start, s.point⟩] } rfl (h.close hP le_rfl le_rfl)
  exact hclosed s.stack s rfl h

/-- What holds of all that a scan puts in its place holds of the document. -/
theorem Places.parseWith (hP : Places read source P) :
    P 0 (byteSize source) (Document.parseWith read source).root.children ∧
      (Document.parseWith read source).root.span = some ⟨{}, ({} : Point).advance source⟩ := by
  have hempty : HasReached P source [] {} := ⟨List.nil_prefix, rfl, ⟨[], rfl, rfl⟩, hP.nil le_rfl⟩
  obtain ⟨hlines, hchunks⟩ := hempty.foldl hP (Text.lines source) (fun _ => Text.getLast?_of_mem_dropLast_lines) (by simp)
    (by simp [Text.flatten_lines]) (List.Subset.refl _)
  rw [Text.flatten_lines, List.nil_append] at hlines
  let s := (Text.lines source).foldl (Scan.addLine read) {}
  have hpoint : (s.flush read).point = ({} : Point).advance source := by rw [flush_eq]; exact hlines.point
  have hstack : (s.flush read).stack = s.stack := by rw [flush_eq]
  have hoffset : (s.flush read).point.offset = byteSize source := by rw [hpoint, Point.offset_advance, Nat.zero_add]
  have hfill : FillUpTo P source (s.flush read).point.offset (s.flush read).nodes (s.flush read).stack := by
    rw [hoffset, hstack]
    exact hlines.flush hP hchunks
  obtain ⟨hnodes, hclosed⟩ := hfill.closeAll hP
  rw [hoffset] at hnodes
  rw [hpoint] at hclosed
  exact ⟨hnodes, congrArg (fun p => some (Span.mk {} p)) hclosed⟩

end Scan

end MarkdownTemplates
