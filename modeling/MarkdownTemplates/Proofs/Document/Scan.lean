import MarkdownTemplates.Document
import MarkdownTemplates.Proofs.Directive.Line

/-!
# Steps of the scan

What each kind of line does to a scan that is not inside of code, and what a text does that holds no line of its container's own.
-/

namespace MarkdownTemplates

namespace Node

/-- The node of a leaf that stands on a line of its own. -/
def ofLeaf (head : Head) (line : List Char) (span : Span) : Node where
  kind := .leafDirective
  name := head.name
  label := head.label
  attributes := head.attributes
  span := span
  raw := String.ofList line

def ofContainer (head : Head) (children : List Node) (span : Span) : Node where
  kind := .containerDirective
  name := head.name
  label := head.label
  attributes := head.attributes
  children := children
  span := span

end Node

/-- The nodes of a chunk that may be blank. -/
def Chunk.contents (read : List Char → List Node) (c : Chunk) : List Node :=
  if Text.isBlankText c.text then [] else c.nodes read

namespace Scan

variable {read : List Char → List Node} {s s' s'' : Scan} {ms ms' : List Node} {line text : List Char}

/-! ## Chunks -/

def chunkText (s : Scan) : List Char := (s.chunk.map (·.text)).getD []

def chunkStart (s : Scan) : Point := (s.chunk.map (·.start)).getD s.point

theorem addMarkdown_eq (s : Scan) (line : List Char) :
    s.addMarkdown line = { s with chunk := some ⟨s.chunkStart, s.chunkText ++ line⟩ } := by
  rw [addMarkdown, chunkStart, chunkText]
  cases s.chunk <;> rfl

theorem flush_eq (read : List Char → List Node) (s : Scan) :
    s.flush read = { s with chunk := none, nodes := s.nodes ++ (s.chunk.map (·.contents read)).getD [] } := by
  rw [flush]
  cases hc : s.chunk with
  | none => cases s; simp_all
  | some c =>
    by_cases hb : Text.isBlankText c.text = true
    · simp [hb, Chunk.contents]
    · simp [hb, Chunk.contents]

/-! ## What stays the same -/

/-- Has the scan only found more nodes for the innermost container? -/
structure Extends (read : List Char → List Node) (s s' : Scan) (ms : List Node) : Prop where
  stack : s'.stack = s.stack
  nodes : (s'.flush read).nodes = (s.flush read).nodes ++ ms
  codeFence : s'.codeFence = none
  diagnostics : s'.diagnostics = s.diagnostics

theorem Extends.refl (h : s.codeFence = none) : Extends read s s [] := ⟨rfl, (List.append_nil _).symm, h, rfl⟩

theorem Extends.trans (h : Extends read s s' ms) (h' : Extends read s' s'' ms') : Extends read s s'' (ms ++ ms') where
  stack := h'.stack.trans h.stack
  nodes := by rw [h'.nodes, h.nodes, List.append_assoc]
  codeFence := h'.codeFence
  diagnostics := h'.diagnostics.trans h.diagnostics

/-! ## One line -/

theorem extends_addLine_leaf (read : List Char → List Node) {head : Head} (hcode : s.codeFence = none) (hline : LineKind.ofLine line = .leaf head) :
    Extends read s (s.addLine read line) [.ofLeaf head (LineKind.body line) ⟨s.point, s.point.advance (LineKind.body line)⟩]
      ∧ (s.addLine read line).chunk = none := by
  rw [addLine, hcode]
  simp only [addOuterLine, hline, flush_eq, addLeaf]
  exact ⟨⟨rfl, by simp [flush_eq, Node.ofLeaf], hcode, rfl⟩, trivial⟩

theorem addLine_container (read : List Char → List Node) {head : Head} {size : Nat} (hcode : s.codeFence = none)
    (hline : LineKind.ofLine line = .container size head) : s.addLine read line =
      { s with
        stack := ⟨head, size, s.point, (s.flush read).nodes⟩ :: s.stack
        nodes := []
        chunk := none
        point := s.point.advance line } := by
  rw [addLine, hcode]
  simp only [addOuterLine, hline, flush_eq, openContainer]
  rw [hcode]

theorem addLine_closingFence (read : List Char → List Node) {c : OpenContainer} {stack : List OpenContainer} {size : Nat} (hcode : s.codeFence = none)
    (hstack : s.stack = c :: stack) (hsize : c.fence ≤ size) (hline : LineKind.ofLine line = .closingFence size) :
    s.addLine read line =
      { s with
        stack
        nodes := c.before ++ [.ofContainer c.head (s.flush read).nodes ⟨c.start, s.point.advance (LineKind.body line)⟩]
        chunk := none
        point := s.point.advance line } := by
  rw [addLine, hcode]
  simp only [addOuterLine, hline, addClosingFence, hstack, if_pos hsize, flush_eq, closeContainer]
  rw [hcode]
  rfl

/-! ## Containers -/

section

variable {head : Head} {size : Nat}

theorem addLine_opens (read : List Char → List Node) (hcode : s.codeFence = none) (hhead : head.IsReadable) (hsize : 3 ≤ size) :
    s.addLine read (head.line size ++ ['\n']) =
      { s with
        stack := ⟨head, size, s.point, (s.flush read).nodes⟩ :: s.stack
        nodes := []
        chunk := none
        point := s.point.advance (head.line size ++ ['\n']) } := by
  refine addLine_container read hcode ?_
  rw [LineKind.ofLine_lineFeed, LineKind.ofLine_line hhead (by omega), if_neg (by omega)]

/-- The closing fence of a container makes a node of what was found behind its opening line. -/
theorem extends_addLine_closes (hcode : s.codeFence = none) (hhead : head.IsReadable) (hsize : 3 ≤ size)
    (h : Extends read (s.addLine read (head.line size ++ ['\n'])) s' ms) :
    (∃ span, Extends read s (s'.addLine read (List.replicate size ':' ++ ['\n'])) [.ofContainer head ms span])
      ∧ (s'.addLine read (List.replicate size ':' ++ ['\n'])).chunk = none := by
  have hopened := addLine_opens read hcode hhead hsize
  have hstack : s'.stack = ⟨head, size, s.point, (s.flush read).nodes⟩ :: s.stack := by rw [h.stack, hopened]
  have hnodes : (s'.flush read).nodes = ms := by rw [h.nodes, flush_eq, hopened]; simp
  have hdiagnostics : s'.diagnostics = s.diagnostics := by rw [h.diagnostics, hopened]
  have hline : LineKind.ofLine (List.replicate size ':' ++ ['\n']) = .closingFence size := by
    rw [LineKind.ofLine_lineFeed, LineKind.ofLine_closingFence hsize]
  have hclosed := addLine_closingFence read h.codeFence hstack le_rfl hline
  rw [hnodes] at hclosed
  rw [hclosed]
  let span : Span := ⟨s.point, s'.point.advance (LineKind.body (List.replicate size ':' ++ ['\n']))⟩
  exact ⟨⟨span, rfl, by simp [flush_eq, span], h.codeFence, hdiagnostics⟩, rfl⟩

end

/-! ## Text -/

/-- How long the fence of the innermost container is. -/
def fence (s : Scan) : Nat := (s.stack.head?.map (·.fence)).getD 0

/-- The fence of code that is open behind a line that is text for a container with the fence, when `code` is open in front. -/
def textLine? (fence : Nat) (code : Option (Char × Nat)) (line : List Char) : Option (Option (Char × Nat)) :=
  match code with
  | some opened => some (fenceAfter opened line)
  | none =>
    match LineKind.ofLine line with
    | .markdown => some none
    | .codeFence mark size => some (some (mark, size))
    | .closingFence size => if size < fence then some none else none
    | _ => none

/-- Is no line of the text a line of its container, or left inside of code? -/
def IsText (fence : Nat) (text : List Char) : Prop := (Text.lines text).foldlM (textLine? fence) none = some none

instance (fence : Nat) (text : List Char) : Decidable (IsText fence text) := inferInstanceAs (Decidable (_ = _))

theorem addLine_textLine? (read : List Char → List Node) {code : Option (Char × Nat)} (h : textLine? s.fence s.codeFence line = some code) :
    s.addLine read line =
      { s with
        chunk := some ⟨s.chunkStart, s.chunkText ++ line⟩
        codeFence := code
        point := s.point.advance line } := by
  cases hcode : s.codeFence with
  | some opened =>
    rw [hcode, textLine?] at h
    obtain rfl := Option.some.inj h
    simp only [addLine, hcode, addMarkdown_eq]
    rfl
  | none =>
    rw [hcode, textLine?] at h
    simp only [addLine, hcode, addOuterLine]
    cases hline : LineKind.ofLine line with
    | markdown =>
      rw [hline] at h
      obtain rfl := Option.some.inj h
      simp only [addMarkdown_eq, hcode]
    | codeFence mark size =>
      rw [hline] at h
      obtain rfl := Option.some.inj h
      simp only [addMarkdown_eq]
      rfl
    | closingFence size =>
      simp only [hline] at h
      split_ifs at h with hsize
      obtain rfl := Option.some.inj h
      cases hstack : s.stack with
      | nil => simp [fence, hstack] at hsize
      | cons c stack =>
        have hlong : ¬ c.fence ≤ size := by simpa [fence, hstack] using hsize
        simp only [addClosingFence, hstack, if_neg hlong, addMarkdown_eq, hcode]
    | container size head => simp [hline] at h
    | leaf head => simp [hline] at h

theorem addLine_blank (read : List Char → List Node) (hcode : s.codeFence = none) : s.addLine read ['\n'] =
    { s with
      chunk := some ⟨s.chunkStart, s.chunkText ++ ['\n']⟩
      codeFence := none
      point := s.point.advance ['\n'] } := by
  refine addLine_textLine? read ?_
  rw [hcode, textLine?, LineKind.ofLine_blank]

/-- Is nothing of the chunk to be read yet? -/
def IsFresh (s : Scan) : Prop := s.chunk = none ∨ ∃ start, s.chunk = some ⟨start, ['\n']⟩

theorem contents_blank (start : Point) : Chunk.contents read ⟨start, ['\n']⟩ = [] :=
  if_pos (show Text.isBlankText ['\n'] = true by decide)

theorem IsFresh.extends_chunk (read : List Char → List Node) (h : s.IsFresh) (c : Chunk) (point : Point) :
    Extends read s { s with chunk := some c, codeFence := none, point } (c.contents read) := by
  refine ⟨rfl, ?_, rfl, rfl⟩
  rcases h with h | ⟨start, h⟩
  · simp [flush_eq, h]
  · simp [flush_eq, h, contents_blank]

/-- A blank line between directives is not read. -/
theorem extends_addLine_blank (read : List Char → List Node) (hcode : s.codeFence = none) (hchunk : s.chunk = none) :
    Extends read s (s.addLine read ['\n']) [] ∧ (s.addLine read ['\n']).IsFresh ∧ (s.addLine read ['\n']).chunkText = ['\n'] := by
  have htext : s.chunkText ++ ['\n'] = ['\n'] := by simp [chunkText, hchunk]
  have hext := IsFresh.extends_chunk read (.inl hchunk) ⟨s.chunkStart, ['\n']⟩ (s.point.advance ['\n'])
  rw [contents_blank] at hext
  rw [addLine_blank read hcode, htext]
  exact ⟨hext, .inr ⟨s.chunkStart, rfl⟩, rfl⟩

/-! ## Many lines -/

def after (read : List Char → List Node) (s : Scan) (text : List Char) : Scan := (Text.lines text).foldl (addLine read) s

@[simp] theorem after_nil : s.after read [] = s := rfl

theorem after_line (h : '\n' ∉ line) : s.after read (line ++ ['\n']) = s.addLine read (line ++ ['\n']) := by
  rw [after, Text.lines_of_notMem h]
  rfl

theorem after_append {t u : List Char} (h : ∀ c ∈ t.getLast?, c = '\n') : s.after read (t ++ u) = (s.after read t).after read u := by
  rcases List.eq_nil_or_concat t with rfl | ⟨t, c, rfl⟩
  · rfl
  · obtain rfl := h c (by simp)
    rw [List.concat_eq_append, List.append_assoc, List.singleton_append, after, Text.lines_append_lineFeed, List.foldl_append]
    rfl

theorem after_line_append (h : '\n' ∉ line) (u : List Char) :
    s.after read (line ++ '\n' :: u) = (s.addLine read (line ++ ['\n'])).after read u := by
  have hu : line ++ '\n' :: u = (line ++ ['\n']) ++ u := by simp
  rw [hu, after_append (by simp), after_line h]

/-- Text goes into the chunk as it is. -/
theorem foldl_addLine_textLine? (read : List Char → List Node) {lines : List (List Char)} {code : Option (Char × Nat)} (hne : lines ≠ [])
    (h : lines.foldlM (textLine? s.fence) s.codeFence = some code) :
    ∃ point, lines.foldl (addLine read) s =
      { s with chunk := some ⟨s.chunkStart, s.chunkText ++ lines.flatten⟩, codeFence := code, point } := by
  induction lines generalizing s with
  | nil => exact absurd rfl hne
  | cons line lines ih =>
    obtain ⟨code', hline, hlines⟩ := Option.bind_eq_some_iff.mp h
    have hstep := addLine_textLine? read hline
    cases lines with
    | nil =>
      obtain rfl := Option.some.inj hlines
      refine ⟨s.point.advance line, ?_⟩
      rw [List.foldl_cons, hstep]
      simp
    | cons line' lines =>
      have hfence : (s.addLine read line).fence = s.fence := by rw [hstep]; rfl
      have hcode : (s.addLine read line).codeFence = code' := by rw [hstep]
      obtain ⟨point, hrest⟩ := ih (s := s.addLine read line) (by simp) (by rw [hfence, hcode]; exact hlines)
      refine ⟨point, ?_⟩
      rw [List.foldl_cons, hrest, hstep]
      simp [chunkText, chunkStart]

theorem IsText.after (read : List Char → List Node) (hcode : s.codeFence = none) (hne : text ≠ []) (h : IsText s.fence text) :
    ∃ point, s.after read text = { s with chunk := some ⟨s.chunkStart, s.chunkText ++ text⟩, codeFence := none, point } := by
  have hlines : (Text.lines text).foldlM (textLine? s.fence) s.codeFence = some none := by rw [hcode]; exact h
  obtain ⟨point, hafter⟩ := foldl_addLine_textLine? read (Text.lines_ne_nil hne) hlines
  rw [Text.flatten_lines] at hafter
  exact ⟨point, hafter⟩

end Scan

end MarkdownTemplates
