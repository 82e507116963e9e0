import MarkdownTemplates.Proofs.Document.Placing

/-!
# What closing fences close

A closing fence outside of code closes the innermost container, unless its fence is longer, and is reported when there is no container.
The containers that are left open end with the source, from the innermost to the outermost, each with a report of its own.
-/

namespace MarkdownTemplates

/-! ## Closing fences -/

/-- A closing fence on a numbered line, inside of a container with a fence, which is zero if there is no container. -/
structure ClosingFence where
  number : Nat
  size : Nat
  fence : Nat
  deriving DecidableEq

namespace ClosingFence

def isLong (f : ClosingFence) : Bool := f.fence ≤ f.size

/-- The closing fence on a numbered line with the fence of the code around it, inside of containers with the fences. -/
def ofLine? (fences : List Nat) : (Option (Char × Nat) × List Char) × Nat → Option ClosingFence
  | ((some _, _), _) => none
  | ((none, line), number) =>
    match LineKind.ofLine line with
    | .closingFence size => some ⟨number, size, fences.headD 0⟩
    | _ => none

/-- The fences of the containers that are open behind the line, innermost first. -/
def fencesBehind (fences : List Nat) : Option (Char × Nat) × List Char → List Nat
  | (some _, _) => fences
  | (none, line) =>
    match LineKind.ofLine line with
    | .container size _ => size :: fences
    | .closingFence size => if fences.headD 0 ≤ size then fences.tail else fences
    | _ => fences

def ofLines (fences : List Nat) : List ((Option (Char × Nat) × List Char) × Nat) → List ClosingFence
  | [] => []
  | p :: rest => (ofLine? fences p).toList ++ ofLines (fencesBehind fences p.1) rest

/-- The closing fences of a source, outside of code. -/
def all (source : List Char) : List ClosingFence := ofLines [] ((CodeFence.enclosed Scan.nextFence none (Text.lines source)).zipIdx 1)

variable {fences : List Nat} {f : ClosingFence}

theorem number_of_ofLine? {p : (Option (Char × Nat) × List Char) × Nat} (h : ofLine? fences p = some f) : f.number = p.2 := by
  obtain ⟨⟨- | fence, line⟩, number⟩ := p
  · simp only [ofLine?] at h
    split at h
    · obtain rfl := Option.some.inj h
      rfl
    · cases h
  · cases h

theorem le_number_of_mem_ofLines {lines : List (Option (Char × Nat) × List Char)} {start : Nat}
    (h : f ∈ ofLines fences (lines.zipIdx start)) : start ≤ f.number := by
  induction lines generalizing fences start with
  | nil => cases h
  | cons p lines ih =>
    rw [List.zipIdx_cons, ofLines, List.mem_append, Option.mem_toList] at h
    rcases h with h | h
    · exact (number_of_ofLine? h).ge
    · exact (Nat.le_succ start).trans (ih h)

theorem pairwise_ofLines (fences : List Nat) (lines : List (Option (Char × Nat) × List Char)) (start : Nat) :
    (ofLines fences (lines.zipIdx start)).Pairwise fun f g => f.number < g.number := by
  induction lines generalizing fences start with
  | nil => exact .nil
  | cons p lines ih =>
    rw [List.zipIdx_cons, ofLines]
    refine List.pairwise_append.mpr ⟨?_, ih _ _, fun f hf g hg => ?_⟩
    · cases ofLine? fences (p, start) <;> simp
    · rw [number_of_ofLine? (Option.mem_toList.mp hf)]
      exact le_number_of_mem_ofLines hg

/-- The lines of the closing fences that are as long as the fence of the container around them. -/
def longLines (source : List Char) : List Nat := ((all source).filter isLong).map number

theorem nodup_longLines (source : List Char) : (longLines source).Nodup := by
  have hlt : ((all source).filter isLong).Pairwise fun f g => f.number < g.number := (pairwise_ofLines _ _ _).filter _
  exact List.pairwise_map.mpr (hlt.imp fun h => h.ne)

end ClosingFence

def Diagnostic.isUnclosed : Diagnostic → Bool
  | unclosedDirective .. => true
  | unexpectedClosingFence _ => false

/-! ## Containers -/

namespace Node

variable {head : Head} {ns ms : List Node} {span : Span}

/-- The containers among the nodes and below them, each in front of those inside of it. -/
def containers (ns : List Node) : List Node := (preorderList ns).filter (·.kind = .containerDirective)

/-- What is reported of the container when it is not closed. -/
def unclosed (n : Node) : Diagnostic := .unclosedDirective n.head.name (n.line?.getD 0) (n.column?.getD 0)

theorem containers_nil : containers [] = [] := by
  rw [containers, preorderList]
  rfl

theorem containers_append (ns ms : List Node) : containers (ns ++ ms) = containers ns ++ containers ms := by
  rw [containers, preorderList_append, List.filter_append]
  rfl

theorem containers_ofLeaf (head : Head) (line : List Char) : containers [.ofLeaf head line span] = [] := by
  simp [containers, preorderList, preorder_eq, ofLeaf]

theorem containers_ofContainer (head : Head) (ns : List Node) (span : Span) :
    containers [.ofContainer head ns span] = .ofContainer head ns span :: containers ns := by
  simp [containers, preorderList, preorder_eq, ofContainer]

end Node

theorem Chunk.containers_contents {read : List Char → List Node} (hread : ∀ text, Node.ArePlain (read text)) (c : Chunk) :
    Node.containers (c.contents read) = [] := by
  refine List.filter_eq_nil_iff.mpr fun n hn hkind => ?_
  have hkind : n.kind = .containerDirective := by simpa using hkind
  have hleaf := (c.hasOnlyInline_contents hread n hn (by simp [Node.isOwnLine, hkind])).1
  cases hkind.symm.trans hleaf

/-! ## The scan -/

namespace Scan

open Node ClosingFence

variable {read : List Char → List Node} {s : Scan} {line : List Char} {numbers : List Nat}

/-- The fences of the open containers. -/
def fences (s : Scan) : List Nat := s.stack.map (·.fence)

/-- The containers that are closed already. -/
def closed (s : Scan) : List Node := containers s.nodes ++ s.stack.flatMap fun c => containers c.before

/-- Is each of the lines either the last one of a container or reported, and nothing else? -/
def Accounts (s : Scan) (numbers : List Nat) : Prop :=
  ∃ stray : List Nat, s.diagnostics = stray.map .unexpectedClosingFence ∧ (s.closed.map endLine? ++ stray.map some).Perm (numbers.map some)

theorem point_addLine (read : List Char → List Node) (s : Scan) (line : List Char) :
    (s.addLine read line).point = s.point.advance line := rfl

theorem point_foldl (read : List Char → List Node) (lines : List (List Char)) (s : Scan) :
    (lines.foldl (addLine read) s).point = s.point.advance lines.flatten := by
  induction lines generalizing s with
  | nil => rfl
  | cons line lines ih => rw [List.foldl_cons, ih, point_addLine, List.flatten_cons, Point.advance_append]

/-- A line opens and closes containers as its fences say. -/
theorem fences_addLine (read : List Char → List Node) (s : Scan) (line : List Char) :
    (s.addLine read line).fences = fencesBehind s.fences (s.codeFence, line) := by
  cases hcode : s.codeFence with
  | some fence => simp only [addLine, hcode, addMarkdown_eq, fences, fencesBehind]
  | none =>
    simp only [addLine, hcode, addOuterLine, fencesBehind]
    cases hline : LineKind.ofLine line with
    | markdown | codeFence => simp only [addMarkdown_eq, fences]
    | container size head => simp only [openContainer, flush_eq, fences, List.map_cons]
    | leaf head => simp only [addLeaf, flush_eq, fences]
    | closingFence size =>
      cases hstack : s.stack with
      | nil => simp [addClosingFence, hstack, addMarkdown_eq, fences]
      | cons c stack =>
        simp only [addClosingFence, hstack, fences, List.map_cons, List.headD_cons, List.tail_cons]
        split_ifs
        · simp [closeContainer, flush_eq, hstack]
        · simp [addMarkdown_eq, hstack]

theorem closed_of_eq {s' : Scan} (hnodes : s'.nodes = s.nodes) (hstack : s'.stack = s.stack) : s'.closed = s.closed := by
  rw [closed, closed, hnodes, hstack]

theorem closed_close {s' : Scan} {c : OpenContainer} {stack : List OpenContainer} {span : Span} (hstack : s.stack = c :: stack)
    (hrest : s'.stack = stack) (hnodes : s'.nodes = c.before ++ [.ofContainer c.head s.nodes span]) :
    s'.closed.Perm (.ofContainer c.head s.nodes span :: s.closed) := by
  let outer := stack.flatMap fun c => containers c.before
  have hclosed : s'.closed = containers c.before ++ .ofContainer c.head s.nodes span :: (containers s.nodes ++ outer) := by
    rw [closed, hnodes, hrest, containers_append, containers_ofContainer, List.append_assoc]
    rfl
  have hbefore : (containers c.before ++ (containers s.nodes ++ outer)).Perm s.closed := by
    rw [closed, hstack, List.flatMap_cons, ← List.append_assoc, ← List.append_assoc]
    exact List.perm_append_comm.append_right outer
  rw [hclosed]
  exact List.perm_middle.trans (hbefore.cons _)

theorem addLine_leaf (read : List Char → List Node) {head : Head} (hcode : s.codeFence = none) (hline : LineKind.ofLine line = .leaf head) :
    s.addLine read line =
      { s with
        nodes := (s.flush read).nodes ++ [.ofLeaf head (LineKind.body line) ⟨s.point, s.point.advance (LineKind.body line)⟩]
        chunk := none
        point := s.point.advance line } := by
  simp only [addLine, hcode, addOuterLine, hline, flush_eq, addLeaf]
  rfl

theorem addLine_strayFence (read : List Char → List Node) {size : Nat} (hcode : s.codeFence = none) (hstack : s.stack = [])
    (hline : LineKind.ofLine line = .closingFence size) :
    s.addLine read line =
      { s with
        chunk := some ⟨s.chunkStart, s.chunkText ++ line⟩
        diagnostics := s.diagnostics ++ [.unexpectedClosingFence s.point.line]
        point := s.point.advance line } := by
  simp only [addLine, hcode, addOuterLine, hline, addClosingFence, hstack, addMarkdown_eq]
  rfl

theorem line_body (hlf : '\n' ∉ LineKind.body line) (p : Point) : (p.advance (LineKind.body line)).line = p.line := by
  rw [line_advance, List.count_eq_zero_of_not_mem hlf, Nat.add_zero]

section

variable (hread : ∀ text, ArePlain (read text))

include hread

theorem closed_flush (s : Scan) : (s.flush read).closed = s.closed := by
  have hchunk : containers ((s.chunk.map (·.contents read)).getD []) = [] := by
    cases s.chunk with
    | none => exact containers_nil
    | some c => exact c.containers_contents hread
  rw [flush_eq, closed, closed, containers_append, hchunk, List.append_nil]

/-- A closing fence that is long enough closes a container on its own line, or is reported. -/
theorem Accounts.addLine (hlf : '\n' ∉ LineKind.body line) (h : s.Accounts numbers) :
    (s.addLine read line).Accounts
      (numbers ++ (((ofLine? s.fences ((s.codeFence, line), s.point.line)).filter isLong).map number).toList) := by
  obtain ⟨stray, hstray, hlines⟩ := h
  have hsame : ∀ {s' : Scan}, s'.closed = s.closed → s'.diagnostics = s.diagnostics → s'.Accounts (numbers ++ []) :=
    fun hclosed hdiagnostics => ⟨stray, hdiagnostics.trans hstray, by rwa [hclosed, List.append_nil]⟩
  have htext : ∀ {code}, textLine? s.fence s.codeFence line = some code → (s.addLine read line).Accounts (numbers ++ []) := by
    intro code hcode
    rw [addLine_textLine? read hcode]
    exact hsame rfl rfl
  have hflush := closed_flush hread s
  cases hcode : s.codeFence with
  | some fence => exact htext (by rw [hcode, textLine?])
  | none =>
    simp only [ofLine?]
    cases hline : LineKind.ofLine line with
    | markdown | codeFence => exact htext (by rw [hcode, textLine?, hline])
    | container size head =>
      rw [addLine_container read hcode hline]
      refine hsame ?_ rfl
      rw [← hflush, flush_eq]
      simp [closed, containers_nil]
    | leaf head =>
      rw [addLine_leaf read hcode hline]
      refine hsame ?_ rfl
      rw [← hflush, flush_eq]
      simp only [closed, containers_append, containers_ofLeaf, List.append_nil]
    | closingFence size =>
      let f : ClosingFence := ⟨s.point.line, size, s.fences.headD 0⟩
      change (s.addLine read line).Accounts (numbers ++ (((some f).filter isLong).map number).toList)
      cases hstack : s.stack with
      | nil =>
        have hlong : (some f).filter isLong = some f := by simp [Option.filter, isLong, f, fences, hstack]
        rw [hlong, addLine_strayFence read hcode hstack hline]
        refine ⟨stray ++ [s.point.line], by simp [hstray], ?_⟩
        rw [closed_of_eq rfl rfl, List.map_append, List.map_append, ← List.append_assoc]
        exact hlines.append_right _
      | cons c stack =>
        by_cases hsize : c.fence ≤ size
        · have hlong : (some f).filter isLong = some f := by simp [Option.filter, isLong, f, fences, hstack, hsize]
          rw [hlong, addLine_closingFence read hcode hstack hsize hline]
          have hopen : (s.flush read).stack = c :: stack := by rw [flush_eq]; exact hstack
          refine ⟨stray, hstray, (((closed_close hopen rfl rfl).map endLine?).append_right _).trans ?_⟩
          have hend : endLine? (.ofContainer c.head (s.flush read).nodes ⟨c.start, s.point.advance (LineKind.body line)⟩) =
              some s.point.line := congrArg some (line_body hlf s.point)
          rw [hflush, List.map_cons, hend, List.cons_append, List.map_append]
          exact (List.perm_append_singleton _ _).symm.trans (hlines.append_right _)
        · have hshort : (some f).filter isLong = none := by simp [Option.filter, isLong, f, fences, hstack, hsize]
          rw [hshort]
          have hline : textLine? s.fence s.codeFence line = some none := by
            simp [hcode, textLine?, hline, fence, hstack, not_le.mp hsize]
          exact htext hline

theorem Accounts.foldl {lines : List (List Char)} (hlf : ∀ line ∈ lines, '\n' ∉ LineKind.body line)
    (hcount : ∀ line ∈ lines.dropLast, line.count '\n' = 1) (h : s.Accounts numbers) :
    (lines.foldl (Scan.addLine read) s).Accounts (numbers ++
      ((ClosingFence.ofLines s.fences ((CodeFence.enclosed nextFence s.codeFence lines).zipIdx s.point.line)).filter isLong).map number) := by
  induction lines generalizing s numbers with
  | nil => simpa [CodeFence.enclosed, ClosingFence.ofLines] using h
  | cons line lines ih =>
    obtain ⟨hline, hlines⟩ := List.forall_mem_cons.mp hlf
    have hstep := h.addLine hread hline
    have hnew : ∀ o : Option ClosingFence, ((o.filter isLong).map number).toList = (o.toList.filter isLong).map number := by
      intro o
      cases o with
      | none => rfl
      | some f => by_cases hf : f.isLong = true <;> simp [Option.filter, hf]
    rw [hnew] at hstep
    rw [List.foldl_cons, CodeFence.enclosed, List.zipIdx_cons, ClosingFence.ofLines, List.filter_append, List.map_append, ← List.append_assoc]
    rcases eq_or_ne lines [] with rfl | hne
    · simpa [CodeFence.enclosed, ClosingFence.ofLines] using hstep
    · rw [List.dropLast_cons_of_ne_nil hne] at hcount
      obtain ⟨hfeed, hcount⟩ := List.forall_mem_cons.mp hcount
      have hpoint : (s.addLine read line).point.line = s.point.line + 1 := by rw [point_addLine, line_advance, hfeed]
      have hrest := ih hlines hcount hstep
      rwa [hpoint, fences_addLine, codeFence_addLine] at hrest

end

/-- The containers that are left open end in one place, each inside of the next one. -/
theorem exists_unclosed (stack : List OpenContainer) (s : Scan) (hstack : s.stack = stack) : ∃ left : List Node,
    (containers (stack.foldl (fun s _ => s.closeContainer s.point) s).nodes).Perm (s.closed ++ left) ∧
      left.map unclosed = stack.map (fun c => .unclosedDirective c.head.name c.start.line c.start.column) ∧
        (left.IsChain fun m n => m ∈ n.children) ∧ (∀ n ∈ left.head?, n.children = s.nodes) ∧
          ∀ n ∈ left, n.span.map (·.stop) = some s.point := by
  induction stack generalizing s with
  | nil => exact ⟨[], by simp [closed, hstack], rfl, .nil, by simp, by simp⟩
  | cons c stack ih =>
    let node := ofContainer c.head s.nodes ⟨c.start, s.point⟩
    have hclose : s.closeContainer s.point = { s with stack, nodes := c.before ++ [node] } := by
      rw [closeContainer, hstack]
      rfl
    obtain ⟨left, hperm, hreports, hchain, hinner, hstop⟩ := ih { s with stack, nodes := c.before ++ [node] } rfl
    have hclosed : ({ s with stack, nodes := c.before ++ [node] } : Scan).closed.Perm (node :: s.closed) := closed_close hstack rfl rfl
    refine ⟨node :: left, ?_, ?_, List.isChain_cons.mpr ⟨fun n hn => ?_, hchain⟩, ?_, List.forall_mem_cons.mpr ⟨rfl, hstop⟩⟩
    · rw [List.foldl_cons, hclose]
      exact hperm.trans ((hclosed.append_right left).trans List.perm_middle.symm)
    · rw [List.map_cons, hreports]
      rfl
    · rw [hinner n hn]
      simp
    · simp [node, ofContainer]

end Scan

/-! ## Documents -/

namespace Document

open Node ClosingFence

/-- The closing fences of a source, and the containers that are closed and that are left open by them. -/
structure IsFenced (source : List Char) (d : Document) (closed left : List Node) (stray : List Nat) : Prop where
  containers : (containers d.root.children).Perm (closed ++ left)
  diagnostics : d.diagnostics = stray.map .unexpectedClosingFence ++ left.map unclosed
  /-- Each of the lines is the last one of a container that was closed there, or it is reported. -/
  lines : (closed.map endLine? ++ stray.map some).Perm ((longLines source).map some)
  nodup : (longLines source).Nodup
  innermostFirst : left.IsChain fun m n => m ∈ n.children
  atEnd : ∀ n ∈ left, n.span.map (·.stop) = some (({} : Point).advance source)

theorem exists_isFenced_parseWith {read : List Char → List Node} (hread : ∀ text, ArePlain (read text)) (source : List Char) :
    ∃ closed left stray, IsFenced source (parseWith read source) closed left stray := by
  let s := Scan.ofLines read (Text.lines source)
  have hempty : ({} : Scan).Accounts [] := ⟨[], rfl, by simp [Scan.closed, containers_nil]⟩
  obtain ⟨stray, hstray, hlines⟩ := hempty.foldl hread (fun _ => LineKind.notMem_body (s := source))
    fun _ => Text.count_lineFeed_of_mem_dropLast (s := source)
  obtain ⟨left, hperm, hreports, hchain, -, hstop⟩ := Scan.exists_unclosed _ (s.flush read) rfl
  rw [Scan.closed_flush hread] at hperm
  have hpoint : (s.flush read).point = ({} : Point).advance source := by
    rw [Scan.flush_eq]
    exact (Scan.point_foldl read _ _).trans (by rw [Text.flatten_lines])
  have hdiagnostics : (s.flush read).diagnostics = stray.map .unexpectedClosingFence := by rw [Scan.flush_eq]; exact hstray
  refine ⟨s.closed, left, stray, hperm, ?_, hlines, nodup_longLines source, hchain, hpoint ▸ hstop⟩
  rw [← hdiagnostics, hreports]
  rfl

/-- What becomes of the closing fences of a source that are long enough, and of the containers. -/
structure ClosesLongFences (source : List Char) (d : Document) (closed left : List Node) : Prop where
  containers : (Node.containers d.root.children).Perm (closed ++ left)
  /-- Each of the lines is the last one of just one container that is closed, or it is reported just once. -/
  lines : ∀ number ∈ longLines source,
    closed.countP (fun n => n.endLine? = some number) + d.diagnostics.count (.unexpectedClosingFence number) = 1
  closedOn : ∀ n ∈ closed, ∃ number ∈ longLines source, n.endLine? = some number
  reports : d.diagnostics.filter Diagnostic.isUnclosed = left.map unclosed
  innermostFirst : left.IsChain fun m n => m ∈ n.children
  atEnd : ∀ n ∈ left, n.span.map (·.stop) = some (({} : Point).advance source)

theorem IsFenced.closesLongFences {source : List Char} {d : Document} {closed left : List Node} {stray : List Nat}
    (h : IsFenced source d closed left stray) : ClosesLongFences source d closed left := by
  refine ⟨h.containers, fun number hnumber => ?_, fun n hn => ?_, ?_, h.innermostFirst, h.atEnd⟩
  · have hends : closed.countP (fun n => n.endLine? = some number) = (closed.map endLine?).count (some number) := by
      rw [List.count, List.countP_map]
      exact List.countP_congr fun n _ => by simp
    have hleft : (left.map unclosed).count (.unexpectedClosingFence number) = 0 := List.count_eq_zero.mpr (by simp [unclosed])
    have hreports : d.diagnostics.count (.unexpectedClosingFence number) = (stray.map some).count (some number) := by
      rw [h.diagnostics, List.count_append, hleft, Nat.add_zero,
        List.count_map_of_injective _ _ (fun _ _ => Diagnostic.unexpectedClosingFence.inj),
        List.count_map_of_injective _ _ (Option.some_injective _)]
    have hlines := h.lines.count_eq (some number)
    rwa [List.count_append, List.count_map_of_injective (longLines source) _ (Option.some_injective _),
      List.count_eq_one_of_mem h.nodup hnumber, ← hends, ← hreports] at hlines
  · have hline := h.lines.mem_iff.mp (List.mem_append_left _ (List.mem_map_of_mem hn))
    obtain ⟨number, hnumber, he⟩ := List.mem_map.mp hline
    exact ⟨number, hnumber, he.symm⟩
  · have hstray : (stray.map Diagnostic.unexpectedClosingFence).filter Diagnostic.isUnclosed = [] :=
      List.filter_eq_nil_iff.mpr (by simp [Diagnostic.isUnclosed])
    have hleft : (left.map unclosed).filter Diagnostic.isUnclosed = left.map unclosed :=
      List.filter_eq_self.mpr (by simp [Diagnostic.isUnclosed, unclosed])
    rw [h.diagnostics, List.filter_append, hstray, hleft, List.nil_append]

/-- Every closing fence outside of code, unless it is shorter than the fence of the innermost open container, is the last line of just
one of the containers that are closed, or it is reported just once. The containers that are left open end with the source, whatever
stands on its last line, and are reported from the innermost to the outermost. -/
theorem closing_fences_accounted (source : List Char) : ∃ closed left, ClosesLongFences source (parse source) closed left := by
  obtain ⟨closed, left, stray, h⟩ := exists_isFenced_parseWith Markdown.arePlain_read source
  exact ⟨closed, left, h.closesLongFences⟩

/-- Is each closing fence on the last line of just one container, or reported just once? -/
def ClosesOnce (source : List Char) : Prop := ∀ f ∈ all source,
  (containers (parse source).root.children).countP (fun n => n.endLine? = some f.number) = 1 ∨
    (parse source).diagnostics.count (.unexpectedClosingFence f.number) = 1

/-- A closing fence that is too short for the innermost container is text, and two containers may end on one line at the end. -/
theorem not_closesOnce : ¬ ClosesOnce "::::a\n:::\n::::\n".toList ∧ ¬ ClosesOnce ":::a\n:::b\n:::".toList := by
  constructor
  · intro h
    let source := "::::a\n:::\n::::\n".toList
    obtain ⟨closed, left, stray, hfenced⟩ := exists_isFenced_parseWith Markdown.arePlain_read source
    have hlong : longLines source = [3] := by decide +kernel
    have hlines := hfenced.lines
    rw [hlong] at hlines
    have hshort : (⟨2, 3, 4⟩ : ClosingFence) ∈ all source := by decide +kernel
    rcases h _ hshort with hcount | hcount
    · obtain ⟨n, hn, hend⟩ := List.countP_pos_iff.mp (hcount ▸ Nat.one_pos)
      have hend : n.endLine? = some 2 := by simpa using hend
      rcases List.mem_append.mp (hfenced.containers.mem_iff.mp hn) with hn | hn
      · have hline := hlines.mem_iff.mp (List.mem_append_left _ (List.mem_map_of_mem hn))
        rw [hend] at hline
        simp at hline
      · have hstop := congrArg (Option.map Point.line) (hfenced.atEnd n hn)
        rw [Option.map_map] at hstop
        have hlast : some 2 = some (({} : Point).advance source).line := hend.symm.trans hstop
        exact absurd hlast (by decide +kernel)
    · have hmem := List.count_pos_iff.mp (hcount ▸ Nat.one_pos)
      rw [show (parse source).diagnostics = _ from hfenced.diagnostics] at hmem
      rcases List.mem_append.mp hmem with hmem | hmem
      · obtain ⟨number, hnumber, he⟩ := List.mem_map.mp hmem
        obtain rfl := Diagnostic.unexpectedClosingFence.inj he
        have hline := hlines.mem_iff.mp (List.mem_append_right _ (List.mem_map_of_mem hnumber))
        simp at hline
      · obtain ⟨n, -, he⟩ := List.mem_map.mp hmem
        cases he
  · intro h
    let source := ":::a\n:::b\n:::".toList
    have hlast : (⟨3, 3, 3⟩ : ClosingFence) ∈ all source := by decide +kernel
    have hends : (containers (parse source).root.children).countP (fun n => n.endLine? = some 3) = 2 := by decide +kernel
    have hreports : (parse source).diagnostics.count (.unexpectedClosingFence 3) = 0 := by decide +kernel
    rcases h _ hlast with hcount | hcount
    · rw [hends] at hcount
      cases hcount
    · rw [hreports] at hcount
      cases hcount

end Document

end MarkdownTemplates
