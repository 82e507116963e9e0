import MarkdownTemplates.Proofs.Document.OwnLines

/-!
# Directives and fenced code

The directives on lines of their own are those of the lines that are not inside of fenced code. Where the code starts and stops is
told by the scan, which looks only at the marks at the front of a line. CommonMark also looks behind them: a fence of backticks
has no backtick behind it in its line, and nothing stands behind a fence that closes. On lines that keep to this the two agree.
-/

namespace MarkdownTemplates

/-! ## Fences -/

namespace CodeFence

/-- The marks at the front of what a line shows that could be a fence, how many there are, and what is behind them. -/
def marksOf? (shown : List Char) : Option (Char × Nat × List Char) :=
  let ofMark (mark : Char) := (mark, (shown.takeWhile (· == mark)).length, shown.dropWhile (· == mark))
  if 3 ≤ (ofMark '`').2.1 then some (ofMark '`')
  else if 3 ≤ (ofMark '~').2.1 then some (ofMark '~')
  else none

/-- The marks of a line that is indented by at most three spaces. -/
def marks? (line : List Char) : Option (Char × Nat × List Char) :=
  let body := LineKind.body line
  if 3 < (body.takeWhile (· == ' ')).length then none else marksOf? (body.dropWhile (· == ' '))

/-- The fence of the block of code that the line opens. -/
def opened? (line : List Char) : Option (Char × Nat) :=
  match marks? line with
  | some (mark, size, info) => if mark = '`' ∧ '`' ∈ info then none else some (mark, size)
  | none => none

/-- Does the line close the block of code with the fence? -/
def closes (fence : Char × Nat) (line : List Char) : Bool :=
  (marks? line).any fun (mark, size, rest) => mark = fence.1 && fence.2 ≤ size && Text.isBlankText rest

/-- The fence of the block of code behind a line, by the rules of CommonMark. -/
def next (fence : Option (Char × Nat)) (line : List Char) : Option (Char × Nat) :=
  match fence with
  | none => opened? line
  | some fence => if closes fence line then none else some fence

/-- Each line with the fence of the block of code in which it stands. -/
def enclosed (next : Option (Char × Nat) → List Char → Option (Char × Nat)) (fence : Option (Char × Nat)) :
    List (List Char) → List (Option (Char × Nat) × List Char)
  | [] => []
  | line :: rest => (fence, line) :: enclosed next (next fence line) rest

/-- The directive that stands on the numbered line, unless the line is inside of code. -/
def directive? : (Option (Char × Nat) × List Char) × Nat → Option (Option Nat × NodeKind × Head)
  | ((some _, _), _) => none
  | ((none, line), number) =>
    match LineKind.ofLine line with
    | .leaf head => some (some number, .leafDirective, head)
    | .container _ head => some (some number, .containerDirective, head)
    | _ => none

/-- Does the line keep to the rules for what is behind the marks, where its marks would open or close a block of code? -/
def isStrict (fence : Option (Char × Nat)) (line : List Char) : Bool :=
  (marks? line).all fun (mark, size, rest) =>
    match fence with
    | none => !(mark = '`' && '`' ∈ rest)
    | some fence => !(mark = fence.1 && fence.2 ≤ size) || Text.isBlankText rest

variable {fence : Option (Char × Nat)} {line : List Char}

theorem ofShown_eq_codeFence_iff {shown : List Char} {mark : Char} {size : Nat} :
    LineKind.ofShown shown = .codeFence mark size ↔ ∃ rest, marksOf? shown = some (mark, size, rest) := by
  by_cases hticks : 3 ≤ (shown.takeWhile (· == '`')).length
  · simp [LineKind.ofShown, marksOf?, hticks]
  by_cases htildes : 3 ≤ (shown.takeWhile (· == '~')).length
  · simp [LineKind.ofShown, marksOf?, hticks, htildes]
  have hnone : marksOf? shown = none := by simp [marksOf?, hticks, htildes]
  have hother : LineKind.ofShown shown ≠ .codeFence mark size := by
    simp only [LineKind.ofShown, if_neg hticks, if_neg htildes]
    repeat' split
    all_goals simp
  simp [hnone, hother]

theorem ofLine_eq_codeFence_iff {mark : Char} {size : Nat} :
    LineKind.ofLine line = .codeFence mark size ↔ ∃ rest, marks? line = some (mark, size, rest) := by
  simp only [LineKind.ofLine, marks?]
  split_ifs
  · simp
  · exact ofShown_eq_codeFence_iff

theorem enclosed_congr {f g : Option (Char × Nat) → List Char → Option (Char × Nat)} {lines : List (List Char)}
    (h : ∀ p ∈ enclosed g fence lines, f p.1 p.2 = g p.1 p.2) : enclosed f fence lines = enclosed g fence lines := by
  induction lines generalizing fence with
  | nil => rfl
  | cons line lines ih =>
    rw [enclosed] at h
    obtain ⟨hline, hlines⟩ := List.forall_mem_cons.mp h
    rw [enclosed, enclosed, hline, ih hlines]

end CodeFence

/-! ## The fence of a scan -/

namespace Scan

variable {read : List Char → List Node} {s : Scan} {line : List Char}

/-- The fence of code that is open behind a line for a scan, when `fence` is open in front. -/
def nextFence (fence : Option (Char × Nat)) (line : List Char) : Option (Char × Nat) :=
  match fence with
  | some fence => fenceAfter fence line
  | none =>
    match LineKind.ofLine line with
    | .codeFence mark size => some (mark, size)
    | _ => none

theorem codeFence_closeContainer (s : Scan) (stop : Point) : (s.closeContainer stop).codeFence = s.codeFence := by
  rw [closeContainer]
  split <;> rfl

theorem codeFence_addLine (read : List Char → List Node) (s : Scan) (line : List Char) :
    (s.addLine read line).codeFence = nextFence s.codeFence line := by
  cases hcode : s.codeFence with
  | some fence => simp only [addLine, hcode, addMarkdown_eq, nextFence]
  | none =>
    simp only [addLine, hcode, nextFence, addOuterLine]
    cases hline : LineKind.ofLine line with
    | markdown => simp only [addMarkdown_eq, hcode]
    | codeFence mark size => simp only [addMarkdown_eq]
    | closingFence size =>
      simp only [addClosingFence]
      split
      · simp only [addMarkdown_eq, hcode]
      · split_ifs
        · rw [codeFence_closeContainer, flush_eq, hcode]
        · simp only [addMarkdown_eq, hcode]
    | container size head => simp only [flush_eq, openContainer, hcode]
    | leaf head => simp only [flush_eq, addLeaf, hcode]

theorem nextFence_of_ne {fence : Option (Char × Nat)} (h : ∀ mark size, LineKind.ofLine line ≠ .codeFence mark size) :
    nextFence fence line = fence := by
  cases hline : LineKind.ofLine line with
  | codeFence mark size => exact absurd hline (h mark size)
  | _ => cases fence <;> simp only [nextFence, fenceAfter, hline]

/-- On a line that keeps to the rules a scan goes by CommonMark. -/
theorem nextFence_of_isStrict {fence : Option (Char × Nat)} (h : CodeFence.isStrict fence line = true) :
    nextFence fence line = CodeFence.next fence line := by
  cases hmarks : CodeFence.marks? line with
  | none =>
    have hline : ∀ mark size, LineKind.ofLine line ≠ .codeFence mark size := fun mark size hline => by
      simp [CodeFence.ofLine_eq_codeFence_iff, hmarks] at hline
    rw [nextFence_of_ne hline]
    cases fence <;> simp [CodeFence.next, CodeFence.opened?, CodeFence.closes, hmarks]
  | some m =>
    obtain ⟨mark, size, rest⟩ := m
    have hline := CodeFence.ofLine_eq_codeFence_iff.mpr ⟨rest, hmarks⟩
    rw [CodeFence.isStrict, hmarks] at h
    cases fence with
    | none =>
      have hinfo : ¬ (mark = '`' ∧ '`' ∈ rest) := by simpa [-not_and, not_and_or] using h
      simp only [nextFence, hline, CodeFence.next, CodeFence.opened?, hmarks, if_neg hinfo]
    | some fence =>
      have hblank : mark = fence.1 ∧ fence.2 ≤ size → Text.isBlankText rest = true := by simpa [imp_iff_not_or, not_and_or] using h
      simp only [nextFence, fenceAfter, hline, CodeFence.next, CodeFence.closes, hmarks, Option.any_some]
      by_cases hcloses : mark = fence.1 ∧ fence.2 ≤ size
      · simp [hcloses, hblank hcloses]
      · have hopen : (decide (mark = fence.1) && decide (fence.2 ≤ size) && Text.isBlankText rest) = false := by
          simp [← Bool.decide_and, hcloses]
        rw [if_neg hcloses, hopen, if_neg (by decide)]

end Scan

namespace Scan

open Node

variable {read : List Char → List Node} {s : Scan} {line : List Char}

/-- What a scan has found so far: the open containers with what stands in front of them, and the nodes in the innermost one. -/
def found (s : Scan) : List (Option Nat × NodeKind × Head) :=
  s.stack.reverse.flatMap (fun c => (ownLines c.before).map place ++ [(some c.start.line, .containerDirective, c.head)])
    ++ (ownLines s.nodes).map place

theorem found_addMarkdown (s : Scan) (line : List Char) : (s.addMarkdown line).found = s.found := by
  rw [addMarkdown_eq]
  rfl

theorem found_openContainer (s : Scan) (head : Head) (fence : Nat) :
    (s.openContainer head fence).found = s.found ++ [(some s.point.line, .containerDirective, head)] := by
  simp [found, openContainer, ownLines]

theorem found_addLeaf (s : Scan) (head : Head) (line : List Char) (stop : Point) :
    (s.addLeaf head line stop).found = s.found ++ [(some s.point.line, .leafDirective, head)] := by
  simp [found, addLeaf, ownLines_append, ownLines, ownLine_eq, isOwnLine, place, line?, Node.head]

variable (hread : ∀ text, ∀ n ∈ read text, n.IsMarkdownBlock)

include hread in
theorem found_flush (s : Scan) : (s.flush read).found = s.found := by
  have hblocks : ownLines ((s.chunk.map (·.contents read)).getD []) = [] := by
    cases s.chunk with
    | none => rfl
    | some c => exact ownLines_of_blocks (c.isOwnLine_contents hread)
  rw [flush_eq, found, found, ownLines_append, hblocks, List.append_nil]

theorem found_closeContainer (s : Scan) (stop : Point) : (s.closeContainer stop).found = s.found := by
  rw [closeContainer]
  split
  · rfl
  · rename_i c stack hstack
    simp [found, hstack, ownLines_append, ownLine_eq, isOwnLine, place, ownLines, line?, head]

include hread in
theorem found_addOuterLine (s : Scan) (line : List Char) :
    (s.addOuterLine read line).found = s.found ++ (CodeFence.directive? ((none, line), s.point.line)).toList := by
  have hflush := found_flush hread s
  have hpoint : (s.flush read).point = s.point := by rw [flush_eq]
  simp only [addOuterLine, CodeFence.directive?]
  cases hline : LineKind.ofLine line with
  | markdown => simp [found_addMarkdown]
  | codeFence mark size =>
    simp only [found_addMarkdown]
    exact (List.append_nil _).symm
  | closingFence size =>
    simp only [addClosingFence, Option.toList_none, List.append_nil]
    split
    · rw [found_addMarkdown]
      rfl
    · split_ifs
      · rw [found_closeContainer, hflush]
      · exact found_addMarkdown s line
  | container size head =>
    rw [found_openContainer, hflush, hpoint]
    rfl
  | leaf head =>
    rw [found_addLeaf, hflush, hpoint]
    rfl

include hread in
/-- A line adds the directive that stands on it. -/
theorem found_addLine (s : Scan) (line : List Char) :
    (s.addLine read line).found = s.found ++ (CodeFence.directive? ((s.codeFence, line), s.point.line)).toList := by
  cases hcode : s.codeFence with
  | none =>
    rw [← found_addOuterLine hread s line]
    simp only [addLine, hcode]
    rfl
  | some fence =>
    simp only [addLine, hcode, addMarkdown_eq, CodeFence.directive?]
    exact (List.append_nil _).symm

theorem line_advance (p : Point) (text : List Char) : (p.advance text).line = p.line + text.count '\n' := by
  induction text generalizing p with
  | nil => rfl
  | cons c text ih =>
    rw [Point.advance, List.foldl_cons, ← Point.advance, ih, Point.step]
    split_ifs with hc
    · simp [hc]
      omega
    · simp [hc]

include hread in
theorem found_foldl {lines : List (List Char)} (hlines : ∀ line ∈ lines.dropLast, line.count '\n' = 1) (s : Scan) :
    (lines.foldl (addLine read) s).found =
      s.found ++ ((CodeFence.enclosed nextFence s.codeFence lines).zipIdx s.point.line).filterMap CodeFence.directive? := by
  induction lines generalizing s with
  | nil => simp [CodeFence.enclosed]
  | cons line lines ih =>
    have hstep := found_addLine hread s line
    have hbehind : (lines.foldl (addLine read) (s.addLine read line)).found = (s.addLine read line).found
        ++ ((CodeFence.enclosed nextFence (s.addLine read line).codeFence lines).zipIdx (s.point.line + 1)).filterMap CodeFence.directive? := by
      rcases eq_or_ne lines [] with rfl | hne
      · simp [CodeFence.enclosed]
      · rw [List.dropLast_cons_of_ne_nil hne] at hlines
        obtain ⟨hline, hlines⟩ := List.forall_mem_cons.mp hlines
        have hpoint : (s.addLine read line).point.line = s.point.line + 1 := by rw [← hline, ← line_advance]; rfl
        rw [ih hlines, hpoint]
    rw [List.foldl_cons, hbehind, hstep, codeFence_addLine, CodeFence.enclosed, List.zipIdx_cons, List.append_assoc]
    cases hd : CodeFence.directive? ((s.codeFence, line), s.point.line) <;> simp [hd]

theorem stack_closeContainer (s : Scan) (stop : Point) : (s.closeContainer stop).stack = s.stack.tail := by
  rw [closeContainer]
  split <;> simp_all

/-- When all containers are closed, what was found is the nodes. -/
theorem found_closeAll (s : Scan) : (ownLines s.closeAll.nodes).map place = s.found := by
  have hfold : ∀ (cs : List OpenContainer) (s : Scan), cs.length = s.stack.length →
      (cs.foldl (fun s _ => s.closeContainer s.point) s).stack = []
        ∧ (cs.foldl (fun s _ => s.closeContainer s.point) s).found = s.found := by
    intro cs
    induction cs with
    | nil => exact fun s hs => ⟨List.length_eq_zero_iff.mp hs.symm, rfl⟩
    | cons c cs ih =>
      intro s hs
      obtain ⟨hstack, hfound⟩ := ih (s.closeContainer s.point) (by rw [stack_closeContainer, List.length_tail, ← hs]; rfl)
      exact ⟨hstack, hfound.trans (found_closeContainer s s.point)⟩
  obtain ⟨hstack, hfound⟩ := hfold s.stack s rfl
  rw [← hfound, found, hstack]
  rfl

end Scan

namespace Document

variable {read : List Char → List Node}

/-- The containers and leaves on lines of their own are those of the lines that the scan does not take for code. -/
theorem place_ownLines_parseWith (hread : ∀ text, ∀ n ∈ read text, n.IsMarkdownBlock) (source : List Char) :
    (Node.ownLines (parseWith read source).root.children).map Node.place =
      ((CodeFence.enclosed Scan.nextFence none (Text.lines source)).zipIdx 1).filterMap CodeFence.directive? := by
  have hlines := Scan.found_foldl hread (fun _ => Text.count_lineFeed_of_mem_dropLast (s := source)) {}
  rw [parseWith, Scan.found_closeAll, Scan.found_flush hread, Scan.ofLines, hlines]
  rfl

end Document

end MarkdownTemplates
