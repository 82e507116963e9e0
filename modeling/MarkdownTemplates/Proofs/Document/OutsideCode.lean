import MarkdownTemplates.Proofs.Document.InlinePlaces

/-!
# Directives outside of fenced code

By the rules of CommonMark a line stands inside of fenced code or outside. A scan goes by the marks of the fences alone, and the reader
of Markdown also by items, quotations and HTML. Where the lines keep to the rules for what is behind the marks, and the reader takes no
line of the code for text, the directives are those outside of the code.
-/

namespace MarkdownTemplates

namespace CodeFence

variable {source : List Char} {p q : (Option (Char × Nat) × List Char) × Nat} {d : Option Nat × NodeKind × Head}

/-- The lines of a source with their numbers, and with the fences of the blocks of code in which they stand. -/
def numbered (source : List Char) : List ((Option (Char × Nat) × List Char) × Nat) :=
  (enclosed next none (Text.lines source)).zipIdx 1

/-- Does no line from the first to the last stand inside of fenced code? -/
def AreOutside (source : List Char) (first last : Nat) : Prop :=
  ∀ p ∈ numbered source, first ≤ p.2 → p.2 ≤ last → p.1.1 = none

instance (source : List Char) (first last : Nat) : Decidable (AreOutside source first last) :=
  inferInstanceAs (Decidable (∀ p ∈ numbered source, _))

theorem eq_of_mem_numbered (hp : p ∈ numbered source) (hq : q ∈ numbered source) (h : p.2 = q.2) : p = q := by
  rw [numbered, List.mem_zipIdx_iff_le_and_getElem?_sub] at hp hq
  exact Prod.ext (Option.some.inj (hp.2.symm.trans (h ▸ hq.2))) h

theorem of_directive?_eq_some (h : directive? p = some d) : p.1.1 = none ∧ d.1 = some p.2 := by
  unfold directive? at h
  split at h
  · cases h
  · split at h <;> cases h <;> exact ⟨rfl, rfl⟩

end CodeFence

namespace Document

open CodeFence Node

variable {read : List Char → List Node} {source : List Char} {n : Node}

/-- The first and the last line of each text that the reader finds in a chunk. The lines are counted over the value of the text, as are
those of the directives that are cut out of it. -/
def textLines (read : List Char → List Node) (source : List Char) : List (Nat × Nat) :=
  (chunks read source).flatMap fun c => (preorderList (read c.text)).filterMap fun t =>
    match t.kind, t.span, t.value with
    | .text, some span, some value =>
      let first := (span.start.shift c.start).line
      some (first, first + value.toList.count '\n')
    | _, _, _ => none

/-- The line of a directive that was cut out of a text is one of the lines of the text. -/
theorem outside_of_gives (htexts : ∀ lines ∈ textLines read source, AreOutside source lines.1 lines.2) {c : Cut} (hc : c.Gives read source n)
    (hchunk : ⟨({} : Point).advance c.front, c.chunk⟩ ∈ chunks read source) :
    ∀ p ∈ numbered source, n.line? = some p.2 → p.1.1 = none := by
  intro p hp hline
  rw [line?, hc.span, Option.map_map, Option.map_eq_some_iff] at hline
  obtain ⟨span, hspan, hline⟩ := hline
  let start := span.start.shift (({} : Point).advance c.front)
  have hline : start.line + c.before.count '\n' = p.2 := by
    rw [← Scan.line_advance]
    exact hline
  have htext : (start.line, start.line + (c.before ++ c.written ++ c.behind).count '\n') ∈ textLines read source := by
    refine List.mem_flatMap.mpr ⟨_, hchunk, List.mem_filterMap.mpr ⟨c.node, hc.node, ?_⟩⟩
    simp [hc.kind, hspan, hc.value, start]
  rw [List.count_append, List.count_append] at htext
  exact htexts _ htext p hp (by omega) (by omega)

/-- A directive on lines of its own starts on a line outside of code when the directives are those of these lines. -/
theorem outside_of_mem_ownLines {ns : List Node} (hplaces : (ownLines ns).map place = (numbered source).filterMap directive?)
    (hn : n ∈ ownLines ns) : ∀ p ∈ numbered source, n.line? = some p.2 → p.1.1 = none := by
  intro p hp hline
  have hplace : n.place ∈ (numbered source).filterMap directive? := hplaces ▸ List.mem_map_of_mem hn
  obtain ⟨q, hq, hd⟩ := List.mem_filterMap.mp hplace
  obtain ⟨houtside, hnumber⟩ := of_directive?_eq_some hd
  rw [eq_of_mem_numbered hp hq (Option.some.inj (hline.symm.trans hnumber))]
  exact houtside

/-- Fenced code hides the directives in it, and nothing else does, as long as the lines keep to the rules of CommonMark for what is
behind the marks of a fence, and the reader of Markdown finds no text in the code. -/
theorem directives_outside_code (source : List Char)
    (hlines : ∀ p ∈ enclosed next none (Text.lines source), isStrict p.1 p.2 = true)
    (htexts : ∀ lines ∈ textLines Markdown.read source, AreOutside source lines.1 lines.2) :
    (ownLines (parse source).root.children).map place = (numbered source).filterMap directive? ∧
      ∀ n ∈ preorderList (parse source).root.children, n.isOwnLine →
        (n ∈ ownLines (parse source).root.children ∨ n.IsInlineLeaf) ∧
          ∀ p ∈ numbered source, n.line? = some p.2 → p.1.1 = none := by
  have hfences : enclosed Scan.nextFence none (Text.lines source) = enclosed next none (Text.lines source) :=
    enclosed_congr fun p hp => Scan.nextFence_of_isStrict (hlines p hp)
  have hplaces : (ownLines (parse source).root.children).map place = (numbered source).filterMap directive? := by
    rw [numbered, ← hfences]
    exact place_ownLines_parseWith Markdown.isMarkdownBlock_read source
  refine ⟨hplaces, fun n hn hown => ⟨mem_ownLines_or_isInlineLeaf source n hn hown, ?_⟩⟩
  rcases mem_ownLines_or_gives Markdown.arePlain_read source n hn (isDirective_of_isOwnLine hown) with hn | ⟨c, hc, hchunk⟩
  · exact outside_of_mem_ownLines hplaces hn
  · exact outside_of_gives htexts hc hchunk

/-- A paragraph with a leaf in its text, and a block of tildes with a leaf and a shorter fence, all in a container. -/
def fencedSource : List Char :=
  ":::a\nx ::e\x7by=1\x7d\n~~~~ `x`\n::b\x7bz=1\x7d\n~~~\n:::\n~~~~ \n::c\n:::\n```\n::d".toList

theorem directives_outside_code_tildes :
    (∀ p ∈ enclosed next none (Text.lines fencedSource), isStrict p.1 p.2 = true) ∧
      textLines Markdown.read fencedSource = [(2, 2)] ∧ AreOutside fencedSource 2 2 ∧
      (ownLines (parse fencedSource).root.children).map place =
        [(some 1, .containerDirective, ⟨"a", none, {}⟩), (some 8, .leafDirective, ⟨"c", none, {}⟩)] := by
  have hlines : ∀ p ∈ enclosed next none (Text.lines fencedSource), isStrict p.1 p.2 = true := by decide +kernel
  have htexts : textLines Markdown.read fencedSource = [(2, 2)] := by cbv
  have houtside : AreOutside fencedSource 2 2 := by decide +kernel
  refine ⟨hlines, htexts, houtside, (directives_outside_code fencedSource hlines ?_).1.trans ?_⟩
  · rw [htexts]
    exact List.forall_mem_singleton.mpr houtside
  · decide +kernel

/-- An item of a list in which code starts, and a leaf that is no longer in the item. -/
def itemSource : List Char := "1. a\n   ```\n::b\x7bx=1\x7d\n".toList

theorem nodes_item : (preorderList (parse itemSource).root.children).map (fun n => (n.line?, n.kind)) =
    [(some 1, .list), (some 1, .listItem), (some 1, .paragraph), (some 1, .text), (some 2, .code), (some 3, .paragraph),
      (some 3, .leafDirective)] := by cbv

/-- Marks with text behind them stop the code for the scan, and marks with a mark behind them start it. Where the lines have no such
marks, the code may still stop for the reader, with the item of a list in which it starts. -/
theorem not_directives_outside_code :
    (¬ ∀ source, ∀ n ∈ preorderList (parse source).root.children, n.isOwnLine →
        ∀ p ∈ numbered source, n.line? = some p.2 → p.1.1 = none) ∧
      (¬ ∀ source, ∀ p ∈ numbered source, ∀ d ∈ directive? p, ∃ n ∈ preorderList (parse source).root.children, n.place = d) ∧
      ¬ ∀ source, (∀ p ∈ enclosed next none (Text.lines source), isStrict p.1 p.2 = true) →
        ∀ n ∈ preorderList (parse source).root.children, n.isOwnLine → ∀ p ∈ numbered source, n.line? = some p.2 → p.1.1 = none := by
  refine ⟨fun h => ?_, fun h => ?_, fun h => ?_⟩
  · let source := "```\n``` x\n::tag\n```\n".toList
    have hplaces : (ownLines (parse source).root.children).map place = [(some 3, .leafDirective, ⟨"tag", none, {}⟩)] := by
      refine (place_ownLines_parseWith Markdown.isMarkdownBlock_read source).trans ?_
      decide +kernel
    obtain ⟨n, hn, hplace⟩ := List.mem_map.mp (hplaces ▸ List.mem_singleton_self _)
    have hline : n.line? = some 3 := congrArg Prod.fst hplace
    have hkind : n.kind = .leafDirective := congrArg (fun d => d.2.1) hplace
    have hcode : ((some ('`', 3), "::tag\n".toList), 3) ∈ numbered source := by decide +kernel
    have hfree := h source n (mem_preorderList_of_mem_ownLines _ hn) (by simp [isOwnLine, hkind]) _ hcode hline
    cases hfree
  · let source := "``` a`b\n:::tag\n:::\n".toList
    have hplaces : (ownLines (parse source).root.children).map place = [] := by
      refine (place_ownLines_parseWith Markdown.isMarkdownBlock_read source).trans ?_
      decide +kernel
    have hfree : ((none, ":::tag\n".toList), 2) ∈ numbered source := by decide +kernel
    have hdirective : directive? ((none, ":::tag\n".toList), 2) = some (some 2, .containerDirective, ⟨"tag", none, {}⟩) := by
      decide +kernel
    obtain ⟨n, hn, hplace⟩ := h source _ hfree _ hdirective
    have hkind : n.kind = .containerDirective := congrArg (fun d => d.2.1) hplace
    rcases mem_ownLines_or_isInlineLeaf source n hn (by simp [isOwnLine, hkind]) with hn | hn
    · rw [List.map_eq_nil_iff.mp hplaces] at hn
      cases hn
    · cases hkind.symm.trans hn.1
  · have hstrict : ∀ p ∈ enclosed next none (Text.lines itemSource), isStrict p.1 p.2 = true := by decide +kernel
    have hleaf : (some 3, .leafDirective) ∈ (preorderList (parse itemSource).root.children).map fun n => (n.line?, n.kind) := by
      simp [nodes_item]
    obtain ⟨n, hn, hnode⟩ := List.mem_map.mp hleaf
    obtain ⟨hline, hkind⟩ := Prod.mk.inj hnode
    have hcode : ((some ('`', 3), "::b\x7bx=1\x7d\n".toList), 3) ∈ numbered itemSource := by decide +kernel
    have hfree := h itemSource hstrict n hn (by simp [isOwnLine, hkind]) _ hcode hline
    cases hfree

end Document

end MarkdownTemplates
