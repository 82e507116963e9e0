import MarkdownTemplates.Proofs.Document.Cutting
import MarkdownTemplates.Proofs.Document.Placing
import MarkdownTemplates.Lint.Rule

/-!
# Where inline directives stand

The place of an inline directive is counted over the value of the text that it was cut out of, from where that text starts. That is
its place in the source as long as the value is the source, word for word, up to the end of the directive. A value has neither the
backslash of an escape nor the indentation of a line, and behind one of these the place is not that of the directive.
-/

namespace MarkdownTemplates

namespace Node

variable {base : Point} {text : List Char} {n : Node} {ns : List Node}

theorem mem_preorderList_cons {m : Node} : n ∈ preorderList (m :: ns) ↔ n = m ∨ n ∈ preorderList m.children ∨ n ∈ preorderList ns := by
  rw [preorderList, preorder_eq, List.cons_append, List.mem_cons, List.mem_append]

theorem exists_of_mem_shiftAll (base : Point) : ∀ {ns : List Node}, n ∈ preorderList (shiftAll base ns) →
    ∃ m ∈ preorderList ns, n.kind = m.kind ∧ n.value = m.value ∧ n.span = m.span.map (·.shift base)
  | [], h => by simp [shiftAll, preorderList] at h
  | ⟨kind, name, label, attributes, value, checked, depth, children, span, raw⟩ :: ns, h => by
    rw [shiftAll, mem_preorderList_cons] at h
    rcases h with rfl | h | h
    · exact ⟨_, mem_preorderList_cons.mpr (.inl rfl), rfl, rfl, rfl⟩
    · obtain ⟨m, hm, hsame⟩ := exists_of_mem_shiftAll base h
      exact ⟨m, mem_preorderList_cons.mpr (.inr (.inl hm)), hsame⟩
    · obtain ⟨m, hm, hsame⟩ := exists_of_mem_shiftAll base h
      exact ⟨m, mem_preorderList_cons.mpr (.inr (.inr hm)), hsame⟩

theorem exists_of_mem_map_keepSource (text : List Char) (h : n ∈ preorderList (ns.map (keepSource text))) :
    ∃ m ∈ preorderList ns, n.kind = m.kind ∧ n.value = m.value ∧ n.span = m.span := by
  induction ns with
  | nil => simp [preorderList] at h
  | cons m ns ih =>
    rw [List.map_cons, mem_preorderList_cons] at h
    rcases h with rfl | h | h
    · exact ⟨m, mem_preorderList_cons.mpr (.inl rfl), rfl, rfl, rfl⟩
    · exact ⟨n, mem_preorderList_cons.mpr (.inr (.inl h)), rfl, rfl, rfl⟩
    · obtain ⟨k, hk, hsame⟩ := ih h
      exact ⟨k, mem_preorderList_cons.mpr (.inr (.inr hk)), hsame⟩

/-- A directive among nodes whose texts were cut was cut out of one of the texts. -/
theorem exists_isCutOf_of_mem_splitInline (hkind : n.kind.isDirective = true) : ∀ {ns : List Node}, ArePlain ns →
    n ∈ preorderList (splitInline ns) → ∃ t ∈ preorderList ns, t.IsCutOf n
  | [], _, h => by simp [splitInline, preorderList] at h
  | ⟨kind, name, label, attributes, value, checked, depth, children, span, raw⟩ :: ns, hplain, h => by
    obtain ⟨⟨hnode, hchildren⟩, hns⟩ := arePlain_cons.mp hplain
    have hself : n.kind ≠ kind := by
      rintro rfl
      simp [hnode] at hkind
    have hrest : n ∈ preorderList (splitInline ns) → ∃ t ∈ preorderList
        (⟨kind, name, label, attributes, value, checked, depth, children, span, raw⟩ :: ns), t.IsCutOf n := by
      intro h
      obtain ⟨t, ht, hcut⟩ := exists_isCutOf_of_mem_splitInline hkind hns h
      exact ⟨t, mem_preorderList_cons.mpr (.inr (.inr ht)), hcut⟩
    have hbelow : n ∉ preorderList children := fun hm => by simp [hchildren n hm] at hkind
    rw [splitInline] at h
    split_ifs at h with htext
    · rw [preorderList_append, List.mem_append] at h
      rcases h with h | h
      · exact ⟨_, mem_preorderList_cons.mpr (.inl rfl),
          isCutOf_of_mem_splitText htext (arePlain_singleton hnode hchildren) h hkind⟩
      · exact hrest h
    · rcases mem_preorderList_cons.mp h with rfl | h | h
      · exact absurd rfl hself
      · exact absurd h hbelow
      · exact hrest h
    · rcases mem_preorderList_cons.mp h with rfl | h | h
      · exact absurd rfl hself
      · obtain ⟨t, ht, hcut⟩ := exists_isCutOf_of_mem_splitInline hkind hchildren h
        exact ⟨t, mem_preorderList_cons.mpr (.inr (.inl ht)), hcut⟩
      · exact hrest h

/-- Does the node stand in the source where its span says, with the characters that it keeps? -/
def IsLocated (source : List Char) (n : Node) : Prop :=
  ∃ front written behind, source = front ++ written ++ behind ∧ n.raw = some (String.ofList written) ∧
    n.span = some ⟨({} : Point).advance front, ({} : Point).advance (front ++ written)⟩

theorem IsLocated.slice {source : List Char} (h : n.IsLocated source) : ∃ span written, n.span = some span ∧
    n.raw = some (String.ofList written) ∧ Text.sliceBytes? source span.start.offset span.stop.offset = some written := by
  obtain ⟨front, written, behind, hsource, hraw, hspan⟩ := h
  exact ⟨_, written, hspan, hraw, Text.sliceBytes?_eq_some.mpr ⟨front, behind, hsource, by simp, by simp⟩⟩

end Node

/-- Where a directive was cut out of a text: a chunk of a source, a node of text in the chunk, and the value of the node in three
pieces. -/
structure Cut where
  /-- What stands in the source in front of the chunk. -/
  front : List Char
  chunk : List Char
  node : Node
  before : List Char
  /-- The characters of the directive. -/
  written : List Char
  behind : List Char

namespace Cut

/-- Does the value stand in the chunk word for word, from where the node starts to the end of the directive? -/
def IsVerbatim (c : Cut) : Prop :=
  ∃ lead rest stop, c.chunk = lead ++ c.before ++ c.written ++ rest ∧ c.node.span = some ⟨({} : Point).advance lead, stop⟩

/-- Did the directive come out of the cut? -/
structure Gives (read : List Char → List Node) (source : List Char) (c : Cut) (n : Node) : Prop where
  source : c.front ++ c.chunk <+: source
  node : c.node ∈ Node.preorderList (read c.chunk)
  kind : c.node.kind = .text
  value : c.node.value = some (String.ofList (c.before ++ c.written ++ c.behind))
  raw : n.raw = some (String.ofList c.written)
  span : n.span = c.node.span.map fun s =>
    let start := s.start.shift (({} : Point).advance c.front)
    ⟨start.advance c.before, start.advance (c.before ++ c.written)⟩

variable {read : List Char → List Node} {source : List Char} {c : Cut} {n : Node}

theorem Gives.isLocated (h : c.Gives read source n) (hverbatim : c.IsVerbatim) : n.IsLocated source := by
  obtain ⟨lead, rest, stop, hchunk, hspan⟩ := hverbatim
  obtain ⟨behind, hsource⟩ := h.source
  refine ⟨c.front ++ lead ++ c.before, c.written, rest ++ behind, ?_, h.raw, ?_⟩
  · simp [← hsource, hchunk]
  · rw [h.span, hspan]
    simp [Point.shift_advance, Point.advance_append]

end Cut

open Node in
theorem Chunk.exists_gives {read : List Char → List Node} {source front behind : List Char} {n : Node}
    (hread : ∀ text, ArePlain (read text)) (c : Chunk) (hsource : source = front ++ c.text ++ behind)
    (hstart : c.start = ({} : Point).advance front) (hn : n ∈ preorderList (c.contents read)) (hkind : n.kind.isDirective = true) :
    ∃ cut : Cut, cut.Gives read source n ∧ ⟨({} : Point).advance cut.front, cut.chunk⟩ = c := by
  rw [Chunk.contents] at hn
  split_ifs at hn
  · simp [preorderList] at hn
  · have hplain := ((hread c.text).map_keepSource c.text).shiftAll c.start
    obtain ⟨t, ht, value, before, written, behind', htext, hvalue, hpieces, hraw, hspan⟩ :=
      exists_isCutOf_of_mem_splitInline hkind hplain hn
    obtain ⟨t', ht', hkind', hvalue', hspan'⟩ := exists_of_mem_shiftAll c.start ht
    obtain ⟨m, hm, hmkind, hmvalue, hmspan⟩ := exists_of_mem_map_keepSource c.text ht'
    refine ⟨⟨front, c.text, m, before, written, behind'⟩, ⟨⟨behind, hsource.symm⟩, hm, ?_, ?_, hraw, ?_⟩, by rw [← hstart]⟩
    · rw [← hmkind, ← hkind', htext]
    · rw [← hmvalue, ← hvalue', hvalue, ← hpieces, String.ofList_toList]
    · rw [hspan, hspan', hmspan, Option.map_map, hstart]
      rfl

namespace Rule

variable {r : Reference} {f : Finding} {unresolved : List UnresolvedSource}

/-- Was the finding made for the reference, because of its id or because of its `src`? -/
def IsAbout (r : Reference) (f : Finding) : Prop :=
  (∃ unresolved, f = undefinedFinding unresolved r) ∨ ∃ u, u.reference = r ∧ f = unloadableFinding u

/-- Every finding about undefined references is about one. -/
theorem exists_isAbout {c : RuleContext} {fs : List Finding} (h : undefinedReference.check c = some fs) (hf : f ∈ fs) :
    ∃ r, IsAbout r f := by
  obtain rfl := Option.some.inj h
  rcases List.mem_append.mp hf with hf | hf
  · obtain ⟨l, -, rfl⟩ := List.mem_map.mp hf
    exact ⟨_, .inl ⟨_, rfl⟩⟩
  · obtain ⟨u, -, rfl⟩ := List.mem_map.mp hf
    exact ⟨_, .inr ⟨u, rfl, rfl⟩⟩

/-- A finding about a reference has the place of the reference. -/
theorem IsAbout.place (h : IsAbout r f) : f.line = r.line.getD 1 ∧ f.column = r.column := by
  rcases h with ⟨unresolved, rfl⟩ | ⟨u, rfl, rfl⟩
  · simp only [undefinedFinding]
    cases unresolved.find? (·.reference.src = r.src) <;> cases r.src <;> exact ⟨rfl, rfl⟩
  · exact ⟨rfl, rfl⟩

end Rule

namespace Document

open Node

variable {read : List Char → List Node}

/-- A directive that does not stand on lines of its own was cut out of a text of a chunk. -/
theorem mem_ownLines_or_gives (hread : ∀ text, ArePlain (read text)) (source : List Char) :
    ∀ n ∈ preorderList (parseWith read source).root.children, n.kind.isDirective = true →
      n ∈ ownLines (parseWith read source).root.children ∨
        ∃ c : Cut, c.Gives read source n ∧ ⟨({} : Point).advance c.front, c.chunk⟩ ∈ chunks read source := by
  have hplaces : Scan.Places read source fun _ _ ns => ∀ n ∈ preorderList ns, n.kind.isDirective = true →
      n ∈ ownLines ns ∨ ∃ c : Cut, c.Gives read source n ∧ ⟨({} : Point).advance c.front, c.chunk⟩ ∈ chunks read source :=
    { nil := fun _ => by simp [preorderList]
      append := fun hns hms n hn hkind => by
        rw [preorderList_append] at hn
        rw [ownLines_append, List.mem_append]
        rcases List.mem_append.mp hn with hn | hn
        · exact (hns n hn hkind).imp_left .inl
        · exact (hms n hn hkind).imp_left .inr
      leaf := fun _ _ n hn _ => by
        obtain rfl : n = ofLeaf _ _ _ := by simpa [preorderList, preorder_eq, ofLeaf] using hn
        exact .inl List.mem_cons_self
      container := fun _ hchildren n hn hkind => by
        rw [preorderList, preorder_eq, preorderList, List.append_nil] at hn
        rw [ownLines, ownLine_eq, ownLines, List.append_nil]
        rcases List.mem_cons.mp hn with rfl | hn
        · exact .inl List.mem_cons_self
        · exact (hchildren n hn hkind).imp_left (List.mem_cons_of_mem _)
      chunk := fun hmem hsource hstart n hn hkind => by
        obtain ⟨cut, hgives, hcut⟩ := Chunk.exists_gives hread _ hsource hstart hn hkind
        exact .inr ⟨cut, hgives, hcut ▸ hmem⟩ }
  exact hplaces.parseWith.1

/-- An inline directive stands where its span says when its text is the source, word for word, up to the end of the directive, and then
a finding about an undefined reference points at it. -/
theorem inline_where_verbatim (source : List Char) (n : Node) (hn : n ∈ preorderList (parse source).root.children)
    (hkind : n.kind.isDirective = true) (hinline : n ∉ ownLines (parse source).root.children) :
    (∃ c : Cut, c.Gives Markdown.read source n) ∧ ∀ c : Cut, c.Gives Markdown.read source n → c.IsVerbatim →
      n.IsLocated source ∧ ∀ r f, Reference.ofNode? n = some r → Rule.IsAbout r f →
        ∃ span, n.span = some span ∧ f.line = span.start.line ∧ f.column = some span.start.column := by
  obtain ⟨c, hgives, -⟩ := (mem_ownLines_or_gives Markdown.arePlain_read source n hn hkind).resolve_left hinline
  refine ⟨⟨c, hgives⟩, fun c hc hverbatim => ?_⟩
  have hlocated := hc.isLocated hverbatim
  refine ⟨hlocated, fun r f hr hf => ?_⟩
  obtain ⟨front, written, behind, -, -, hspan⟩ := hlocated
  rw [Reference.ofNode?] at hr
  split_ifs at hr
  obtain ⟨id, -, rfl⟩ := Option.map_eq_some_iff.mp hr
  obtain ⟨hline, hcolumn⟩ := hf.place
  refine ⟨_, hspan, hline.trans ?_, hcolumn.trans ?_⟩
  · rw [line?, hspan]
    rfl
  · rw [column?, hspan]
    rfl

def plainSource : List Char := "b ::template\x7bid=x\x7d\n".toList

/-- A reference on the first line, without characters of several bytes in front of it. -/
def referenceAt (offset : Nat) : Node where
  kind := .leafDirective
  name := "template"
  attributes := some { values := Dict.ofList [("id", "x")] }
  span := some ⟨⟨1, offset + 1, offset⟩, ⟨1, offset + 17, offset + 16⟩⟩
  raw := "::template\x7bid=x\x7d"

theorem inline_where_verbatim_plain :
    referenceAt 2 ∈ preorderList (parse plainSource).root.children ∧ (referenceAt 2).IsLocated plainSource := by
  let lead : Node := { kind := .text, value := "b ", span := some ⟨{}, ⟨1, 3, 2⟩⟩ }
  let whole : Span := ⟨{}, ⟨1, 19, 18⟩⟩
  have hchildren : (parse plainSource).root.children =
      [{ kind := .paragraph, children := [lead, referenceAt 2], span := whole,
         raw := "b ::template\x7bid=x\x7d" }] := by cbv
  let c : Cut := ⟨[], plainSource,
    { kind := .text, value := "b ::template\x7bid=x\x7d", span := whole }, "b ".toList, "::template\x7bid=x\x7d".toList, []⟩
  have hread : Markdown.read plainSource = [{ kind := .paragraph, children := [c.node], span := whole }] := by cbv
  have hn : referenceAt 2 ∈ preorderList (parse plainSource).root.children := by
    simp [hchildren, preorderList, preorder_eq]
  have hinline : referenceAt 2 ∉ ownLines (parse plainSource).root.children := by
    simp [hchildren, ownLines, ownLine_eq, isOwnLine]
  have hgives : c.Gives Markdown.read plainSource (referenceAt 2) := by
    refine ⟨List.prefix_refl _, ?_, rfl, rfl, rfl, rfl⟩
    simp [hread, preorderList, preorder_eq, c]
  exact ⟨hn, ((inline_where_verbatim plainSource (referenceAt 2) hn rfl hinline).2 c hgives ⟨[], ['\n'], _, rfl, rfl⟩).1⟩

def escapedSource : List Char := "a\\* ::template\x7bid=x\x7d\n".toList

/-- Behind an escape the place of a directive is too far in front. -/
theorem not_inline_where_written : ¬ ∀ source, ∀ n ∈ preorderList (parse source).root.children, n.kind.isDirective = true →
    n ∉ ownLines (parse source).root.children → n.IsLocated source := by
  intro h
  let lead : Node := { kind := .text, value := "a* ", span := some ⟨{}, ⟨1, 4, 3⟩⟩ }
  have hchildren : (parse escapedSource).root.children =
      [{ kind := .paragraph, children := [lead, referenceAt 3], span := some ⟨{}, ⟨1, 21, 20⟩⟩,
         raw := "a\\* ::template\x7bid=x\x7d" }] := by
    cbv
  have hn : referenceAt 3 ∈ preorderList (parse escapedSource).root.children := by simp [hchildren, preorderList, preorder_eq]
  have hinline : referenceAt 3 ∉ ownLines (parse escapedSource).root.children := by
    simp [hchildren, ownLines, ownLine_eq, isOwnLine]
  obtain ⟨span, written, hspan, hraw, hslice⟩ := (h escapedSource (referenceAt 3) hn rfl hinline).slice
  obtain rfl := Option.some.inj hspan
  have hwritten : written = "::template\x7bid=x\x7d".toList := by
    rw [← String.toList_ofList (l := written), ← Option.some.inj hraw]
  have hfound : Text.sliceBytes? escapedSource 3 19 = some " ::template\x7bid=x".toList := by decide +kernel
  have hwrong := Option.some.inj (hslice.symm.trans hfound)
  rw [hwritten] at hwrong
  exact absurd hwrong (by decide +kernel)

end Document

end MarkdownTemplates
