import MarkdownTemplates.Proofs.Document.Placing

/-!
# Where the blocks of a document stand

The blocks of a document stand one behind the other, those of a container inside of it, and each of them is the piece of the source
that its span names. Directives on lines of their own start where a line starts.
-/

namespace MarkdownTemplates

open Text (byteSize sliceBytes?)

namespace Node

/-- Is the node the piece of the source between the ends of the span, word for word? -/
def IsPieceOf (source : List Char) (n : Node) (span : Span) : Prop :=
  n.span = some span ∧ ∃ raw, n.raw = some (String.ofList raw) ∧ sliceBytes? source span.start.offset span.stop.offset = some raw

/-- Do the nodes stand one behind the other between two offsets, each as its span says? -/
inductive AreLaidOut (source : List Char) : Nat → Nat → List Node → Prop
  | nil {start stop : Nat} (h : start ≤ stop) : AreLaidOut source start stop []
  | container {start stop : Nat} {n : Node} {ns : List Node} {span : Span} (hkind : n.kind = .containerDirective)
      (hspan : n.span = some span) (hbehind : start ≤ span.start.offset) (hline : span.start.IsLineStart source)
      (hchildren : AreLaidOut source span.start.offset span.stop.offset n.children)
      (hns : AreLaidOut source span.stop.offset stop ns) : AreLaidOut source start stop (n :: ns)
  | leaf {start stop : Nat} {n : Node} {ns : List Node} {span : Span} (hkind : n.kind = .leafDirective) (hchildren : n.children = [])
      (hpiece : n.IsPieceOf source span) (hbehind : start ≤ span.start.offset) (hline : span.start.IsLineStart source)
      (hns : AreLaidOut source span.stop.offset stop ns) : AreLaidOut source start stop (n :: ns)
  | block {start stop : Nat} {n : Node} {ns : List Node} {span : Span} (hown : n.isOwnLine = false)
      (hpiece : n.IsPieceOf source span) (hbehind : start ≤ span.start.offset)
      (hns : AreLaidOut source span.stop.offset stop ns) : AreLaidOut source start stop (n :: ns)

/-- What is relied on of a reader of Markdown: it gives blocks, none of which has a directive in it, and these stand one behind the
other in the text, from character to character. -/
structure IsReader (read : List Char → List Node) : Prop where
  blocks : ∀ text, ∀ n ∈ read text, n.kind ≠ .text
  plain : ∀ text, ArePlain (read text)
  spans : ∀ text, ∃ spans : List Span, (read text).map (·.span) = spans.map some ∧
    spans.Pairwise (fun s s' => s.stop.offset ≤ s'.start.offset) ∧
      ∀ s ∈ spans, (sliceBytes? text s.start.offset s.stop.offset).isSome

theorem IsReader.isMarkdownBlock {read : List Char → List Node} (h : IsReader read) (text : List Char) :
    ∀ n ∈ read text, n.IsMarkdownBlock := by
  intro n hn
  have hplain : n.kind.isDirective = false := (arePlain_cons.mp (arePlain_iff.mp (h.plain text) n hn)).1.1
  refine ⟨h.blocks text n hn, ?_⟩
  cases hk : n.kind <;> simp_all [isOwnLine, NodeKind.isDirective]

variable {source text : List Char} {start stop mid : Nat} {n : Node} {ns ms : List Node} {span : Span}

theorem IsPieceOf.le (h : n.IsPieceOf source span) : span.start.offset ≤ span.stop.offset := by
  obtain ⟨-, raw, -, hslice⟩ := h
  obtain ⟨front, behind, -, hstart, hstop⟩ := Text.sliceBytes?_eq_some.mp hslice
  rw [Text.byteSize_append] at hstop
  omega

namespace AreLaidOut

theorem le (h : AreLaidOut source start stop ns) : start ≤ stop := by
  induction h with
  | nil h => exact h
  | container _ _ hbehind _ _ _ hchildren hns => omega
  | leaf _ _ hpiece hbehind _ _ hns =>
    have := hpiece.le
    omega
  | block _ hpiece hbehind _ hns =>
    have := hpiece.le
    omega

theorem append (h : AreLaidOut source start mid ns) (h' : AreLaidOut source mid stop ms) :
    AreLaidOut source start stop (ns ++ ms) := by
  induction h with
  | nil h =>
    cases h' with
    | nil h' => exact .nil (h.trans h')
    | container hkind hspan hbehind hline hchildren hns => exact .container hkind hspan (h.trans hbehind) hline hchildren hns
    | leaf hkind hchildren hpiece hbehind hline hns => exact .leaf hkind hchildren hpiece (h.trans hbehind) hline hns
    | block hown hpiece hbehind hns => exact .block hown hpiece (h.trans hbehind) hns
  | container hkind hspan hbehind hline hchildren _ _ ih => exact .container hkind hspan hbehind hline hchildren (ih h')
  | leaf hkind hchildren hpiece hbehind hline _ ih => exact .leaf hkind hchildren hpiece hbehind hline (ih h')
  | block hown hpiece hbehind _ ih => exact .block hown hpiece hbehind (ih h')

theorem mono (h : AreLaidOut source start mid ns) (hle : mid ≤ stop) : AreLaidOut source start stop ns := by
  simpa using h.append (.nil hle)

theorem isLineStart (h : AreLaidOut source start stop ns) :
    ∀ n ∈ ownLines ns, ∃ span, n.span = some span ∧ span.start.IsLineStart source := by
  induction h with
  | nil => simp [ownLines]
  | container hkind hspan _ hline _ _ ihchildren ihns =>
    rw [ownLines, ownLine_eq, if_pos (by simp [isOwnLine, hkind]), List.cons_append]
    refine List.forall_mem_cons.mpr ⟨⟨_, hspan, hline⟩, fun m hm => ?_⟩
    exact (List.mem_append.mp hm).elim (ihchildren m) (ihns m)
  | leaf hkind hchildren hpiece _ hline _ ih =>
    rw [ownLines, ownLine_eq, if_pos (by simp [isOwnLine, hkind]), hchildren, ownLines]
    exact List.forall_mem_cons.mpr ⟨⟨_, hpiece.1, hline⟩, ih⟩
  | block hown _ _ _ ih =>
    rw [ownLines, ownLine_eq, hown]
    exact ih

end AreLaidOut

/-! ## Chunks -/

/-- The first block of a chunk, in the source. -/
theorem splitInline_shiftAll_cons (base : Point) (text : List Char) (ns : List Node) (hn : n.IsMarkdownBlock) :
    ∃ m, splitInline (shiftAll base ((n :: ns).map (keepSource text))) = m :: splitInline (shiftAll base (ns.map (keepSource text))) ∧
      m.isOwnLine = false ∧ m.span = n.span.map (·.shift base) ∧
        m.raw = n.span.bind fun s => (sliceBytes? text s.start.offset s.stop.offset).map String.ofList := by
  cases n
  rw [List.map_cons, keepSource, shiftAll, splitInline, if_neg hn.1]
  split_ifs <;> exact ⟨_, rfl, hn.2, rfl, rfl⟩

/-- The blocks of a chunk stand in the source from where the chunk starts. -/
theorem areLaidOut_shiftAll {front behind : List Char} {spans : List Span} {base : Point} (hsource : source = front ++ text ++ behind)
    (hbase : base.offset = byteSize front) (hblocks : ∀ n ∈ ns, n.IsMarkdownBlock) (hspans : ns.map (·.span) = spans.map some)
    (hpairwise : spans.Pairwise fun s s' => s.stop.offset ≤ s'.start.offset)
    (hslices : ∀ s ∈ spans, (sliceBytes? text s.start.offset s.stop.offset).isSome) (hstart : ∀ s ∈ spans, start ≤ s.start.offset)
    (hstop : start ≤ byteSize text) :
    AreLaidOut source (byteSize front + start) (byteSize front + byteSize text)
      (splitInline (shiftAll base (ns.map (keepSource text)))) := by
  induction ns generalizing start spans with
  | nil =>
    rw [List.map_nil, shiftAll, splitInline]
    exact .nil (by omega)
  | cons n ns ih =>
    cases spans with
    | nil => simp at hspans
    | cons s spans =>
      have hspan : n.span = some s := (List.cons.inj hspans).1
      obtain ⟨hn, hns⟩ := List.forall_mem_cons.mp hblocks
      obtain ⟨hbehind, hpairwise⟩ := List.pairwise_cons.mp hpairwise
      obtain ⟨hslice, hslices⟩ := List.forall_mem_cons.mp hslices
      obtain ⟨raw, hraw⟩ := Option.isSome_iff_exists.mp hslice
      have hfirst := (List.forall_mem_cons.mp hstart).1
      have hlast : s.stop.offset ≤ byteSize text := by
        obtain ⟨a, b, rfl, -, hb⟩ := Text.sliceBytes?_eq_some.mp hraw
        rw [← hb, Text.byteSize_append (a ++ raw) b]
        exact Nat.le_add_right _ _
      obtain ⟨m, hm, hown, hmspan, hmraw⟩ := splitInline_shiftAll_cons base text ns hn
      rw [hspan] at hmspan hmraw
      have hslice := Text.sliceBytes?_append_append hraw front behind
      have hpiece : m.IsPieceOf source (s.shift base) := by
        refine ⟨hmspan, raw, by simpa [hraw] using hmraw, ?_⟩
        rwa [hsource, Span.shift, Point.shift, Point.shift, hbase]
      rw [hm]
      refine .block hown hpiece ?_ ?_
      · rw [Span.shift, Point.shift, hbase]
        exact Nat.add_le_add_left hfirst _
      · rw [Span.shift, Point.shift, Point.shift, hbase]
        exact ih hns (List.cons.inj hspans).2 hpairwise hslices hbehind hlast

end Node

open Node

theorem Chunk.areLaidOut_contents {read : List Char → List Node} {source front behind : List Char} (hread : IsReader read) (c : Chunk)
    (hsource : source = front ++ c.text ++ behind) (hstart : c.start.offset = byteSize front) :
    AreLaidOut source (byteSize front) (byteSize front + byteSize c.text) (c.contents read) := by
  rw [Chunk.contents]
  split_ifs
  · exact .nil (Nat.le_add_right _ _)
  · obtain ⟨spans, hspans, hpairwise, hslices⟩ := hread.spans c.text
    exact areLaidOut_shiftAll hsource hstart (hread.isMarkdownBlock c.text) hspans hpairwise hslices (fun _ _ => Nat.zero_le _)
      (Nat.zero_le _)

theorem Node.AreLaidOut.places {read : List Char → List Node} (hread : IsReader read) (source : List Char) :
    Scan.Places read source (AreLaidOut source) where
  nil := .nil
  append := .append
  leaf hline hslice := .leaf rfl rfl ⟨rfl, _, rfl, hslice⟩ le_rfl hline (.nil le_rfl)
  container hline hchildren := .container rfl rfl le_rfl hline hchildren (.nil le_rfl)
  chunk _ hsource hstart := by
    rw [Text.byteSize_append]
    exact Chunk.areLaidOut_contents hread _ hsource (by rw [hstart, Point.offset_advance, Nat.zero_add])

namespace Document

variable {read : List Char → List Node}

/-- A document holds the directives of the lines outside of code, in their order, each at the start of its line. Its blocks stand one
behind the other, each as the piece of the source that its span names, and those of a container stand inside of it. -/
theorem blocks_where_written (hread : IsReader read) (source : List Char) :
    let root := (parseWith read source).root
    ((ownLines root.children).map place =
        ((CodeFence.enclosed Scan.nextFence none (Text.lines source)).zipIdx 1).filterMap CodeFence.directive? ∧
      ∀ n ∈ preorderList root.children, n.isOwnLine → n ∈ ownLines root.children ∨ n.IsInlineLeaf) ∧
    (∀ n ∈ ownLines root.children, ∃ span, n.span = some span ∧ span.start.IsLineStart source) ∧
    root.span = some ⟨{}, ({} : Point).advance source⟩ ∧ AreLaidOut source 0 (byteSize source) root.children := by
  obtain ⟨hlaid, hspan⟩ := (AreLaidOut.places hread source).parseWith
  exact ⟨⟨place_ownLines_parseWith hread.isMarkdownBlock source, mem_ownLines_or_isInlineLeaf_parseWith hread.plain source⟩,
    hlaid.isLineStart, hspan, hlaid⟩

/-- A reader that takes a text for one paragraph of plain text. -/
def readParagraph (text : List Char) : List Node :=
  let span : Span := ⟨{}, ({} : Point).advance (LineKind.body text)⟩
  [{ kind := .paragraph, children := [{ kind := .text, value := String.ofList (LineKind.body text), span }], span }]

theorem isReader_readParagraph : IsReader readParagraph where
  blocks text := by simp [readParagraph]
  plain text := by simp [readParagraph, NodeKind.isDirective]
  spans text := by
    refine ⟨[⟨{}, ({} : Point).advance (LineKind.body text)⟩], rfl, List.pairwise_singleton _ _, ?_⟩
    obtain ⟨eol, heol⟩ := Scan.exists_eq_body_append text
    simp only [List.mem_singleton, forall_eq]
    refine Option.isSome_iff_exists.mpr ⟨LineKind.body text, Text.sliceBytes?_eq_some.mpr ⟨[], eol, heol, rfl, ?_⟩⟩
    rw [Point.offset_advance]
    simp

/-- A paragraph and a leaf in a container that is left open. -/
def openSource : List Char := ":::a\nhello\n::b\n".toList

theorem blocks_where_written_open :
    Markdown.read "hello\n".toList = readParagraph "hello\n".toList ∧
      (ownLines (parseWith readParagraph openSource).root.children).map place =
        [(some 1, .containerDirective, ⟨"a", none, {}⟩), (some 3, .leafDirective, ⟨"b", none, {}⟩)] ∧
      AreLaidOut openSource 0 15 (parseWith readParagraph openSource).root.children := by
  obtain ⟨⟨hplaces, -⟩, -, -, hlaid⟩ := blocks_where_written isReader_readParagraph openSource
  refine ⟨by cbv, hplaces.trans ?_, hlaid⟩
  decide +kernel

end Document

end MarkdownTemplates
