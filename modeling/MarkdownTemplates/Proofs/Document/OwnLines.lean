import MarkdownTemplates.Proofs.Document.Directives
import MarkdownTemplates.Proofs.Document.Scanned
import MarkdownTemplates.Proofs.Markdown.Plain
import MarkdownTemplates.Proofs.Template.Reference

/-!
# Directives on lines of their own

The containers and leaves that stand on lines of their own are those to which only containers lead. There is no other container, and
all other leaves are cut out of text.
-/

namespace MarkdownTemplates

namespace Node

variable {ns ms : List Node}

mutual

/-- The node, if it is a container or a leaf on lines of its own, in front of those that it contains. -/
def ownLine : Node → List Node
  | ⟨kind, name, label, attributes, value, checked, depth, children, span, raw⟩ =>
    let n : Node := ⟨kind, name, label, attributes, value, checked, depth, children, span, raw⟩
    if n.isOwnLine then n :: ownLines children else []

def ownLines : List Node → List Node
  | [] => []
  | n :: ns => n.ownLine ++ ownLines ns

end

/-- The line on which a directive starts, and which directive it is. -/
def place (n : Node) : Option Nat × NodeKind × Head := (n.line?, n.kind, n.head)

theorem ownLine_eq (n : Node) : n.ownLine = if n.isOwnLine then n :: ownLines n.children else [] := by
  cases n
  rw [ownLine]

theorem ownLines_append (ns ms : List Node) : ownLines (ns ++ ms) = ownLines ns ++ ownLines ms := by
  induction ns with
  | nil => rw [ownLines]; rfl
  | cons n ns ih => rw [List.cons_append, ownLines, ownLines, ih, List.append_assoc]

mutual

theorem mem_preorder_of_mem_ownLine {n : Node} : ∀ root : Node, n ∈ root.ownLine → n ∈ root.preorder
  | ⟨kind, name, label, attributes, value, checked, depth, children, span, raw⟩, h => by
    rw [ownLine] at h
    rw [preorder]
    split_ifs at h
    · exact List.mem_cons.mpr ((List.mem_cons.mp h).imp_right (mem_preorderList_of_mem_ownLines children))
    · cases h

theorem mem_preorderList_of_mem_ownLines {n : Node} : ∀ ns : List Node, n ∈ ownLines ns → n ∈ preorderList ns
  | [], h => by simp [ownLines] at h
  | m :: ns, h => by
    rw [ownLines, List.mem_append] at h
    rw [preorderList, List.mem_append]
    exact h.imp (mem_preorder_of_mem_ownLine m) (mem_preorderList_of_mem_ownLines ns)

end

theorem ownLines_of_blocks (h : ∀ n ∈ ns, n.isOwnLine = false) : ownLines ns = [] := by
  induction ns with
  | nil => rfl
  | cons n ns ih =>
    obtain ⟨hn, hns⟩ := List.forall_mem_cons.mp h
    rw [ownLines, ownLine_eq, hn, ih hns]
    rfl

end Node

/-! ## Directives inside of text -/

namespace Segment

variable {kind : NodeKind} {head : Head} {source : List Char}

theorem mem_addPlain {pending : List Char} {rest : List Segment} (h : .directive kind head source ∈ addPlain pending rest) :
    .directive kind head source ∈ rest := by
  rw [addPlain] at h
  split_ifs at h
  · exact h
  · simpa using h

theorem kind_of_directive? {text rest : List Char} (h : directive? text = some (kind, head, rest)) :
    kind = .textDirective ∨ kind = .leafDirective := by
  simp only [directive?, Option.bind_eq_bind, Option.bind_eq_some_iff, Prod.exists, Option.pure_def, Option.some.injEq,
    Prod.mk.injEq] at h
  obtain ⟨head', rest', -, kind', hkind, rfl, -⟩ := h
  simp only [kindOf?] at hkind
  split at hkind
  · exact .inl (Option.ite_some_none_eq_some.mp hkind).2.symm
  · exact .inr (Option.ite_some_none_eq_some.mp hkind).2.symm
  · cases hkind

/-- No container is cut out of a text. -/
theorem kind_of_mem_cut {previous : Option Char} {pending text : List Char}
    (h : .directive kind head source ∈ cut previous pending text) : kind = .textDirective ∨ kind = .leafDirective := by
  fun_induction cut previous pending text with
  | case1 => cases mem_addPlain h
  | case2 previous pending c r _ kind' head' rest hd source' ih =>
    rcases List.mem_cons.mp (mem_addPlain h) with he | h
    · obtain ⟨rfl, -⟩ := Segment.directive.inj he
      exact kind_of_directive? hd
    · exact ih h
  | case3 previous pending c r _ _ ih => exact ih h
  | case4 previous pending c r _ ih => exact ih h

theorem of_mem_toNodes {stop start : Option Point} {segments : List Segment} :
    ∀ n ∈ toNodes stop start segments, n.children = [] ∧ (n.kind = .text ∨
      ∃ source, .directive n.kind n.head source ∈ segments ∧ n.raw = String.ofList source) := by
  fun_induction toNodes stop start segments with
  | case1 => simp
  | case2 start s => simp
  | case3 start s rest _ ih =>
    refine List.forall_mem_cons.mpr ⟨?_, fun n hn => ?_⟩
    · cases s with
      | plain s => exact ⟨rfl, .inl rfl⟩
      | directive kind head source => exact ⟨rfl, .inr ⟨source, List.mem_cons_self, rfl⟩⟩
    · obtain ⟨hchildren, hn⟩ := ih n hn
      exact ⟨hchildren, hn.imp_right fun ⟨source, hm, hraw⟩ => ⟨source, List.mem_cons_of_mem _ hm, hraw⟩⟩

end Segment

namespace Node

variable {n : Node} {ns ms : List Node}

/-- Is the node a leaf that was cut out of a text? -/
def IsInlineLeaf (n : Node) : Prop :=
  n.kind = .leafDirective ∧ ∃ text source, .directive .leafDirective n.head source ∈ Segment.ofText text ∧ n.raw = String.ofList source

/-- Are the leaves among the nodes and below them cut out of text, and is there no container? -/
def HasOnlyInline (ns : List Node) : Prop := ∀ n ∈ preorderList ns, n.isOwnLine → n.IsInlineLeaf

theorem hasOnlyInline_nil : HasOnlyInline [] := by simp [HasOnlyInline, preorderList]

theorem hasOnlyInline_cons :
    HasOnlyInline (n :: ns) ↔ ((n.isOwnLine → n.IsInlineLeaf) ∧ HasOnlyInline n.children) ∧ HasOnlyInline ns := by
  simp [HasOnlyInline, preorderList, preorder_eq, or_imp, forall_and, and_assoc]

theorem HasOnlyInline.append (hns : HasOnlyInline ns) (hms : HasOnlyInline ms) : HasOnlyInline (ns ++ ms) := by
  rw [HasOnlyInline, preorderList_append]
  exact fun n hn => (List.mem_append.mp hn).elim (hns n) (hms n)

theorem isDirective_of_isOwnLine (h : n.isOwnLine = true) : n.kind.isDirective = true := by
  have hkind : n.kind = .containerDirective ∨ n.kind = .leafDirective := by simpa [isOwnLine] using h
  rcases hkind with hk | hk <;> rw [hk] <;> rfl

theorem ArePlain.hasOnlyInline (h : ArePlain ns) : HasOnlyInline ns := by
  intro n hn hown
  have hkind := h n hn
  simp [isDirective_of_isOwnLine hown] at hkind

theorem hasOnlyInline_splitText (h : HasOnlyInline [n]) : HasOnlyInline n.splitText := by
  rw [splitText]
  split
  · exact h
  · rename_i value _
    dsimp only
    split_ifs
    · rw [HasOnlyInline, preorderList_of_leaves fun m hm => (Segment.of_mem_toNodes m hm).1]
      intro m hm hown
      rcases (Segment.of_mem_toNodes m hm).2 with htext | ⟨source, hsource, hraw⟩
      · simp [isOwnLine, htext] at hown
      · have hkind : m.kind = .leafDirective := by
          refine (Segment.kind_of_mem_cut hsource).resolve_left fun htext => ?_
          simp [isOwnLine, htext] at hown
        exact ⟨hkind, value.toList, source, hkind ▸ hsource, hraw⟩
    · exact h

theorem hasOnlyInline_splitInline : ∀ {ns : List Node}, HasOnlyInline ns → HasOnlyInline (splitInline ns)
  | [], _ => by rw [splitInline]; exact hasOnlyInline_nil
  | ⟨kind, name, label, attributes, value, checked, depth, children, span, raw⟩ :: ns, h => by
    obtain ⟨⟨hnode, hchildren⟩, hns⟩ := hasOnlyInline_cons.mp h
    have hrest := hasOnlyInline_splitInline hns
    have hbelow := hasOnlyInline_splitInline hchildren
    rw [splitInline]
    split_ifs with htext
    · exact (hasOnlyInline_splitText (hasOnlyInline_cons.mpr ⟨⟨hnode, hchildren⟩, hasOnlyInline_nil⟩)).append hrest
    · exact hasOnlyInline_cons.mpr ⟨⟨hnode, hchildren⟩, hrest⟩
    · exact hasOnlyInline_cons.mpr ⟨⟨hnode, hbelow⟩, hrest⟩

theorem ArePlain.map_keepSource (h : ArePlain ns) (text : List Char) : ArePlain (ns.map (keepSource text)) := by
  induction ns with
  | nil => exact h
  | cons n ns ih =>
    obtain ⟨hn, hns⟩ := arePlain_cons.mp h
    exact arePlain_cons.mpr ⟨hn, ih hns⟩

theorem ArePlain.shiftAll (base : Point) : ∀ {ns : List Node}, ArePlain ns → ArePlain (shiftAll base ns)
  | [], h => by rwa [Node.shiftAll]
  | ⟨kind, name, label, attributes, value, checked, depth, children, span, raw⟩ :: ns, h => by
    obtain ⟨⟨hkind, hchildren⟩, hns⟩ := arePlain_cons.mp h
    rw [Node.shiftAll]
    exact arePlain_cons.mpr ⟨⟨hkind, ArePlain.shiftAll base hchildren⟩, ArePlain.shiftAll base hns⟩

end Node

section

variable {read : List Char → List Node} (hread : ∀ text, Node.ArePlain (read text))

include hread

open Node in
theorem Chunk.hasOnlyInline_contents (c : Chunk) : HasOnlyInline (c.contents read) := by
  rw [Chunk.contents]
  split_ifs
  · exact hasOnlyInline_nil
  · have hplain := ((hread c.text).map_keepSource c.text).shiftAll c.start
    exact hasOnlyInline_splitInline hplain.hasOnlyInline

open Node in
theorem Document.mem_ownLines_or_isInlineLeaf_parseWith (source : List Char) :
    ∀ n ∈ preorderList (parseWith read source).root.children, n.isOwnLine →
      n ∈ ownLines (parseWith read source).root.children ∨ n.IsInlineLeaf := by
  have hown : Scan.Collects read fun ns => ∀ n ∈ preorderList ns, n.isOwnLine → n ∈ ownLines ns ∨ n.IsInlineLeaf :=
    { nil := by simp [preorderList]
      append := fun hns hms n hn hkind => by
        rw [preorderList_append] at hn
        rw [ownLines_append, List.mem_append]
        rcases List.mem_append.mp hn with hn | hn
        · exact (hns n hn hkind).imp_left .inl
        · exact (hms n hn hkind).imp_left .inr
      leaf := fun _ _ _ n hn _ => by
        obtain rfl : n = ofLeaf _ _ _ := by simpa [preorderList, preorder_eq, ofLeaf] using hn
        exact .inl List.mem_cons_self
      container := fun _ _ hchildren n hn hkind => by
        rw [preorderList, preorder_eq, preorderList, List.append_nil] at hn
        rw [ownLines, ownLine_eq, ownLines, List.append_nil]
        rcases List.mem_cons.mp hn with rfl | hn
        · exact .inl List.mem_cons_self
        · exact (hchildren n hn hkind).imp_left (List.mem_cons_of_mem _)
      chunk := fun c n hn hkind => .inr (c.hasOnlyInline_contents hread n hn hkind) }
  exact hown.parseWith source

end

open Node in
/-- Every container of a document stands on lines of its own, and so does every leaf that is not cut out of text. -/
theorem Document.mem_ownLines_or_isInlineLeaf (source : List Char) : ∀ n ∈ preorderList (parse source).root.children, n.isOwnLine →
    n ∈ ownLines (parse source).root.children ∨ n.IsInlineLeaf :=
  mem_ownLines_or_isInlineLeaf_parseWith Markdown.arePlain_read source

end MarkdownTemplates
