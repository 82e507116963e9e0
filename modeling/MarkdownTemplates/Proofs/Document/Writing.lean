import MarkdownTemplates.Document.Render
import MarkdownTemplates.Proofs.Document.Scanned

/-!
# Reading what was written

Blocks are written with blank lines between them, and a container with a fence around what is written for its children. When the
blocks that are no directives keep to their place, reading the whole finds for each node one that is related to it.
-/

namespace MarkdownTemplates

namespace Node

theorem length_sources (ns : List Node) : (sources ns).length = ns.length := by
  induction ns with
  | nil => rw [sources]; rfl
  | cons n ns ih => rw [sources, List.length_cons, List.length_cons, ih]

theorem sources_append (ns ms : List Node) : sources (ns ++ ms) = sources ns ++ sources ms := by
  induction ns with
  | nil => rw [sources]; rfl
  | cons n ns ih => rw [List.cons_append, sources, sources, ih, List.cons_append]

theorem mem_sources {ns : List Node} {p : List Char} : p ∈ sources ns ↔ ∃ n ∈ ns, n.source = p := by
  induction ns with
  | nil => simp [sources]
  | cons n ns ih => rw [sources]; simp [ih, eq_comm]

/-! ## Blocks -/

/-- Blocks with a blank line between them, each with its line feed. -/
def spaced : List (List Char) → List Char
  | [] => []
  | [p] => p ++ ['\n']
  | p :: ps => p ++ '\n' :: '\n' :: spaced ps

/-- Is the block there, and without a line feed behind it? -/
def IsBlock (p : List Char) : Prop := p ≠ [] ∧ p.getLast? ≠ some '\n'

instance (p : List Char) : Decidable (IsBlock p) := inferInstanceAs (Decidable (_ ∧ _))

variable {ps qs : List (List Char)}

theorem spaced_cons {p : List Char} (h : ps ≠ []) : spaced (p :: ps) = p ++ '\n' :: '\n' :: spaced ps := by
  cases ps with
  | nil => exact absurd rfl h
  | cons => rfl

theorem spaced_eq_join (h : ps ≠ []) : spaced ps = Text.join ['\n', '\n'] ps ++ ['\n'] := by
  induction ps with
  | nil => exact absurd rfl h
  | cons p ps ih =>
    rcases eq_or_ne ps [] with rfl | hne
    · rfl
    · rw [spaced_cons hne, ih hne, Text.join_cons hne]
      simp

theorem getLast?_spaced : ∀ c ∈ (spaced ps).getLast?, c = '\n' := by
  intro c hc
  cases ps with
  | nil => cases hc
  | cons p ps =>
    rw [spaced_eq_join (by simp)] at hc
    simpa [eq_comm] using hc

theorem spaced_append (hp : ps ≠ []) (hq : qs ≠ []) : spaced (ps ++ qs) = spaced ps ++ '\n' :: spaced qs := by
  rw [spaced_eq_join (by simp [hp]), spaced_eq_join hp, spaced_eq_join hq, Text.join_append hp hq]
  simp

theorem IsBlock.join (h : ∀ p ∈ ps, IsBlock p) (hne : ps ≠ []) : IsBlock (Text.join ['\n', '\n'] ps) := by
  induction ps with
  | nil => exact absurd rfl hne
  | cons p ps ih =>
    have hp := h p List.mem_cons_self
    rcases eq_or_ne ps [] with rfl | hne
    · exact hp
    · have hrest := ih (fun p hm => h p (List.mem_cons_of_mem _ hm)) hne
      rw [Text.join_cons hne]
      refine ⟨by simp [hp.1], ?_⟩
      rw [List.getLast?_append_of_ne_nil _ hrest.1]
      exact hrest.2

theorem joinBlocks_eq (h : ∀ p ∈ ps, IsBlock p) : joinBlocks ps = spaced ps := by
  cases ps with
  | nil => rfl
  | cons p ps =>
    have hne := (IsBlock.join h (by simp)).1
    rw [joinBlocks, spaced_eq_join (by simp), if_neg (by simpa using hne)]

theorem trimEols_eq {p : List Char} (h : p.getLast? ≠ some '\n') : trimEols p = p := by
  refine Text.dropEndWhile_of_getLast? fun c hc => ?_
  rw [beq_eq_false_iff_ne]
  rintro rfl
  exact h hc

theorem fenced_eq (h : ∀ p ∈ ps, IsBlock p) (fence head : List Char) :
    fenced fence head (joinBlocks ps) = fence ++ head ++ '\n' :: (spaced ps ++ fence) := by
  rw [joinBlocks_eq h, fenced]
  cases ps with
  | nil => simp [spaced]
  | cons p ps =>
    have htrim : trimEols (spaced (p :: ps)) = Text.join ['\n', '\n'] (p :: ps) := by
      rw [spaced_eq_join (by simp), trimEols, Text.dropEndWhile_append_of_pos (by simp)]
      exact trimEols_eq (IsBlock.join h (by simp)).2
    rw [htrim, spaced_eq_join (by simp), if_neg (by simp)]
    simp

theorem source_container {n : Node} (h : n.kind = .containerDirective) :
    n.source = fenced (List.replicate (3 + n.containerDepth) ':') n.headSource (joinBlocks (sources n.children)) := by
  obtain ⟨kind, name, label, attributes, value, checked, depth, children, span, raw⟩ := n
  rw [source.eq_def]
  exact if_pos h

/-- The blank line in front of nodes that follow others. -/
def gap : List Node → List Char
  | [] => []
  | _ :: _ => ['\n']

theorem spaced_sources_append {run : List Node} (h : run ≠ []) (ns : List Node) :
    spaced (sources (run ++ ns)) = spaced (sources run) ++ (gap ns ++ spaced (sources ns)) := by
  have hsources : ∀ {ns}, ns ≠ [] → sources ns ≠ [] := by
    intro ns hns
    simpa [← List.length_pos_iff, length_sources] using hns
  rw [sources_append]
  cases ns with
  | nil => simp [sources, spaced, gap]
  | cons n ns => rw [spaced_append (hsources h) (hsources (by simp))]; rfl

theorem spaced_sources_cons (n : Node) (ns : List Node) :
    spaced (sources (n :: ns)) = n.source ++ '\n' :: (gap ns ++ spaced (sources ns)) := by
  have h := spaced_sources_append (List.cons_ne_nil n []) ns
  simpa [sources, spaced] using h

end Node

/-! ## Nodes that are read back -/

open Node in
/-- Is each node written in such a way that reading finds it, up to the relation `R`? The nodes stand inside of a container with a
fence of the length, behind `lead`. Blocks that are no directives are read in runs, and a run makes one chunk with the blank lines
around it. -/
inductive WritesBack (read : List Char → List Node) (R : List Node → List Node → Prop) : Nat → List Char → List Node → Prop
  | nil {fence : Nat} {lead : List Char} : WritesBack read R fence lead []
  | leaf {fence : Nat} {lead : List Char} {n : Node} {ns : List Node} {head : Head}
      (hline : LineKind.ofLine n.source = .leaf head) (hbody : LineKind.body n.source = n.source) (hlf : '\n' ∉ n.source)
      (hleaf : ∀ span, R [ofLeaf head n.source span] [n]) (hns : WritesBack read R fence ['\n'] ns) :
      WritesBack read R fence lead (n :: ns)
  | container {fence : Nat} {lead : List Char} {n : Node} {ns : List Node} {head : Head} (hkind : n.kind = .containerDirective)
      (hhead : head.IsReadable) (hsource : n.headSource = head.source) (hlf : '\n' ∉ head.source)
      (hchildren : WritesBack read R (3 + n.containerDepth) [] n.children)
      (hcontainer : ∀ ms span, R ms n.children → R [ofContainer head ms span] [n])
      (hns : WritesBack read R fence ['\n'] ns) : WritesBack read R fence lead (n :: ns)
  | blocks {fence : Nat} {lead : List Char} {run ns : List Node} (hne : run ≠ []) (hkind : ∀ n ∈ run, n.isOwnLine = false)
      (hblock : ∀ n ∈ run, IsBlock n.source) (htext : Scan.IsText fence (spaced (sources run)))
      (hread : ∀ start, R (Chunk.contents read ⟨start, lead ++ spaced (sources run) ++ gap ns⟩) run)
      (hnext : ∀ n ∈ ns.head?, n.isOwnLine = true) (hns : WritesBack read R fence ['\n'] ns) :
      WritesBack read R fence lead (run ++ ns)

namespace WritesBack

open Node Scan

variable {read : List Char → List Node} {R : List Node → List Node → Prop} {fence : Nat} {lead : List Char} {ns ms : List Node}
  {s s₁ : Scan}

theorem isBlock (h : WritesBack read R fence lead ns) : ∀ p ∈ sources ns, IsBlock p := by
  induction h with
  | nil => simp [sources]
  | leaf hline hbody hlf hleaf hns ih =>
    rw [sources]
    rintro p hp
    rcases List.mem_cons.mp hp with rfl | hp
    · refine ⟨?_, fun he => hlf (List.mem_of_getLast? he)⟩
      intro he
      have hmarkdown : LineKind.ofLine [] = .markdown := by decide
      rw [he, hmarkdown] at hline
      cases hline
    · exact ih p hp
  | container hkind hhead hsource hlf hchildren hcontainer hns ihc ih =>
    rw [sources]
    rintro p hp
    rcases List.mem_cons.mp hp with rfl | hp
    · rw [source_container hkind, fenced_eq ihc]
      refine ⟨by simp, ?_⟩
      rw [List.getLast?_append, List.getLast?_cons, List.getLast?_append, List.getLast?_replicate, if_neg (by omega)]
      simp
    · exact ih p hp
  | blocks hne hkind hblock htext hread hnext hns ih =>
    rw [sources_append]
    intro p hp
    rcases List.mem_append.mp hp with hp | hp
    · obtain ⟨n, hn, rfl⟩ := mem_sources.mp hp
      exact hblock n hn
    · exact ih p hp

/-- Does a scan that stands in front of the nodes find nodes for them? A run of blocks must not be added to a chunk that was begun. -/
def IsFound (read : List Char → List Node) (R : List Node → List Node → Prop) (fence : Nat) (lead : List Char) (ns : List Node) :
    Prop :=
  ∀ s : Scan, s.codeFence = none → s.fence = fence →
    (∀ n ∈ ns.head?, n.isOwnLine = false → s.IsFresh ∧ s.chunkText = lead) →
      ∃ ms, R ms ns ∧ Extends read s (s.after read (spaced (sources ns))) ms

/-- Behind a directive, the blank line and the next nodes are found. -/
theorem IsFound.next (h : IsFound read R fence ['\n'] ns) (hfence : s.fence = fence) (hs : Extends read s s₁ ms)
    (hchunk : s₁.chunk = none) :
    ∃ ms', R ms' ns ∧ Extends read s (s₁.after read (gap ns ++ spaced (sources ns))) (ms ++ ms') := by
  have hfence₁ : s₁.fence = fence := by rw [Scan.fence, hs.stack]; exact hfence
  cases ns with
  | nil =>
    obtain ⟨ms', hms, hext⟩ := h s₁ hs.codeFence hfence₁ (by simp)
    exact ⟨ms', hms, hs.trans hext⟩
  | cons n ns =>
    obtain ⟨hblank, hfresh, htext⟩ := extends_addLine_blank read hs.codeFence hchunk
    have hfence₂ : (s₁.addLine read ['\n']).fence = fence := by rw [Scan.fence, hblank.stack]; exact hfence₁
    obtain ⟨ms', hms, hext⟩ := h _ hblank.codeFence hfence₂ fun _ _ _ => ⟨hfresh, htext⟩
    refine ⟨ms', hms, ?_⟩
    rw [gap, after_append (by simp), ← List.nil_append ['\n'], after_line (by simp)]
    exact hs.trans (by simpa using hblank.trans hext)

variable (happend : ∀ {a b c d}, R a b → R c d → R (a ++ c) (b ++ d))

include happend in
theorem IsFound.leaf {n : Node} {head : Head} (hline : LineKind.ofLine n.source = .leaf head)
    (hbody : LineKind.body n.source = n.source) (hlf : '\n' ∉ n.source) (hleaf : ∀ span, R [ofLeaf head n.source span] [n])
    (h : IsFound read R fence ['\n'] ns) : IsFound read R fence lead (n :: ns) := by
  intro s hcode hfence _
  have hline' : LineKind.ofLine (n.source ++ ['\n']) = .leaf head := by rw [LineKind.ofLine_lineFeed, hline]
  obtain ⟨hext, hchunk⟩ := extends_addLine_leaf read hcode hline'
  rw [LineKind.body_lineFeed, hbody] at hext
  obtain ⟨ms, hms, hall⟩ := h.next hfence hext hchunk
  refine ⟨_, happend (hleaf ⟨s.point, s.point.advance n.source⟩) hms, ?_⟩
  rw [spaced_sources_cons, after_line_append hlf]
  exact hall

include happend in
theorem IsFound.container {n : Node} {head : Head} (hkind : n.kind = .containerDirective) (hhead : head.IsReadable)
    (hsource : n.headSource = head.source) (hlf : '\n' ∉ head.source) (hblocks : ∀ p ∈ sources n.children, IsBlock p)
    (hchildren : IsFound read R (3 + n.containerDepth) [] n.children)
    (hcontainer : ∀ ms span, R ms n.children → R [ofContainer head ms span] [n]) (h : IsFound read R fence ['\n'] ns) :
    IsFound read R fence lead (n :: ns) := by
  intro s hcode hfence _
  have hsize : 3 ≤ 3 + n.containerDepth := Nat.le_add_right 3 _
  have hopened := addLine_opens read hcode hhead hsize
  obtain ⟨ms, hms, hinside⟩ := hchildren (s.addLine read (head.line (3 + n.containerDepth) ++ ['\n']))
    (by rw [hopened]; exact hcode) (by rw [hopened]; rfl) fun _ _ _ => ⟨.inl (by rw [hopened]), by rw [hopened]; rfl⟩
  obtain ⟨⟨span, hext⟩, hchunk⟩ := extends_addLine_closes hcode hhead hsize hinside
  obtain ⟨ms', hms', hall⟩ := h.next hfence hext hchunk
  refine ⟨_, happend (hcontainer ms span hms) hms', ?_⟩
  have htext : n.source ++ '\n' :: (gap ns ++ spaced (sources ns)) =
      head.line (3 + n.containerDepth) ++ '\n' :: (spaced (sources n.children) ++ (List.replicate (3 + n.containerDepth) ':' ++
        '\n' :: (gap ns ++ spaced (sources ns)))) := by
    rw [source_container hkind, fenced_eq hblocks, hsource, Head.line]
    simp
  have hline : '\n' ∉ head.line (3 + n.containerDepth) := by simp [Head.line, hlf, List.mem_replicate]
  rw [spaced_sources_cons, htext, after_line_append hline, after_append getLast?_spaced,
    after_line_append (by simp [List.mem_replicate])]
  exact hall

/-- The text of a run goes into the chunk, and the blank line behind it too. -/
theorem after_run (read : List Char → List Node) (ns : List Node) {run : List Node} (hne : run ≠ []) (hcode : s.codeFence = none) (htext : IsText s.fence (spaced (sources run))) :
    ∃ point, s.after read (spaced (sources run) ++ gap ns) =
      { s with
        chunk := some ⟨s.chunkStart, s.chunkText ++ spaced (sources run) ++ gap ns⟩
        codeFence := none
        point } := by
  have hsources : sources run ≠ [] := by simpa [← List.length_pos_iff, length_sources] using hne
  obtain ⟨point, hrun⟩ := htext.after read hcode (by simp [spaced_eq_join hsources])
  cases ns with
  | nil => exact ⟨point, by simpa [gap] using hrun⟩
  | cons n ns =>
    refine ⟨point.advance ['\n'], ?_⟩
    rw [after_append getLast?_spaced, gap, ← List.nil_append ['\n'], after_line (by simp), List.nil_append,
      addLine_blank read (by rw [hrun]), hrun]
    rfl

include happend in
theorem IsFound.blocks {run : List Node} (hne : run ≠ []) (hkind : ∀ n ∈ run, n.isOwnLine = false)
    (htext : IsText fence (spaced (sources run)))
    (hread : ∀ start, R (Chunk.contents read ⟨start, lead ++ spaced (sources run) ++ gap ns⟩) run)
    (hnext : ∀ n ∈ ns.head?, n.isOwnLine = true) (h : IsFound read R fence ['\n'] ns) :
    IsFound read R fence lead (run ++ ns) := by
  intro s hcode hfence hstart
  obtain ⟨n, hn⟩ : ∃ n, run.head? = some n := Option.isSome_iff_exists.mp (by simpa using hne)
  obtain ⟨hfresh, hlead⟩ := hstart n (by rw [List.head?_append_of_ne_nil _ hne, hn]; rfl) (hkind n (List.mem_of_mem_head? hn))
  obtain ⟨point, hrun⟩ := after_run read ns hne hcode (hfence ▸ htext)
  have hext := hfresh.extends_chunk read ⟨s.chunkStart, s.chunkText ++ spaced (sources run) ++ gap ns⟩ point
  rw [← hrun, hlead] at hext
  obtain ⟨ms, hms, hall⟩ := h _ hext.codeFence (by rw [Scan.fence, hext.stack]; exact hfence)
    fun n hn hfalse => absurd (hnext n hn) (by simp [hfalse])
  refine ⟨_, happend (hread s.chunkStart) hms, ?_⟩
  have hgap : ∀ c ∈ (spaced (sources run) ++ gap ns).getLast?, c = '\n' := by
    cases ns with
    | nil => simpa [gap] using getLast?_spaced
    | cons n ns => simp [gap]
  rw [spaced_sources_append hne, ← List.append_assoc, after_append hgap]
  exact hext.trans hall

variable (hnil : R [] [])

include hnil happend in
theorem isFound (h : WritesBack read R fence lead ns) : IsFound read R fence lead ns := by
  induction h with
  | nil =>
    intro s hcode _ _
    refine ⟨[], hnil, ?_⟩
    rw [sources]
    exact Extends.refl hcode
  | leaf hline hbody hlf hleaf hns ih => exact IsFound.leaf happend hline hbody hlf hleaf ih
  | container hkind hhead hsource hlf hchildren hcontainer hns ihc ih =>
    exact IsFound.container happend hkind hhead hsource hlf hchildren.isBlock ihc hcontainer ih
  | blocks hne hkind hblock htext hread hnext hns ih => exact IsFound.blocks happend hne hkind htext hread hnext ih

include hnil happend in
/-- What is written for nodes that are read back is read without diagnostics, as nodes that are related to them. -/
theorem parseWith_toMarkdown (h : WritesBack read R 0 [] ns) :
    (Document.parseWith read (toMarkdown ns)).diagnostics = []
      ∧ R (Document.parseWith read (toMarkdown ns)).root.children ns := by
  obtain ⟨ms, hms, hext⟩ := h.isFound happend hnil {} rfl rfl fun _ _ _ => ⟨.inl rfl, rfl⟩
  rw [toMarkdown, joinBlocks_eq h.isBlock, Document.parseWith]
  change Extends read {} (Scan.ofLines read (Text.lines (spaced (sources ns)))) ms at hext
  generalize Scan.ofLines read (Text.lines (spaced (sources ns))) = s at hext
  have hstack : (s.flush read).stack = [] := by rw [flush_eq]; exact hext.stack
  have hdiagnostics : (s.flush read).diagnostics = [] := by rw [flush_eq]; exact hext.diagnostics
  have hnodes : (s.flush read).nodes = ms := hext.nodes
  simp only [closeAll, hstack, hdiagnostics, List.map_nil, List.foldl_nil, List.append_nil, hnodes]
  exact ⟨trivial, hms⟩

end WritesBack

end MarkdownTemplates
