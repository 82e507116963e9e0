import MarkdownTemplates.Proofs.Document.Directives
import MarkdownTemplates.Proofs.Document.Writing

/-!
# Writing a document anew

A container gets a new fence, no longer than its containers need, and the blocks in it are written as they were. What is written is
read as the same directives when no block holds a line that the new fence does not cover, when the blocks are still the same for the
reader of Markdown, and when the head of each container takes one line.
-/

namespace MarkdownTemplates

namespace Node

/-- Are the same texts written for the nodes, and do they hold the same directives? -/
structure IsAlike (ms ns : List Node) : Prop where
  sources : sources ms = sources ns
  directives : directivesAll ms = directivesAll ns
  depth : containerDepthList ms = containerDepthList ns

variable {ms ms' ns ns' : List Node}

theorem IsAlike.append (h : IsAlike ms ns) (h' : IsAlike ms' ns') : IsAlike (ms ++ ms') (ns ++ ns') where
  sources := by rw [sources_append, sources_append, h.sources, h'.sources]
  directives := by rw [directivesAll_append, directivesAll_append, h.directives, h'.directives]
  depth := by rw [containerDepthList_append, containerDepthList_append, h.depth, h'.depth]

theorem IsAlike.of_unplaced (h : unplacedAll ms = unplacedAll ns) : IsAlike ms ns where
  sources := by rw [← sources_unplacedAll, h, sources_unplacedAll]
  directives := by rw [← directivesAll_unplacedAll, h, directivesAll_unplacedAll]
  depth := by rw [← containerDepthList_unplacedAll, h, containerDepthList_unplacedAll]

theorem IsAlike.of_leaf (head : Head) (line : List Char) (span span' : Span) :
    IsAlike [ofLeaf head line span] [ofLeaf head line span'] := by
  refine .of_unplaced ?_
  simp [unplacedAll, unplaced, ofLeaf]

theorem IsAlike.of_container (h : IsAlike ms ns) (head : Head) (span span' : Span) :
    IsAlike [ofContainer head ms span] [ofContainer head ns span'] := by
  have hdepth : (ofContainer head ms span).containerDepth = (ofContainer head ns span').containerDepth := h.depth
  have hheads : (ofContainer head ms span).headSource = (ofContainer head ns span').headSource := rfl
  have hsources : Node.sources (ofContainer head ms span).children = Node.sources (ofContainer head ns span').children := h.sources
  have hbelow : directivesAll (ofContainer head ms span).children = directivesAll (ofContainer head ns span').children :=
    h.directives
  refine ⟨?_, ?_, ?_⟩
  · simp only [Node.sources]
    rw [source_container rfl, source_container rfl, hdepth, hheads, hsources]
  · simp only [directivesAll]
    rw [directives_container rfl, directives_container rfl, hbelow]
    rfl
  · simp only [containerDepthList, hdepth]
    rfl

/-! ## Blocks that keep to their place -/

/-- Do the blocks keep to their place when the nodes are written inside of a container with a fence of the length, behind `lead`? -/
inductive KeepsBlocks : Nat → List Char → List Node → Prop
  | nil {fence : Nat} {lead : List Char} : KeepsBlocks fence lead []
  | leaf {fence : Nat} {lead : List Char} {n : Node} {ns : List Node} (hkind : n.kind = .leafDirective)
      (hns : KeepsBlocks fence ['\n'] ns) : KeepsBlocks fence lead (n :: ns)
  | container {fence : Nat} {lead : List Char} {n : Node} {ns : List Node} (hkind : n.kind = .containerDirective)
      (hvalues : ∀ v ∈ n.head.attributes.values.values, '\n' ∉ v.toList)
      (hchildren : KeepsBlocks (3 + n.containerDepth) [] n.children) (hns : KeepsBlocks fence ['\n'] ns) :
      KeepsBlocks fence lead (n :: ns)
  | blocks {fence : Nat} {lead : List Char} {run ns : List Node} (hne : run ≠ []) (hkind : ∀ n ∈ run, n.isOwnLine = false)
      (hblock : ∀ n ∈ run, IsBlock n.source) (htext : Scan.IsText fence (spaced (sources run)))
      (hsources : sources (Chunk.contents Markdown.read ⟨{}, lead ++ spaced (sources run) ++ gap ns⟩) = sources run)
      (hdirectives : directivesAll (Chunk.contents Markdown.read ⟨{}, lead ++ spaced (sources run) ++ gap ns⟩) = directivesAll run)
      (hnext : ∀ n ∈ ns.head?, n.isOwnLine = true) (hns : KeepsBlocks fence ['\n'] ns) : KeepsBlocks fence lead (run ++ ns)

theorem IsScanned.of_append {run : List Node} (h : IsScanned (run ++ ns)) : IsScanned ns := by
  induction run with
  | nil => exact h
  | cons n run ih => cases h <;> exact ih ‹_›

theorem source_ofLeaf {head : Head} {line : List Char} {span : Span} (hlf : '\n' ∉ line) : (ofLeaf head line span).source = line := by
  have hsource : (ofLeaf head line span).source = trimEols (String.ofList line).toList := by
    rw [source.eq_def]
    rfl
  rw [hsource, String.toList_ofList]
  exact trimEols_eq fun he => hlf (List.mem_of_getLast? he)

theorem containerDepthList_of_blocks (h : ∀ n ∈ ns, n.isOwnLine = false) : containerDepthList ns = 0 := by
  induction ns with
  | nil => rw [containerDepthList]
  | cons n ns ih =>
    obtain ⟨hn, hns⟩ := List.forall_mem_cons.mp h
    have hkind : n.kind ≠ .containerDirective := by
      intro hk
      simp [isOwnLine, hk] at hn
    rw [containerDepthList, if_neg hkind, ih hns, Nat.max_self]

theorem unplacedAll_contents (read : List Char → List Node) (start start' : Point) (text : List Char) :
    unplacedAll (Chunk.contents read ⟨start, text⟩) = unplacedAll (Chunk.contents read ⟨start', text⟩) := by
  rw [Chunk.contents, Chunk.contents]
  dsimp only
  split_ifs
  · rfl
  · exact Chunk.unplacedAll_nodes read start start' text

/-- What holds of a run at the start of a text holds of it anywhere. -/
theorem isAlike_contents {run : List Node} {text : List Char} (hkind : ∀ n ∈ run, n.isOwnLine = false)
    (hsources : sources (Chunk.contents Markdown.read ⟨{}, text⟩) = sources run)
    (hdirectives : directivesAll (Chunk.contents Markdown.read ⟨{}, text⟩) = directivesAll run) (start : Point) :
    IsAlike (Chunk.contents Markdown.read ⟨start, text⟩) run := by
  have hplaced : IsAlike (Chunk.contents Markdown.read ⟨start, text⟩) (Chunk.contents Markdown.read ⟨{}, text⟩) :=
    .of_unplaced (unplacedAll_contents _ _ _ _)
  refine ⟨hplaced.sources.trans hsources, hplaced.directives.trans hdirectives, ?_⟩
  rw [containerDepthList_of_blocks hkind]
  exact containerDepthList_of_blocks (Chunk.isOwnLine_contents Markdown.isMarkdownBlock_read _)

theorem KeepsBlocks.writesBack {fence : Nat} {lead : List Char} (h : KeepsBlocks fence lead ns) (hs : IsScanned ns) :
    WritesBack Markdown.read IsAlike fence lead ns := by
  induction h with
  | nil => exact .nil
  | leaf hkind hns ih =>
    cases hs with
    | @leaf head line span _ hline hbody hlf hs =>
      have hsource : (ofLeaf head line span).source = line := source_ofLeaf hlf
      refine .leaf (by rwa [hsource]) (by rwa [hsource]) (by rwa [hsource]) (fun span' => ?_) (ih hs)
      rw [hsource]
      exact .of_leaf head line span' span
    | container _ _ _ _ => cases hkind
    | block hn _ => simp [isOwnLine, hkind] at hn
  | container hkind hvalues hchildren hns ihc ih =>
    cases hs with
    | leaf _ _ _ _ => cases hkind
    | @container head children _ span hhead hlabel hcs hs =>
      exact .container rfl hhead rfl (hhead.lineFeed_notMem hlabel hvalues) (ihc hcs)
        (fun ms span' hms => hms.of_container head span' span) (ih hs)
    | block hn _ => simp [isOwnLine, hkind] at hn
  | blocks hne hkind hblock htext hsources hdirectives hnext hns ih =>
    exact .blocks hne hkind hblock htext (isAlike_contents hkind hsources hdirectives) hnext (ih hs.of_append)

end Node

/-- Writing a document anew keeps its directives, and once is enough, when the blocks keep to their place. -/
theorem Document.rewriting_keeps_directives (source : List Char) (h : Node.KeepsBlocks 0 [] (parse source).root.children) :
    let written := Node.toMarkdown (parse source).root.children
    (parse written).diagnostics = []
      ∧ Node.directivesAll (parse written).root.children = Node.directivesAll (parse source).root.children
      ∧ Node.toMarkdown (parse written).root.children = written := by
  intro written
  have hwritten := h.writesBack (isScanned_parse source)
  obtain ⟨hdiagnostics, halike⟩ := hwritten.parseWith_toMarkdown Node.IsAlike.append ⟨rfl, rfl, rfl⟩
  refine ⟨hdiagnostics, halike.directives, ?_⟩
  exact congrArg Node.joinBlocks halike.sources

/-! A fence inside of code, and a leaf inside of text, in a container whose fence gets shorter. -/

def coveredSource : List Char := "::::a{k=1}\nA ::b{x}\n\n```\n:::\n```\n::::\n".toList

def coveredLeaf : Node :=
  { kind := .leafDirective, name := "b", attributes := some (Attributes.parse ['x']), span := some ⟨⟨2, 3, 13⟩, ⟨2, 9, 19⟩⟩, raw := "::b{x}" }

def coveredText : Node :=
  { kind := .paragraph
    span := some ⟨⟨2, 1, 11⟩, ⟨2, 9, 19⟩⟩
    children := [{ kind := .text, value := "A ", span := some ⟨⟨2, 1, 11⟩, ⟨2, 3, 13⟩⟩ }, coveredLeaf]
    raw := "A ::b{x}" }

def coveredCode : Node := { kind := .code, value := ":::", span := some ⟨⟨4, 1, 21⟩, ⟨6, 4, 32⟩⟩, raw := "```\n:::\n```" }

theorem children_coveredSource : (Document.parse coveredSource).root.children =
    [.ofContainer ⟨"a", none, Attributes.parse ['k', '=', '1']⟩ [coveredText, coveredCode] ⟨⟨1, 1, 0⟩, ⟨7, 5, 37⟩⟩] := by
  cbv

theorem sources_covered : Node.sources (Chunk.contents Markdown.read
    ⟨{}, [] ++ Node.spaced (Node.sources [coveredText, coveredCode]) ++ []⟩) = Node.sources [coveredText, coveredCode] := by
  cbv

theorem directivesAll_covered : Node.directivesAll (Chunk.contents Markdown.read
    ⟨{}, [] ++ Node.spaced (Node.sources [coveredText, coveredCode]) ++ []⟩) = Node.directivesAll [coveredText, coveredCode] := by
  cbv

theorem Document.rewriting_keeps_directives_covered :
    let written := Node.toMarkdown (parse coveredSource).root.children
    Node.KeepsBlocks 0 [] (parse coveredSource).root.children ∧ (parse written).diagnostics = []
      ∧ Node.directivesAll (parse written).root.children = Node.directivesAll (parse coveredSource).root.children
      ∧ Node.toMarkdown (parse written).root.children = written := by
  have hblock : ∀ n ∈ [coveredText, coveredCode], Node.IsBlock n.source := by decide +kernel
  have htext : Scan.IsText 3 (Node.spaced (Node.sources [coveredText, coveredCode])) := by decide +kernel
  have hblocks : Node.KeepsBlocks 3 [] ([coveredText, coveredCode] ++ []) :=
    .blocks (by simp) (by decide) hblock htext sources_covered directivesAll_covered (by simp) .nil
  have hkeeps : Node.KeepsBlocks 0 [] (parse coveredSource).root.children := by
    rw [children_coveredSource]
    exact .container rfl (by decide +kernel) hblocks .nil
  exact ⟨hkeeps, Document.rewriting_keeps_directives coveredSource hkeeps⟩

/-- A fence that is text can be as long as the new fence around it. -/
theorem Document.not_rewriting_keeps_directives : ¬ ∀ source, (parse source).diagnostics = [] →
    let written := Node.toMarkdown (parse source).root.children
    (parse written).diagnostics = []
      ∧ Node.directivesAll (parse written).root.children = Node.directivesAll (parse source).root.children
      ∧ Node.toMarkdown (parse written).root.children = written := by
  intro h
  have hsource : (parse "::::a\n:::\n::::\n".toList).diagnostics = [] := by decide +kernel
  have hwritten : Node.toMarkdown (parse "::::a\n:::\n::::\n".toList).root.children = ":::a\n:::\n:::\n".toList := by cbv
  have hread := (h _ hsource).1
  rw [hwritten] at hread
  revert hread
  decide +kernel

end MarkdownTemplates
