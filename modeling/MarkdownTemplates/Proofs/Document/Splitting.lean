import MarkdownTemplates.Proofs.Directive.Reading
import MarkdownTemplates.Proofs.Document.Cutting

/-!
# Text and the directives in it

A text is cut at the first place where a directive can be read, and then again behind that directive. The plain stretches in between
have no directive in them when they stand alone: what a directive would need from behind its stretch starts with a colon, which no
directive reads over at its end.
-/

namespace MarkdownTemplates

/-! ## Cutting -/

namespace Segment

variable {kind : NodeKind} {head : Head} {previous : Option Char} {text written behind rest : List Char} {segments : List Segment}

/-- Does no directive start inside of the text, where `previous` is the character in front of it? -/
def IsUncut (previous : Option Char) (text behind : List Char) : Prop :=
  ∀ front rest, text = front ++ ':' :: rest → allowsAfter (front.getLast?.or previous) = true →
    directive? (':' :: (rest ++ behind)) = none

theorem isUncut_nil : IsUncut previous [] behind := by simp [IsUncut]

theorem IsUncut.concat {c : Char} (h : IsUncut previous text (c :: behind))
    (hc : c = ':' → allowsAfter (text.getLast?.or previous) = true → directive? (c :: behind) = none) :
    IsUncut previous (text ++ [c]) behind := by
  intro front rest htext hallows
  rcases List.eq_nil_or_concat rest with rfl | ⟨rest, d, rfl⟩
  · obtain ⟨rfl, hcolon⟩ := List.append_inj' htext rfl
    obtain rfl := List.singleton_injective hcolon
    exact hc rfl hallows
  · rw [List.concat_eq_append, ← List.cons_append, ← List.append_assoc] at htext
    obtain ⟨rfl, hd⟩ := List.append_inj' htext rfl
    obtain rfl := List.singleton_injective hd
    simpa using h front rest rfl hallows

/-- A stretch between directives has none in it when it stands alone. -/
theorem IsUncut.alone (h : IsUncut previous text behind) (hprevious : allowsAfter previous = true)
    (hbehind : ∀ c ∈ behind.head?, c = ':') : IsUncut none text [] := by
  intro front rest htext hallows
  have hallows : allowsAfter (front.getLast?.or previous) = true := by
    cases hlast : front.getLast? with
    | none => exact hprevious
    | some c => simpa [hlast] using hallows
  have hnone := h front rest htext hallows
  rw [List.append_nil]
  refine Option.eq_none_iff_forall_ne_some.mpr fun ⟨kind, head, rest'⟩ hread => ?_
  obtain ⟨colons, written, hrest, -, -, hfollows⟩ := exists_directive? hread
  have hlonger := hfollows (rest' ++ behind) (Head.follows_append hbehind)
  rw [← List.append_assoc, ← hrest, List.cons_append, hnone] at hlonger
  cases hlonger

theorem cut_of_isUncut {pending : List Char} (h : IsUncut previous text []) :
    cut previous pending text = addPlain (text.reverse ++ pending) [] := by
  induction text generalizing previous pending with
  | nil => rw [cut, List.reverse_nil, List.nil_append]
  | cons c text ih =>
    have hrest : IsUncut (some c) text [] := by
      intro front rest htext hallows
      refine h (c :: front) rest (by rw [htext, List.cons_append]) ?_
      cases hlast : front.getLast? <;> simpa [List.getLast?_cons, hlast] using hallows
    have hskip : cut previous pending (c :: text) = cut (some c) (c :: pending) text := by
      rw [cut]
      split_ifs with hc
      · have hnone : directive? (c :: text) = none := by
          have := h [] text (by rw [hc.1, List.nil_append]) hc.2
          rwa [List.append_nil, ← hc.1] at this
        split
        · rename_i hsome
          simp [hnone] at hsome
        · rfl
      · rfl
    rw [hskip, ih hrest, List.reverse_cons, List.append_assoc, List.singleton_append]

/-- Segments that are read one after the other: no directive starts in a plain one, two plain ones do not meet, and each directive is the
one that is read where it stands. -/
inductive IsCut : Option Char → List Segment → Prop
  | nil {previous : Option Char} : IsCut previous []
  | plain {previous : Option Char} {text : List Char} {rest : List Segment} (hne : text ≠ [])
      (huncut : IsUncut previous text (rest.flatMap source)) (hnext : ∀ s ∈ rest.head?, s.isDirective = true)
      (hrest : IsCut (text.getLast?.or previous) rest) : IsCut previous (.plain text :: rest)
  | directive {previous : Option Char} {kind : NodeKind} {head : Head} {written : List Char} {rest : List Segment}
      (hallows : allowsAfter previous = true)
      (hread : directive? (written ++ rest.flatMap source) = some (kind, head, rest.flatMap source))
      (hrest : IsCut written.getLast? rest) : IsCut previous (.directive kind head written :: rest)

theorem IsCut.addPlain {pending : List Char} (huncut : IsUncut previous pending.reverse (segments.flatMap source))
    (hnext : ∀ s ∈ segments.head?, s.isDirective = true) (h : IsCut (pending.head?.or previous) segments) :
    IsCut previous (addPlain pending segments) := by
  rw [Segment.addPlain]
  split_ifs with hempty
  · obtain rfl := List.isEmpty_iff.mp hempty
    exact h
  · refine .plain (by simpa using hempty) huncut hnext ?_
    rwa [List.getLast?_reverse]

theorem isCut_cut {start : Option Char} {pending : List Char} (huncut : IsUncut start pending.reverse text)
    (hprevious : previous = pending.head?.or start) : IsCut start (cut previous pending text) := by
  fun_induction cut previous pending text generalizing start with
  | case1 => exact .addPlain huncut (by simp) .nil
  | case2 previous pending c r hc kind head rest hd written =>
    rename_i ih
    have hwritten := List.suffix_iff_eq_append.mp (suffix_of_directive? hd)
    have hflat : (cut written.getLast? [] rest).flatMap source = rest := flatMap_source_cut _ _ _
    refine .addPlain ?_ (by simp [isDirective]) (.directive (hprevious ▸ hc.2) ?_ (ih isUncut_nil rfl))
    · rw [List.flatMap_cons, hflat]
      exact hwritten ▸ huncut
    · rw [hflat, hwritten, hd]
  | case3 previous pending c r hc hd ih =>
    refine ih ?_ rfl
    rw [List.reverse_cons]
    exact huncut.concat fun _ _ => hd
  | case4 previous pending c r hc ih =>
    refine ih ?_ rfl
    rw [List.reverse_cons]
    refine huncut.concat fun hcolon hallows => absurd ⟨hcolon, ?_⟩ hc
    rwa [hprevious, ← List.getLast?_reverse]

theorem isCut_ofText (text : List Char) : IsCut none (ofText text) := isCut_cut isUncut_nil rfl

theorem IsCut.head?_flatMap (h : IsCut previous segments) (hnext : ∀ s ∈ segments.head?, s.isDirective = true) :
    ∀ c ∈ (segments.flatMap source).head?, c = ':' := by
  cases h with
  | nil => simp
  | plain => simp [isDirective] at hnext
  | directive _ hread _ =>
    intro c hc
    exact (Option.some.inj ((head?_of_directive? hread).symm.trans hc)).symm

theorem IsCut.isWritten (h : IsCut previous segments) : ∀ {kind head written}, .directive kind head written ∈ segments →
    IsWritten kind head written := by
  induction h with
  | nil => simp
  | plain _ _ _ _ ih =>
    intro kind head written hm
    exact ih (by simpa using hm)
  | directive _ hread _ ih =>
    intro kind head written hm
    rcases List.mem_cons.mp hm with he | hm
    · obtain ⟨rfl, rfl, rfl⟩ := Segment.directive.inj he
      exact .of_directive? hread
    · exact ih hm

/-- Every plain segment stays in one piece when it is cut again. -/
theorem IsCut.ofText_plain (h : IsCut previous segments)
    (hprevious : Segment.allowsAfter previous = true ∨ ∀ s ∈ segments.head?, s.isDirective = true) :
    ∀ {text}, .plain text ∈ segments → text ≠ [] ∧ ofText text = [.plain text] := by
  induction h with
  | nil => simp
  | @plain previous text rest hne huncut hnext hrest ih =>
    intro text' hm
    rcases List.mem_cons.mp hm with he | hm
    · obtain rfl := Segment.plain.inj he
      have hallows : Segment.allowsAfter previous = true := hprevious.resolve_right fun h => by simp [isDirective] at h
      have halone := huncut.alone hallows (hrest.head?_flatMap hnext)
      refine ⟨hne, ?_⟩
      rw [ofText, cut_of_isUncut halone, List.append_nil, Segment.addPlain, if_neg (by simpa using hne), List.reverse_reverse]
    · exact ih (.inr hnext) hm
  | directive _ hread _ ih =>
    intro text hm
    exact ih (.inl (IsWritten.of_directive? hread).allowsAfter) (by simpa using hm)

theorem IsCut.isChain (h : IsCut previous segments) :
    segments.IsChain fun s t => s.isDirective = true ∨ t.isDirective = true := by
  induction h with
  | nil => exact .nil
  | plain _ _ hnext _ ih => exact List.isChain_cons.mpr ⟨fun s hs => .inr (hnext s hs), ih⟩
  | directive _ _ _ ih => exact List.isChain_cons.mpr ⟨fun s _ => .inl rfl, ih⟩

end Segment

/-! ## The directives in a text -/

/-- A directive in a text, with the offsets in bytes of its first character and of what is behind its last one. -/
structure InlineMatch where
  kind : NodeKind
  head : Head
  start : Nat
  stop : Nat

namespace Segment

open Text (byteSize)

/-- The directives among segments, the first of which starts at an offset. -/
def matchesFrom (offset : Nat) : List Segment → List InlineMatch
  | [] => []
  | .plain text :: rest => matchesFrom (offset + byteSize text) rest
  | .directive kind head written :: rest =>
    ⟨kind, head, offset, offset + byteSize written⟩ :: matchesFrom (offset + byteSize written) rest

variable {previous : Option Char} {segments : List Segment} {offset : Nat} {m : InlineMatch}

theorem le_start_of_mem_matchesFrom (hm : m ∈ matchesFrom offset segments) : offset ≤ m.start := by
  induction segments generalizing offset with
  | nil => cases hm
  | cons s rest ih =>
    cases s with
    | plain text => exact (Nat.le_add_right _ _).trans (ih hm)
    | directive kind head written =>
      rcases List.mem_cons.mp hm with rfl | hm
      · exact le_rfl
      · exact (Nat.le_add_right _ _).trans (ih hm)

theorem pairwise_matchesFrom (offset : Nat) (segments : List Segment) :
    (matchesFrom offset segments).Pairwise fun a b => a.stop ≤ b.start := by
  induction segments generalizing offset with
  | nil => exact .nil
  | cons s rest ih =>
    cases s with
    | plain text => exact ih _
    | directive kind head written => exact List.pairwise_cons.mpr ⟨fun m hm => le_start_of_mem_matchesFrom hm, ih _⟩

/-- Every directive is read where it stands. -/
theorem IsCut.exists_of_mem_matchesFrom (h : IsCut previous segments) (hm : m ∈ matchesFrom offset segments) :
    ∃ front written behind, segments.flatMap source = front ++ written ++ behind ∧ m.start = offset + byteSize front ∧
      m.stop = offset + byteSize (front ++ written) ∧ written ≠ [] ∧ allowsAfter (front.getLast?.or previous) = true ∧
        directive? (written ++ behind) = some (m.kind, m.head, behind) := by
  induction h generalizing offset with
  | nil => cases hm
  | @plain previous text rest _ _ _ _ ih =>
    obtain ⟨front, written, behind, hflat, hstart, hstop, hne, hallows, hread⟩ := ih hm
    refine ⟨text ++ front, written, behind, ?_, ?_, ?_, hne, ?_, hread⟩
    · rw [List.flatMap_cons, hflat, List.append_assoc, List.append_assoc, List.append_assoc]
      rfl
    · rw [hstart, Text.byteSize_append, Nat.add_assoc]
    · rw [hstop, List.append_assoc, Text.byteSize_append text, Nat.add_assoc]
    · rwa [List.getLast?_append, Option.or_assoc]
  | @directive previous kind head written rest hallows hread _ ih =>
    have hwritten := IsWritten.of_directive? hread
    rcases List.mem_cons.mp hm with rfl | hm
    · exact ⟨[], written, rest.flatMap source, rfl, by simp, by simp, hwritten.ne_nil, hallows, hread⟩
    · obtain ⟨front, written', behind, hflat, hstart, hstop, hne, hallows', hread'⟩ := ih hm
      refine ⟨written ++ front, written', behind, ?_, ?_, ?_, hne, ?_, hread'⟩
      · rw [List.flatMap_cons, hflat, List.append_assoc, List.append_assoc, List.append_assoc]
        rfl
      · rw [hstart, Text.byteSize_append, Nat.add_assoc]
      · rw [hstop, List.append_assoc, Text.byteSize_append written, Nat.add_assoc]
      · rw [List.getLast?_append, Option.or_assoc]
        obtain ⟨c, hc⟩ := Option.isSome_iff_exists.mp (List.getLast?_isSome.mpr hwritten.ne_nil)
        simpa [hc] using hallows'

/-- A place in front of the first character of `rest` lies in the first of two texts or in the second one. -/
theorem append_eq_append_cons {a b front rest : List Char} {c : Char} (h : a ++ b = front ++ c :: rest) :
    (∃ front', front = a ++ front' ∧ b = front' ++ c :: rest) ∨ ∃ within, a = front ++ c :: within ∧ rest = within ++ b := by
  rcases List.append_eq_append_iff.mp h with ⟨front', rfl, hb⟩ | ⟨within, rfl, hc⟩
  · exact .inl ⟨front', rfl, hb⟩
  · cases within with
    | nil => exact .inl ⟨[], by simp, hc.symm⟩
    | cons d within =>
      obtain ⟨rfl, rfl⟩ := List.cons.inj hc
      exact .inr ⟨within, rfl, rfl⟩

/-- Wherever a directive can be read, one has been found there or around the place. -/
theorem IsCut.exists_match (h : IsCut previous segments) (offset : Nat) {front rest : List Char}
    (htext : segments.flatMap source = front ++ ':' :: rest) (hallows : allowsAfter (front.getLast?.or previous) = true)
    (hread : (directive? (':' :: rest)).isSome = true) :
    ∃ m ∈ matchesFrom offset segments, m.start ≤ offset + byteSize front ∧ offset + byteSize front < m.stop := by
  induction h generalizing offset front with
  | nil => simp at htext
  | @plain previous text segments _ huncut _ _ ih =>
    rw [List.flatMap_cons, source] at htext
    rcases append_eq_append_cons htext with ⟨front, rfl, hbehind⟩ | ⟨within, hplain, rfl⟩
    · obtain ⟨m, hm, hstart, hstop⟩ := ih (offset + byteSize text) hbehind
        (by rwa [List.getLast?_append, Option.or_assoc] at hallows)
      refine ⟨m, hm, ?_, ?_⟩ <;> rw [Text.byteSize_append, ← Nat.add_assoc] <;> assumption
    · rw [huncut front within hplain hallows] at hread
      cases hread
  | @directive previous kind head written segments _ hdirective _ ih =>
    rw [List.flatMap_cons, source] at htext
    rcases append_eq_append_cons htext with ⟨front, rfl, hbehind⟩ | ⟨within, rfl, -⟩
    · obtain ⟨c, hc⟩ := Option.isSome_iff_exists.mp (List.getLast?_isSome.mpr (IsWritten.of_directive? hdirective).ne_nil)
      obtain ⟨m, hm, hstart, hstop⟩ := ih (offset + byteSize written) hbehind
        (by simpa [List.getLast?_append, hc] using hallows)
      refine ⟨m, .tail _ hm, ?_, ?_⟩ <;> rw [Text.byteSize_append, ← Nat.add_assoc] <;> assumption
    · refine ⟨_, .head _, Nat.le_add_right _ _, Nat.add_lt_add_left ?_ _⟩
      have := Char.utf8Size_pos ':'
      rw [Text.byteSize_append, Text.byteSize_cons]
      omega

end Segment

/-- The directives in a text, one behind the other. -/
def inlineMatches (text : List Char) : List InlineMatch := Segment.matchesFrom 0 (Segment.ofText text)

/-! ## The nodes of a text that is cut -/

/-- The source that a node of text or a directive in it stands for. -/
def Node.written (n : Node) : List Char := ((if n.kind = .text then n.value else n.raw).getD "").toList

namespace Segment

variable {previous : Option Char} {start stop : Option Point} {s : Segment} {segments : List Segment} {n : Node} {ns : List Node}

/-- Does the node stand for the segment? -/
def Gives : Segment → Node → Prop
  | plain text, n => n.kind = .text ∧ n.value = some (String.ofList text)
  | directive kind head text, n => n.kind = kind ∧ n.head = head ∧ n.raw = some (String.ofList text) ∧ IsWritten kind head text

theorem Gives.isDirective_eq (h : s.Gives n) : n.kind.isDirective = s.isDirective := by
  cases s with
  | plain text => rw [h.1]; rfl
  | directive kind head text => rw [h.1, h.2.2.2.isDirective]; rfl

theorem Gives.isText_iff (h : s.Gives n) : n.kind = .text ↔ s.isDirective = false := by
  cases s with
  | plain text => simp [isDirective, h.1]
  | directive kind head text =>
    have hkind := h.1 ▸ h.2.2.2.isDirective
    refine iff_of_false (fun htext => ?_) (by simp [isDirective])
    rw [htext] at hkind
    cases hkind

theorem Gives.written_eq (h : s.Gives n) : n.written = s.source := by
  cases s with
  | plain text => simp [Node.written, h.1, h.2, source]
  | directive kind head text =>
    have hkind : n.kind ≠ .text := fun htext => by simpa [isDirective] using h.isText_iff.mp htext
    simp [Node.written, if_neg hkind, h.2.2.1, source]

theorem forall₂_toNodes (h : ∀ {kind head text}, .directive kind head text ∈ segments → IsWritten kind head text) :
    List.Forall₂ Gives segments (toNodes stop start segments) := by
  fun_induction toNodes stop start segments with
  | case1 => exact .nil
  | case2 start text => exact .cons ⟨rfl, rfl⟩ .nil
  | case3 start s rest _ ih =>
    refine .cons ?_ (ih fun hm => h (.tail _ hm))
    cases s with
    | plain text => exact ⟨rfl, rfl⟩
    | directive kind head text => exact ⟨rfl, rfl, rfl, h (.head _)⟩

theorem flatMap_written (h : List.Forall₂ Gives segments ns) : ns.flatMap Node.written = segments.flatMap source := by
  induction h with
  | nil => rfl
  | cons hgives _ ih => rw [List.flatMap_cons, List.flatMap_cons, hgives.written_eq, ih]

theorem exists_gives (h : List.Forall₂ Gives segments ns) (hn : n ∈ ns) : ∃ s ∈ segments, s.Gives n := by
  obtain ⟨i, hi, rfl⟩ := List.getElem_of_mem hn
  exact ⟨_, List.getElem_mem (h.length_eq ▸ hi), h.get _ hi⟩

theorem isChain_of_forall₂ (h : List.Forall₂ Gives segments ns)
    (hchain : segments.IsChain fun s t => s.isDirective = true ∨ t.isDirective = true) :
    ns.IsChain fun m n => m.kind ≠ .text ∨ n.kind ≠ .text := by
  induction h with
  | nil => exact .nil
  | @cons s n segments ns hgives hrest ih =>
    obtain ⟨hnext, hchain⟩ := List.isChain_cons.mp hchain
    refine List.isChain_cons.mpr ⟨fun m hm => ?_, ih hchain⟩
    cases hrest with
    | nil => cases hm
    | cons hfirst _ =>
      obtain rfl := Option.some.inj hm
      simpa [hgives.isText_iff, hfirst.isText_iff] using hnext _ rfl

end Segment

/-- Does the node stand for the directive, between whose offsets the text has the source of the node? -/
structure InlineMatch.Gives (text : List Char) (m : InlineMatch) (n : Node) : Prop where
  kind : n.kind = m.kind
  head : n.head = m.head
  slice : ∃ raw, n.raw = some raw ∧ Text.sliceBytes? text m.start m.stop = some raw.toList

namespace Node

open Text (byteSize)
open Segment (allowsAfter directive?)

variable {text front : List Char} {segments : List Segment} {pieces : List Node}

theorem forall₂_matchesFrom (h : List.Forall₂ Segment.Gives segments pieces) (front : List Char) :
    List.Forall₂ (InlineMatch.Gives (front ++ segments.flatMap Segment.source)) (Segment.matchesFrom (byteSize front) segments)
      (pieces.filter (·.kind.isDirective)) := by
  induction h generalizing front with
  | nil => exact .nil
  | @cons s n segments pieces hgives _ ih =>
    have hrest := ih (front ++ s.source)
    rw [List.append_assoc, ← List.flatMap_cons, Text.byteSize_append] at hrest
    rw [List.filter_cons, hgives.isDirective_eq]
    cases s with
    | plain text => exact hrest
    | directive kind head written =>
      obtain ⟨hkind, hhead, hraw, -⟩ := hgives
      refine .cons ⟨hkind, hhead, _, hraw, ?_⟩ hrest
      refine Text.sliceBytes?_eq_some.mpr ⟨front, segments.flatMap Segment.source, ?_, rfl, ?_⟩
      · simp [Segment.source]
      · simp

/-- A text has been cut into nodes at the directives found in it. -/
structure IsCutInto (text : List Char) (found : List InlineMatch) (pieces : List Node) : Prop where
  ordered : found.Pairwise fun a b => a.stop ≤ b.start
  /-- Each directive is read where it stands. -/
  read : ∀ m ∈ found, m.start < m.stop ∧ ∃ front written behind, text = front ++ written ++ behind ∧ m.start = byteSize front ∧
    m.stop = byteSize (front ++ written) ∧ allowsAfter front.getLast? = true ∧
      directive? (written ++ behind) = some (m.kind, m.head, behind)
  /-- Wherever a directive can be read, one has been found there or around the place. -/
  complete : ∀ front rest, text = front ++ ':' :: rest → allowsAfter front.getLast? = true → (directive? (':' :: rest)).isSome = true →
    ∃ m ∈ found, m.start ≤ byteSize front ∧ byteSize front < m.stop
  gives : List.Forall₂ (InlineMatch.Gives text) found (pieces.filter (·.kind.isDirective))
  kinds : ∀ n ∈ pieces, n.kind = .text ∨ n.kind.isDirective = true
  lossless : pieces.flatMap written = text
  nonempty : ∀ n ∈ pieces, n.written = [] → text = []
  alternating : pieces.IsChain fun m n => m.kind ≠ .text ∨ n.kind ≠ .text
  /-- The source of a directive is one or two colons and the whole of its head. -/
  heads : ∀ n ∈ pieces, n.kind.isDirective = true → ∃ colons name, n.written = List.replicate colons ':' ++ name ∧
    (colons = 1 ∨ colons = 2) ∧ Head.parse? name = some (n.head, [])
  settled : ∀ n ∈ pieces, n.kind = .text → inlineMatches n.written = []

theorem forall₂_splitText {n : Node} {value : String} (hkind : n.kind = .text) (hvalue : n.value = some value) (hne : value ≠ "") :
    List.Forall₂ Segment.Gives (Segment.ofText value.toList) n.splitText := by
  have hcut := Segment.isCut_ofText value.toList
  rw [splitText, hvalue]
  dsimp only
  split_ifs with hany
  · exact Segment.forall₂_toNodes hcut.isWritten
  · -- Plain segments do not meet, so the text is a single one.
    have hplain : ∀ s ∈ Segment.ofText value.toList, s.isDirective = false := by simpa using hany
    have hsource := Segment.flatMap_source_ofText value.toList
    have hchain := hcut.isChain
    rcases hsegments : Segment.ofText value.toList with - | ⟨s, - | ⟨t, rest⟩⟩ <;> rw [hsegments] at hplain hsource hchain
    · exact absurd (String.toList_inj.mp hsource.symm) hne
    · cases s with
      | plain text =>
        refine .cons ⟨hkind, ?_⟩ .nil
        rw [hvalue, ← String.ofList_toList (s := value), ← hsource]
        simp [Segment.source]
      | directive => simp [Segment.isDirective] at hplain
    · simp [hplain] at hchain

theorem isCutInto_of_forall₂ (h : List.Forall₂ Segment.Gives (Segment.ofText text) pieces) :
    IsCutInto text (inlineMatches text) pieces := by
  have hcut := Segment.isCut_ofText text
  have hsource := Segment.flatMap_source_ofText text
  have hplain : ∀ {text'}, .plain text' ∈ Segment.ofText text → text' ≠ [] ∧ Segment.ofText text' = [.plain text'] :=
    hcut.ofText_plain (.inl rfl)
  constructor
  case ordered => exact Segment.pairwise_matchesFrom 0 _
  case read =>
    intro m hm
    obtain ⟨front, written, behind, htext, hstart, hstop, hne, hallows, hread⟩ := hcut.exists_of_mem_matchesFrom hm
    rw [hsource] at htext
    rw [Nat.zero_add] at hstart hstop
    refine ⟨?_, front, written, behind, htext, hstart, hstop, by simpa using hallows, hread⟩
    rw [hstart, hstop, Text.byteSize_append]
    exact Nat.lt_add_of_pos_right (Text.byteSize_pos hne)
  case complete =>
    intro front rest htext hallows hread
    simpa [inlineMatches] using hcut.exists_match 0 (hsource.trans htext) (by simpa using hallows) hread
  case gives => simpa [hsource, inlineMatches] using forall₂_matchesFrom h []
  case kinds =>
    intro n hn
    obtain ⟨s, -, hgives⟩ := Segment.exists_gives h hn
    rw [hgives.isText_iff, hgives.isDirective_eq]
    exact (Bool.eq_false_or_eq_true _).symm
  case lossless => rw [Segment.flatMap_written h, hsource]
  case nonempty =>
    intro n hn hempty
    obtain ⟨s, hs, hgives⟩ := Segment.exists_gives h hn
    rw [hgives.written_eq] at hempty
    cases s with
    | plain text' => exact absurd hempty (hplain hs).1
    | directive kind head written => exact absurd hempty (hcut.isWritten hs).ne_nil
  case alternating => exact Segment.isChain_of_forall₂ h hcut.isChain
  case heads =>
    intro n hn hdirective
    obtain ⟨s, -, hgives⟩ := Segment.exists_gives h hn
    rw [hgives.written_eq]
    cases s with
    | plain text' =>
      rw [hgives.isDirective_eq] at hdirective
      cases hdirective
    | directive kind head written =>
      obtain ⟨colons, name, hwritten, hcolons, hparse⟩ := hgives.2.2.2
      exact ⟨colons, name, hwritten, (Segment.kindOf?_eq_some.mp hcolons).imp (·.1) (·.1), hgives.2.1 ▸ hparse⟩
  case settled =>
    intro n hn htext
    obtain ⟨s, hs, hgives⟩ := Segment.exists_gives h hn
    rw [hgives.written_eq]
    cases s with
    | plain text' => rw [Segment.source, inlineMatches, (hplain hs).2]; rfl
    | directive kind head written => simpa [Segment.isDirective] using hgives.isText_iff.mp htext

theorem isCutInto_nil {n : Node} (hkind : n.kind = .text) (hvalue : n.value = some "") : IsCutInto [] (inlineMatches []) [n] := by
  have hsegments : Segment.ofText [] = [] := by rw [Segment.ofText, Segment.cut]; rfl
  have hfound : inlineMatches [] = [] := by rw [inlineMatches, hsegments]; rfl
  have hwritten : n.written = [] := by simp [written, hkind, hvalue]
  rw [hfound]
  constructor <;> simp [hkind, hwritten, hfound, NodeKind.isDirective]

/-- A text is cut at all of its directives, nothing of it is lost, and nothing is left to cut. -/
theorem splitText_isCutInto (n : Node) (value : String) :
    IsCutInto value.toList (inlineMatches value.toList) { n with kind := .text, value := some value }.splitText := by
  by_cases hvalue : value = ""
  · subst hvalue
    have hsegments : Segment.ofText [] = [] := by rw [Segment.ofText, Segment.cut]; rfl
    have hsplit : { n with kind := .text, value := some "" }.splitText = [{ n with kind := .text, value := some "" }] := by
      simp [splitText, hsegments]
    rw [hsplit]
    exact isCutInto_nil rfl rfl
  · exact isCutInto_of_forall₂ (forall₂_splitText rfl rfl hvalue)

end Node

end MarkdownTemplates
