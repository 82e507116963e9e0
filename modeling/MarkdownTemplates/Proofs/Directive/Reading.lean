import MarkdownTemplates.Directive.Inline
import MarkdownTemplates.Proofs.Directive.Head

/-!
# Reading a directive in front of other text

The head of a directive is read up to its own end and no further. So its own characters are read as the same directive, and a text
behind them changes nothing, unless it goes on with the name, with a label or with a block.
-/

namespace MarkdownTemplates

namespace Head

variable {s rest : List Char} {head : Head}

/-- May the text stand behind a head in place of `rest`? A colon ends every head. -/
def Follows (rest text : List Char) : Prop := text.head? = rest.head? ∨ ∀ c ∈ text.head?, c = ':'

theorem follows_append {text : List Char} (h : ∀ c ∈ text.head?, c = ':') : Follows rest (rest ++ text) := by
  cases rest with
  | nil => exact .inr h
  | cons => exact .inl rfl

theorem Follows.head?_ne {text : List Char} {c : Char} (h : Follows rest text) (hc : rest.head? ≠ some c) (hcolon : c ≠ ':') :
    text.head? ≠ some c := by
  rcases h with h | h
  · rwa [h]
  · exact fun he => hcolon (h c he)

theorem exists_takeLabel? {label : Option (List Char)} (h : takeLabel? s = some (label, rest)) :
    ∃ written, s = written ++ rest ∧ (∀ c ∈ written.head?, c = '[') ∧
      ∀ text, Follows rest text → takeLabel? (written ++ text) = some (label, text) := by
  rw [takeLabel?.eq_def] at h
  split at h
  · rename_i s
    split at h
    · cases h
    · rename_i c behind hbehind
      obtain ⟨rfl, rfl⟩ := Prod.mk.inj (Option.some.inj h)
      obtain rfl : c = ']' := by
        have hc := List.head?_dropWhile_not (· ≠ ']') s
        rw [hbehind] at hc
        simpa using hc
      have hs : s.takeWhile (· ≠ ']') ++ ']' :: behind = s := by rw [← hbehind, List.takeWhile_append_dropWhile]
      have hl : ']' ∉ s.takeWhile (· ≠ ']') := fun hm => by simpa using List.mem_takeWhile_imp hm
      refine ⟨'[' :: s.takeWhile (· ≠ ']') ++ [']'], ?_, by simp, fun text _ => takeLabel?_some hl text⟩
      nth_rewrite 1 [← hs]
      simp
  · rename_i hs
    obtain ⟨rfl, rfl⟩ := Prod.mk.inj (Option.some.inj h)
    refine ⟨[], rfl, by simp, fun text ht => takeLabel?_none (ht.head?_ne ?_ (by decide))⟩
    intro he
    obtain ⟨t, rfl⟩ := List.head?_eq_some_iff.mp he
    exact hs t rfl

theorem exists_takeBlock? {quote : Option Char} {inner : List Char} (h : takeBlock? quote s = some (inner, rest)) :
    s = inner ++ '}' :: rest ∧ ∀ text, takeBlock? quote (inner ++ '}' :: text) = some (inner, text) := by
  fun_induction takeBlock? quote s generalizing inner with
  | case1 | case2 | case6 => cases h
  | case5 =>
    obtain ⟨rfl, rfl⟩ := Prod.mk.inj (Option.some.inj h)
    exact ⟨rfl, fun text => by rw [List.nil_append, takeBlock?.eq_def]; rfl⟩
  | case3 q e r ih =>
    obtain ⟨⟨inner', _⟩, hp, he⟩ := Option.map_eq_some_iff.mp h
    obtain ⟨rfl, rfl⟩ := Prod.mk.inj he
    obtain ⟨rfl, hread⟩ := ih hp
    exact ⟨rfl, fun text => by rw [List.cons_append, List.cons_append, takeBlock?.eq_def]; simp [hread]⟩
  | case4 c r q hc ih =>
    obtain ⟨⟨inner', _⟩, hp, he⟩ := Option.map_eq_some_iff.mp h
    obtain ⟨rfl, rfl⟩ := Prod.mk.inj he
    obtain ⟨rfl, hread⟩ := ih hp
    exact ⟨rfl, fun text => by rw [List.cons_append, takeBlock?.eq_def]; simp [hc, hread]⟩
  | case7 c r hc hlf quote =>
    rename_i ih
    obtain ⟨⟨inner', _⟩, hp, he⟩ := Option.map_eq_some_iff.mp h
    obtain ⟨rfl, rfl⟩ := Prod.mk.inj he
    obtain ⟨rfl, hread⟩ := ih hp
    refine ⟨rfl, fun text => ?_⟩
    rw [List.cons_append, takeBlock?.eq_def]
    simp only [if_neg hc, if_neg hlf]
    exact congrArg (Option.map _) (hread text)

theorem exists_takeAttributes? {attributes : Attributes} (h : takeAttributes? s = some (attributes, rest)) :
    ∃ written, s = written ++ rest ∧ (∀ c ∈ written.head?, c = '{') ∧
      ∀ text, Follows rest text → takeAttributes? (written ++ text) = some (attributes, text) := by
  rw [takeAttributes?.eq_def] at h
  split at h
  · rename_i s
    obtain ⟨⟨inner, _⟩, hp, he⟩ := Option.map_eq_some_iff.mp h
    obtain ⟨rfl, rfl⟩ := Prod.mk.inj he
    obtain ⟨rfl, hread⟩ := exists_takeBlock? hp
    refine ⟨'{' :: inner ++ ['}'], by simp, by simp, fun text _ => ?_⟩
    rw [List.cons_append, List.cons_append, List.append_assoc, List.singleton_append, takeAttributes?, hread]
    rfl
  · rename_i hs
    obtain ⟨rfl, rfl⟩ := Prod.mk.inj (Option.some.inj h)
    refine ⟨[], rfl, by simp, fun text ht => ?_⟩
    have hne : text.head? ≠ some '{' := ht.head?_ne (fun he => by
      obtain ⟨t, rfl⟩ := List.head?_eq_some_iff.mp he
      exact hs t rfl) (by decide)
    rw [List.nil_append, takeAttributes?]
    rintro t rfl
    exact hne rfl

/-- A head is read from its own characters, whatever may follow them. -/
theorem exists_parse? (h : parse? s = some (head, rest)) : ∃ written, s = written ++ rest ∧
    (∃ c ∈ written.head?, Text.isLetter c = true) ∧ ∀ text, Follows rest text → parse? (written ++ text) = some (head, text) := by
  cases s with
  | nil => cases h
  | cons c r =>
    rw [parse?] at h
    split_ifs at h with hc
    simp only [Option.bind_eq_bind, Option.bind_eq_some_iff, Prod.exists, Option.pure_def, Option.some.injEq, Prod.mk.injEq] at h
    obtain ⟨label, behind, hlabel, attributes, rest', hattributes, rfl, rfl⟩ := h
    obtain ⟨written, hbehind, hopen, hread⟩ := exists_takeLabel? hlabel
    obtain ⟨block, rfl, hbrace, hblock⟩ := exists_takeAttributes? hattributes
    have hr : r = r.takeWhile isNameChar ++ (written ++ (block ++ rest')) := by rw [← hbehind, List.takeWhile_append_dropWhile]
    refine ⟨c :: (r.takeWhile isNameChar ++ (written ++ block)), ?_, ⟨c, rfl, hc⟩, fun text ht => ?_⟩
    · nth_rewrite 1 [hr]
      simp
    · have hfollows : Follows (block ++ rest') (block ++ text) := by
        cases block with
        | nil => exact ht
        | cons => exact .inl rfl
      -- The name ends where it did, in front of the label, of the block or of what follows.
      have hname : ∀ d ∈ (written ++ (block ++ text)).head?, isNameChar d = false := by
        have hstop : ∀ d ∈ (written ++ (block ++ rest')).head?, isNameChar d = false := by
          rw [← hbehind]
          intro d hd
          have hnot := List.head?_dropWhile_not isNameChar r
          rw [Option.mem_def.mp hd] at hnot
          simpa using hnot
        cases written with
        | cons => exact hstop
        | nil =>
          intro d hd
          rcases hfollows with he | hcolon
          · exact hstop d (he ▸ hd)
          · rw [hcolon d hd]
            decide
      have htext : c :: (r.takeWhile isNameChar ++ (written ++ block)) ++ text =
          c :: (r.takeWhile isNameChar ++ (written ++ (block ++ text))) := by simp
      have hall : ∀ d ∈ r.takeWhile isNameChar, isNameChar d = true := fun d hd => List.mem_takeWhile_imp hd
      rw [htext, parse?, if_pos hc, Text.dropWhile_append_of_head hall hname, Text.takeWhile_append_of_head hall hname,
        hread _ hfollows]
      simp [hblock text ht]

end Head

/-! ## Directives and what follows them -/

namespace Segment

variable {kind : NodeKind} {head : Head} {text written rest : List Char}

theorem kindOf?_eq_some {colons : Nat} : kindOf? colons written = some kind ↔
    colons = 1 ∧ kind = .textDirective ∧ (written.getLast? = some '}' ∨ written.getLast? = some ']') ∨
      colons = 2 ∧ kind = .leafDirective ∧ written.getLast? = some '}' := by
  unfold kindOf?
  split
  · simp [and_comm, eq_comm]
  · simp [and_comm, eq_comm]
  · simp_all

/-- A directive is read from its own characters, whatever may follow them. -/
theorem exists_directive? (h : directive? text = some (kind, head, rest)) : ∃ colons written,
    text = List.replicate colons ':' ++ written ++ rest ∧ kindOf? colons written = some kind ∧ Head.parse? written = some (head, []) ∧
      ∀ behind, Head.Follows rest behind → directive? (List.replicate colons ':' ++ written ++ behind) = some (kind, head, behind) := by
  simp only [directive?, Option.bind_eq_bind, Option.bind_eq_some_iff, Prod.exists, Option.pure_def, Option.some.injEq,
    Prod.mk.injEq] at h
  obtain ⟨head', rest', hhead, kind', hkind, rfl, rfl, rfl⟩ := h
  obtain ⟨written, hwritten, ⟨c, hc, hletter⟩, hread⟩ := Head.exists_parse? hhead
  have hcolons : text.takeWhile (· == ':') = List.replicate (text.takeWhile (· == ':')).length ':' :=
    List.eq_replicate_of_mem fun d hd => by simpa using List.mem_takeWhile_imp hd
  have htake : ∀ behind : List Char, (written ++ behind).take ((written ++ behind).length - behind.length) = written := by
    simp
  rw [hwritten, htake] at hkind
  refine ⟨(text.takeWhile (· == ':')).length, written, ?_, hkind, ?_, fun behind hbehind => ?_⟩
  · rw [← hcolons, List.append_assoc, ← hwritten, List.takeWhile_append_dropWhile]
  · simpa using hread [] (.inr (by simp))
  · have hw : ∀ d ∈ List.replicate (text.takeWhile (· == ':')).length ':', (d == ':') = true := fun d hd => by
      simp [List.eq_of_mem_replicate hd]
    have hstop : ∀ d ∈ (written ++ behind).head?, (d == ':') = false := by
      intro d hd
      rw [List.head?_append, Option.mem_def.mp hc] at hd
      obtain rfl : c = d := by simpa using hd
      refine beq_eq_false_iff_ne.mpr ?_
      rintro rfl
      exact absurd hletter (by decide)
    simp only [directive?, List.append_assoc, Text.takeWhile_append_of_head hw hstop, Text.dropWhile_append_of_head hw hstop,
      List.length_replicate, hread behind hbehind, Option.bind_eq_bind, Option.bind_some, htake, hkind]
    rfl

theorem head?_of_directive? (h : directive? text = some (kind, head, rest)) : text.head? = some ':' := by
  obtain ⟨colons, written, rfl, hkind, -⟩ := exists_directive? h
  rcases kindOf?_eq_some.mp hkind with ⟨rfl, -⟩ | ⟨rfl, -⟩ <;> rfl

/-- The characters of a directive are one or two colons and a head. -/
def IsWritten (kind : NodeKind) (head : Head) (written : List Char) : Prop :=
  ∃ colons name, written = List.replicate colons ':' ++ name ∧ kindOf? colons name = some kind ∧ Head.parse? name = some (head, [])

theorem IsWritten.of_directive? (h : directive? (written ++ rest) = some (kind, head, rest)) : IsWritten kind head written := by
  obtain ⟨colons, name, htext, hkind, hparse, -⟩ := exists_directive? h
  exact ⟨colons, name, List.append_cancel_right htext, hkind, hparse⟩

theorem IsWritten.ne_nil (h : IsWritten kind head written) : written ≠ [] := by
  obtain ⟨colons, name, rfl, hkind, -⟩ := h
  rcases kindOf?_eq_some.mp hkind with ⟨rfl, -⟩ | ⟨rfl, -⟩ <;> simp [List.replicate]

/-- A directive may follow another one. -/
theorem IsWritten.allowsAfter (h : IsWritten kind head written) : allowsAfter written.getLast? = true := by
  obtain ⟨colons, name, rfl, hkind, -⟩ := h
  rw [List.getLast?_append]
  rcases kindOf?_eq_some.mp hkind with ⟨-, -, hlast | hlast⟩ | ⟨-, -, hlast⟩ <;> rw [hlast, Option.some_or] <;> decide

theorem IsWritten.isDirective (h : IsWritten kind head written) : kind.isDirective = true := by
  obtain ⟨colons, name, rfl, hkind, -⟩ := h
  rcases kindOf?_eq_some.mp hkind with ⟨-, rfl, -⟩ | ⟨-, rfl, -⟩ <;> rfl

end Segment

end MarkdownTemplates
