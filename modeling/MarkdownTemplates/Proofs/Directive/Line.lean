import MarkdownTemplates.Directive.Line
import MarkdownTemplates.Proofs.Directive.Head

/-!
# Directive lines are read as they are written

Colons and a head make a leaf or open a container, and colons alone close one.
-/

namespace MarkdownTemplates

/-- The line that stands for a directive with so many colons. -/
def Head.line (colons : Nat) (h : Head) : List Char := List.replicate colons ':' ++ h.source

namespace LineKind

variable {h : Head} {line : List Char} {size : Nat}

/-! ## Ends of lines -/

@[simp] theorem body_lineFeed (line : List Char) : body (line ++ ['\n']) = body line :=
  Text.dropEndWhile_append_of_pos (by simp [isEol])

@[simp] theorem body_body (line : List Char) : body (body line) = body line := Text.dropEndWhile_dropEndWhile

@[simp] theorem ofLine_lineFeed (line : List Char) : ofLine (line ++ ['\n']) = ofLine line := by
  rw [ofLine, ofLine, body_lineFeed]

@[simp] theorem ofLine_body (line : List Char) : ofLine (body line) = ofLine line := by
  rw [ofLine, ofLine, body_body]

theorem ofLine_blank : ofLine ['\n'] = .markdown := by decide

theorem notMem_body {s : List Char} (h : line ∈ Text.lines s) : '\n' ∉ body line := by
  obtain ⟨w, hw, rfl | rfl⟩ := Text.notMem_of_mem_lines h
  · exact fun hm => hw (Text.mem_of_mem_dropEndWhile hm)
  · rw [body_lineFeed]
    exact fun hm => hw (Text.mem_of_mem_dropEndWhile hm)

/-! ## Lines of colons -/

theorem isBlank_of_isLetter {c : Char} (h : Text.isLetter c = true) : Text.isBlank c = false := by
  have hc : (97 ≤ c.toNat ∧ c.toNat ≤ 122) ∨ (65 ≤ c.toNat ∧ c.toNat ≤ 90) := by
    simpa [Text.isLetter, Char.le_def, UInt32.le_iff_toNat_le] using h
  simp only [Text.isBlank, Bool.or_eq_false_iff, Bool.and_eq_false_iff, decide_eq_false_iff_not, beq_eq_false_iff_ne]
  omega

theorem ofShown_colons {rest : List Char} (hr : ∀ c ∈ rest.head?, c ≠ ':') (hsize : 2 ≤ size) :
    ofShown (List.replicate size ':' ++ rest) =
      if Text.isBlankText rest then if 3 ≤ size then .closingFence size else .markdown
      else match Head.parse? rest with
        | none => .markdown
        | some (head, behind) =>
          if !Text.isBlankText behind then .markdown else if size = 2 then .leaf head else .container size head := by
  have hw : ∀ c ∈ List.replicate size ':', (c == ':') = true := by
    intro c hc
    simp [List.eq_of_mem_replicate hc]
  have hr : ∀ c ∈ rest.head?, (c == ':') = false := by
    intro c hc
    simp [hr c hc]
  obtain ⟨n, hn⟩ : ∃ n, size = n + 1 := ⟨size - 1, by omega⟩
  have hcons : List.replicate size ':' ++ rest = ':' :: (List.replicate n ':' ++ rest) := by
    rw [hn, List.replicate_succ, List.cons_append]
  have hticks : (List.replicate size ':' ++ rest).takeWhile (· == '`') = [] := by simp [hcons]
  have htildes : (List.replicate size ':' ++ rest).takeWhile (· == '~') = [] := by simp [hcons]
  have hmarkdown : ¬ size < 2 := by omega
  simp only [ofShown, hticks, htildes, Text.takeWhile_append_of_head hw hr, Text.dropWhile_append_of_head hw hr,
    List.length_replicate, List.length_nil]
  exact (if_neg (by decide)).trans ((if_neg (by decide)).trans (if_neg hmarkdown))

theorem body_colons {rest : List Char} (he : ∀ c ∈ rest.getLast?, isEol c = false) :
    body (List.replicate size ':' ++ rest) = List.replicate size ':' ++ rest := by
  refine Text.dropEndWhile_of_getLast? fun c hc => ?_
  rw [List.getLast?_append, Option.mem_def, Option.or_eq_some_iff] at hc
  rcases hc with hc | ⟨-, hc⟩
  · exact he c hc
  · obtain rfl := List.eq_of_mem_replicate (List.mem_of_getLast? hc)
    decide

theorem ofLine_colons {rest : List Char} (he : ∀ c ∈ rest.getLast?, isEol c = false) (hsize : 2 ≤ size) :
    ofLine (List.replicate size ':' ++ rest) = ofShown (List.replicate size ':' ++ rest) := by
  obtain ⟨n, rfl⟩ : ∃ n, size = n + 1 := ⟨size - 1, by omega⟩
  rw [ofLine, body_colons he]
  simp [List.replicate_succ]

theorem ofLine_closingFence (hsize : 3 ≤ size) : ofLine (List.replicate size ':') = .closingFence size := by
  have hline : List.replicate size ':' = List.replicate size ':' ++ [] := (List.append_nil _).symm
  rw [hline, ofLine_colons (by simp) (by omega), ofShown_colons (by simp) (by omega), if_pos (by rfl), if_pos hsize]

theorem isEol_source (hr : h.IsReadable) : ∀ c ∈ h.source.getLast?, isEol c = false := by
  have hname : ∀ c ∈ h.name.toList.getLast?, isEol c = false := by
    intro c hc
    have hn := hr.name c (List.mem_of_getLast? hc)
    simp only [isEol, Bool.or_eq_false_iff, beq_eq_false_iff_ne]
    constructor <;> rintro rfl <;> revert hn <;> decide
  have hlabel : ∀ c ∈ (Head.labelSource h.label).getLast?, isEol c = false := by
    intro c hc
    cases hl : h.label with
    | none => simp [hl, Head.labelSource] at hc
    | some l =>
      obtain rfl : ']' = c := by simpa [hl, Head.labelSource, List.getLast?_cons] using hc
      decide
  have hattributes : ∀ c ∈ h.attributes.source.getLast?, isEol c = false := by
    intro c hc
    rw [Attributes.source] at hc
    split_ifs at hc
    · cases hc
    · obtain rfl : '}' = c := by simpa [List.getLast?_cons] using hc
      decide
  intro c hc
  rw [Head.source_eq, List.getLast?_append, List.getLast?_append, Option.mem_def, Option.or_eq_some_iff, Option.or_eq_some_iff] at hc
  rcases hc with (hc | ⟨-, hc⟩) | ⟨-, hc⟩
  · exact hattributes c hc
  · exact hlabel c hc
  · exact hname c hc

theorem body_line (hr : h.IsReadable) (size : Nat) : body (h.line size) = h.line size := body_colons (isEol_source hr)

theorem ofLine_line (hr : h.IsReadable) (hsize : 2 ≤ size) :
    ofLine (h.line size) = if size = 2 then .leaf h else .container size h := by
  obtain ⟨c, r, hn⟩ : ∃ c r, h.name.toList = c :: r := List.exists_cons_of_ne_nil hr.name_ne_nil
  have hc : Text.isLetter c = true := hr.first c (by rw [hn]; rfl)
  have hsource : h.source = c :: (r ++ (Head.labelSource h.label ++ h.attributes.source)) := by
    rw [Head.source_eq, hn, List.cons_append]
  have hhead : ∀ d ∈ h.source.head?, d ≠ ':' := by
    rw [hsource]
    rintro d ⟨⟩ rfl
    exact absurd hc (by decide)
  have hblank : Text.isBlankText h.source = false := by
    rw [hsource]
    simp [Text.isBlankText, isBlank_of_isLetter hc]
  rw [Head.line, ofLine_colons (isEol_source hr) hsize, ofShown_colons hhead hsize, hblank, hr.parse?_source]
  simp [Text.isBlankText]

/-! ## What a line was read as can be written -/

theorem mem_of_mem_shown {c : Char} (h : c ∈ ((body line).dropWhile (· == ' ')).dropWhile (· == ':')) : c ∈ body line :=
  (List.dropWhile_sublist _).subset ((List.dropWhile_sublist _).subset h)

theorem parse?_of_ofLine (hk : ofLine line = .leaf h ∨ ofLine line = .container size h) :
    ∃ behind, Head.parse? (((body line).dropWhile (· == ' ')).dropWhile (· == ':')) = some (h, behind) := by
  rcases hk with hk | hk
  all_goals
    simp only [ofLine, ofShown] at hk
    repeat' split at hk
    all_goals cases hk
    exact ⟨_, ‹_›⟩

theorem ofLine_eq_directive (hk : ofLine line = .leaf h ∨ ofLine line = .container size h) :
    h.IsReadable ∧ ∀ l ∈ h.label, ∀ c ∈ l.toList, c ∈ body line := by
  obtain ⟨behind, hp⟩ := parse?_of_ofLine hk
  obtain ⟨hr, hl⟩ := Head.isReadable_of_parse? hp
  exact ⟨hr, fun l hm c hc => mem_of_mem_shown (hl l hm c hc)⟩

end LineKind

end MarkdownTemplates
