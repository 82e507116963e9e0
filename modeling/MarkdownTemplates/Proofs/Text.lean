import Mathlib
import MarkdownTemplates.Text.Blank
import MarkdownTemplates.Text.Split

/-!
# Lines and pieces of a text

A text is cut into lines at its line feeds, so a line feed is a place where the lines of what is in front and the lines of what
is behind can be taken apart.
-/

namespace MarkdownTemplates.Text

variable {α : Type} {p : α → Bool} {a b w rest : List α}

theorem takeWhile_append_of_head (hw : ∀ c ∈ w, p c = true) (hr : ∀ c ∈ rest.head?, p c = false) :
    (w ++ rest).takeWhile p = w := by
  rw [List.takeWhile_append_of_pos hw]
  cases rest with
  | nil => simp
  | cons c rest => simp [hr c rfl]

theorem dropWhile_append_of_head (hw : ∀ c ∈ w, p c = true) (hr : ∀ c ∈ rest.head?, p c = false) :
    (w ++ rest).dropWhile p = rest := by
  rw [List.dropWhile_append_of_pos hw]
  cases rest with
  | nil => simp
  | cons c rest => simp [hr c rfl]

/-! ## Ends -/

theorem dropEndWhile_append_of_pos (hb : ∀ c ∈ b, p c = true) : dropEndWhile p (a ++ b) = dropEndWhile p a := by
  have hb : ∀ c ∈ b.reverse, p c = true := by simpa using hb
  rw [dropEndWhile, dropEndWhile, List.reverse_append, List.dropWhile_append_of_pos hb]

theorem dropEndWhile_of_getLast? (h : ∀ c ∈ a.getLast?, p c = false) : dropEndWhile p a = a := by
  have hd : a.reverse.dropWhile p = a.reverse := by
    have hr : ∀ c ∈ a.reverse.head?, p c = false := by simpa using h
    simpa using dropWhile_append_of_head (w := []) (by simp) hr
  rw [dropEndWhile, hd, List.reverse_reverse]

theorem dropEndWhile_getLast? : ∀ c ∈ (dropEndWhile p a).getLast?, p c = false := by
  intro c hc
  rw [dropEndWhile, List.getLast?_reverse] at hc
  have := List.head?_dropWhile_not p a.reverse
  rw [Option.mem_def.mp hc] at this
  simpa using this

theorem dropEndWhile_dropEndWhile : dropEndWhile p (dropEndWhile p a) = dropEndWhile p a :=
  dropEndWhile_of_getLast? dropEndWhile_getLast?

theorem mem_of_mem_dropEndWhile {c : α} (h : c ∈ dropEndWhile p a) : c ∈ a := by
  rw [dropEndWhile, List.mem_reverse] at h
  exact List.mem_reverse.mp ((List.dropWhile_sublist p).subset h)

/-! ## Lines -/

theorem consHead_append {c : Char} {ps qs : List (List Char)} (h : ps ≠ []) : consHead c (ps ++ qs) = consHead c ps ++ qs := by
  cases ps with
  | nil => exact absurd rfl h
  | cons => rfl

theorem lines_ne_nil {s : List Char} (h : s ≠ []) : lines s ≠ [] := by
  cases s with
  | nil => exact absurd rfl h
  | cons c s =>
    rw [lines]
    split_ifs
    · simp
    · cases lines s <;> simp [consHead]

theorem lines_append_lineFeed (s t : List Char) : lines (s ++ '\n' :: t) = lines (s ++ ['\n']) ++ lines t := by
  induction s with
  | nil => simp [lines]
  | cons c s ih =>
    rw [List.cons_append, List.cons_append, lines, lines, ih]
    split_ifs
    · rfl
    · exact consHead_append (lines_ne_nil (by simp))

theorem lines_of_notMem {s : List Char} (h : '\n' ∉ s) : lines (s ++ ['\n']) = [s ++ ['\n']] := by
  induction s with
  | nil => rfl
  | cons c s ih =>
    simp only [List.mem_cons, not_or] at h
    rw [List.cons_append, lines, if_neg (Ne.symm h.1), ih h.2]
    rfl

theorem notMem_of_mem_lines {s line : List Char} (h : line ∈ lines s) : ∃ w, '\n' ∉ w ∧ (line = w ∨ line = w ++ ['\n']) := by
  induction s generalizing line with
  | nil => cases h
  | cons c s ih =>
    rw [lines] at h
    split_ifs at h with hc
    · rcases List.mem_cons.mp h with rfl | h
      · exact ⟨[], by simp, .inr rfl⟩
      · exact ih h
    · cases hs : lines s with
      | nil =>
        rw [hs, consHead, List.mem_singleton] at h
        exact ⟨[c], by simpa using Ne.symm hc, .inl h⟩
      | cons p ps =>
        rw [hs, consHead] at h
        rcases List.mem_cons.mp h with rfl | h
        · obtain ⟨w, hw, hp⟩ := ih (hs ▸ List.mem_cons_self)
          exact ⟨c :: w, by simp [hw, Ne.symm hc], hp.imp (congrArg _) (congrArg _)⟩
        · exact ih (hs ▸ List.mem_cons_of_mem _ h)

/-- Every line but the last ends with its line feed. -/
theorem count_lineFeed_of_mem_dropLast {s line : List Char} (h : line ∈ (lines s).dropLast) : line.count '\n' = 1 := by
  induction s generalizing line with
  | nil => cases h
  | cons c s ih =>
    rw [lines] at h
    split_ifs at h with hc
    · rcases eq_or_ne (lines s) [] with he | hne
      · simp [he] at h
      · rw [List.dropLast_cons_of_ne_nil hne] at h
        rcases List.mem_cons.mp h with rfl | h
        · rfl
        · exact ih h
    · cases hs : lines s with
      | nil => simp [hs, consHead] at h
      | cons p ps =>
        rw [hs] at ih
        rw [hs, consHead] at h
        rcases eq_or_ne ps [] with rfl | hne
        · simp at h
        · rw [List.dropLast_cons_of_ne_nil hne] at h ih
          rcases List.mem_cons.mp h with rfl | h
          · rw [List.count_cons_of_ne (by simpa using hc)]
            exact ih List.mem_cons_self
          · exact ih (List.mem_cons_of_mem _ h)

theorem getLast?_of_mem_dropLast_lines {s line : List Char} (h : line ∈ (lines s).dropLast) : line.getLast? = some '\n' := by
  have hcount := count_lineFeed_of_mem_dropLast h
  obtain ⟨w, hw, rfl | rfl⟩ := notMem_of_mem_lines (List.dropLast_subset _ h)
  · rw [List.count_eq_zero.mpr hw] at hcount
    cases hcount
  · simp

theorem flatten_consHead (c : Char) (ps : List (List Char)) : (consHead c ps).flatten = c :: ps.flatten := by
  cases ps <;> rfl

theorem flatten_lines (s : List Char) : (lines s).flatten = s := by
  induction s with
  | nil => rfl
  | cons c s ih =>
    rw [lines]
    split_ifs with h
    · simp [h, ih]
    · rw [flatten_consHead, ih]

/-! ## The front of a text -/

theorem dropStart?_eq_some {start text rest : List Char} : dropStart? start text = some rest ↔ text = start ++ rest := by
  fun_induction dropStart? start text with
  | case1 => simp
  | case2 => simp
  | case3 => simpa
  | case4 _ _ _ _ hne => simp [Ne.symm hne]

/-! ## Joined pieces -/

theorem join_cons {sep p : List Char} {ps : List (List Char)} (h : ps ≠ []) : join sep (p :: ps) = p ++ sep ++ join sep ps := by
  cases ps with
  | nil => exact absurd rfl h
  | cons => rfl

theorem join_append {sep : List Char} {ps qs : List (List Char)} (hp : ps ≠ []) (hq : qs ≠ []) :
    join sep (ps ++ qs) = join sep ps ++ sep ++ join sep qs := by
  induction ps with
  | nil => exact absurd rfl hp
  | cons p ps ih =>
    rcases eq_or_ne ps [] with rfl | hne
    · exact join_cons hq
    · rw [List.cons_append, join_cons (by simp [hne]), ih hne, join_cons hne]
      simp

theorem mem_join {sep : List Char} {ps : List (List Char)} {c : Char} (h : c ∈ join sep ps) : c ∈ sep ∨ ∃ p ∈ ps, c ∈ p := by
  induction ps with
  | nil => cases h
  | cons p ps ih =>
    rcases eq_or_ne ps [] with rfl | hne
    · exact .inr ⟨p, List.mem_cons_self, h⟩
    · rw [join_cons hne, List.mem_append, List.mem_append] at h
      rcases h with (h | h) | h
      · exact .inr ⟨p, List.mem_cons_self, h⟩
      · exact .inl h
      · exact (ih h).imp_right fun ⟨q, hq, hc⟩ => ⟨q, List.mem_cons_of_mem _ hq, hc⟩

end MarkdownTemplates.Text
