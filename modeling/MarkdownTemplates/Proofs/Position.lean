import Mathlib
import MarkdownTemplates.Position
import MarkdownTemplates.Text.Split

/-!
# Where a piece of a text stands

A text that is put together from pieces has each piece between the offsets that the bytes in front of it give. The place behind a
text has one line more for every line feed, and the first column right behind one.
-/

namespace MarkdownTemplates

namespace Text

variable {s t : List Char} {start stop : Nat}

/-- How many bytes a text takes. -/
def byteSize (s : List Char) : Nat := (s.map Char.utf8Size).sum

@[simp] theorem byteSize_nil : byteSize [] = 0 := rfl

@[simp] theorem byteSize_cons (c : Char) (s : List Char) : byteSize (c :: s) = c.utf8Size + byteSize s := by
  simp [byteSize]

@[simp] theorem byteSize_append (s t : List Char) : byteSize (s ++ t) = byteSize s + byteSize t := by
  simp [byteSize]

theorem byteSize_toList (s : String) : byteSize s.toList = s.utf8ByteSize := by
  have hlist : ∀ l : List Char, byteSize l = (String.ofList l).utf8ByteSize := by
    intro l
    induction l with
    | nil => rfl
    | cons c l ih => simp [ih]
  rw [hlist, String.ofList_toList]

theorem byteSize_pos (h : s ≠ []) : 0 < byteSize s := by
  obtain ⟨c, t, rfl⟩ := List.exists_cons_of_ne_nil h
  rw [byteSize_cons]
  exact Nat.add_pos_left c.utf8Size_pos _

theorem dropBytes?_append (s t : List Char) : dropBytes? (byteSize s) (s ++ t) = some t := by
  induction s with
  | nil => rw [byteSize_nil, List.nil_append, dropBytes?]
  | cons c s ih =>
    obtain ⟨n, hn⟩ : ∃ n, c.utf8Size + byteSize s = n + 1 := Nat.exists_eq_succ_of_ne_zero (by have := c.utf8Size_pos; omega)
    rw [byteSize_cons, List.cons_append, hn, dropBytes?, if_pos (by omega), ← hn, Nat.add_sub_cancel_left, ih]

theorem takeBytes?_append (s t : List Char) : takeBytes? (byteSize s) (s ++ t) = some s := by
  induction s with
  | nil => rw [byteSize_nil, takeBytes?]
  | cons c s ih =>
    obtain ⟨n, hn⟩ : ∃ n, c.utf8Size + byteSize s = n + 1 := Nat.exists_eq_succ_of_ne_zero (by have := c.utf8Size_pos; omega)
    rw [byteSize_cons, List.cons_append, hn, takeBytes?, if_pos (by omega), ← hn, Nat.add_sub_cancel_left, ih]
    rfl

theorem eq_append_of_dropBytes? {n : Nat} (h : dropBytes? n s = some t) : ∃ front, s = front ++ t ∧ byteSize front = n := by
  fun_induction dropBytes? n s with
  | case1 s => exact ⟨[], Option.some.inj h, rfl⟩
  | case2 => cases h
  | case3 n c s hc ih =>
    obtain ⟨front, rfl, hsize⟩ := ih h
    exact ⟨c :: front, rfl, by rw [byteSize_cons, hsize]; omega⟩
  | case4 => cases h

theorem eq_append_of_takeBytes? {n : Nat} (h : takeBytes? n s = some t) : ∃ behind, s = t ++ behind ∧ byteSize t = n := by
  fun_induction takeBytes? n s generalizing t with
  | case1 s =>
    obtain rfl := Option.some.inj h
    exact ⟨s, rfl, rfl⟩
  | case2 => cases h
  | case3 n c s hc ih =>
    obtain ⟨t, ht, rfl⟩ := Option.map_eq_some_iff.mp h
    obtain ⟨behind, rfl, hsize⟩ := ih ht
    exact ⟨behind, rfl, by rw [byteSize_cons, hsize]; omega⟩
  | case4 => cases h

/-- The pieces of a text between two offsets are those that it can be cut into there. -/
theorem sliceBytes?_eq_some : sliceBytes? s start stop = some t ↔
    ∃ front behind, s = front ++ t ++ behind ∧ byteSize front = start ∧ byteSize (front ++ t) = stop := by
  rw [sliceBytes?]
  constructor
  · intro h
    split_ifs at h with hle
    obtain ⟨rest, hrest, ht⟩ := Option.bind_eq_some_iff.mp h
    obtain ⟨front, rfl, rfl⟩ := eq_append_of_dropBytes? hrest
    obtain ⟨behind, rfl, hsize⟩ := eq_append_of_takeBytes? ht
    exact ⟨front, behind, (List.append_assoc _ _ _).symm, rfl, by rw [byteSize_append, hsize]; omega⟩
  · rintro ⟨front, behind, rfl, rfl, rfl⟩
    rw [if_pos (by rw [byteSize_append]; omega), List.append_assoc, dropBytes?_append, Option.bind_some, byteSize_append,
      Nat.add_sub_cancel_left, takeBytes?_append]

/-- What stands between two offsets of a text stands in a longer one between the offsets that are moved by what is in front. -/
theorem sliceBytes?_append_append (h : sliceBytes? s start stop = some t) (front behind : List Char) :
    sliceBytes? (front ++ s ++ behind) (byteSize front + start) (byteSize front + stop) = some t := by
  obtain ⟨a, b, rfl, rfl, rfl⟩ := sliceBytes?_eq_some.mp h
  exact sliceBytes?_eq_some.mpr ⟨front ++ a, b ++ behind, by simp, by simp, by simp⟩

end Text

namespace Point

open Text (byteSize)

theorem advance_append (p : Point) (s t : List Char) : p.advance (s ++ t) = (p.advance s).advance t := List.foldl_append

@[simp] theorem offset_step (p : Point) (c : Char) : (p.step c).offset = p.offset + c.utf8Size := by
  rw [step]
  split_ifs <;> rfl

@[simp] theorem offset_advance (p : Point) (s : List Char) : (p.advance s).offset = p.offset + byteSize s := by
  induction s generalizing p with
  | nil => rfl
  | cons c s ih => rw [advance, List.foldl_cons, ← advance, ih, offset_step, Text.byteSize_cons, Nat.add_assoc]

theorem column_advance_lineFeed (p : Point) (s : List Char) : (p.advance (s ++ ['\n'])).column = 1 := by
  rw [advance_append]
  rfl

/-- Does the place count from one? -/
structure IsCounted (p : Point) : Prop where
  line : 1 ≤ p.line
  column : 1 ≤ p.column

theorem IsCounted.step {p : Point} (h : p.IsCounted) (c : Char) : (p.step c).IsCounted := by
  rw [Point.step]
  split_ifs
  · exact ⟨Nat.le_add_left _ _, le_rfl⟩
  · exact ⟨h.line, Nat.le_add_left _ _⟩

theorem IsCounted.shift_step {p : Point} (h : p.IsCounted) (base : Point) (c : Char) : (p.step c).shift base = (p.shift base).step c := by
  have hline := h.line
  have hcolumn := h.column
  by_cases hc : c = '\n'
  · simp only [Point.step, shift, if_pos hc, if_neg (show ¬ p.line + 1 = 1 by omega), Point.mk.injEq, true_and]
    omega
  · simp only [Point.step, shift, if_neg hc]
    split_ifs <;> simp only [Point.mk.injEq, true_and] <;> omega

theorem IsCounted.shift_advance {p : Point} (h : p.IsCounted) (base : Point) (s : List Char) :
    (p.advance s).shift base = (p.shift base).advance s := by
  induction s generalizing p with
  | nil => rfl
  | cons c s ih => rw [advance, List.foldl_cons, ← advance, ih (h.step c), h.shift_step, advance, advance, List.foldl_cons]

/-- The place behind a piece is counted on from where the piece starts. -/
theorem shift_advance (base : Point) (s : List Char) : (({} : Point).advance s).shift base = base.advance s := by
  rw [IsCounted.shift_advance ⟨le_rfl, le_rfl⟩, shift]
  simp

/-! ## Places that are moved several times -/

variable {p q base : Point}

theorem IsCounted.advance (h : p.IsCounted) (s : List Char) : (p.advance s).IsCounted := by
  induction s generalizing p with
  | nil => exact h
  | cons c s ih => exact ih (h.step c)

/-- The sums of lines and of columns are positive, so that what is taken away from them was there. -/
theorem IsCounted.line_shift (h : p.IsCounted) (base : Point) : (p.shift base).line + 1 = base.line + p.line := by
  have hline := h.line
  simp only [Point.shift]
  omega

theorem IsCounted.column_shift (h : p.IsCounted) (base : Point) (hfirst : p.line = 1) :
    (p.shift base).column + 1 = base.column + p.column := by
  have hcolumn := h.column
  simp only [Point.shift, if_pos hfirst]
  omega

theorem column_shift_of_ne (base : Point) (hline : p.line ≠ 1) : (p.shift base).column = p.column := if_neg hline

theorem IsCounted.shift (h : p.IsCounted) (hbase : base.IsCounted) : (p.shift base).IsCounted := by
  have hline := h.line_shift base
  refine ⟨by have := h.line; have := hbase.line; omega, ?_⟩
  by_cases hfirst : p.line = 1
  · have hcolumn := h.column_shift base hfirst
    have := h.column
    have := hbase.column
    omega
  · rw [column_shift_of_ne base hfirst]
    exact h.column

/-- A place is on the first line behind two bases only when it is on the first line of its piece, and the piece on that of its own. -/
theorem IsCounted.shift_shift (hp : p.IsCounted) (hq : q.IsCounted) (base : Point) :
    (p.shift q).shift base = p.shift (q.shift base) := by
  have hpl := hp.line
  have hpc := hp.column
  have hql := hq.line
  have hqc := hq.column
  by_cases hpfirst : p.line = 1
  · by_cases hqfirst : q.line = 1 <;> simp [Point.shift, hpfirst, hqfirst] <;> omega
  · have hfirst : ¬ q.line + p.line - 1 = 1 := by omega
    simp [Point.shift, hpfirst, hfirst]
    omega

/-- Do places move along texts, and from pieces of text into the text around them, so that it does not matter in how many steps? -/
structure MovesAlong (p q base : Point) (front s t : String) : Prop where
  advance_append : base.advance (s ++ t).toList = (base.advance s.toList).advance t.toList
  advance_eq_shift : base.advance t.toList = (({} : Point).advance t.toList).shift base
  shift_shift : (p.shift q).shift base = p.shift (q.shift base)
  /-- Of each sum one is taken away, and the sum has it. -/
  line_shift : (p.shift base).line + 1 = base.line + p.line
  column_shift : p.line = 1 → (p.shift base).column + 1 = base.column + p.column
  offset_shift : (p.shift base).offset = base.offset + p.offset
  offset_advance : (base.advance s.toList).offset = base.offset + s.utf8ByteSize
  /-- Places that are moved still count from one. -/
  isCounted : (p.shift base).IsCounted ∧ (base.advance s.toList).IsCounted
  /-- Where a piece stands in a chunk, moved to where the chunk starts, is where it stands in the whole. -/
  span_shift : Span.shift ⟨({} : Point).advance s.toList, ({} : Point).advance (s ++ t).toList⟩ (({} : Point).advance front.toList) =
    ⟨({} : Point).advance (front ++ s).toList, ({} : Point).advance (front ++ (s ++ t)).toList⟩

/-- Places in a piece of a text, moved to where the piece starts, are those in the whole text. -/
theorem IsCounted.movesAlong (hp : p.IsCounted) (hq : q.IsCounted) (hbase : base.IsCounted) (front s t : String) :
    MovesAlong p q base front s t where
  advance_append := by rw [String.toList_append, Point.advance_append]
  advance_eq_shift := (Point.shift_advance base t.toList).symm
  shift_shift := hp.shift_shift hq base
  line_shift := hp.line_shift base
  column_shift := hp.column_shift base
  offset_shift := rfl
  offset_advance := by rw [offset_advance, Text.byteSize_toList]
  isCounted := ⟨hp.shift hbase, hbase.advance s.toList⟩
  span_shift := by
    rw [Span.shift, Point.shift_advance, Point.shift_advance, @String.toList_append front s, @String.toList_append front (s ++ t),
      Point.advance_append, Point.advance_append]

theorem movesAlong_title : (⟨1, 4, 3⟩ : Point).IsCounted ∧ (⟨2, 1, 8⟩ : Point).IsCounted ∧ (⟨5, 3, 40⟩ : Point).IsCounted ∧
    MovesAlong ⟨1, 4, 3⟩ ⟨2, 1, 8⟩ ⟨5, 3, 40⟩ "# Über\n" "a\n" "é" :=
  have hp : (⟨1, 4, 3⟩ : Point).IsCounted := ⟨by decide, by decide⟩
  have hq : (⟨2, 1, 8⟩ : Point).IsCounted := ⟨by decide, by decide⟩
  have hbase : (⟨5, 3, 40⟩ : Point).IsCounted := ⟨by decide, by decide⟩
  ⟨hp, hq, hbase, hp.movesAlong hq hbase "# Über\n" "a\n" "é"⟩

end Point

end MarkdownTemplates
