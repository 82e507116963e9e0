import MarkdownTemplates.Proofs.Path.Normal

/-!
# Paths that climb

A path leads up some directories from where it starts, and then down along names. Its normal form keeps the names. Of the steps up
it keeps one or none, since two dots take away the two dots in front of them. So a path and its normal form lead to the same place
from a directory exactly when the path climbs one directory at most, or the directory is so high up that it makes no difference.
-/

namespace MarkdownTemplates

namespace Path

open FileTree (IsName)

/-- Some directories up and then down along names, of which the innermost one comes first. -/
structure Climb where
  up : ℕ
  names : Place

namespace Climb

variable {c k : Climb} {part : PathPart} {ps bottom : List PathPart}

def start : Climb := ⟨0, []⟩

def follow (c : Climb) : PathPart → Climb
  | .root => c
  | .current => c
  | .parent =>
    match c.names with
    | [] => { c with up := c.up + 1 }
    | _ :: names => { c with names }
  | .name s => { c with names := s :: c.names }

/-- First climb as `c` and then as `k`. -/
def after (c k : Climb) : Climb := ⟨c.up + (k.up - c.names.length), k.names ++ c.names.drop k.up⟩

theorem after_start (c : Climb) : c.after start = c := by simp [after, start]

theorem follow_after (c k : Climb) (part : PathPart) : (c.after k).follow part = c.after (k.follow part) := by
  obtain ⟨up, names⟩ := k
  cases part with
  | root => rfl
  | current => rfl
  | name s => rfl
  | parent =>
    cases names with
    | cons s names => rfl
    | nil =>
      -- The names of `c` are used up one by one, and then the climb goes on above them.
      rcases hdrop : c.names.drop up with _ | ⟨s, rest⟩
      · have hle : c.names.length ≤ up := List.drop_eq_nil_iff.mp hdrop
        have hnext : c.names.drop (up + 1) = [] := List.drop_eq_nil_iff.mpr (by omega)
        have hup : c.up + (up - c.names.length) + 1 = c.up + (up + 1 - c.names.length) := by omega
        simp [after, follow, hdrop, hnext, hup]
      · have hlt : up < c.names.length := by
          have hlength := congrArg List.length hdrop
          rw [List.length_drop, List.length_cons] at hlength
          omega
        have hnext : c.names.drop (up + 1) = rest := by rw [← List.tail_drop, hdrop, List.tail_cons]
        have hup : c.up + (up - c.names.length) = c.up + (up + 1 - c.names.length) := by omega
        simp [after, follow, hdrop, hnext, hup]

theorem foldl_follow_after (c k : Climb) (ps : List PathPart) :
    ps.foldl follow (c.after k) = c.after (ps.foldl follow k) := by
  induction ps generalizing k with
  | nil => rfl
  | cons part ps ih => rw [List.foldl_cons, List.foldl_cons, follow_after, ih]

theorem names_follow (hr : part ≠ .root) : (c.follow part).names = goAlong c.names part := by
  cases part with
  | root => exact absurd rfl hr
  | current => rfl
  | name s => rfl
  | parent => cases hc : c.names <;> simp [follow, goAlong, hc]

theorem names_foldl_follow (hr : .root ∉ ps) : (ps.foldl follow c).names = ps.foldl goAlong c.names := by
  induction ps generalizing c with
  | nil => rfl
  | cons part ps ih =>
    obtain ⟨hpart, hps⟩ : .root ≠ part ∧ .root ∉ ps := by simpa [not_or] using hr
    rw [List.foldl_cons, List.foldl_cons, ih hps, names_follow hpart.symm]

/-- The two dots that a normal form keeps of so many steps up. -/
def dots (n : ℕ) : List PathPart := if n % 2 = 0 then [] else [.parent]

/-- The parts of a climb on a stack. -/
def stack (bottom : List PathPart) (c : Climb) : List PathPart := c.names.map PathPart.name ++ (dots c.up ++ bottom)

/-- Where a path may start. -/
def bottoms : List (List PathPart) := [[], [.root]]

theorem push_stack (hb : bottom ∈ bottoms) (hr : part ≠ .root) : push (stack bottom c) part = stack bottom (c.follow part) := by
  obtain ⟨up, names⟩ := c
  cases part with
  | root => exact absurd rfl hr
  | current => rfl
  | name s => rfl
  | parent =>
    cases names with
    | cons s names => rfl
    | nil =>
      simp only [bottoms, List.mem_cons, List.not_mem_nil, or_false] at hb
      -- The dots are put there at every other step, and taken away again at the next one.
      rcases Nat.mod_two_eq_zero_or_one up with hup | hup
      · have hnext : (up + 1) % 2 = 1 := by omega
        rcases hb with rfl | rfl <;> simp [stack, follow, dots, hup, hnext, push]
      · have hnext : (up + 1) % 2 = 0 := by omega
        rcases hb with rfl | rfl <;> simp [stack, follow, dots, hup, hnext, push]

theorem foldl_push_stack (hb : bottom ∈ bottoms) (hr : .root ∉ ps) :
    ps.foldl push (stack bottom c) = stack bottom (ps.foldl follow c) := by
  induction ps generalizing c with
  | nil => rfl
  | cons part ps ih =>
    obtain ⟨hpart, hps⟩ : .root ≠ part ∧ .root ∉ ps := by simpa [not_or] using hr
    rw [List.foldl_cons, List.foldl_cons, push_stack hb hpart.symm, ih hps]

end Climb

open Climb (follow start dots stack bottoms)

variable {p q d : Path} {part : PathPart}

/-- Where the text of a path leads. -/
def climb (p : Path) : Climb := p.parts.foldl follow start

def bottom (p : Path) : List PathPart := if p.isAbsolute then [.root] else []

theorem bottom_mem_bottoms (p : Path) : p.bottom ∈ bottoms := by
  rw [bottom]
  split_ifs <;> simp [bottoms]

theorem root_notMem_innerParts (p : Path) : .root ∉ p.innerParts := fun h => (of_mem_segments h).1 rfl

theorem foldl_follow_parts (p : Path) (c : Climb) : p.parts.foldl follow c = p.innerParts.foldl follow c := by
  rw [parts]
  split_ifs <;> rfl

theorem isAbsolute_iff_root_mem : p.isAbsolute = true ↔ .root ∈ p.parts := by
  constructor
  · intro h
    rw [parts_of_isAbsolute h]
    exact List.mem_cons_self
  · intro h
    by_contra hp
    rw [parts, if_neg hp] at h
    split_ifs at h
    · exact root_notMem_innerParts p ((List.mem_cons.mp h).resolve_left (by decide))
    · exact root_notMem_innerParts p h

/-! ## The normal form of a climb -/

theorem names_climb (p : Path) : p.climb.names = p.innerParts.foldl goAlong [] := by
  rw [climb, foldl_follow_parts, Climb.names_foldl_follow p.root_notMem_innerParts]
  rfl

theorem isName_of_mem_climb (p : Path) : ∀ s ∈ p.climb.names, IsName s := by
  rw [names_climb]
  exact isName_of_mem_foldl (fun part hm => (of_mem_segments hm).2) (by simp)

theorem foldl_push_parts (p : Path) : p.parts.foldl push [] = stack p.bottom p.climb := by
  have hinner : p.innerParts.foldl push (stack p.bottom start) = stack p.bottom p.climb := by
    rw [Climb.foldl_push_stack p.bottom_mem_bottoms p.root_notMem_innerParts, climb, foldl_follow_parts]
  rw [← hinner, bottom]
  cases h : p.isAbsolute with
  | true => rw [parts_of_isAbsolute h]; rfl
  | false => rw [parts, h]; split_ifs <;> rfl

theorem normalize_eq_ofNormal (p : Path) :
    p.normalize = ofNormal (p.bottom ++ dots p.climb.up) p.climb.names.reverse := by
  have hdots : (dots p.climb.up).reverse = dots p.climb.up := by
    rw [dots]
    split_ifs <;> rfl
  have hbottom : p.bottom.reverse = p.bottom := by
    rw [bottom]
    split_ifs <;> rfl
  have hparts : (p.parts.foldl push []).reverse = p.bottom ++ dots p.climb.up ++ p.climb.names.reverse.map PathPart.name := by
    rw [foldl_push_parts, stack, List.reverse_append, List.reverse_append, hdots, hbottom, List.map_reverse]
  rw [normalize, ofNormal, hparts]

theorem bottom_append_dots_mem_bases (p : Path) (n : ℕ) : p.bottom ++ dots n ∈ bases := by
  rw [bottom, dots]
  split_ifs <;> simp [bases]

/-- A normal form is made of the parts of the climb, and is a single dot when there are none. -/
theorem parts_normalize_cases (p : Path) :
    (p.normalize = ⟨"."⟩ ∧ p.bottom ++ dots p.climb.up ++ p.climb.names.reverse.map PathPart.name = []) ∨
      p.normalize.parts = p.bottom ++ dots p.climb.up ++ p.climb.names.reverse.map PathPart.name := by
  rw [normalize_eq_ofNormal]
  by_cases hempty : p.bottom ++ dots p.climb.up ++ p.climb.names.reverse.map PathPart.name = []
  · refine .inl ⟨?_, hempty⟩
    rw [ofNormal, hempty]
    rfl
  · have hnames : ∀ s ∈ p.climb.names.reverse, IsName s := fun s hs => p.isName_of_mem_climb s (List.mem_reverse.mp hs)
    exact .inr (parts_ofNormal (p.bottom_append_dots_mem_bases _) hnames hempty)

theorem isAbsolute_normalize (p : Path) : p.normalize.isAbsolute = p.isAbsolute := by
  rw [Bool.eq_iff_iff]
  rcases p.parts_normalize_cases with ⟨hdot, hempty⟩ | hparts
  · have hp : p.bottom = [] := (List.append_eq_nil_iff.mp (List.append_eq_nil_iff.mp hempty).1).1
    rw [hdot]
    by_cases h : p.isAbsolute = true
    · simp [bottom, h] at hp
    · simp only [h]
      decide
  · have hdots : PathPart.root ∉ dots p.climb.up := by
      rw [dots]
      split_ifs <;> simp
    rw [isAbsolute_iff_root_mem, hparts, bottom]
    split_ifs <;> simp_all

theorem foldl_follow_names (names : List String) (c : Climb) :
    (names.map PathPart.name).foldl follow c = ⟨c.up, names.reverse ++ c.names⟩ := by
  induction names generalizing c with
  | nil => rfl
  | cons s names ih =>
    rw [List.map_cons, List.foldl_cons, ih, List.reverse_cons, List.append_assoc]
    rfl

/-- A normal form keeps the names of a climb, and of the steps up whether their number is odd. -/
theorem climb_normalize (p : Path) : p.normalize.climb = ⟨p.climb.up % 2, p.climb.names⟩ := by
  have hbottom : p.bottom.foldl follow start = start := by
    rw [bottom]
    split_ifs <;> rfl
  have hdots : (dots p.climb.up).foldl follow start = ⟨p.climb.up % 2, []⟩ := by
    rcases Nat.mod_two_eq_zero_or_one p.climb.up with hup | hup <;> rw [dots, hup] <;> rfl
  have hnames := foldl_follow_names p.climb.names.reverse ⟨p.climb.up % 2, []⟩
  rw [List.reverse_reverse, List.append_nil] at hnames
  have hclimb : (p.bottom ++ dots p.climb.up ++ p.climb.names.reverse.map PathPart.name).foldl follow start =
      ⟨p.climb.up % 2, p.climb.names⟩ := by
    rw [List.foldl_append, List.foldl_append, hbottom, hdots, hnames]
  rcases p.parts_normalize_cases with ⟨hdot, hempty⟩ | hparts
  · rw [hdot, ← hclimb, hempty]
    rfl
  · rw [climb, hparts, hclimb]

/-- Normal forms are the same when the climbs have the same names, and both an odd or both an even number of steps up. -/
theorem normalize_eq_iff (h : p.isAbsolute = q.isAbsolute) : p.normalize = q.normalize ↔
    p.climb.up % 2 = q.climb.up % 2 ∧ p.climb.names = q.climb.names := by
  constructor
  · intro he
    have hclimb := (climb_normalize p).symm.trans ((congrArg climb he).trans (climb_normalize q))
    exact Climb.mk.inj hclimb
  · rintro ⟨hup, hnames⟩
    rw [normalize_eq_ofNormal, normalize_eq_ofNormal, bottom, bottom, h, dots, dots, hup, hnames]

/-! ## Paths in a directory -/

/-- A path in a directory climbs from where the directory is. -/
theorem climb_join (d : Path) (hq : q.isAbsolute = false) : (d.join q).climb = d.climb.after q.climb := by
  rw [climb, foldl_follow_parts, innerParts_join d hq, List.foldl_append, ← foldl_follow_parts,
    ← foldl_follow_parts, ← climb, ← Climb.after_start d.climb, Climb.foldl_follow_after, ← climb, Climb.after_start]

/-- A directory may be put in its normal form before a path is followed from there. -/
theorem normalize_normalize_join (hd : d.isAbsolute = true) (q : Path) : (d.normalize.join q).normalize = (d.join q).normalize := by
  cases hq : q.isAbsolute with
  | true => rw [join_of_isAbsolute hq, join_of_isAbsolute hq]
  | false =>
    have hd' : d.normalize.isAbsolute = true := by rw [isAbsolute_normalize, hd]
    rw [normalize_eq_iff (by rw [isAbsolute_join hd', isAbsolute_join hd]), climb_join _ hq, climb_join _ hq, climb_normalize]
    refine ⟨?_, rfl⟩
    simp only [Climb.after]
    omega

/-- So many steps up and none or one of them lead to the same place and leave an odd or an even number in both cases, exactly when
there is one step at most, or the names do not reach further than the steps that are left. -/
theorem Climb.after_mod_two_iff (c : Climb) (n : ℕ) (names : Place) :
    ((c.after ⟨n % 2, names⟩).up % 2 = (c.after ⟨n, names⟩).up % 2 ∧ (c.after ⟨n % 2, names⟩).names = (c.after ⟨n, names⟩).names) ↔
      n ≤ 1 ∨ c.names.length ≤ n % 2 := by
  simp only [Climb.after, List.append_cancel_left_eq]
  constructor
  · rintro ⟨-, hdrop⟩
    have hlength := congrArg List.length hdrop
    rw [List.length_drop, List.length_drop] at hlength
    omega
  · rintro (hn | hn)
    · have hmod : n % 2 = n := Nat.mod_eq_of_lt (by omega)
      simp [hmod]
    · have hle : c.names.length ≤ n := hn.trans (Nat.mod_le n 2)
      exact ⟨by omega, by rw [List.drop_eq_nil_of_le hn, List.drop_eq_nil_of_le hle]⟩

/-- A path and its normal form lead from a directory to the same place exactly when the path is absolute, climbs one directory at
most, or climbs from so high up that it makes no difference. A normal form is its own normal form, has a single dot only when it is
one, and has no two dots behind a name. -/
theorem normalize_join_normalize_iff (hd : d.isAbsolute = true) (p : Path) :
    ((d.join p.normalize).normalize = (d.join p).normalize ↔
      p.isAbsolute = true ∨ p.climb.up ≤ 1 ∨ d.climb.names.length ≤ p.climb.up % 2) ∧
    p.normalize.normalize = p.normalize ∧
    (PathPart.current ∈ p.normalize.parts → p.normalize = ⟨"."⟩) ∧
    p.normalize.parts.Pairwise fun a b => (∃ s, a = .name s) → b ≠ .parent := by
  have hfree : ∀ part ∈ p.bottom ++ dots p.climb.up, part ≠ .current ∧ ¬ ∃ s, part = .name s := by
    rw [bottom, dots]
    split_ifs <;> simp
  refine ⟨?_, normalize_normalize p, fun hdot => ?_, ?_⟩
  · cases hp : p.isAbsolute with
    | true =>
      have hp' : p.normalize.isAbsolute = true := by rw [isAbsolute_normalize, hp]
      rw [join_of_isAbsolute hp, join_of_isAbsolute hp', normalize_normalize]
      simp
    | false =>
      have hp' : p.normalize.isAbsolute = false := by rw [isAbsolute_normalize, hp]
      rw [normalize_eq_iff (by rw [isAbsolute_join hd, isAbsolute_join hd]), climb_join d hp, climb_join d hp', climb_normalize,
        Climb.after_mod_two_iff]
      simp
  · rcases p.parts_normalize_cases with ⟨hp, -⟩ | hparts
    · exact hp
    · rw [hparts] at hdot
      rcases List.mem_append.mp hdot with hdot | hdot
      · exact absurd rfl (hfree _ hdot).1
      · simp at hdot
  · rcases p.parts_normalize_cases with ⟨hp, -⟩ | hparts
    · have hsingle : (⟨"."⟩ : Path).parts = [.current] := by decide
      rw [hp, hsingle]
      exact List.pairwise_singleton _ _
    · rw [hparts, List.pairwise_append]
      refine ⟨List.pairwise_of_forall_mem_list fun a ha _ _ hname => absurd hname (hfree a ha).2,
        List.pairwise_of_forall_mem_list fun _ _ b hb _ => ?_, fun a ha _ _ hname => absurd hname (hfree a ha).2⟩
      obtain ⟨s, -, rfl⟩ := List.mem_map.mp hb
      simp

theorem normalize_join_normalize_docs : (⟨"/docs/guide"⟩ : Path).isAbsolute = true ∧
    ((⟨"/docs/guide"⟩ : Path).join (normalize ⟨"x/../.././a.md"⟩)).normalize = (join ⟨"/docs/guide"⟩ ⟨"x/../.././a.md"⟩).normalize :=
  have habsolute : (⟨"/docs/guide"⟩ : Path).isAbsolute = true := by decide
  ⟨habsolute, (normalize_join_normalize_iff habsolute _).1.mpr (.inr (.inl (by decide)))⟩

/-- Two directories up are no directory up in the normal form. -/
theorem not_normalize_join_normalize :
    ¬ ∀ d p : Path, d.isAbsolute = true → (d.join p.normalize).normalize = (d.join p).normalize := by
  intro h
  exact absurd (h ⟨"/docs/a"⟩ ⟨"../.."⟩ (by decide)) (by decide)

end Path

end MarkdownTemplates
