import Mathlib
import MarkdownTemplates.FileTree
import MarkdownTemplates.Proofs.Dict

/-!
# Where paths lead

A path leads through directories and links only, so another tree with the same directories and links leads to the same places,
whatever its files hold.
-/

namespace MarkdownTemplates

namespace Entry

/-- Can a path go on behind the entry? -/
def IsWay : Entry → Prop
  | file _ _ => False
  | directory => True
  | link _ => True

end Entry

namespace Text

/-- No piece between two slashes has a slash. -/
theorem notMem_of_mem_splitOn {s piece : List Char} (h : piece ∈ splitOn (· == '/') s) : '/' ∉ piece := by
  induction s generalizing piece with
  | nil => simp_all [splitOn]
  | cons c s ih =>
    rw [splitOn] at h
    split at h
    · rcases List.mem_cons.mp h with rfl | h
      · simp
      · exact ih h
    · rename_i hc
      have hc' : '/' ≠ c := fun h => hc (by simp [← h])
      cases hs : splitOn (· == '/') s with
      | nil =>
        rw [hs, consHead, List.mem_singleton] at h
        simpa [h] using hc'
      | cons p ps =>
        rw [hs, consHead] at h
        rcases List.mem_cons.mp h with rfl | h
        · simp [hc', ih (hs ▸ List.mem_cons_self)]
        · exact ih (hs ▸ List.mem_cons_of_mem _ h)

theorem splitOn_ne_nil {p : Char → Bool} (s : List Char) : splitOn p s ≠ [] := by
  cases s with
  | nil => simp [splitOn]
  | cons c s =>
    rw [splitOn]
    split
    · simp
    · cases splitOn p s <;> simp [consHead]

theorem splitOn_of_notMem {s : List Char} (h : '/' ∉ s) : splitOn (· == '/') s = [s] := by
  induction s with
  | nil => rfl
  | cons c s ih =>
    rw [List.mem_cons, not_or] at h
    rw [splitOn, ih h.2, if_neg (by simpa using Ne.symm h.1), consHead]

/-- A last piece without a slash stands behind the pieces before it. -/
theorem splitOn_append (s : List Char) {piece : List Char} (h : '/' ∉ piece) :
    splitOn (· == '/') (s ++ '/' :: piece) = splitOn (· == '/') s ++ [piece] := by
  induction s with
  | nil => simp [splitOn, splitOn_of_notMem h]
  | cons c s ih =>
    rw [List.cons_append, splitOn, splitOn, ih]
    split
    · rfl
    · cases hs : splitOn (· == '/') s with
      | nil => exact absurd hs (splitOn_ne_nil s)
      | cons p ps => rfl

end Text

namespace Place

/-- Is no slash in any of the names? -/
def IsPlain (place : Place) : Prop := ∀ s ∈ place, '/' ∉ s.toList

theorem text_cons (s : String) (place : Place) : text (s :: place) = text place ++ "/" ++ s := by
  simp [text, String.join, String.append_assoc]

theorem text_ne_empty (s : String) (place : Place) : text (s :: place) ≠ "" := by
  rw [text_cons]
  intro h
  simpa using congrArg String.length h

/-- Places with the same text have the same last name. -/
theorem name_eq_of_text {p q : Place} {s t : String} (hs : '/' ∉ s.toList) (ht : '/' ∉ t.toList)
    (h : text (s :: p) = text (t :: q)) : s = t := by
  have hl : (text p).toList ++ '/' :: s.toList = (text q).toList ++ '/' :: t.toList := by
    simpa [text_cons] using congrArg String.toList h
  have hsplit :
      Text.splitOn (· == '/') (text p).toList ++ [s.toList] = Text.splitOn (· == '/') (text q).toList ++ [t.toList] := by
    rw [← Text.splitOn_append _ hs, ← Text.splitOn_append _ ht, hl]
  exact String.toList_inj.mp (List.singleton_inj.mp (List.append_inj' hsplit rfl).2)

/-- Texts tell apart the places whose names have no slash. -/
theorem text_injective {p q : Place} (hp : p.IsPlain) (hq : q.IsPlain) (h : text p = text q) : p = q := by
  induction p generalizing q with
  | nil =>
    cases q with
    | nil => rfl
    | cons t q => exact absurd h.symm (text_ne_empty t q)
  | cons s p ih =>
    cases q with
    | nil => exact absurd h (text_ne_empty s p)
    | cons t q =>
      obtain rfl := name_eq_of_text (hp s List.mem_cons_self) (hq t List.mem_cons_self) h
      have hl : (text p).toList ++ '/' :: s.toList = (text q).toList ++ '/' :: s.toList := by
        simpa [text_cons] using congrArg String.toList h
      have hpq : text p = text q := String.toList_inj.mp (List.append_cancel_right hl)
      rw [ih (fun r hr => hp r (List.mem_cons_of_mem _ hr)) (fun r hr => hq r (List.mem_cons_of_mem _ hr)) hpq]

end Place

namespace PathPart

/-- The place to which a part that is no name leads. -/
def move? (here : Place) : PathPart → Option Place
  | root => some here
  | current => some here
  | parent => some here.tail
  | name _ => none

end PathPart

namespace FileTree

variable {t t' : FileTree} {follow : Bool} {n m : Nat} {here next there : Place} {part : PathPart} {ps qs : List PathPart}
  {s : String}

/-- Where the target of a link in the directory `here` starts. -/
def linkStart (here : Place) (target : Path) : Place := if target.isAbsolute then [] else here

/-- How the steps go on behind a link when `n` links may be followed. -/
def jump (t : FileTree) (follow : Bool) : (n : Nat) → Place → List PathPart → Except FileError Place
  | 0 => fun _ _ => .error .tooManyLinks
  | n + 1 => t.walk follow n

theorem walk_eq (t : FileTree) (follow : Bool) (n : Nat) : t.walk follow n = t.walkWith follow (t.jump follow n) := by
  cases n <;> rfl

theorem walk_nil : t.walk follow n here [] = .ok here := by
  rw [walk_eq, walkWith]

theorem walk_move (h : part.move? here = some next) :
    t.walk follow n here (part :: ps) = .ok there ↔
      t.lookup? here = some .directory ∧ t.walk follow n next ps = .ok there := by
  rw [walk_eq, walkWith.eq_def]
  cases he : t.lookup? here with
  | none => simp
  | some e =>
    cases e with
    | file => simp
    | link => simp
    | directory => cases part <;> simp_all [PathPart.move?]

theorem walk_name :
    t.walk follow n here (.name s :: ps) = .ok there ↔
      t.lookup? here = some .directory ∧ s.utf8ByteSize ≤ maxNameSize ∧
        ((∀ x, t.lookup? (s :: here) ≠ some (.link x)) ∧ t.walk follow n (s :: here) ps = .ok there ∨
          ∃ x, t.lookup? (s :: here) = some (.link x) ∧
            ((ps = [] ∧ follow = false) ∧ there = s :: here ∨
              ¬ (ps = [] ∧ follow = false) ∧
                ∃ k, n = k + 1 ∧ t.walk follow k (linkStart here x) (steps x ++ ps) = .ok there)) := by
  rw [walk_eq, walkWith]
  cases he : t.lookup? here with
  | none => simp
  | some e =>
    cases e with
    | file => simp
    | link => simp
    | directory =>
      by_cases hs : maxNameSize < s.utf8ByteSize
      · simp [hs]
      · simp only [hs, if_false, true_and, not_lt.mp hs]
        cases hl : t.lookup? (s :: here) with
        | none => simp
        | some e =>
          cases e with
          | file => simp
          | directory => simp
          | link x =>
            by_cases hc : ps = [] ∧ follow = false
            · simp [hc, eq_comm]
            · have hc' : ¬ (ps.isEmpty = true ∧ ¬ follow = true) := by simpa using hc
              simp only [hc', if_false, Option.some.injEq, Entry.link.injEq, exists_eq_left', hc, false_and, false_or,
                not_false_eq_true, true_and, linkStart]
              cases n <;> simp [jump]

/-! ## Following all links -/

/-- Steps lead from one place to another, and leave `m` of the `n` links that may be followed. -/
inductive Reaches (t : FileTree) : (n : Nat) → (here : Place) → List PathPart → (m : Nat) → (there : Place) → Prop
  | done {n : Nat} {here : Place} : Reaches t n here [] n here
  | move {n m : Nat} {here next there : Place} {part : PathPart} {ps : List PathPart} :
      t.lookup? here = some .directory → part.move? here = some next → Reaches t n next ps m there →
      Reaches t n here (part :: ps) m there
  | name {n m : Nat} {here there : Place} {s : String} {ps : List PathPart} :
      t.lookup? here = some .directory → s.utf8ByteSize ≤ maxNameSize → (∀ x, t.lookup? (s :: here) ≠ some (.link x)) →
      Reaches t n (s :: here) ps m there → Reaches t n here (.name s :: ps) m there
  | link {n m : Nat} {here there : Place} {s : String} {x : Path} {ps : List PathPart} :
      t.lookup? here = some .directory → s.utf8ByteSize ≤ maxNameSize → t.lookup? (s :: here) = some (.link x) →
      Reaches t n (linkStart here x) (steps x ++ ps) m there → Reaches t (n + 1) here (.name s :: ps) m there

/-- The steps up to the last ones are followed through all links. -/
theorem walk_append (h : follow = true ∨ qs ≠ []) :
    t.walk follow n here (ps ++ qs) = .ok there ↔
      ∃ m mid, t.Reaches n here ps m mid ∧ t.walk follow m mid qs = .ok there := by
  induction n using Nat.strong_induction_on generalizing here ps with
  | _ n ihn =>
  induction ps generalizing here with
  | nil =>
    constructor
    · exact fun hw => ⟨n, here, .done, hw⟩
    · rintro ⟨m, mid, hr, hw⟩
      cases hr
      exact hw
  | cons part ps ih =>
    rw [List.cons_append]
    cases hm : part.move? here with
    | some next =>
      rw [walk_move hm, ih]
      constructor
      · rintro ⟨hd, m, mid, hr, hw⟩
        exact ⟨m, mid, .move hd hm hr, hw⟩
      · rintro ⟨m, mid, hr, hw⟩
        cases hr with
        | move hd hm' hr =>
          cases hm.symm.trans hm'
          exact ⟨hd, m, mid, hr, hw⟩
        | name => cases hm
        | link => cases hm
    | none =>
      obtain ⟨s, rfl⟩ : ∃ s, part = .name s := by cases part <;> simp_all [PathPart.move?]
      have hc : ¬ (ps ++ qs = [] ∧ follow = false) := by
        rintro ⟨hq, hf⟩
        rcases h with h | h
        · simp [hf] at h
        · exact h (List.append_eq_nil_iff.mp hq).2
      rw [walk_name]
      constructor
      · rintro ⟨hd, hs, ⟨hl, hw⟩ | ⟨x, hl, ⟨⟨hq, hf⟩, -⟩ | ⟨-, k, rfl, hw⟩⟩⟩
        · obtain ⟨m, mid, hr, hw⟩ := ih.mp hw
          exact ⟨m, mid, .name hd hs hl hr, hw⟩
        · exact absurd ⟨hq, hf⟩ hc
        · rw [← List.append_assoc, ihn k (Nat.lt_succ_self k)] at hw
          obtain ⟨m, mid, hr, hw⟩ := hw
          exact ⟨m, mid, .link hd hs hl hr, hw⟩
      · rintro ⟨m, mid, hr, hw⟩
        cases hr with
        | move _ hm' => cases hm'
        | name hd hs hl hr => exact ⟨hd, hs, .inl ⟨hl, ih.mpr ⟨m, mid, hr, hw⟩⟩⟩
        | link hd hs hl hr =>
          refine ⟨hd, hs, .inr ⟨_, hl, .inr ⟨hc, _, rfl, ?_⟩⟩⟩
          rw [← List.append_assoc, ihn _ (Nat.lt_succ_self _)]
          exact ⟨m, mid, hr, hw⟩

theorem walk_true_iff : t.walk true n here ps = .ok there ↔ ∃ m, t.Reaches n here ps m there := by
  rw [← List.append_nil ps, walk_append (.inl rfl)]
  simp [walk_nil]

/-- A link at the end is not followed when only the steps before it are. -/
theorem walk_false_concat :
    t.walk false n here (ps ++ [.name s]) = .ok there ↔
      ∃ m mid, t.Reaches n here ps m mid ∧ t.lookup? mid = some .directory ∧ s.utf8ByteSize ≤ maxNameSize ∧
        there = s :: mid := by
  rw [walk_append (.inr (by simp))]
  refine exists_congr fun m => exists_congr fun mid => and_congr_right fun _ => ?_
  rw [walk_name]
  refine and_congr_right fun _ => and_congr_right fun _ => ?_
  cases he : t.lookup? (s :: mid) with
  | none => simp [walk_nil, eq_comm]
  | some e => cases e <;> simp [walk_nil, eq_comm]

namespace Reaches

theorem append_iff : t.Reaches n here (ps ++ qs) m there ↔
    ∃ k mid, t.Reaches n here ps k mid ∧ t.Reaches k mid qs m there := by
  constructor
  · generalize hp : ps ++ qs = rs
    intro h
    induction h generalizing ps with
    | done =>
      obtain ⟨rfl, rfl⟩ := List.append_eq_nil_iff.mp hp
      exact ⟨_, _, .done, .done⟩
    | move hd hm hr ih =>
      cases ps with
      | nil => subst hp; exact ⟨_, _, .done, .move hd hm hr⟩
      | cons part ps =>
        obtain ⟨rfl, rfl⟩ := List.cons.inj hp
        obtain ⟨k, mid, h₁, h₂⟩ := ih rfl
        exact ⟨k, mid, .move hd hm h₁, h₂⟩
    | name hd hs hl hr ih =>
      cases ps with
      | nil => subst hp; exact ⟨_, _, .done, .name hd hs hl hr⟩
      | cons part ps =>
        obtain ⟨rfl, rfl⟩ := List.cons.inj hp
        obtain ⟨k, mid, h₁, h₂⟩ := ih rfl
        exact ⟨k, mid, .name hd hs hl h₁, h₂⟩
    | link hd hs hl hr ih =>
      cases ps with
      | nil => subst hp; exact ⟨_, _, .done, .link hd hs hl hr⟩
      | cons part ps =>
        obtain ⟨rfl, rfl⟩ := List.cons.inj hp
        obtain ⟨k, mid, h₁, h₂⟩ := ih (List.append_assoc _ _ _)
        exact ⟨k, mid, .link hd hs hl h₁, h₂⟩
  · rintro ⟨k, mid, h₁, h₂⟩
    induction h₁ with
    | done => exact h₂
    | move hd hm _ ih => exact .move hd hm (ih h₂)
    | name hd hs hl _ ih => exact .name hd hs hl (ih h₂)
    | link hd hs hl _ ih =>
      have h := ih h₂
      rw [List.append_assoc] at h
      exact .link hd hs hl h

/-- A dot at the end leads nowhere else. -/
theorem of_dot (h : t.Reaches n here (ps ++ [.current]) m there) : t.Reaches n here ps m there := by
  obtain ⟨k, mid, hmid, hlast⟩ := append_iff.mp h
  cases hlast with
  | move _ hm hlast =>
    cases hm
    cases hlast
    exact hmid

/-- Where steps lead does not depend on how many links may be followed. -/
theorem unique {n' m' : Nat} {there' : Place} (h : t.Reaches n here ps m there) (h' : t.Reaches n' here ps m' there') :
    there = there' := by
  induction h generalizing n' with
  | done => cases h'; rfl
  | move hd hm _ ih =>
    cases h' with
    | move _ hm' h' =>
      cases hm.symm.trans hm'
      exact ih h'
    | name => cases hm
    | link => cases hm
  | name hd hs hl _ ih =>
    cases h' with
    | move _ hm' => cases hm'
    | name _ _ _ h' => exact ih h'
    | link _ _ hl' => exact absurd hl' (hl _)
  | link hd hs hl _ ih =>
    cases h' with
    | move _ hm' => cases hm'
    | name _ _ hl' => exact absurd hl (hl' _)
    | link _ _ hl' h' =>
      cases hl.symm.trans hl'
      exact ih h'

theorem eq_or_directory (h : t.Reaches n here ps m there) : ps = [] ∧ there = here ∨ t.lookup? here = some .directory := by
  cases h with
  | done => exact .inl ⟨rfl, rfl⟩
  | move hd => exact .inr hd
  | name hd => exact .inr hd
  | link hd => exact .inr hd

/-- Steps lead to the same place in a tree that has the same directories and links, and perhaps more. -/
theorem mono (hw : ∀ q e, t.lookup? q = some e → e.IsWay → t'.lookup? q = some e) (h : t.Reaches n here ps m there)
    (hl : ∀ x, t'.lookup? there ≠ some (.link x)) : t'.Reaches n here ps m there := by
  induction h with
  | done => exact .done
  | move hd hm _ ih => exact .move (hw _ _ hd trivial) hm (ih hl)
  | name hd hs _ hr ih =>
    refine .name (hw _ _ hd trivial) hs (fun x hx => ?_) (ih hl)
    rcases hr.eq_or_directory with ⟨-, rfl⟩ | hd'
    · exact hl x hx
    · cases (hw _ _ hd' trivial).symm.trans hx
  | link hd hs hx _ ih => exact .link (hw _ _ hd trivial) hs (hw _ _ hx trivial) (ih hl)

end Reaches

/-! ## Places that are no links -/

/-- Neither the place nor any above it is a link. -/
def IsDirect (t : FileTree) (place : Place) : Prop := ∀ q, q <:+ place → ∀ x, t.lookup? q ≠ some (.link x)

theorem isDirect_nil : t.IsDirect [] := by
  intro q hq x
  rw [List.suffix_nil.mp hq]
  simp [lookup?]

theorem IsDirect.cons (h : t.IsDirect here) (hl : ∀ x, t.lookup? (s :: here) ≠ some (.link x)) : t.IsDirect (s :: here) := by
  intro q hq
  rcases List.suffix_cons_iff.mp hq with rfl | hq
  · exact hl
  · exact h q hq

theorem IsDirect.move (h : t.IsDirect here) (hm : part.move? here = some next) : t.IsDirect next := by
  cases part with
  | root => cases hm; exact h
  | current => cases hm; exact h
  | parent => cases hm; exact fun q hq => h q (hq.trans (List.tail_suffix _))
  | name => cases hm

theorem IsDirect.linkStart (h : t.IsDirect here) (x : Path) : t.IsDirect (linkStart here x) := by
  unfold FileTree.linkStart
  split
  · exact isDirect_nil
  · exact h

theorem Reaches.isDirect (h : t.Reaches n here ps m there) (hh : t.IsDirect here) : t.IsDirect there := by
  induction h with
  | done => exact hh
  | move _ hm _ ih => exact ih (hh.move hm)
  | name _ _ hl _ ih => exact ih (hh.cons hl)
  | link _ _ _ _ ih => exact ih (hh.linkStart _)

/-! ## Names without slashes -/

/-- Is no slash in any of the names? -/
def HasPlainNames (ps : List PathPart) : Prop := ∀ s, .name s ∈ ps → '/' ∉ s.toList

theorem hasPlainNames_steps (p : Path) : HasPlainNames (steps p) := by
  intro s hs
  rw [steps, List.mem_append] at hs
  rcases hs with hs | hs
  · obtain ⟨segment, hm, hp⟩ := List.mem_filterMap.mp hs
    have hn := Text.notMem_of_mem_splitOn hm
    split at hp
    · cases hp
    · unfold PathPart.ofSegment? at hp
      split at hp
      · cases hp
      · cases hp
      · cases hp
      · cases hp
        simpa using hn
  · split at hs <;> simp at hs

theorem HasPlainNames.tail (h : HasPlainNames (part :: ps)) : HasPlainNames ps :=
  fun s hs => h s (List.mem_cons_of_mem _ hs)

theorem HasPlainNames.append (hp : HasPlainNames ps) (hq : HasPlainNames qs) : HasPlainNames (ps ++ qs) :=
  fun s hs => (List.mem_append.mp hs).elim (hp s) (hq s)

theorem isPlain_cons (hh : here.IsPlain) (hs : '/' ∉ s.toList) : Place.IsPlain (s :: here) :=
  fun _ ht => (List.mem_cons.mp ht).elim (fun h => h ▸ hs) (hh _)

theorem isPlain_move (hh : here.IsPlain) (hm : part.move? here = some next) : next.IsPlain := by
  cases part with
  | root => cases hm; exact hh
  | current => cases hm; exact hh
  | parent => cases hm; exact fun s hs => hh s (List.mem_of_mem_tail hs)
  | name => cases hm

theorem isPlain_linkStart (hh : here.IsPlain) (x : Path) : (linkStart here x).IsPlain := by
  unfold linkStart
  split
  · simp [Place.IsPlain]
  · exact hh

theorem Reaches.isPlain (h : t.Reaches n here ps m there) (hh : here.IsPlain) (hp : HasPlainNames ps) : there.IsPlain := by
  induction h with
  | done => exact hh
  | move _ hm _ ih => exact ih (isPlain_move hh hm) hp.tail
  | name _ _ _ _ ih => exact ih (isPlain_cons hh (hp _ List.mem_cons_self)) hp.tail
  | link _ _ _ _ ih => exact ih (isPlain_linkStart hh _) ((hasPlainNames_steps _).append hp.tail)

end FileTree

end MarkdownTemplates
