import MarkdownTemplates.Project
import MarkdownTemplates.Proofs.Snapshot.Derivation

/-!
# What a scan finds

A scan finds what each discovered file says, under the key of the file. Files that cannot be read are left out.
-/

namespace MarkdownTemplates

namespace Project

open FileMetadata (own)

variable {p : Project} {now now' : Nat} {files : FileTree} {root : Path} {found : List Path} {s s' : Snapshot} {k : String}
  {m : FileMetadata} {q : Path}

/-- The metadata of the files that can be read. -/
def scanned (root : Path) (files : FileTree) (found : List Path) : Dict FileMetadata :=
  found.foldl (fun all file =>
    match FileMetadata.read files (Path.key root file) file with
    | .ok m => all.insert m.path m
    | .error _ => all) ∅

theorem scan_eq_ok : p.scan now files = .ok s ↔
    ∃ found, p.discover files = .ok found ∧ s = .ofFiles p.root now (scanned p.root files found) := by
  simp only [scan]
  cases p.discover files with
  | error e => simp [bind, Except.bind]
  | ok found =>
    simp only [bind, Except.bind, pure, Except.pure, Except.ok.injEq, exists_eq_left']
    exact eq_comm

/-! ## Entries -/

/-- What is known under `k` after a look at a file. -/
def scannedAt (root : Path) (files : FileTree) (k : String) (old : Option FileMetadata) (file : Path) : Option FileMetadata :=
  if Path.key root file = k then (FileMetadata.read files k file).toOption.or old else old

theorem get?_scanned_eq_foldl (root : Path) (files : FileTree) (found : List Path) (k : String) :
    (scanned root files found).get? k = found.foldl (scannedAt root files k) none := by
  have h : ∀ (l : List Path) (all : Dict FileMetadata), (l.foldl (fun all file =>
      match FileMetadata.read files (Path.key root file) file with
      | .ok m => all.insert m.path m
      | .error _ => all) all).get? k = l.foldl (scannedAt root files k) (all.get? k) := by
    intro l
    induction l with
    | nil => exact fun all => rfl
    | cons file l ih =>
      intro all
      rw [List.foldl_cons, List.foldl_cons, ih, scannedAt]
      congr 1
      cases hr : FileMetadata.read files (Path.key root file) file with
      | error e =>
        split_ifs with hk
        · rw [← hk, hr]
          rfl
        · rfl
      | ok m =>
        dsimp only
        rw [Dict.get?_insert, FileMetadata.path_of_read hr]
        by_cases hk : Path.key root file = k
        · rw [if_pos hk, if_pos hk.symm, ← hk, hr]
          rfl
        · rw [if_neg hk, if_neg (Ne.symm hk)]
  exact h found ∅

theorem exists_read_of_foldl (l : List Path) (old : Option FileMetadata)
    (h : l.foldl (scannedAt root files k) old = some m) :
    old = some m ∨ ∃ q ∈ l, Path.key root q = k ∧ FileMetadata.read files k q = .ok m := by
  induction l generalizing old with
  | nil => exact .inl h
  | cons file l ih =>
    rcases ih _ h with h | ⟨q, hq, h⟩
    · unfold scannedAt at h
      split_ifs at h with hk
      · cases hr : FileMetadata.read files k file with
        | error e =>
          rw [hr] at h
          exact .inl h
        | ok m' =>
          rw [hr] at h
          cases h
          exact .inr ⟨file, List.mem_cons_self, hk, hr⟩
      · exact .inl h
    · exact .inr ⟨q, List.mem_cons_of_mem _ hq, h⟩

theorem isSome_foldl (l : List Path) (old : Option FileMetadata)
    (h : old.isSome = true ∨ ∃ q ∈ l, Path.key root q = k ∧ FileMetadata.read files k q = .ok m) :
    (l.foldl (scannedAt root files k) old).isSome = true := by
  induction l generalizing old with
  | nil => simpa using h
  | cons file l ih =>
    refine ih _ ?_
    rcases h with h | ⟨q, hq, hk, hr⟩
    · left
      unfold scannedAt
      split_ifs
      · cases FileMetadata.read files k file <;> simp [Except.toOption, h]
      · exact h
    · rcases List.mem_cons.mp hq with rfl | hq
      · left
        simp [scannedAt, hk, hr, Except.toOption]
      · exact .inr ⟨q, hq, hk, hr⟩

/-- What is found under a key was read from a file with this key. -/
theorem exists_read_of_scanned (h : (scanned root files found).get? k = some m) :
    ∃ q ∈ found, Path.key root q = k ∧ FileMetadata.read files k q = .ok m := by
  rw [get?_scanned_eq_foldl] at h
  exact (exists_read_of_foldl found none h).resolve_left (by simp)

/-- Have different files different keys? -/
def KeysApart (root : Path) (found : List Path) : Prop :=
  ∀ q ∈ found, ∀ r ∈ found, Path.key root q = Path.key root r → q = r

theorem get?_scanned (ha : KeysApart root found) (hq : q ∈ found) :
    (scanned root files found).get? (Path.key root q) = (FileMetadata.read files (Path.key root q) q).toOption := by
  have hread : ∀ m, (scanned root files found).get? (Path.key root q) = some m →
      FileMetadata.read files (Path.key root q) q = .ok m := by
    intro m hm
    obtain ⟨r, hr, hk, hm⟩ := exists_read_of_scanned hm
    rwa [ha r hr q hq hk] at hm
  cases hr : FileMetadata.read files (Path.key root q) q with
  | error e =>
    cases hs : (scanned root files found).get? (Path.key root q) with
    | none => rfl
    | some m => cases (hread m hs).symm.trans hr
  | ok m =>
    have hs : ((scanned root files found).get? (Path.key root q)).isSome = true := by
      rw [get?_scanned_eq_foldl]
      exact isSome_foldl found none (.inr ⟨q, hq, rfl, hr⟩)
    obtain ⟨m', hm'⟩ := Option.isSome_iff_exists.mp hs
    cases (hread m' hm').symm.trans hr
    exact hm'

theorem get?_scanned_of_notMem (h : ∀ q ∈ found, Path.key root q ≠ k) : (scanned root files found).get? k = none := by
  cases hs : (scanned root files found).get? k with
  | none => rfl
  | some m =>
    obtain ⟨q, hq, hk, -⟩ := exists_read_of_scanned hs
    exact absurd hk (h q hq)

/-! ## Snapshots of scans -/

theorem own_scanned (root : Path) (files : FileTree) (found : List Path) :
    (scanned root files found).mapValues (fun _ => own) = scanned root files found := by
  refine Dict.ext_get? fun k => ?_
  rw [Dict.get?_mapValues]
  cases hk : (scanned root files found).get? k with
  | none => rfl
  | some m =>
    obtain ⟨q, -, -, hm⟩ := exists_read_of_scanned hk
    rw [Option.map_some, FileMetadata.own_of_read hm]

theorem own_ofFiles_scanned (root : Path) (now : Nat) (files : FileTree) (found : List Path) :
    (Snapshot.ofFiles root now (scanned root files found)).files.mapValues (fun _ => own) = scanned root files found := by
  rw [Snapshot.ofFiles, Snapshot.own_withFiles, own_scanned]

theorem own_get?_ofFiles_scanned (root : Path) (now : Nat) (files : FileTree) (found : List Path) (k : String) :
    ((Snapshot.ofFiles root now (scanned root files found)).files.get? k).map own = (scanned root files found).get? k := by
  rw [← Dict.get?_mapValues (fun _ => own), own_ofFiles_scanned]

/-- A scan knows nothing of a file that it cannot read. -/
theorem get?_ofFiles_scanned_of_error {e : FileFailure} (ha : KeysApart root found) (hq : q ∈ found) (hk : Path.key root q = k)
    (hr : FileMetadata.read files k q = .error e) :
    (Snapshot.ofFiles root now (scanned root files found)).files.get? k = none := by
  rw [← Option.map_eq_none_iff, own_get?_ofFiles_scanned, ← hk, get?_scanned ha hq, hk, hr]
  rfl

/-- Scans of the same files agree, whenever they are made. -/
theorem agrees_of_scan (h : p.scan now files = .ok s) (h' : p.scan now' files = .ok s') : s.Agrees s' := by
  obtain ⟨found, hd, rfl⟩ := scan_eq_ok.mp h
  obtain ⟨found', hd', rfl⟩ := scan_eq_ok.mp h'
  cases hd.symm.trans hd'
  refine (Snapshot.isDerived_withFiles _ _ _).agrees (Snapshot.isDerived_withFiles _ _ _) ?_
  exact (own_ofFiles_scanned _ _ _ _).trans (own_ofFiles_scanned _ _ _ _).symm

end Project

end MarkdownTemplates
