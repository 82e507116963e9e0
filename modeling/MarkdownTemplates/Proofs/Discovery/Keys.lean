import MarkdownTemplates.Proofs.Discovery.Listing

/-!
# Files and their keys

Behind the root, the path of a file that is found tells it from all others, and leads back to it. A key is that text with slashes in the
place of backslashes. So the key of a file leads back to the file exactly when no name on the way has a backslash, and only where one
has, two files can share a key.
-/

namespace MarkdownTemplates

namespace Discovery

open FileTree (IsName)
open MarkdownTemplates.Path (key textBelow)

variable {w : World} {rules : SearchRules} {root cacheDir q r : Path} {exclude : List String} {found : List Path}

theorem IsFound.join_textBelow (ht : w.files.HasNames) (h : IsFound w rules root q) :
    root.join ⟨String.ofList (textBelow root q)⟩ = q := by
  obtain ⟨names, hne, hn, rfl⟩ := h.exists_inside ht
  exact Path.join_textBelow_inside root hne hn

theorem IsFound.join_key_iff (ht : w.files.HasNames) (h : IsFound w rules root q) :
    root.join ⟨key root q⟩ = q ↔ '\\' ∉ textBelow root q := by
  obtain ⟨names, hne, hn, rfl⟩ := h.exists_inside ht
  exact Path.join_key_inside_iff root hne hn

/-- Where keys lead back, they tell files apart. -/
theorem eq_of_key_eq (hq : root.join ⟨key root q⟩ = q) (hr : root.join ⟨key root r⟩ = r) (h : key root q = key root r) : q = r := by
  rw [← hq, h, hr]

end Discovery

namespace Project

open FileMetadata (own)
open MarkdownTemplates.Path (key textBelow)

variable {p : Project} {now : Nat} {files : FileTree} {s : Snapshot} {k : String} {m : FileMetadata}

/-- What a scan knows under a key, it has read from a file with this key. The file is where the key leads, unless a name on the way
to it has a backslash. -/
theorem exists_read_of_scan (ht : files.HasNames) (hscan : p.scan now files = .ok s) (hm : s.files.get? k = some m) :
    ∃ found q, p.discover files = .ok found ∧ q ∈ found ∧ key p.root q = k ∧ FileMetadata.read files k q = .ok m.own ∧
      (p.root.join ⟨k⟩ = q ↔ '\\' ∉ textBelow p.root q) := by
  obtain ⟨found, hd, rfl⟩ := scan_eq_ok.mp hscan
  have hscanned : (scanned p.root files found).get? k = some m.own := by
    rw [← own_get?_ofFiles_scanned p.root now files found k, hm]
    rfl
  obtain ⟨q, hq, rfl, hread⟩ := exists_read_of_scanned hscanned
  obtain ⟨excluded, -, hfound⟩ := Discovery.isFound_of_run hd
  exact ⟨found, q, hd, hq, rfl, hread, (hfound q hq).join_key_iff ht⟩

end Project

namespace Discovery

open MarkdownTemplates.Path (key textBelow)

variable {w : World} {root cacheDir : Path} {exclude : List String} {found : List Path}

/-- What follows the root in a path that is found leads back to it. Its key does so exactly when no backslash was taken for a slash,
and two paths share a key only where one was. Under each key of a scan stands what was read from a file with this key, and this is
the file to which the key leads in the same case. -/
theorem keys_identify_iff (ht : w.files.HasNames) (h : run w root cacheDir exclude = .ok found) :
    (∀ q ∈ found, root.join ⟨String.ofList (textBelow root q)⟩ = q ∧
      (root.join ⟨key root q⟩ = q ↔ '\\' ∉ textBelow root q)) ∧
    (∀ q ∈ found, ∀ r ∈ found, q ≠ r → key root q = key root r → '\\' ∈ textBelow root q ∨ '\\' ∈ textBelow root r) ∧
    ∀ (options : CacheOptions) (now : Nat) (s : Snapshot), (Project.mk root options).scan now w.files = .ok s →
      ∀ k m, s.files.get? k = some m → ∃ all q, (Project.mk root options).discover w.files = .ok all ∧ q ∈ all ∧
        key root q = k ∧ FileMetadata.read w.files k q = .ok m.own ∧ (root.join ⟨k⟩ = q ↔ '\\' ∉ textBelow root q) := by
  obtain ⟨excluded, -, hfound⟩ := isFound_of_run h
  refine ⟨fun q hq => ⟨(hfound q hq).join_textBelow ht, (hfound q hq).join_key_iff ht⟩, fun q hq r hr hne he => ?_, ?_⟩
  · by_contra hplain
    rw [not_or] at hplain
    exact hne (eq_of_key_eq (((hfound q hq).join_key_iff ht).mpr hplain.1) (((hfound r hr).join_key_iff ht).mpr hplain.2) he)
  · exact fun options now s hscan k m hm => Project.exists_read_of_scan ht hscan hm

/-! ### A name with a backslash -/

def backslashTree : FileTree :=
  ⟨.ofList [("/p", .directory), ("/p/a", .directory), ("/p/a/b.md", .file "\n".toUTF8 5), ("/p/a\\b.md", .file "\n".toUTF8 5)]⟩

/-- The files, in their order. -/
def backslashPaths : List Path := [⟨"/p/a/b.md"⟩, ⟨"/p/a\\b.md"⟩]

/-- What is computed about this tree. -/
@[mk_iff] structure BackslashChecks : Prop where
  names : ∀ key ∈ backslashTree.entries.keys, ∃ place ∈ [["p"], ["a", "p"], ["b.md", "a", "p"], ["a\\b.md", "p"]],
    (∀ s ∈ place, FileTree.IsName s) ∧ Place.text place = key
  searched : (searchIn backslashTree).toOption = some backslashPaths.reverse
  before : Path.before ⟨"/p/a/b.md"⟩ ⟨"/p/a\\b.md"⟩ = true

theorem backslashChecks : BackslashChecks := by
  rw [backslashChecks_iff]
  decide +kernel

theorem hasNames_backslash : backslashTree.HasNames := by
  intro key hkey
  obtain ⟨place, -, hplace⟩ := backslashChecks.names key hkey
  exact ⟨place, hplace⟩

theorem run_backslash : run (projectIn backslashTree) ⟨"/p"⟩ ⟨"/p/.mdtcache"⟩ [] = .ok backslashPaths := by
  have hsorted : backslashPaths.reverse.mergeSort (fun p q => !q.before p) = backslashPaths := by
    simp [backslashPaths, List.mergeSort, List.MergeSort.Internal.splitInTwo, backslashChecks.before]
  rw [run_projectIn, eq_ok_of_toOption backslashChecks.searched]
  exact congrArg Except.ok hsorted

/-- The key of the second file leads to the first one. -/
theorem keys_identify_iff_backslash : backslashTree.HasNames ∧
    run (projectIn backslashTree) ⟨"/p"⟩ ⟨"/p/.mdtcache"⟩ [] = .ok backslashPaths ∧
    Path.join ⟨"/p"⟩ ⟨key ⟨"/p"⟩ ⟨"/p/a/b.md"⟩⟩ = ⟨"/p/a/b.md"⟩ ∧ Path.join ⟨"/p"⟩ ⟨key ⟨"/p"⟩ ⟨"/p/a\\b.md"⟩⟩ ≠ ⟨"/p/a\\b.md"⟩ := by
  obtain ⟨hback, -⟩ := keys_identify_iff hasNames_backslash run_backslash
  refine ⟨hasNames_backslash, run_backslash, ?_, ?_⟩
  · exact (hback ⟨"/p/a/b.md"⟩ (by simp [backslashPaths])).2.mpr (by decide +kernel)
  · exact fun h => (hback ⟨"/p/a\\b.md"⟩ (by simp [backslashPaths])).2.mp h (by decide +kernel)

/-- Keys neither lead back to all files nor tell all of them apart. -/
theorem not_keys_identify : ¬ ∀ (w : World) (root cacheDir : Path) (exclude : List String) (found : List Path), w.files.HasNames →
    run w root cacheDir exclude = .ok found → (∀ q ∈ found, root.join ⟨key root q⟩ = q) ∧ Project.KeysApart root found := by
  intro h
  obtain ⟨-, hapart⟩ := h (projectIn backslashTree) ⟨"/p"⟩ ⟨"/p/.mdtcache"⟩ [] backslashPaths hasNames_backslash run_backslash
  have hsame := hapart ⟨"/p/a/b.md"⟩ (by simp [backslashPaths]) ⟨"/p/a\\b.md"⟩ (by simp [backslashPaths]) (by decide +kernel)
  exact absurd hsame (by decide)

end Discovery

end MarkdownTemplates
