import MarkdownTemplates.Proofs.FileTree.Directories
import MarkdownTemplates.Proofs.Project.CacheDirectory
import MarkdownTemplates.Proofs.Project.Run

/-!
# Operations that fail

A rebuild that fails leaves the snapshot in memory and the one in the file. So does a refresh when it cannot be saved, except that
the snapshot in memory is the refreshed one by then.
-/

namespace MarkdownTemplates

namespace FileTree

variable {t : FileTree}

/-- No entry has the name, wherever it is. -/
def LacksName (t : FileTree) (name : String) : Prop := ∀ dir, t.lookup? (name :: dir) = none

theorem lacksName_of_keys {name : String} (h : ∀ key ∈ t.entries.keys, ¬ name.toList <:+ key.toList) : t.LacksName name := by
  intro dir
  by_contra hsome
  obtain ⟨e, he⟩ := Option.ne_none_iff_exists'.mp hsome
  refine h (Place.text (name :: dir)) (Dict.mem_keys.mpr (Dict.contains_iff.mpr ⟨e, he⟩)) ?_
  rw [Place.text_cons, String.toList_append]
  exact List.suffix_append _ _

end FileTree

namespace Project

variable {p : Project} {now : Nat} {s : Snapshot} {t t' : FileTree} {e : Failure} {state state' : ProjectState}
  {targets : Option (List Path)}

/-! ## Saving -/

/-- What is left of the tree `t` when an operation has failed at the time `now`. -/
structure LeavesFiles (p : Project) (now : Nat) (t t' : FileTree) : Prop where
  /-- What the file of the snapshot says. -/
  readText : ∀ text, t.readText p.cachePath = .ok text → t'.readText p.cachePath = .ok text
  /-- Every entry, unless one has the name of the temporary file. Nothing but directories is new. -/
  growsTo : t.LacksName (temporaryName now) → t.GrowsTo t'
  /-- The tree as it is, when the cache directory is there. -/
  eq : t.LacksName (temporaryName now) → t.isDirectory p.cacheDir = true → t' = t

namespace LeavesFiles

theorem refl (p : Project) (now : Nat) (t : FileTree) : p.LeavesFiles now t t := ⟨fun _ => id, fun _ => .refl t, fun _ _ => rfl⟩

theorem makeDirectories (p : Project) (now : Nat) (t : FileTree) : p.LeavesFiles now t (t.makeDirectories p.cacheDir).2 := by
  have hgrows := FileTree.growsTo_makeDirectories t p.cacheDir
  refine ⟨fun _ => FileTree.readText_mono hgrows.lookup?_eq_some, fun _ => hgrows, fun _ hd => ?_⟩
  rw [FileTree.makeDirectories_of_isDirectory hd]

end LeavesFiles

/-- A snapshot that cannot be saved leaves the one in the file, and no temporary file. -/
theorem leavesFiles_of_save (h : p.save now s t = (.error e, t')) : p.LeavesFiles now t t' := by
  have hmade := LeavesFiles.makeDirectories p now t
  have hgrows := FileTree.growsTo_makeDirectories t p.cacheDir
  generalize ht₁ : (t.makeDirectories p.cacheDir).2 = t₁ at hmade hgrows
  rcases save_cases p now s ht₁ with ⟨e', he⟩ | ⟨-, t₂, hw, ⟨x, e', hr, he⟩ | ⟨t₃, -, hs⟩⟩
  · cases he.symm.trans h
    exact hmade
  · cases he.symm.trans h
    have hremoved : t.LacksName (temporaryName now) → (t₂.remove (p.temporaryPath now)).toOption.getD t₂ = t₁ := by
      intro hnew
      have hremove : t₂.remove (p.temporaryPath now) = .ok t₁ :=
        remove_of_write (isName_temporaryName now) (fun dir => (hgrows _).imp (·.trans (hnew dir)) And.right) hw
      rw [hremove]
      rfl
    refine ⟨fun text ht => ?_, fun hnew => hremoved hnew ▸ hgrows, fun hnew hd => (hremoved hnew).trans (hmade.eq hnew hd)⟩
    -- The file of the snapshot would have been replaced.
    obtain ⟨b, hb, -⟩ := FileTree.readText_eq_ok.mp (hmade.readText text ht)
    obtain ⟨t₃, hr'⟩ := exists_rename_of_write isName_snapshotName (isName_temporaryName now) hw hb
    cases hr.symm.trans hr'
  · cases hs.symm.trans h

/-! ## Operations -/

/-- What a refresh that fails has done. -/
theorem refresh_error_cases (h : p.refresh now targets state = (.error e, state')) :
    p.obtain now false state = (.error e, state') ∨
      ∃ before mid, p.obtain now false state = (.ok before, mid) ∧
        ((p.candidates targets mid.files = .error e ∧ state'.files = mid.files) ∨
          ∃ candidates refreshed, p.candidates targets mid.files = .ok candidates ∧
            refreshed = before.withFiles now (p.lookAt targets.isNone candidates mid.files before).files ∧
            p.save now refreshed mid.files = (.error e, state'.files) ∧ state'.snapshot = some refreshed) := by
  rcases ho : p.obtain now false state with ⟨x | before, mid⟩
  · rw [refresh_of_obtain_error ho] at h
    cases h
    exact .inl rfl
  · refine .inr ⟨before, mid, rfl, ?_⟩
    cases hc : p.candidates targets mid.files with
    | error x =>
      rw [refresh_of_candidates_error ho hc] at h
      cases h
      exact .inl ⟨rfl, rfl⟩
    | ok candidates =>
      obtain ⟨refreshed, r, rfl, hrefreshed, hrefresh⟩ := refresh_of_candidates ho hc
      rw [hrefresh] at h
      refine .inr ⟨candidates, refreshed, rfl, hrefreshed, ?_⟩
      rcases hsave : p.save now refreshed mid.files with ⟨x | _, files⟩ <;> rw [hsave] at h <;> cases h
      exact ⟨rfl, rfl⟩

theorem state_ext (hf : state'.files = state.files) (hs : state'.snapshot = state.snapshot) : state' = state := by
  cases state
  cases state'
  cases hf
  cases hs
  rfl

theorem get_of_snapshot (hs : state.snapshot = some s) (later : Nat) : p.get later state = (.ok s, state) := by
  simp only [get, obtain, hs]

/-- When a rebuild fails, the snapshot in memory is the one that was there, and so is the one in the file; a request is answered as
before when there is a snapshot in memory, or when the cache directory is there. When a refresh fails, the rebuild that it made
first has failed, or else the snapshot in the file is the one that was there after that; unless the files of the project could not
be listed, the one in memory is refreshed, and a request is answered with it. -/
theorem failure_keeps_snapshot (p : Project) (now : Nat) (state state' : ProjectState) (e : Failure) :
    (p.rebuild now state = (.error e, state') →
      state'.snapshot = state.snapshot ∧ p.LeavesFiles now state.files state'.files ∧
        ((state.snapshot.isSome = true ∨
            state.files.LacksName (temporaryName now) ∧ state.files.isDirectory p.cacheDir = true) →
          ∀ later, (p.get later state').1 = (p.get later state).1)) ∧
    ∀ targets, p.refresh now targets state = (.error e, state') →
      (state.snapshot = none ∧ p.load? now false state.files = none ∧ p.rebuild now state = (.error e, state')) ∨
        ∃ before mid, p.obtain now false state = (.ok before, mid) ∧
          (mid.files = state.files ∨ p.rebuild now state = (.ok before, mid)) ∧ p.LeavesFiles now mid.files state'.files ∧
          ∀ candidates, p.candidates targets mid.files = .ok candidates → ∃ refreshed,
            refreshed = before.withFiles now (p.lookAt targets.isNone candidates mid.files before).files ∧
            state'.snapshot = some refreshed ∧ ∀ later, p.get later state' = (.ok refreshed, state') := by
  refine ⟨fun h => ?_, fun targets h => ?_⟩
  · have hmemory := snapshot_of_rebuild_error h
    have hfiles : p.LeavesFiles now state.files state'.files := by
      rcases rebuild_error_cases h with ⟨-, rfl⟩ | ⟨s, files, -, hsave, rfl⟩
      · exact .refl p now _
      · exact leavesFiles_of_save hsave
    refine ⟨hmemory, hfiles, fun hkept later => ?_⟩
    rcases hkept with hs | ⟨hnew, hd⟩
    · obtain ⟨s, hs⟩ := Option.isSome_iff_exists.mp hs
      rw [get_of_snapshot hs, get_of_snapshot (hmemory.trans hs)]
    · rw [state_ext (hfiles.eq hnew hd) hmemory]
  · rcases refresh_error_cases h with ho | ⟨before, mid, ho, hfailed⟩
    · left
      rcases obtain_cases p now false state with ⟨s, -, ho'⟩ | ⟨s, -, -, ho'⟩ | ⟨hs, hl, ho'⟩
      · cases ho'.symm.trans ho
      · cases ho'.symm.trans ho
      · exact ⟨hs, hl, ho'.symm.trans ho⟩
    · right
      have hfiles : mid.files = state.files ∨ p.rebuild now state = (.ok before, mid) := by
        rcases obtain_cases p now false state with ⟨s, -, ho'⟩ | ⟨s, -, -, ho'⟩ | ⟨-, -, ho'⟩
        · cases ho.symm.trans ho'
          exact .inl rfl
        · cases ho.symm.trans ho'
          exact .inl rfl
        · exact .inr (ho'.symm.trans ho)
      refine ⟨before, mid, ho, hfiles, ?_⟩
      rcases hfailed with ⟨hc, hsame⟩ | ⟨candidates, refreshed, hc, hrefreshed, hsave, hmemory⟩
      · exact ⟨hsame ▸ .refl p now _, fun _ hc' => by cases hc.symm.trans hc'⟩
      · refine ⟨leavesFiles_of_save hsave, fun candidates' hc' => ?_⟩
        obtain rfl := Except.ok.inj (hc.symm.trans hc')
        exact ⟨refreshed, hrefreshed, hmemory, fun later => get_of_snapshot hmemory later⟩

/-! ## A directory that is in the way -/

def plain : Project := { root := ⟨"/p"⟩ }

/-- A directory stands where the snapshot would be saved. The one in memory is that of a project without files. -/
def obstructed : ProjectState where
  files := ⟨.ofList [("/p", .directory), ("/p/.mdck", .directory), ("/p/.mdck/.cache", .directory),
    ("/p/.mdck/.cache/metadata.json", .directory), ("/p/b.md", .file .empty 5)]⟩
  snapshot := some (.ofFiles ⟨"/p"⟩ 7 ∅)

/-- What is computed about the operations that fail. -/
@[mk_iff] structure ObstructedChecks : Prop where
  rebuild : (plain.rebuild 9 obstructed).1.toOption.isNone = true
  refresh : (plain.refresh 9 (some [⟨"b.md"⟩]) obstructed).1.toOption.isNone = true
  memory : (plain.refresh 9 (some [⟨"b.md"⟩]) obstructed).2.snapshot.map (·.files.keys) = some ["b.md"]
  before : obstructed.snapshot.map (·.files.keys) = some []
  directory : obstructed.files.isDirectory plain.cacheDir = true
  names : ∀ key ∈ obstructed.files.entries.keys, ¬ (temporaryName 9).toList <:+ key.toList

theorem obstructedChecks : ObstructedChecks := by
  rw [obstructedChecks_iff]
  decide +kernel

/-- The rebuild changes nothing. The refresh leaves the files, and the snapshot that it has refreshed. -/
theorem failure_keeps_snapshot_obstructed :
    (∃ e, plain.rebuild 9 obstructed = (.error e, obstructed)) ∧
      ∃ e state' refreshed, plain.refresh 9 (some [⟨"b.md"⟩]) obstructed = (.error e, state') ∧
        state'.files = obstructed.files ∧ refreshed.files.keys = ["b.md"] ∧ state'.snapshot = some refreshed ∧
        plain.get 10 state' = (.ok refreshed, state') := by
  have hc := obstructedChecks
  have hnew : obstructed.files.LacksName (temporaryName 9) := FileTree.lacksName_of_keys hc.names
  constructor
  · obtain ⟨e, he⟩ := exists_eq_error hc.rebuild
    have hrebuild := Prod.fst_eq_iff.mp he
    obtain ⟨hmemory, hfiles, -⟩ := (failure_keeps_snapshot plain 9 obstructed _ e).1 hrebuild
    exact ⟨e, hrebuild.trans (congrArg _ (state_ext (hfiles.eq hnew hc.directory) hmemory))⟩
  · obtain ⟨e, he⟩ := exists_eq_error hc.refresh
    have hrefresh := Prod.fst_eq_iff.mp he
    have hmemory := hc.memory
    rcases (failure_keeps_snapshot plain 9 obstructed _ e).2 _ hrefresh with ⟨hnone, -⟩ | ⟨before, mid, ho, -, hfiles, hkept⟩
    · cases hnone
    · cases ho
      obtain ⟨refreshed, -, hrefreshed, hget⟩ := hkept _ rfl
      rw [hrefreshed, Option.map_some, Option.some.injEq] at hmemory
      exact ⟨e, _, refreshed, hrefresh, hfiles.eq hnew hc.directory, hmemory, hrefreshed, hget 10⟩

/-- The snapshot in memory is not the one from before a refresh that cannot be saved. -/
theorem not_failure_keeps_snapshot :
    ¬ ∀ (p : Project) (now : Nat) (targets : Option (List Path)) (state state' : ProjectState) (e : Failure),
      p.refresh now targets state = (.error e, state') → state'.snapshot = state.snapshot := by
  intro h
  have hc := obstructedChecks
  obtain ⟨e, he⟩ := exists_eq_error hc.refresh
  have hmemory := hc.memory
  rw [h plain 9 _ obstructed _ e (Prod.fst_eq_iff.mp he), hc.before] at hmemory
  simp at hmemory

end Project

end MarkdownTemplates
