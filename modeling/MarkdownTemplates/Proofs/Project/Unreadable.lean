import MarkdownTemplates.Proofs.Project.Tracking

/-!
# Files that can no longer be read

A scan leaves out a file that it cannot read. A refresh reports the file and keeps what was known of it, the templates among it.
So a refresh agrees with a scan exactly when nothing was known of the files that it reports.
-/

namespace MarkdownTemplates

open FileMetadata (own)

variable {root : Path} {moments past : List Moment} {m a : Moment} {now : Nat} {s before after scanned : Snapshot} {k x : String}
  {found : List Path} {e : FileFailure} {p : Project} {files : FileTree}

namespace Project

/-- An error of a look at all files is that of a file that was found, and changes nothing under its key. -/
theorem get?_lookAt_of_error (h : e ∈ (p.lookAt true found files s).errors) :
    (p.lookAt true found files s).files.get? e.path = s.files.get? e.path ∧
      ∃ q ∈ found, Path.key p.root q = e.path ∧ FileMetadata.read files e.path q = .error e := by
  obtain ⟨c, hf, hp, hr⟩ := Refresh.mem_errors_run.mp h
  obtain ⟨q, hq, rfl⟩ := List.mem_map.mp (Refresh.mem_of_mem_firstOfKeys hf)
  have hpath : e.path = Path.key p.root q := FileMetadata.path_of_read_eq_error hr
  rw [hpath]
  refine ⟨?_, q, hq, rfl, hr⟩
  rw [lookAt, Refresh.get?_run_of_mem hf, if_pos hp, Refresh.looked_of_error hr]

end Project

namespace Snapshot

/-- Does a snapshot still say about a file what an earlier one said, and has it no other templates from the file? -/
structure Preserves (after before : Snapshot) (k : String) : Prop where
  entry : (after.files.get? k).map own = (before.files.get? k).map own
  templates : ∀ x t, after.templates.get? x = some t → t.file = k →
    ∃ md, before.files.get? k = some md ∧ t ∈ md.definitions

theorem IsConsistent.preserves (h : after.IsConsistent root)
    (hk : (after.files.get? k).map own = (before.files.get? k).map own) : after.Preserves before k := by
  refine ⟨hk, fun x t ht hfile => ?_⟩
  obtain ⟨key, md, hmd, hmem, -⟩ := h.isDerived.exists_first ht
  -- A definition stands in the entry of the file that it names.
  have hkey : key = k := ((h.files key md hmd).file t hmem).symm.trans hfile
  rw [← hkey, hmd] at hk
  obtain ⟨md', hmd', hown⟩ := Option.map_eq_some_iff.mp hk.symm
  have hmem : t ∈ md.own.definitions := hmem
  rw [← hown] at hmem
  exact ⟨md', hkey ▸ hmd', hmem⟩

/-- A snapshot that says what an earlier one said where a scan finds nothing, and elsewhere what the scan finds, agrees with the
scan when the earlier one said nothing there either. -/
theorem IsDerived.agrees_iff {keys : List String} (hafter : after.IsDerived) (hscanned : scanned.IsDerived)
    (hkept : ∀ k ∈ keys, (after.files.get? k).map own = (before.files.get? k).map own)
    (hleft : ∀ k ∈ keys, scanned.files.get? k = none)
    (hother : ∀ k, k ∉ keys → (after.files.get? k).map own = (scanned.files.get? k).map own) :
    after.Agrees scanned ↔ ∀ k ∈ keys, before.files.get? k = none := by
  constructor
  · intro h k hk
    have hbefore := hkept k hk
    rw [h.files, hleft k hk] at hbefore
    exact Option.map_eq_none_iff.mp hbefore.symm
  · intro h
    refine hafter.agrees hscanned (Dict.ext_get? fun k => ?_)
    rw [Dict.get?_mapValues, Dict.get?_mapValues]
    by_cases hk : k ∈ keys
    · rw [hkept k hk, h k hk, hleft k hk]
    · exact hother k hk

end Snapshot

/-- A refresh of all files that succeeds names in its errors files that it found and could not read. What was known of them stays,
and so do their templates. While no digests collide and no keys are shared, a scan knows nothing of these files and the same of all
others, so the refresh agrees with it exactly when nothing was known of these files before. -/
theorem Run.refresh_preserves_unreadable {report : RefreshReport} {state : ProjectState} (h : Run root (m :: past))
    (hw : OnlyManagersWrite root (m :: past)) (hrefresh : (m.project root).refresh now none m.state = (.ok report, state)) :
    ∃ before mid found after scanned, (m.project root).obtain now false m.state = (.ok before, mid) ∧
      (m.project root).discover mid.files = .ok found ∧ (m.project root).scan now mid.files = .ok scanned ∧
      state.snapshot = some after ∧
      (∀ e ∈ report.errors, after.Preserves before e.path ∧
        ∃ q ∈ found, Path.key root q = e.path ∧ FileMetadata.read mid.files e.path q = .error e) ∧
      (CollisionFree root (m.between root now none :: m :: past) → Project.KeysApart root found →
        (∀ e ∈ report.errors, scanned.files.get? e.path = none) ∧
        (∀ k, k ∉ report.errors.map (·.path) → (after.files.get? k).map own = (scanned.files.get? k).map own) ∧
        (after.Agrees scanned ↔ ∀ e ∈ report.errors, before.files.get? e.path = none)) := by
  obtain ⟨before, mid, found, after, r, ho, hd, hr, hs, hmemory, -, herrors⟩ := Project.refresh_eq_ok hrefresh
  have hr : r = (m.project root).lookAt true found mid.files before := hr
  have hscan : (m.project root).scan now mid.files = .ok (.ofFiles root now (Project.scanned root mid.files found)) :=
    Project.scan_eq_ok.mpr ⟨found, hd, rfl⟩
  have hconsistent : after.IsConsistent root := by
    have hbefore : before.IsConsistent root := (Snapshot.IsConsistent.isInvariant root).obtain h hw trivial ho
    rw [hs, hr]
    exact hbefore.refresh
  have hunread : ∀ e ∈ report.errors, (after.files.get? e.path).map own = (before.files.get? e.path).map own ∧
      ∃ q ∈ found, Path.key root q = e.path ∧ FileMetadata.read mid.files e.path q = .error e := by
    intro e he
    rw [herrors, hr] at he
    obtain ⟨hget, hq⟩ := Project.get?_lookAt_of_error he
    refine ⟨?_, hq⟩
    rw [hs, Snapshot.own_get?_withFiles, hr, hget]
  refine ⟨before, mid, found, after, _, ho, hd, hscan, hmemory,
    fun e he => ⟨hconsistent.preserves (hunread e he).1, (hunread e he).2⟩, fun hhash hkeys => ?_⟩
  -- What a refresh keeps of a file that it can read is what was read at some moment, so the digest decides.
  have hmid : (m.between root now none).state = mid := congrArg Prod.snd ho
  have hbefore : before.IsSound root (m.between root now none :: m :: past) := by
    have hsub : m :: past ⊆ m.between root now none :: m :: past := List.subset_cons_self _ _
    exact ((Snapshot.IsSound.isInvariant root).obtain h hw (hhash.mono hsub) ho).mono hsub
  have hleft : ∀ e ∈ report.errors,
      (Snapshot.ofFiles root now (Project.scanned root mid.files found)).files.get? e.path = none := by
    intro e he
    obtain ⟨q, hq, hkey, hread⟩ := (hunread e he).2
    exact Project.get?_ofFiles_scanned_of_error hkeys hq hkey hread
  have hother : ∀ k, k ∉ report.errors.map (·.path) → (after.files.get? k).map own =
      ((Snapshot.ofFiles root now (Project.scanned root mid.files found)).files.get? k).map own := by
    intro k hk
    rw [herrors, hr] at hk
    subst hmid
    rw [Project.own_get?_ofFiles_scanned, hs, Snapshot.own_get?_withFiles, hr]
    exact own_get?_lookAt hhash List.mem_cons_self hbefore hd hkeys hk
  refine ⟨hleft, hother, ?_⟩
  have hagrees := Snapshot.IsDerived.agrees_iff hconsistent.isDerived (Snapshot.isDerived_withFiles _ _ _)
    (List.forall_mem_map.mpr fun e he => (hunread e he).1) (List.forall_mem_map.mpr hleft) hother
  exact hagrees.trans List.forall_mem_map

/-! ## A file that is no longer text -/

def singleRebuilt : Moment := (single "a.md").after (((single "a.md").project ⟨"/p"⟩).rebuild 7 (single "a.md").state)

/-- A byte that no text has stands in the place of the file, whose template is still in memory. -/
def garbled : Moment where
  options := singleRebuilt.options
  state := { singleRebuilt.state with files := singleRebuilt.state.files.put ["a.md", "p"] (.file ⟨#[0xff]⟩ 8) }

/-- What is computed about the run and about a refresh at its end. -/
@[mk_iff] structure GarbledChecks : Prop where
  stores : ((single "a.md").state.files.readText ((single "a.md").project ⟨"/p"⟩).cachePath).toOption = none
  isFinished : singleRebuilt.isFinished = true
  place : ∀ t ∈ [garbled.state.files, singleRebuilt.state.files],
    (t.locate true (singleRebuilt.project ⟨"/p"⟩).cachePath).toOption = some ["metadata.json", ".cache", ".mdck", "p"]
  texts : ∀ a ∈ [garbled.between ⟨"/p"⟩ 9 none, garbled, singleRebuilt, single "a.md"], ∀ q ∈ a.looked ⟨"/p"⟩,
    ∀ c ∈ (a.state.files.readText q).toOption, c ∈ [":::template\x7bid=\"x\"\x7d\n:::\n"]
  discover : ((garbled.project ⟨"/p"⟩).discover garbled.state.files).toOption = some [⟨"/p/a.md"⟩]
  known : garbled.state.snapshot.map (·.files.contains "a.md") = some true
  errors : ((garbled.project ⟨"/p"⟩).refresh 9 none garbled.state).1.toOption.map (·.errors) =
    some [⟨"a.md", "stream did not contain valid UTF-8"⟩]
  after : ((garbled.project ⟨"/p"⟩).refresh 9 none garbled.state).2.snapshot.map (·.files.contains "a.md") = some true

theorem garbledChecks : GarbledChecks := by
  rw [garbledChecks_iff]
  decide +kernel

def garbledMoments : List Moment := [garbled, singleRebuilt, single "a.md"]

theorem run_garbled : Run ⟨"/p"⟩ garbledMoments := .edit _ (.rebuild 7 (.start _ _))

theorem onlyManagersWrite_garbled : OnlyManagersWrite ⟨"/p"⟩ garbledMoments := by
  have hplace := fun t ht => eq_ok_of_toOption (garbledChecks.place t ht)
  have hlookup : garbled.state.files.lookup? ["metadata.json", ".cache", ".mdck", "p"] =
      singleRebuilt.state.files.lookup? ["metadata.json", ".cache", ".mdck", "p"] := FileTree.lookup?_put_of_ne (by decide)
  exact .edit (.finished garbledChecks.isFinished (.start garbledChecks.stores)) (FileTree.readText_congr
    (hplace garbled.state.files (.head _)) (hplace singleRebuilt.state.files (.tail _ (.head _))) hlookup)

theorem collisionFree_garbled : CollisionFree ⟨"/p"⟩ (garbled.between ⟨"/p"⟩ 9 none :: garbledMoments) :=
  .of_texts _ garbledChecks.texts (List.nodup_singleton _)

theorem keysApart_garbled (hd : (garbled.project ⟨"/p"⟩).discover garbled.state.files = .ok found) :
    Project.KeysApart ⟨"/p"⟩ found := by
  cases (eq_ok_of_toOption garbledChecks.discover).symm.trans hd
  intro q hq r hr _
  rw [List.mem_singleton.mp hq, List.mem_singleton.mp hr]

/-- The entry of the file stays, so the refresh does not agree with a scan. -/
theorem Run.refresh_preserves_unreadable_garbled : ∃ report state before after scanned,
    (garbled.project ⟨"/p"⟩).refresh 9 none garbled.state = (.ok report, state) ∧
    (garbled.project ⟨"/p"⟩).scan 9 garbled.state.files = .ok scanned ∧ garbled.state.snapshot = some before ∧
    state.snapshot = some after ∧ report.errors = [⟨"a.md", "stream did not contain valid UTF-8"⟩] ∧
    after.Preserves before "a.md" ∧ scanned.files.get? "a.md" = none ∧ ¬ after.Agrees scanned := by
  obtain ⟨report, hr, herrors⟩ := exists_eq_ok garbledChecks.errors
  obtain ⟨s, hs, hknown⟩ := Option.map_eq_some_iff.mp garbledChecks.known
  have hrefresh : (garbled.project ⟨"/p"⟩).refresh 9 none garbled.state = (.ok report, _) := Prod.ext hr rfl
  obtain ⟨before, mid, found, after, scanned, ho, hd, hscan, hmemory, hpreserved, hscanned⟩ :=
    run_garbled.refresh_preserves_unreadable onlyManagersWrite_garbled hrefresh
  have hobtain : (garbled.project ⟨"/p"⟩).obtain 9 false garbled.state = (.ok s, garbled.state) := by
    rw [Project.obtain, hs]
  cases ho.symm.trans hobtain
  obtain ⟨hleft, -, hagrees⟩ := hscanned collisionFree_garbled (keysApart_garbled hd)
  rw [herrors, List.forall_mem_singleton] at hpreserved hleft hagrees
  refine ⟨report, _, s, after, scanned, hrefresh, hscan, hs, hmemory, herrors, hpreserved.1, hleft, fun h => ?_⟩
  rw [Dict.contains, hagrees.mp h] at hknown
  cases hknown

/-- A refresh does not always treat a file that it cannot read as a rebuild does. -/
theorem not_refresh_drops_unreadable :
    ¬ ∀ (root : Path) (m : Moment) (past : List Moment) (now : Nat) (report : RefreshReport) (state : ProjectState),
      Run root (m :: past) → OnlyManagersWrite root (m :: past) →
      CollisionFree root (m.between root now none :: m :: past) →
      (∀ found, (m.project root).discover m.state.files = .ok found → Project.KeysApart root found) →
      (m.project root).refresh now none m.state = (.ok report, state) →
      ∃ s, state.snapshot = some s ∧ ∀ e ∈ report.errors, s.files.get? e.path = none ∧
        ∀ x t, s.templates.get? x = some t → t.file ≠ e.path := by
  intro h
  obtain ⟨report, hr, herrors⟩ := exists_eq_ok garbledChecks.errors
  obtain ⟨s, hs, hdropped⟩ := h ⟨"/p"⟩ garbled _ 9 report _ run_garbled onlyManagersWrite_garbled collisionFree_garbled
    (fun _ => keysApart_garbled) (Prod.ext hr rfl)
  have hafter := garbledChecks.after
  rw [herrors, List.forall_mem_singleton] at hdropped
  rw [hs, Option.map_some, Dict.contains, hdropped.1] at hafter
  cases hafter

end MarkdownTemplates
