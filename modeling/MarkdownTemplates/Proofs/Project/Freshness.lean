import MarkdownTemplates.Proofs.Project.Incremental

/-!
# A loaded snapshot is fresh

A new manager that finds a snapshot in the file uses it only when it says what a scan would find. The fingerprints of the
tracked files are compared one by one; that no other file is tracked follows from the number of files.
-/

namespace MarkdownTemplates

open FileMetadata (own)

variable {root : Path} {moments past : List Moment} {m a : Moment} {now : Nat} {s : Snapshot} {found : List Path} {k : String}
  {q : Path} {new : FileMetadata}

namespace Project

variable {p : Project} {files : FileTree}

theorem info_of_isUnchanged (h : p.isUnchanged files k new = true) :
    ∃ i, files.info (p.root.join ⟨k⟩) = .ok i ∧ new.size = i.size ∧ new.modified = i.modified := by
  unfold isUnchanged at h
  split at h
  · rename_i i hi
    simp only [FileMetadata.matchesFingerprint, Bool.and_eq_true, beq_iff_eq] at h
    exact ⟨i, hi, h.1, h.2⟩
  · cases h

theorem isFaithful_iff : p.isFaithful files s = true ↔
    (∀ k new, s.files.get? k = some new → p.isUnchanged files k new = true) ∧
      ∃ found, p.discover files = .ok found ∧ (∀ q ∈ found, s.files.contains (Path.key p.root q) = true) ∧
        found.length = s.files.size := by
  rw [isFaithful, Bool.and_eq_true, List.all_eq_true]
  refine and_congr ⟨fun h k new hk => h (k, new) (Dict.mem_entries.mpr hk), fun h e he => h e.1 e.2 (Dict.mem_entries.mp he)⟩ ?_
  cases p.discover files with
  | error e => simp
  | ok found => simp

theorem load?_of_persisted (hp : p.persisted files = .ok (some s)) (hc : p.isCurrent now s = true)
    (hf : p.isFaithful files s = true) : p.load? now true files = some s := by
  unfold load?
  rw [hp]
  exact if_pos (by rw [hc, hf]; rfl)

theorem get_of_load? {state : ProjectState} (hn : state.snapshot = none) (hl : p.load? now true state.files = some s) :
    p.get now state = (.ok s, { state with snapshot := some s }) := by
  rcases obtain_cases p now true state with ⟨s', hs, -⟩ | ⟨s', -, hl', ho⟩ | ⟨-, hl', -⟩
  · cases hn.symm.trans hs
  · cases hl.symm.trans hl'
    exact ho
  · cases hl.symm.trans hl'

/-- The files of a faithful snapshot are those that are discovered, since there are as many of them. -/
theorem contains_iff_of_length (hn : (found.map (Path.key root)).Nodup)
    (hc : ∀ q ∈ found, s.files.contains (Path.key root q) = true) (hl : found.length = s.files.size) (k : String) :
    s.files.contains k = true ↔ ∃ q ∈ found, Path.key root q = k := by
  have hsub : found.map (Path.key root) ⊆ s.files.keys := by
    intro k hk
    obtain ⟨q, hq, rfl⟩ := List.mem_map.mp hk
    exact Dict.mem_keys.mpr (hc q hq)
  have hlength : s.files.keys.length ≤ (found.map (Path.key root)).length := by
    rw [Dict.keys, List.length_map, List.length_map, hl, Dict.size]
  have hperm := (hn.subperm hsub).perm_of_length_le hlength
  rw [← Dict.mem_keys, ← hperm.mem_iff, List.mem_map]

end Project

/-- What a sound snapshot says about a file that still looks as it did is what is read from it. -/
theorem read_of_isUnchanged (hm : m ∈ moments) (hf : FingerprintsFaithful root moments) (hk : KeysLeadBack root moments)
    (hr : Recorded root moments k new) (hu : (m.project root).isUnchanged m.state.files k new = true)
    (hq : m.LooksAt root q) (hkey : Path.key root q = k) : FileMetadata.read m.state.files k q = .ok new.own := by
  obtain ⟨a, ha, q', hq', hkey', hread⟩ := hr
  have hback : root.join ⟨k⟩ = q := hkey ▸ hk m hm q hq
  have hsame : q' = q := by rw [← hk a ha q' hq', hkey', hback]
  subst hsame
  obtain ⟨i, c, hi, hc, hown⟩ := FileMetadata.read_eq_ok.mp hread
  obtain ⟨j, hj, hsize, hmodified⟩ := Project.info_of_isUnchanged hu
  rw [Moment.project_root, hback] at hj
  obtain ⟨-, -, hsize', hmodified'⟩ := FileMetadata.ofContent_eq k c i.size i.modified
  rw [hown] at hsize' hmodified'
  have hs : i.size = j.size := hsize'.symm.trans hsize
  have ht : i.modified = j.modified := hmodified'.symm.trans hmodified
  have hbytes := hf a ha m hm q' i j hq' hq hi hj hs ht
  have htext : m.state.files.readText q' = .ok c := by rw [← hc, FileTree.readText, FileTree.readText, hbytes]
  exact FileMetadata.read_eq_ok.mpr ⟨j, c, hj, htext, by rw [← hs, ← ht, hown]⟩

/-- A sound snapshot that is faithful says what a scan finds. -/
theorem own_of_isFaithful (hm : m ∈ moments) (hf : FingerprintsFaithful root moments) (hk : KeysLeadBack root moments)
    (hs : s.IsSound root moments) (hd : (m.project root).discover m.state.files = .ok found)
    (hn : (found.map (Path.key root)).Nodup) (h : (m.project root).isFaithful m.state.files s = true) :
    s.files.mapValues (fun _ => own) = Project.scanned root m.state.files found := by
  obtain ⟨hu, found', hd', hc, hl⟩ := Project.isFaithful_iff.mp h
  cases hd.symm.trans hd'
  have hiff := Project.contains_iff_of_length hn hc hl
  have happart : Project.KeysApart root found := fun q hq r hr he => List.inj_on_of_nodup_map hn hq hr he
  refine Dict.ext_get? fun k => ?_
  rw [Dict.get?_mapValues]
  cases hg : s.files.get? k with
  | none =>
    have hno : ∀ q ∈ found, Path.key root q ≠ k := by
      intro q hq hkey
      obtain ⟨new, hnew⟩ := Dict.contains_iff.mp ((hiff k).mpr ⟨q, hq, hkey⟩)
      cases hg.symm.trans hnew
    rw [Project.get?_scanned_of_notMem hno, Option.map_none]
  | some new =>
    obtain ⟨q, hq, rfl⟩ := (hiff k).mp (Dict.contains_iff.mpr ⟨new, hg⟩)
    have hread := read_of_isUnchanged hm hf hk (hs.recorded _ new hg) (hu _ new hg) (.inr ⟨found, hd, hq⟩) rfl
    rw [Project.get?_scanned happart hq, hread]
    rfl

/-- A snapshot that is loaded agrees with a scan. -/
theorem agrees_of_load (hm : m ∈ moments) (hf : FingerprintsFaithful root moments) (hk : KeysLeadBack root moments)
    (hn : ∀ found, (m.project root).discover m.state.files = .ok found → (found.map (Path.key root)).Nodup)
    (hs : m.Keeps root fun s => s.IsSound root moments) (h : (m.project root).load? now true m.state.files = some s) :
    ∃ s', (m.project root).scan now m.state.files = .ok s' ∧ s.Agrees s' := by
  obtain ⟨hp, hfaithful⟩ := Project.persisted_of_load? h
  obtain ⟨-, found, hd, -⟩ := Project.isFaithful_iff.mp (hfaithful rfl)
  have hsound : s.IsSound root moments := hs.persisted hp
  refine ⟨_, Project.scan_eq_ok.mpr ⟨found, hd, rfl⟩, ?_⟩
  refine hsound.isDerived.agrees (Snapshot.isDerived_withFiles _ _ _) ?_
  rw [own_of_isFaithful hm hf hk hsound hd (hn found hd) (hfaithful rfl)]
  exact (Project.own_ofFiles_scanned _ _ _ _).symm

/-- Whether a new manager loads the snapshot or makes it anew, it has the one that a rebuild would make, and it fails only when a
rebuild fails. A snapshot is loaded only when its files are those that are discovered. -/
theorem get_agrees_with_rebuild (hrun : Run root (m :: past)) (hnew : m.state.snapshot = none)
    (hwrite : OnlyManagersWrite root (m :: past)) (hhash : CollisionFree root (m :: past))
    (hfiles : FingerprintsFaithful root (m :: past)) (hback : KeysLeadBack root (m :: past))
    (hkeys : ∀ found, (m.project root).discover m.state.files = .ok found → (found.map (Path.key root)).Nodup) :
    (∀ e state, (m.project root).get now m.state = (.error e, state) →
      (m.project root).rebuild now m.state = (.error e, state)) ∧
    (∀ s state, (m.project root).get now m.state = (.ok s, state) →
      (∃ s', (m.project root).scan now m.state.files = .ok s' ∧ s.Agrees s') ∧
        ∀ now' s' state', (m.project root).rebuild now' m.state = (.ok s', state') → s.Agrees s') ∧
    ∀ s, (m.project root).load? now true m.state.files = some s →
      ∃ found, (m.project root).discover m.state.files = .ok found ∧
        ∀ k, s.files.contains k = true ↔ ∃ q ∈ found, Path.key root q = k := by
  have hsound : m.Keeps root fun s => s.IsSound root (m :: past) := hrun.isSound hwrite hhash m List.mem_cons_self
  refine ⟨fun e state hget => ?_, fun s state hget => ?_, fun s hload => ?_⟩
  · rcases Project.obtain_cases (m.project root) now true m.state with ⟨s, hs, -⟩ | ⟨s, -, -, ho⟩ | ⟨-, -, ho⟩
    · cases hnew.symm.trans hs
    · cases (ho.symm.trans hget)
    · exact ho.symm.trans hget
  · have hscan : ∃ s', (m.project root).scan now m.state.files = .ok s' ∧ s.Agrees s' := by
      rcases Project.obtain_cases (m.project root) now true m.state with ⟨s', hs, -⟩ | ⟨s', -, hl, ho⟩ | ⟨-, -, ho⟩
      · cases hnew.symm.trans hs
      · cases ho.symm.trans hget
        exact agrees_of_load List.mem_cons_self hfiles hback hkeys hsound hl
      · exact ⟨s, (Project.rebuild_eq_ok (ho.symm.trans hget)).1, rfl, rfl, rfl⟩
    refine ⟨hscan, fun now' s' state' hrebuild => ?_⟩
    obtain ⟨s'', hs'', hagrees⟩ := hscan
    exact hagrees.trans (Project.agrees_of_scan hs'' (Project.rebuild_eq_ok hrebuild).1)
  · obtain ⟨-, hfaithful⟩ := Project.persisted_of_load? hload
    obtain ⟨-, found, hd, hc, hl⟩ := Project.isFaithful_iff.mp (hfaithful rfl)
    exact ⟨found, hd, Project.contains_iff_of_length (hkeys found hd) hc hl⟩

/-! ## A snapshot that is loaded -/

/-- A new manager in the project with one file. -/
def reopened : Moment where
  options := rebuilt.options
  state := { files := rebuilt.state.files }

theorem run_reopened : Run ⟨"/p"⟩ [reopened, rebuilt, withFile] := .manager _ (.rebuild 7 (.start _ _))

/-- The new manager loads the snapshot. -/
theorem get_agrees_with_rebuild_reopened : ∃ s, rebuilt.state.snapshot = some s ∧
    (reopened.project ⟨"/p"⟩).get 8 reopened.state = (.ok s, { reopened.state with snapshot := some s }) ∧
      ∃ s', (reopened.project ⟨"/p"⟩).scan 8 reopened.state.files = .ok s' ∧ s.Agrees s' := by
  obtain ⟨hok, hlinks, htexts, hbytes, hback, hkeys⟩ :
      ((withFile.project ⟨"/p"⟩).rebuild 7 withFile.state).1.toOption.map
        (fun s => s.isStorable && (reopened.project ⟨"/p"⟩).isCurrent 8 s &&
          (reopened.project ⟨"/p"⟩).isFaithful reopened.state.files s) = some true ∧
      (∀ e ∈ withFile.state.files.entries.entries, FileTree.isLink e.2 = false) ∧
      (∀ a ∈ [reopened, rebuilt, withFile], ∀ q ∈ a.looked ⟨"/p"⟩, ∀ c ∈ (a.state.files.readText q).toOption, c ∈ [""]) ∧
      (∀ a ∈ [reopened, rebuilt, withFile], ∀ q ∈ a.looked ⟨"/p"⟩,
        (a.state.files.readBytes q).toOption = some .empty) ∧
      (∀ a ∈ [reopened, rebuilt, withFile], ∀ q ∈ a.looked ⟨"/p"⟩, Path.join ⟨"/p"⟩ ⟨Path.key ⟨"/p"⟩ q⟩ = q) ∧
      ∀ found ∈ ((reopened.project ⟨"/p"⟩).discover reopened.state.files).toOption,
        (found.map (Path.key ⟨"/p"⟩)).Nodup := by
    decide +kernel
  obtain ⟨s, hr, hs⟩ := exists_eq_ok hok
  rw [Bool.and_eq_true, Bool.and_eq_true] at hs
  obtain ⟨-, hsave, hmemory⟩ := Project.rebuild_eq_ok (Prod.ext hr rfl)
  have hp : (reopened.project ⟨"/p"⟩).persisted reopened.state.files = .ok (some s) :=
    Project.persisted_save hsave (Project.noLinks_of_isLinkFree (FileTree.isLinkFree_of_entries hlinks) 7) hs.1.1
  have hget : (reopened.project ⟨"/p"⟩).get 8 reopened.state = (.ok s, { reopened.state with snapshot := some s }) :=
    Project.get_of_load? rfl (Project.load?_of_persisted hp hs.1.2 hs.2)
  obtain ⟨-, hagrees, -⟩ := get_agrees_with_rebuild run_reopened rfl
    ⟨fun _ text ht => ⟨rebuilt, List.mem_cons_self, ht⟩, onlyManagersWrite_rebuilt⟩
    (.of_texts [""] htexts (by decide +kernel))
    (by
      intro a ha b hb q i j hq hq' _ _ _ _
      rw [eq_ok_of_toOption (hbytes a ha q (Moment.looksAt_iff.mp hq)),
        eq_ok_of_toOption (hbytes b hb q (Moment.looksAt_iff.mp hq'))])
    (fun a ha q hq => hback a ha q (Moment.looksAt_iff.mp hq))
    (fun found hd => hkeys found (by rw [hd]; rfl))
  exact ⟨s, hmemory, hget, (hagrees s _ hget).1⟩

/-! ## Files with the same key -/

def twinsProject : Project where
  root := ⟨"/p"⟩
  options := { exclude := ["a?b.md"] }

/-- Two files have the same key. Only the first one is discovered. -/
def twins : Moment where
  options := twinsProject.options
  state := { files := ⟨.ofList [("/p", .directory), ("/p/a", .directory), ("/p/a/b.md", .file " ".toUTF8 5),
    ("/p/a\\b.md", .file "\n".toUTF8 5)]⟩ }

def twinsRebuilt : Moment := twins.after ((twins.project ⟨"/p"⟩).rebuild 7 twins.state)

def twinsBetween : Moment := twinsRebuilt.between ⟨"/p"⟩ 9 (some [⟨"a\\b.md"⟩])

/-- A manager has been told to look at the second file. -/
def twinsRefreshed : Moment :=
  twinsRebuilt.after ((twinsRebuilt.project ⟨"/p"⟩).refresh 9 (some [⟨"a\\b.md"⟩]) twinsRebuilt.state)

def twinsReopened : Moment where
  options := twinsProject.options
  state := { files := twinsRefreshed.state.files }

def twinsMoments : List Moment := [twinsReopened, twinsRefreshed, twinsBetween, twinsRebuilt, twins]

def twinsTrees : List FileTree := [twins.state.files, twinsRebuilt.state.files, twinsRefreshed.state.files]

theorem run_twins : Run ⟨"/p"⟩ twinsMoments := .manager _ (.refresh 9 _ (.rebuild 7 (.start _ _)))

-- Projects are not compared through the moments: that would compare all files of these.
theorem project_twinsReopened : twinsReopened.project ⟨"/p"⟩ = twinsProject := rfl

theorem project_twinsRebuilt : twinsRebuilt.project ⟨"/p"⟩ = twinsProject := rfl

/-- What is computed about the run. -/
@[mk_iff] structure TwinsChecks : Prop where
  isFinished : ∀ a ∈ [twinsRefreshed, twinsBetween, twinsRebuilt], a.isFinished = true
  memory : twinsRebuilt.state.snapshot.isSome = true
  stores : (twins.state.files.readText (twins.project ⟨"/p"⟩).cachePath).toOption = none
  isLink : ∀ t ∈ twinsTrees, ∀ e ∈ t.entries.entries, FileTree.isLink e.2 = false
  times : twinsTrees.Pairwise fun t t' =>
    ∀ e ∈ t.entries.entries, ∀ e' ∈ t'.entries.entries, e.1 = e'.1 → FileTree.areToldApart e.2 e'.2 = true
  texts : ∀ a ∈ twinsMoments, ∀ q ∈ a.looked ⟨"/p"⟩, ∀ c ∈ (a.state.files.readText q).toOption, c ∈ [" ", "\n"]
  keys : ∀ a ∈ twinsMoments, ∀ found ∈ ((a.project ⟨"/p"⟩).discover a.state.files).toOption,
    (found.map (Path.key ⟨"/p"⟩)).Nodup ∧ ∀ q ∈ found, Path.join ⟨"/p"⟩ ⟨Path.key ⟨"/p"⟩ q⟩ = q
  loads : twinsRefreshed.state.snapshot.map (fun s => s.isStorable && twinsProject.isCurrent 10 s &&
    twinsProject.isFaithful twinsReopened.state.files s) = some true
  stale : twinsRefreshed.state.snapshot.map (fun s => (s.files.get? "a/b.md").map (·.hash)) ≠
    some (some (contentHash " "))
  fresh : ((twinsReopened.project ⟨"/p"⟩).rebuild 10 twinsReopened.state).1.toOption.map
    (fun s => (s.files.get? "a/b.md").map (·.hash)) = some (some (contentHash " "))

theorem twinsChecks : TwinsChecks := by
  -- All is decided at once, so that the kernel evaluates each moment only once.
  rw [twinsChecks_iff]
  decide +kernel

theorem onlyManagersWrite_twins : OnlyManagersWrite ⟨"/p"⟩ twinsMoments := by
  have hnot : ∀ a ∈ [twinsRefreshed, twinsBetween, twinsRebuilt], a.isFinished ≠ false :=
    fun a ha hf => absurd ((twinsChecks.isFinished a ha).symm.trans hf) (by simp)
  refine ⟨fun _ text ht => ⟨twinsRefreshed, List.mem_cons_self, ht⟩, fun hf => absurd hf (hnot _ (by simp)),
    fun hf => absurd hf (hnot _ (by simp)), fun hf => absurd hf (hnot _ (by simp)), fun _ text ht => ?_, trivial⟩
  have hnone := twinsChecks.stores
  rw [show twins.state.files.readText (twins.project ⟨"/p"⟩).cachePath = .ok text from ht] at hnone
  cases hnone

/-- Files that change have other times afterwards. -/
theorem fingerprintsTell_twins : ∀ a ∈ twinsMoments, ∀ b ∈ twinsMoments, a.state.files.FingerprintsTell b.state.files := by
  have hpair : twinsTrees.Pairwise FileTree.FingerprintsTell := twinsChecks.times.imp_of_mem fun ht ht' =>
    FileTree.fingerprintsTell_of_times (FileTree.isLinkFree_of_entries (twinsChecks.isLink _ ht))
      (FileTree.isLinkFree_of_entries (twinsChecks.isLink _ ht'))
  obtain ⟨s, hs⟩ := Option.isSome_iff_exists.mp twinsChecks.memory
  have hfiles : ∀ a ∈ twinsMoments, a.state.files ∈ twinsTrees := by
    intro a ha
    simp only [twinsMoments, List.mem_cons, List.not_mem_nil, or_false] at ha
    rcases ha with rfl | rfl | rfl | rfl | rfl
    · exact .tail _ (.tail _ (.head _))
    · exact .tail _ (.tail _ (.head _))
    · rw [twinsBetween, Moment.state_between hs]
      exact .tail _ (.head _)
    · exact .tail _ (.head _)
    · exact .head _
  intro a ha b hb
  exact hpair.forall_of_forall (fun t _ => .refl t) (hfiles a ha) (hfiles b hb)

theorem get_twins : ∃ s, twinsRefreshed.state.snapshot = some s ∧
    twinsProject.get 10 twinsReopened.state = (.ok s, { twinsReopened.state with snapshot := some s }) := by
  obtain ⟨s₀, hs₀⟩ := Option.isSome_iff_exists.mp twinsChecks.memory
  have hlinks : twinsBetween.state.files.IsLinkFree := by
    rw [twinsBetween, Moment.state_between hs₀]
    exact FileTree.isLinkFree_of_entries (twinsChecks.isLink _ (.tail _ (.head _)))
  obtain ⟨s, hmemory, hsave⟩ := Project.exists_saved twinsRebuilt ⟨"/p"⟩ 9 (some [⟨"a\\b.md"⟩])
    (twinsChecks.isFinished twinsRefreshed (.head _))
  have hmemory : twinsRefreshed.state.snapshot = some s := hmemory
  have hsave : (twinsRebuilt.project ⟨"/p"⟩).save 9 s twinsBetween.state.files = (.ok (), twinsReopened.state.files) := hsave
  rw [project_twinsRebuilt] at hsave
  have hs := twinsChecks.loads
  rw [hmemory, Option.map_some, Option.some.injEq, Bool.and_eq_true, Bool.and_eq_true] at hs
  have hp : twinsProject.persisted twinsReopened.state.files = .ok (some s) :=
    Project.persisted_save hsave (Project.noLinks_of_isLinkFree hlinks 9) hs.1.1
  exact ⟨s, hmemory, Project.get_of_load? rfl (Project.load?_of_persisted hp hs.1.2 hs.2)⟩

/-- The new manager loads a snapshot with the content of the second file under the key of the first one. It is not enough that
the keys of the discovered files lead back to them: those of all files at which managers look must. -/
theorem not_get_agrees_with_rebuild :
    ¬ ∀ (root : Path) (m : Moment) (past : List Moment) (now : Nat) (s : Snapshot) (state : ProjectState),
      Run root (m :: past) → m.state.snapshot = none → OnlyManagersWrite root (m :: past) →
      CollisionFree root (m :: past) →
      (∀ a ∈ m :: past, ∀ b ∈ m :: past, a.state.files.FingerprintsTell b.state.files) →
      (∀ a ∈ m :: past, ∀ found, (a.project root).discover a.state.files = .ok found →
        (found.map (Path.key root)).Nodup ∧ ∀ q ∈ found, root.join ⟨Path.key root q⟩ = q) →
      (m.project root).get now m.state = (.ok s, state) →
      ∀ s' state', (m.project root).rebuild now m.state = (.ok s', state') → s.Agrees s' := by
  intro h
  obtain ⟨s, hmemory, hget⟩ := get_twins
  obtain ⟨s', hs', hhash⟩ := exists_eq_ok twinsChecks.fresh
  have hagrees := h ⟨"/p"⟩ twinsReopened twinsMoments.tail 10 s _ run_twins rfl onlyManagersWrite_twins
    (.of_texts [" ", "\n"] twinsChecks.texts (by decide +kernel)) fingerprintsTell_twins
    (fun a ha found hd => twinsChecks.keys a ha found (by rw [hd]; rfl)) (by rw [project_twinsReopened, hget]) s' _
    (Prod.ext hs' rfl)
  have hstale := twinsChecks.stale
  rw [hmemory, Option.map_some, hagrees.files, hhash] at hstale
  exact hstale rfl

end MarkdownTemplates
