import MarkdownTemplates.Proofs.Project.Refreshing
import MarkdownTemplates.Proofs.Project.Saving
import MarkdownTemplates.Proofs.Project.Scanning

/-!
# Runs of managers

Managers of one project work one after the other, while the files change between their operations. Whatever a snapshot says, in
memory or in its file, a manager has read at some moment of the run.
-/

namespace MarkdownTemplates

/-- A moment of a run, with the options of the manager that is there. -/
structure Moment where
  options : CacheOptions
  state : ProjectState
  /-- Has the manager just finished an operation without an error? -/
  isFinished : Bool := false
  /-- The files at which the manager has been told to look. -/
  targets : List Path := []

namespace Moment

def project (m : Moment) (root : Path) : Project := ⟨root, m.options⟩

theorem project_root (m : Moment) (root : Path) : (m.project root).root = root := rfl

/-- The moment after an operation. -/
def after {α : Type} (m : Moment) (r : Except Failure α × ProjectState) : Moment :=
  { options := m.options, state := r.2, isFinished := r.1.toBool }

/-- The moment at which a refresh has its snapshot and looks at files. -/
def between (m : Moment) (root : Path) (now : Nat) (targets : Option (List Path)) : Moment :=
  { m.after ((m.project root).obtain now false m.state) with
    targets := (targets.getD []).map fun t => (root.join t).normalize }

/-- Is this the text in the file of the snapshot? -/
def Stores (m : Moment) (root : Path) (text : String) : Prop :=
  m.state.files.readText (m.project root).cachePath = .ok text

/-- May the manager look at the file? -/
def LooksAt (m : Moment) (root q : Path) : Prop :=
  q ∈ m.targets ∨ ∃ found, (m.project root).discover m.state.files = .ok found ∧ q ∈ found

/-- The files at which the manager may look. -/
def looked (m : Moment) (root : Path) : List Path :=
  m.targets ++ ((m.project root).discover m.state.files).toOption.getD []

theorem looksAt_iff {m : Moment} {root q : Path} : m.LooksAt root q ↔ q ∈ m.looked root := by
  rw [LooksAt, looked, List.mem_append]
  refine or_congr_right ?_
  cases (m.project root).discover m.state.files <;> simp [Except.toOption]

end Moment

/-- The moments of a run in the project at `root`, last one first. Managers start with nothing in memory. -/
inductive Run (root : Path) : List Moment → Prop
  | start (options : CacheOptions) (files : FileTree) : Run root [{ options, state := { files } }]
  | edit {m : Moment} {past : List Moment} (files : FileTree) : Run root (m :: past) →
      Run root ({ options := m.options, state := { m.state with files } } :: m :: past)
  | manager {m : Moment} {past : List Moment} (options : CacheOptions) : Run root (m :: past) →
      Run root ({ options, state := { files := m.state.files } } :: m :: past)
  | get {m : Moment} {past : List Moment} (now : Nat) : Run root (m :: past) →
      Run root (m.after ((m.project root).get now m.state) :: m :: past)
  | rebuild {m : Moment} {past : List Moment} (now : Nat) : Run root (m :: past) →
      Run root (m.after ((m.project root).rebuild now m.state) :: m :: past)
  | refresh {m : Moment} {past : List Moment} (now : Nat) (targets : Option (List Path)) : Run root (m :: past) →
      Run root (m.after ((m.project root).refresh now targets m.state) :: m.between root now targets :: m :: past)
  | clear {m : Moment} {past : List Moment} : Run root (m :: past) →
      Run root (m.after ((m.project root).clear m.state) :: m :: past)

/-! ## What is assumed of a run -/

/-- Only managers write the file of the snapshot: unless a manager has just finished its work, the file says only what it said at
some earlier moment. -/
def OnlyManagersWrite (root : Path) : List Moment → Prop
  | [] => True
  | m :: past =>
    (m.isFinished = false → ∀ text, m.Stores root text → ∃ a ∈ past, a.Stores root text) ∧ OnlyManagersWrite root past

/-- Different contents of files at which managers look have different digests. -/
def CollisionFree (root : Path) (moments : List Moment) : Prop :=
  ∀ a ∈ moments, ∀ b ∈ moments, ∀ p q c d, a.LooksAt root p → b.LooksAt root q → a.state.files.readText p = .ok c →
    b.state.files.readText q = .ok d → contentHash c = contentHash d → c = d

/-- A file at which managers look has the same content at two moments when its size and time are the same. -/
def FingerprintsFaithful (root : Path) (moments : List Moment) : Prop :=
  ∀ a ∈ moments, ∀ b ∈ moments, ∀ q i j, a.LooksAt root q → b.LooksAt root q → a.state.files.info q = .ok i →
    b.state.files.info q = .ok j → i.size = j.size → i.modified = j.modified →
    a.state.files.readBytes q = b.state.files.readBytes q

/-- The key of a file at which managers look leads back to it. -/
def KeysLeadBack (root : Path) (moments : List Moment) : Prop :=
  ∀ a ∈ moments, ∀ q, a.LooksAt root q → root.join ⟨Path.key root q⟩ = q

/-! ## Snapshots of a run -/

/-- Has a manager read the metadata under the key `k`, but for the errors that concern several files? -/
def Recorded (root : Path) (moments : List Moment) (k : String) (m : FileMetadata) : Prop :=
  ∃ a ∈ moments, ∃ q, a.LooksAt root q ∧ Path.key root q = k ∧ FileMetadata.read a.state.files k q = .ok m.own

/-- Has a manager read everything that the snapshot says about single files, and does the rest follow from it? -/
structure Snapshot.IsSound (s : Snapshot) (root : Path) (moments : List Moment) : Prop where
  isDerived : s.IsDerived
  recorded : ∀ k m, s.files.get? k = some m → Recorded root moments k m

/-- Do the snapshots in memory and in the file have the property? -/
structure Moment.Keeps (m : Moment) (root : Path) (P : Snapshot → Prop) : Prop where
  memory : ∀ s, m.state.snapshot = some s → P s
  stored : ∀ text, m.Stores root text → ∃ s, P s ∧ text = s.encode

namespace OnlyManagersWrite

variable {root : Path} {m : Moment} {past : List Moment}

/-- At the start the file of the snapshot says nothing. -/
theorem start (h : (m.state.files.readText (m.project root).cachePath).toOption = none) : OnlyManagersWrite root [m] := by
  refine ⟨fun _ text ht => ?_, trivial⟩
  rw [show m.state.files.readText (m.project root).cachePath = .ok text from ht] at h
  cases h

/-- A manager that has just finished its work may have written. -/
theorem finished (hf : m.isFinished = true) (h : OnlyManagersWrite root past) : OnlyManagersWrite root (m :: past) :=
  ⟨fun hn => absurd (hf.symm.trans hn) (by simp), h⟩

/-- Other files may change. -/
theorem edit {files : FileTree} (h : OnlyManagersWrite root (m :: past))
    (hsame : files.readText (m.project root).cachePath = m.state.files.readText (m.project root).cachePath) :
    OnlyManagersWrite root ({ options := m.options, state := { m.state with files } } :: m :: past) :=
  ⟨fun _ _ ht => ⟨m, List.mem_cons_self, hsame.symm.trans ht⟩, h⟩

end OnlyManagersWrite

theorem CollisionFree.of_texts {root : Path} {moments : List Moment} (texts : List String)
    (h : ∀ a ∈ moments, ∀ q ∈ a.looked root, ∀ c ∈ (a.state.files.readText q).toOption, c ∈ texts)
    (hn : (texts.map contentHash).Nodup) : CollisionFree root moments := by
  have hmem : ∀ a ∈ moments, ∀ q c, a.LooksAt root q → a.state.files.readText q = .ok c → c ∈ texts :=
    fun a ha q c hq hc => h a ha q (Moment.looksAt_iff.mp hq) c (by rw [hc]; rfl)
  intro a ha b hb p q c d hp hq hc hd he
  exact List.inj_on_of_nodup_map hn (hmem a ha p c hp hc) (hmem b hb q d hq hd) he

section Growth

variable {root : Path} {moments moments' : List Moment}

theorem Recorded.mono {k : String} {m : FileMetadata} (h : Recorded root moments k m) (hs : moments ⊆ moments') :
    Recorded root moments' k m := by
  obtain ⟨a, ha, hr⟩ := h
  exact ⟨a, hs ha, hr⟩

theorem Snapshot.IsSound.mono {s : Snapshot} (h : s.IsSound root moments) (hs : moments ⊆ moments') :
    s.IsSound root moments' :=
  ⟨h.isDerived, fun k m hk => (h.recorded k m hk).mono hs⟩

theorem Moment.Keeps.imp {m : Moment} {P Q : Snapshot → Prop} (h : m.Keeps root P) (hpq : ∀ s, P s → Q s) :
    m.Keeps root Q := by
  refine ⟨fun s hm => hpq s (h.memory s hm), fun text ht => ?_⟩
  obtain ⟨s, hs, rfl⟩ := h.stored text ht
  exact ⟨s, hpq s hs, rfl⟩

theorem CollisionFree.mono (h : CollisionFree root moments') (hs : moments ⊆ moments') : CollisionFree root moments :=
  fun a ha b hb => h a (hs ha) b (hs hb)

end Growth

/-! ## Operations -/

theorem exists_eq_ok {ε α β : Type} {r : Except ε α} {f : α → β} {b : β} (h : r.toOption.map f = some b) :
    ∃ a, r = .ok a ∧ f a = b := by
  cases r with
  | error e => cases h
  | ok a => exact ⟨a, rfl, Option.some.inj h⟩

theorem exists_eq_error {ε α : Type} {r : Except ε α} (h : r.toOption.isNone = true) : ∃ e, r = .error e := by
  cases r with
  | error e => exact ⟨e, rfl⟩
  | ok a => cases h

/-- A refresh of a snapshot in memory changes nothing before it looks at files. -/
theorem Moment.state_between {m : Moment} {root : Path} {now : Nat} {targets : Option (List Path)} {s : Snapshot}
    (h : m.state.snapshot = some s) : (m.between root now targets).state = m.state := by
  simp only [between, after, Project.obtain, h]

namespace Project

variable {p : Project} {now : Nat} {checkFiles : Bool} {state state' : ProjectState} {s : Snapshot} {e : Failure}

theorem rebuild_eq_ok (h : p.rebuild now state = (.ok s, state')) :
    p.scan now state.files = .ok s ∧ p.save now s state.files = (.ok (), state'.files) ∧ state'.snapshot = some s := by
  unfold rebuild at h
  split at h
  · simp at h
  · rename_i s' hs
    split at h
    · simp at h
    · rename_i files hf
      cases h
      exact ⟨hs, hf, rfl⟩

theorem rebuild_of_scan (hscan : p.scan now state.files = .ok s) (hsave : (p.save now s state.files).1.toOption = some ()) :
    p.rebuild now state = (.ok s, { files := (p.save now s state.files).2, snapshot := some s }) := by
  rcases hf : p.save now s state.files with ⟨r, files⟩
  rw [hf] at hsave
  cases eq_ok_of_toOption hsave
  simp only [rebuild, hscan, hf]

/-- A rebuild that fails changes nothing but what saving has left. -/
theorem rebuild_error_cases (h : p.rebuild now state = (.error e, state')) :
    (p.scan now state.files = .error e ∧ state' = state) ∨
      ∃ s files, p.scan now state.files = .ok s ∧ p.save now s state.files = (.error e, files) ∧ state' = { state with files } := by
  unfold rebuild at h
  split at h
  · rename_i hs
    cases h
    exact .inl ⟨hs, rfl⟩
  · rename_i s hs
    split at h
    · rename_i files hf
      cases h
      exact .inr ⟨s, files, hs, hf, rfl⟩
    · simp at h

theorem snapshot_of_rebuild_error (h : p.rebuild now state = (.error e, state')) : state'.snapshot = state.snapshot := by
  rcases rebuild_error_cases h with ⟨-, rfl⟩ | ⟨_, _, -, -, rfl⟩ <;> rfl

theorem obtain_cases (p : Project) (now : Nat) (checkFiles : Bool) (state : ProjectState) :
    (∃ s, state.snapshot = some s ∧ p.obtain now checkFiles state = (.ok s, state)) ∨
      (∃ s, state.snapshot = none ∧ p.load? now checkFiles state.files = some s ∧
        p.obtain now checkFiles state = (.ok s, { state with snapshot := some s })) ∨
      state.snapshot = none ∧ p.load? now checkFiles state.files = none ∧
        p.obtain now checkFiles state = p.rebuild now state := by
  unfold obtain
  cases hs : state.snapshot with
  | some s => exact .inl ⟨s, rfl, rfl⟩
  | none =>
    cases hl : p.load? now checkFiles state.files with
    | some s => exact .inr (.inl ⟨s, rfl, rfl, rfl⟩)
    | none => exact .inr (.inr ⟨rfl, rfl, rfl⟩)

theorem snapshot_of_obtain (h : p.obtain now checkFiles state = (.ok s, state')) : state'.snapshot = some s := by
  rcases obtain_cases p now checkFiles state with ⟨s', hs, ho⟩ | ⟨s', -, -, ho⟩ | ⟨-, -, ho⟩
  · rw [ho] at h
    cases h
    exact hs
  · rw [ho] at h
    cases h
    rfl
  · rw [ho] at h
    exact (rebuild_eq_ok h).2.2

/-- What a refresh looks at, and under which keys. -/
def keyed (root : Path) (candidates : List Path) : List (String × Path) := candidates.map fun q => (Path.key root q, q)

/-- What a refresh of a snapshot finds. -/
def lookAt (p : Project) (areAll : Bool) (candidates : List Path) (files : FileTree) (s : Snapshot) : Refresh :=
  Refresh.run files areAll (keyed p.root candidates) s.files

/-- What a refresh knows under a key it knew before, or it has looked at a file with that key. -/
theorem lookAt_cases {areAll : Bool} {candidates : List Path} {files : FileTree} {k : String} {m : FileMetadata}
    (h : (p.lookAt areAll candidates files s).files.get? k = some m) : s.files.get? k = some m ∨
      ∃ q ∈ candidates, Path.key p.root q = k ∧ Refresh.looked files (k, q) (s.files.get? k) = some m := by
  rw [lookAt] at h
  by_cases hk : k ∈ (keyed p.root candidates).map Prod.fst
  · obtain ⟨c, hcand, rfl⟩ := List.mem_map.mp hk
    obtain ⟨q, hf⟩ := Refresh.exists_mem_firstOfKeys hcand
    obtain ⟨q', hq', he⟩ := List.mem_map.mp (Refresh.mem_of_mem_firstOfKeys hf)
    obtain ⟨hkey, rfl⟩ := Prod.mk.inj he
    rw [Refresh.get?_run_of_mem hf] at h
    split_ifs at h
    exact .inr ⟨q', hq', hkey, h⟩
  · rw [Refresh.get?_run_of_notMem hk] at h
    split_ifs at h
    exact .inl h

section Refresh

variable {targets : Option (List Path)} {mid : ProjectState} {candidates : List Path} {report : RefreshReport}
  {r : Except Failure RefreshReport}

theorem refresh_of_obtain_error (ho : p.obtain now false state = (.error e, mid)) :
    p.refresh now targets state = (.error e, mid) := by
  rw [refresh, ho]

theorem refresh_of_candidates_error (ho : p.obtain now false state = (.ok s, mid))
    (hc : p.candidates targets mid.files = .error e) :
    p.refresh now targets state = (.error e, { mid with snapshot := none }) := by
  simp only [refresh, ho, hc]

theorem refresh_of_candidates (ho : p.obtain now false state = (.ok s, mid))
    (hc : p.candidates targets mid.files = .ok candidates) :
    ∃ s' r, r = p.lookAt targets.isNone candidates mid.files s ∧ s' = s.withFiles now r.files ∧
      p.refresh now targets state = ((p.save now s' mid.files).1.map fun _ => r.report s'.dependencies,
        { files := (p.save now s' mid.files).2, snapshot := some s' }) := by
  refine ⟨_, _, rfl, rfl, ?_⟩
  simp only [refresh, ho, hc]
  rfl

/-- What a refresh that succeeds has done. -/
theorem refresh_eq_report (h : p.refresh now targets state = (.ok report, state')) :
    ∃ s mid candidates s' r, p.obtain now false state = (.ok s, mid) ∧ p.candidates targets mid.files = .ok candidates ∧
      r = p.lookAt targets.isNone candidates mid.files s ∧ s' = s.withFiles now r.files ∧ state'.snapshot = some s' ∧
      p.save now s' mid.files = (.ok (), state'.files) ∧ report = r.report s'.dependencies := by
  rcases ho : p.obtain now false state with ⟨e | s, mid⟩
  · simp [refresh_of_obtain_error ho] at h
  · cases hc : p.candidates targets mid.files with
    | error e => simp [refresh_of_candidates_error ho hc] at h
    | ok candidates =>
      obtain ⟨s', r, hr, hs', hrefresh⟩ := refresh_of_candidates ho hc
      refine ⟨s, mid, candidates, s', r, rfl, hc, hr, hs', ?_⟩
      rcases hsave : p.save now s' mid.files with ⟨e | _, files⟩
      · simp [hrefresh, hsave, Except.map] at h
      · simp only [hrefresh, hsave, Except.map, Prod.mk.injEq, Except.ok.injEq] at h
        obtain ⟨rfl, rfl⟩ := h
        exact ⟨rfl, rfl, rfl⟩

theorem refresh_eq_ok (h : p.refresh now targets state = (.ok report, state')) :
    ∃ s mid candidates s' r, p.obtain now false state = (.ok s, mid) ∧ p.candidates targets mid.files = .ok candidates ∧
      r = p.lookAt targets.isNone candidates mid.files s ∧ s' = s.withFiles now r.files ∧ state'.snapshot = some s' ∧
      p.save now s' mid.files = (.ok (), state'.files) ∧ report.errors = r.errors := by
  obtain ⟨s, mid, candidates, s', r, ho, hc, hr, hs', hmemory, hsave, hreport⟩ := refresh_eq_report h
  exact ⟨s, mid, candidates, s', r, ho, hc, hr, hs', hmemory, hsave, congrArg RefreshReport.errors hreport⟩

/-- After a refresh that succeeds the snapshot in memory is the one that has been saved. -/
theorem exists_saved (m : Moment) (root : Path) (now : Nat) (targets : Option (List Path))
    (h : (m.after ((m.project root).refresh now targets m.state)).isFinished = true) :
    ∃ s, (m.after ((m.project root).refresh now targets m.state)).state.snapshot = some s ∧
      (m.project root).save now s (m.between root now targets).state.files =
        (.ok (), (m.after ((m.project root).refresh now targets m.state)).state.files) := by
  rcases hr : (m.project root).refresh now targets m.state with ⟨e | report, state⟩
  · rw [hr] at h
    cases h
  · obtain ⟨_, mid, _, s, _, ho, -, -, -, hmemory, hsave, -⟩ := refresh_eq_ok hr
    have hmid : (m.between root now targets).state = mid := congrArg Prod.snd ho
    exact ⟨s, hmemory, by rw [hmid]; exact hsave⟩

/-- The snapshot in memory after a refresh is the one from before it, none at all, or the refreshed one. -/
theorem snapshot_of_refresh (h : p.refresh now targets state = (r, state')) (hs : state'.snapshot = some s) :
    (∃ e, p.obtain now false state = (.error e, state')) ∨
      ∃ s₀ mid candidates, p.obtain now false state = (.ok s₀, mid) ∧ p.candidates targets mid.files = .ok candidates ∧
        s = s₀.withFiles now (p.lookAt targets.isNone candidates mid.files s₀).files := by
  rcases ho : p.obtain now false state with ⟨e | s₀, mid⟩
  · rw [refresh_of_obtain_error ho] at h
    exact .inl ⟨e, by rw [(Prod.mk.inj h).2]⟩
  · right
    cases hc : p.candidates targets mid.files with
    | error e =>
      rw [refresh_of_candidates_error ho hc] at h
      obtain ⟨-, rfl⟩ := Prod.mk.inj h
      cases hs
    | ok candidates =>
      obtain ⟨s', r, rfl, rfl, hrefresh⟩ := refresh_of_candidates ho hc
      rw [hrefresh] at h
      obtain ⟨-, rfl⟩ := Prod.mk.inj h
      exact ⟨s₀, mid, candidates, rfl, hc, (Option.some.inj hs).symm⟩

end Refresh

theorem clear_cases (p : Project) (state : ProjectState) :
    (∃ files, state.files.remove p.cachePath = .ok files ∧ p.clear state = (.ok (), { files })) ∨
      ∃ r, p.clear state = (r, { files := state.files }) := by
  unfold clear
  split
  · exact .inl ⟨_, ‹_›, rfl⟩
  · exact .inr ⟨_, rfl⟩
  · exact .inr ⟨_, rfl⟩

theorem persisted_of_load? {files : FileTree} (h : p.load? now checkFiles files = some s) :
    p.persisted files = .ok (some s) ∧ (checkFiles = true → p.isFaithful files s = true) := by
  unfold load? at h
  split at h
  · rename_i s' hp
    split at h
    · rename_i hc
      cases h
      refine ⟨hp, fun ht => ?_⟩
      simp only [Bool.and_eq_true, Bool.or_eq_true, Bool.not_eq_true'] at hc
      exact hc.2.resolve_left (by simp [ht])
    · cases h
  · cases h

end Project

end MarkdownTemplates
