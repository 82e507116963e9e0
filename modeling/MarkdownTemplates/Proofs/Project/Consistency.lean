import MarkdownTemplates.Proofs.Project.Incremental

/-!
# Snapshots are consistent

Whatever managers do and however the files change, a snapshot belongs to its project, each of its entries stands under its own key
and tells its definitions apart, and the rest follows from the entries. What is saved is what is in memory.
-/

namespace MarkdownTemplates

namespace FileMetadata

variable {m m' : FileMetadata} {k key content : String} {files : FileTree} {q : Path}

/-- Does the metadata stand under its own key, and has it one definition in the file for each id that has one, and lists it? -/
structure IsConsistent (m : FileMetadata) (key : String) : Prop where
  path : m.path = key
  nodup : (m.definitions.map (·.id)).Nodup
  listed : ∀ t ∈ m.definitions, t.id ∈ m.templateIds
  file : ∀ t ∈ m.definitions, t.file = key

theorem isConsistent_own : m.own.IsConsistent k ↔ m.IsConsistent k :=
  ⟨fun h => ⟨h.path, h.nodup, h.listed, h.file⟩, fun h => ⟨h.path, h.nodup, h.listed, h.file⟩⟩

namespace IsConsistent

theorem withFingerprint (h : m.IsConsistent k) (size modified : Nat) : (m.withFingerprint size modified).IsConsistent k :=
  ⟨h.path, h.nodup, h.listed, h.file⟩

theorem addOccurrence (h : m.IsConsistent k) (o : Occurrence) : (m.addOccurrence o).IsConsistent k := by
  unfold FileMetadata.addOccurrence
  cases o.id with
  | none => exact ⟨h.path, h.nodup, h.listed, h.file⟩
  | some id =>
    have hlisted : ∀ t ∈ m.definitions, t.id ∈ m.templateIds ++ [id] := fun t ht => List.mem_append_left _ (h.listed t ht)
    dsimp only
    cases hf : m.definitions.find? (·.id = id) with
    | some first => exact ⟨h.path, h.nodup, hlisted, h.file⟩
    | none =>
      have hnew : id ∉ m.definitions.map (·.id) := by
        rw [List.mem_map]
        rintro ⟨t, ht, hid⟩
        simpa [hid] using List.find?_eq_none.mp hf t ht
      refine ⟨h.path, ?_, fun t ht => ?_, fun t ht => ?_⟩
      · rw [List.map_append]
        exact h.nodup.append (List.nodup_singleton id) (List.disjoint_singleton.mpr hnew)
      · rcases List.mem_append.mp ht with ht | ht
        · exact hlisted t ht
        · rw [List.mem_singleton.mp ht]
          exact List.mem_append_right _ (List.mem_singleton_self id)
      · rcases List.mem_append.mp ht with ht | ht
        · exact h.file t ht
        · rw [List.mem_singleton.mp ht]
          exact h.path

theorem ofContent (key content : String) (size modified : Nat) :
    (FileMetadata.ofContent key content size modified).IsConsistent key := by
  have h : ∀ (l : List Occurrence) (m : FileMetadata), m.IsConsistent key →
      (l.foldl FileMetadata.addOccurrence m).IsConsistent key := by
    intro l
    induction l with
    | nil => exact fun _ hm => hm
    | cons o l ih => exact fun m hm => ih _ (hm.addOccurrence o)
  exact h _ _ ⟨rfl, List.nodup_nil, by simp, by simp⟩

theorem read (h : FileMetadata.read files k q = .ok m) : m.IsConsistent k := by
  obtain ⟨info, content, -, -, rfl⟩ := read_eq_ok.mp h
  exact ofContent k content info.size info.modified

/-- A look at a file replaces an entry or gives it another fingerprint. -/
theorem looked {old : Option FileMetadata} (ho : ∀ o, old = some o → o.IsConsistent k)
    (h : Refresh.looked files (k, q) old = some m) : m.IsConsistent k := by
  unfold Refresh.looked at h
  cases hr : FileMetadata.read files k q with
  | error e => exact ho m (by simpa [hr] using h)
  | ok new =>
    simp only [hr] at h
    cases old with
    | none => exact Option.some.inj h ▸ read hr
    | some o =>
      simp only [Option.some.injEq] at h
      split_ifs at h
      · exact h ▸ (ho o rfl).withFingerprint _ _
      · exact h ▸ read hr

end IsConsistent

end FileMetadata

namespace Snapshot

variable {root : Path} {s : Snapshot} {now : Nat} {files : Dict FileMetadata}

/-- Does the snapshot belong to the project at `root`, are its entries consistent, and does the rest follow from them? -/
structure IsConsistent (s : Snapshot) (root : Path) : Prop where
  version : s.version = snapshotVersion
  root : s.root = root
  files : ∀ k m, s.files.get? k = some m → m.IsConsistent k
  isDerived : s.IsDerived

namespace IsConsistent

theorem withFiles (hv : s.version = snapshotVersion) (hr : s.root = root)
    (hf : ∀ k m, files.get? k = some m → m.IsConsistent k) : (s.withFiles now files).IsConsistent root := by
  refine ⟨hv, hr, fun k m hm => ?_, isDerived_withFiles s now files⟩
  obtain ⟨m', hm', ho⟩ := exists_of_get?_withFiles hm
  rw [← FileMetadata.isConsistent_own, ← ho, FileMetadata.isConsistent_own]
  exact hf k m' hm'

theorem scan {p : Project} {files : FileTree} (h : p.scan now files = .ok s) : s.IsConsistent p.root := by
  obtain ⟨found, -, rfl⟩ := Project.scan_eq_ok.mp h
  refine withFiles rfl rfl fun k m hm => ?_
  obtain ⟨q, -, -, hr⟩ := Project.exists_read_of_scanned hm
  exact .read hr

theorem refresh {p : Project} {areAll : Bool} {candidates : List Path} {files : FileTree} (h : s.IsConsistent root) :
    (s.withFiles now (p.lookAt areAll candidates files s).files).IsConsistent root := by
  refine withFiles h.version h.root fun k m hm => ?_
  rcases Project.lookAt_cases hm with hm | ⟨q, -, -, hl⟩
  · exact h.files k m hm
  · exact .looked (h.files k) hl

/-- Nothing needs to be assumed of the files. -/
theorem isInvariant (root : Path) : IsInvariant root (fun _ => True) fun _ s => s.IsConsistent root where
  assumed_of_subset _ _ := trivial
  mono _ h := h
  scan _ h := scan h
  refresh _ _ _ h := h.refresh

end IsConsistent

end Snapshot

variable {root : Path} {moments : List Moment}

/-- All snapshots of a run in which only managers write are consistent, those in memory and those in the file. After a rebuild or a
refresh that succeeds, the snapshot in memory is the one that has been saved. -/
theorem Run.consistent_and_saved (h : Run root moments) (hw : OnlyManagersWrite root moments) (m : Moment) (hm : m ∈ moments) :
    (∀ s, m.state.snapshot = some s → s.IsConsistent root) ∧
    (∀ s, (m.project root).persisted m.state.files = .ok (some s) → s.IsConsistent root) ∧
    (∀ now s state, (m.project root).rebuild now m.state = (.ok s, state) →
      state.snapshot = some s ∧ (m.project root).IsSaved now s m.state.files state.files) ∧
    ∀ now targets report state, (m.project root).refresh now targets m.state = (.ok report, state) →
      ∃ s, state.snapshot = some s ∧
        (m.project root).IsSaved now s (m.between root now targets).state.files state.files := by
  have hkeeps := (Snapshot.IsConsistent.isInvariant root).keeps h hw trivial m hm
  refine ⟨hkeeps.memory, fun s hs => hkeeps.persisted hs, fun now s state hr => ?_, fun now targets report state hr => ?_⟩
  · obtain ⟨-, hsave, hmemory⟩ := Project.rebuild_eq_ok hr
    exact ⟨hmemory, Project.isSaved_of_save hsave⟩
  · have hfinished : (m.after ((m.project root).refresh now targets m.state)).isFinished = true := by
      rw [hr]
      rfl
    obtain ⟨s, hmemory, hsave⟩ := Project.exists_saved m root now targets hfinished
    rw [hr] at hmemory hsave
    exact ⟨s, hmemory, Project.isSaved_of_save hsave⟩

/-- The first rebuild of a project with one file. -/
theorem consistent_and_saved_rebuilt : ∃ s, rebuilt.state.snapshot = some s ∧ s.IsConsistent ⟨"/p"⟩ ∧
    (rebuilt.project ⟨"/p"⟩).persisted rebuilt.state.files = .ok (some s) := by
  obtain ⟨hrebuild, hdir, hlinks⟩ :
      ((withFile.project ⟨"/p"⟩).rebuild 7 withFile.state).1.toOption.map (·.isStorable) = some true ∧
      rebuilt.state.files.isDirectory (rebuilt.project ⟨"/p"⟩).cacheDir = true ∧
      ∀ e ∈ withFile.state.files.entries.entries, FileTree.isLink e.2 = false := by
    decide +kernel
  obtain ⟨s, hs, hstorable⟩ := exists_eq_ok hrebuild
  have hrun : Run ⟨"/p"⟩ [rebuilt, withFile] := .rebuild 7 (.start _ _)
  obtain ⟨hmemory, -⟩ := hrun.consistent_and_saved onlyManagersWrite_rebuilt rebuilt List.mem_cons_self
  obtain ⟨-, -, hsaved, -⟩ := hrun.consistent_and_saved onlyManagersWrite_rebuilt withFile (by simp)
  obtain ⟨hs, hsaved⟩ := hsaved 7 s _ (Prod.ext hs rfl)
  exact ⟨s, hs, hmemory s hs, hsaved.persisted hdir (fun dir x => FileTree.isLinkFree_of_entries hlinks _ x) hstorable⟩

/-! ## Links that are in the way -/

/-- What is computed about a project whose first rebuild writes a snapshot that cannot be read. -/
@[mk_iff] structure LosesSnapshot (m : Moment) : Prop where
  stores : (m.state.files.readText (m.project ⟨"/p"⟩).cachePath).toOption = none
  rebuilds : ((m.project ⟨"/p"⟩).rebuild 7 m.state).1.toOption.map (·.isStorable) = some true
  persisted : ((m.project ⟨"/p"⟩).persisted ((m.project ⟨"/p"⟩).rebuild 7 m.state).2.files).toOption = none

theorem LosesSnapshot.exists_rebuild {m : Moment} (h : LosesSnapshot m) : OnlyManagersWrite ⟨"/p"⟩ [m] ∧
    ∃ s, (m.project ⟨"/p"⟩).rebuild 7 m.state = (.ok s, ((m.project ⟨"/p"⟩).rebuild 7 m.state).2) ∧ s.isStorable = true ∧
      (m.project ⟨"/p"⟩).persisted ((m.project ⟨"/p"⟩).rebuild 7 m.state).2.files ≠ .ok (some s) := by
  obtain ⟨s, hs, hstorable⟩ := exists_eq_ok h.rebuilds
  refine ⟨⟨fun _ text ht => ?_, trivial⟩, s, Prod.ext hs rfl, hstorable, fun hp => ?_⟩
  · have hnone := h.stores
    rw [show m.state.files.readText (m.project ⟨"/p"⟩).cachePath = .ok text from ht] at hnone
    cases hnone
  · have hnone := h.persisted
    rw [hp] at hnone
    cases hnone

/-- A project whose cache directory has the name of the snapshot, and is a link back to the project. -/
def selfNamed : Moment where
  options := { dir := ⟨"metadata.json"⟩ }
  state := { files := ⟨.ofList [("/p", .directory), ("/p/metadata.json", .link ⟨"."⟩)]⟩ }

/-- A project in which a link to the snapshot stands where the temporary file will be written. -/
def temporaryLinked : Moment where
  options := { dir := ⟨"."⟩ }
  state := { files := ⟨.ofList [("/p", .directory), ("/p/metadata.json.tmp-7", .link ⟨"metadata.json"⟩)]⟩ }

/-- The snapshot takes the place of the link through which its own path leads. And a link at the temporary file takes the place of
the snapshot to which it leads, although the cache directory is there afterwards. -/
theorem not_persisted_of_rebuild :
    (¬ ∀ (root : Path) (m : Moment) (past : List Moment) (now : Nat) (s : Snapshot) (state : ProjectState),
      Run root (m :: past) → OnlyManagersWrite root (m :: past) →
      (m.project root).rebuild now m.state = (.ok s, state) → s.isStorable = true →
      (m.project root).persisted state.files = .ok (some s)) ∧
    ¬ ∀ (root : Path) (m : Moment) (past : List Moment) (now : Nat) (s : Snapshot) (state : ProjectState),
      Run root (m :: past) → OnlyManagersWrite root (m :: past) →
      (m.project root).rebuild now m.state = (.ok s, state) → s.isStorable = true →
      state.files.isDirectory (m.project root).cacheDir = true →
      (m.project root).persisted state.files = .ok (some s) := by
  obtain ⟨hnamed, htemporary, hdir⟩ : LosesSnapshot selfNamed ∧ LosesSnapshot temporaryLinked ∧
      ((temporaryLinked.project ⟨"/p"⟩).rebuild 7 temporaryLinked.state).2.files.isDirectory
        (temporaryLinked.project ⟨"/p"⟩).cacheDir = true := by
    rw [losesSnapshot_iff, losesSnapshot_iff]
    decide +kernel
  constructor
  · intro h
    obtain ⟨hw, s, hs, hstorable, hlost⟩ := hnamed.exists_rebuild
    exact hlost (h ⟨"/p"⟩ selfNamed [] 7 s _ (.start _ _) hw hs hstorable)
  · intro h
    obtain ⟨hw, s, hs, hstorable, hlost⟩ := htemporary.exists_rebuild
    exact hlost (h ⟨"/p"⟩ temporaryLinked [] 7 s _ (.start _ _) hw hs hstorable hdir)

end MarkdownTemplates
