import MarkdownTemplates.Proofs.Project.Soundness

/-!
# A refresh is a rebuild

A refresh of all files that reports no errors leaves the snapshot that a rebuild would make, whatever the managers did before and
however the files changed meanwhile.
-/

namespace MarkdownTemplates

open FileMetadata (own)

variable {root : Path} {moments past : List Moment} {m a : Moment} {now : Nat} {s : Snapshot} {found : List Path} {k : String}

/-- What a refresh of a sound snapshot knows under a key is what a scan finds, unless the file cannot be read. -/
theorem own_get?_lookAt (hc : CollisionFree root moments) (ha : a ∈ moments) (hs : s.IsSound root moments)
    (hd : (a.project root).discover a.state.files = .ok found) (hk : Project.KeysApart root found)
    (he : k ∉ ((a.project root).lookAt true found a.state.files s).errors.map (·.path)) :
    (((a.project root).lookAt true found a.state.files s).files.get? k).map own =
      (Project.scanned root a.state.files found).get? k := by
  rw [Project.lookAt, Moment.project_root] at he ⊢
  by_cases hmem : k ∈ (Project.keyed root found).map Prod.fst
  · obtain ⟨c, hcand, rfl⟩ := List.mem_map.mp hmem
    obtain ⟨q, hf⟩ := Refresh.exists_mem_firstOfKeys hcand
    obtain ⟨q', hq, he'⟩ := List.mem_map.mp (Refresh.mem_of_mem_firstOfKeys hf)
    obtain ⟨hkey, rfl⟩ := Prod.mk.inj he'
    have hscan : (Project.scanned root a.state.files found).get? c.1 =
        (FileMetadata.read a.state.files c.1 q').toOption := hkey ▸ Project.get?_scanned hk hq
    rw [Refresh.get?_run_of_mem hf, hscan]
    cases hr : FileMetadata.read a.state.files c.1 q' with
    | error e =>
      rw [if_neg]
      · rfl
      · -- Otherwise the report would name the file.
        intro hp
        exact he (List.mem_map.mpr ⟨e, Refresh.mem_errors_run.mpr ⟨_, hf, hp, hr⟩, FileMetadata.path_of_read_eq_error hr⟩)
    | ok new =>
      rw [if_pos (FileMetadata.contains_of_read hr), own_looked hc ha (.inr ⟨found, hd, hq⟩) (hs.recorded _) hr]
      rfl
  · have hne : ∀ q ∈ found, Path.key root q ≠ k := by
      rintro q hq rfl
      exact hmem (List.mem_map.mpr ⟨_, List.mem_map_of_mem hq, rfl⟩)
    rw [Refresh.get?_run_of_notMem hmem, Project.get?_scanned_of_notMem hne]
    rfl

theorem own_lookAt (hc : CollisionFree root moments) (ha : a ∈ moments) (hs : s.IsSound root moments)
    (hd : (a.project root).discover a.state.files = .ok found) (hk : Project.KeysApart root found)
    (he : ((a.project root).lookAt true found a.state.files s).errors = []) :
    ((a.project root).lookAt true found a.state.files s).files.mapValues (fun _ => own) =
      Project.scanned root a.state.files found := by
  refine Dict.ext_get? fun k => ?_
  rw [Dict.get?_mapValues]
  exact own_get?_lookAt hc ha hs hd hk (by simp [he])

namespace Project

/-- Are the same files discovered in both trees, and does the same stand in them? -/
structure SameFiles (p : Project) (files files' : FileTree) : Prop where
  discover : p.discover files = p.discover files'
  read : ∀ found, p.discover files = .ok found → ∀ q ∈ found, ∀ k,
    (FileMetadata.read files k q).toOption = (FileMetadata.read files' k q).toOption

theorem SameFiles.refl (p : Project) (files : FileTree) : p.SameFiles files files :=
  ⟨rfl, fun _ _ _ _ _ => rfl⟩

theorem scanned_congr {files files' : FileTree} {l : List Path}
    (h : ∀ q ∈ l, ∀ k, (FileMetadata.read files k q).toOption = (FileMetadata.read files' k q).toOption) :
    scanned root files l = scanned root files' l := by
  refine Dict.ext_get? fun k => ?_
  rw [get?_scanned_eq_foldl, get?_scanned_eq_foldl]
  exact List.foldl_ext _ _ _ fun old q hq => by rw [scannedAt, scannedAt, h q hq k]

end Project

/-- A refresh of all files without errors leaves in memory what a rebuild of the files would find, when the snapshot that it may
have to make first changes nothing about them. The file of the snapshot says the same; it can be read unless links stand in the
way or a number is too large. -/
theorem refresh_agrees_with_rebuild {report : RefreshReport} {state : ProjectState} (hrun : Run root (m :: past))
    (hwrite : OnlyManagersWrite root (m :: past))
    (hhash : CollisionFree root (m.between root now none :: m :: past))
    (hkeys : ∀ found, (m.project root).discover (m.between root now none).state.files = .ok found →
      Project.KeysApart root found)
    (hsame : (m.project root).SameFiles m.state.files (m.between root now none).state.files)
    (hrefresh : (m.project root).refresh now none m.state = (.ok report, state)) (herrors : report.errors = []) :
    ∃ s, state.snapshot = some s ∧
      (∃ s', (m.project root).scan now m.state.files = .ok s' ∧ s.Agrees s') ∧
      (∀ now' s' state', (m.project root).rebuild now' m.state = (.ok s', state') → s.Agrees s') ∧
      (∀ d, (m.project root).persisted state.files = .ok (some d) → d = s) ∧
      (Project.NoLinks (m.between root now none).state.files now → s.isStorable = true →
        (m.project root).persisted state.files = .ok (some s)) := by
  obtain ⟨s₀, mid, found, s, r, ho, hd, hr, hs, hmem, hsave, he⟩ := Project.refresh_eq_ok hrefresh
  have hmid : (m.between root now none).state = mid := congrArg Prod.snd ho
  rw [← hmid] at hd hsave hr
  have hs₀ : s₀.IsSound root (m.between root now none :: m :: past) := by
    have hfinished : (m.between root now none).isFinished = true := congrArg (fun r => r.1.toBool) ho
    have hsound := (Snapshot.IsSound.isInvariant root).between (hrun.isSound hwrite (hhash.mono (List.subset_cons_self _ _)))
      ⟨fun hf => absurd (hfinished.symm.trans hf) (by simp), hwrite⟩
    refine (hsound _ List.mem_cons_self).memory s₀ ?_
    rw [hmid]
    exact Project.snapshot_of_obtain ho
  have hown : s.files.mapValues (fun _ => own) = Project.scanned root m.state.files found := by
    have hd' : (m.project root).discover m.state.files = .ok found := hsame.discover.trans hd
    have herr : ((m.between root now none).project root).lookAt true found (m.between root now none).state.files s₀ = r :=
      hr.symm
    rw [hs, Snapshot.own_withFiles, ← herr, own_lookAt hhash List.mem_cons_self hs₀ hd (hkeys found hd)]
    · exact (Project.scanned_congr (hsame.read found hd')).symm
    · rw [herr, ← he, herrors]
  have hscan : (m.project root).scan now m.state.files =
      .ok (.ofFiles root now (Project.scanned root m.state.files found)) :=
    Project.scan_eq_ok.mpr ⟨found, hsame.discover.trans hd, rfl⟩
  have hagrees : s.Agrees (.ofFiles root now (Project.scanned root m.state.files found)) := by
    refine Snapshot.IsDerived.agrees ?_ (Snapshot.isDerived_withFiles _ _ _) ?_
    · rw [hs]
      exact Snapshot.isDerived_withFiles _ _ _
    · rw [hown, Project.own_ofFiles_scanned]
  refine ⟨s, hmem, ⟨_, hscan, hagrees⟩, fun now' s' state' hrebuild => ?_, fun d hp => ?_, fun hl hst => ?_⟩
  · exact hagrees.trans (Project.agrees_of_scan hscan (Project.rebuild_eq_ok hrebuild).1)
  · exact Project.eq_of_persisted_save hsave hp
  · exact Project.persisted_save hsave hl hst

/-! ## A file that is gone -/

/-- A project with an empty file. -/
def withFile : Moment where
  options := {}
  state := { files := ⟨.ofList [("/p", .directory), ("/p/a.md", .file .empty 5)]⟩ }

def rebuilt : Moment := withFile.after ((withFile.project ⟨"/p"⟩).rebuild 7 withFile.state)

/-- The project after its file has been removed. The snapshot in memory still has the file. -/
def withoutFile : Moment where
  options := rebuilt.options
  state := { rebuilt.state with files := ⟨rebuilt.state.files.entries.erase (Place.text ["a.md", "p"])⟩ }

theorem run_withoutFile : Run ⟨"/p"⟩ [withoutFile, rebuilt, withFile] := .edit _ (.rebuild 7 (.start _ _))

theorem onlyManagersWrite_rebuilt : OnlyManagersWrite ⟨"/p"⟩ [rebuilt, withFile] := by
  obtain ⟨hfinished, hnone⟩ : rebuilt.isFinished = true ∧
      (withFile.state.files.readText (withFile.project ⟨"/p"⟩).cachePath).toOption = none := by
    decide +kernel
  refine ⟨fun hf => absurd (hfinished.symm.trans hf) (by simp), fun _ text ht => ?_, trivial⟩
  rw [show withFile.state.files.readText (withFile.project ⟨"/p"⟩).cachePath = .ok text from ht] at hnone
  cases hnone

theorem onlyManagersWrite_withoutFile : OnlyManagersWrite ⟨"/p"⟩ [withoutFile, rebuilt, withFile] := by
  refine ⟨fun _ text ht => ⟨rebuilt, List.mem_cons_self, ?_⟩, onlyManagersWrite_rebuilt⟩
  refine FileTree.readText_mono (fun q e he => ?_) ht
  change (⟨rebuilt.state.files.entries.erase (Place.text ["a.md", "p"])⟩ : FileTree).lookup? q = some e at he
  rw [FileTree.lookup?_erase] at he
  split_ifs at he with hq
  · rw [hq]
    exact he
  · exact he

/-- A refresh finds that the file is gone. -/
theorem refresh_agrees_with_rebuild_withoutFile : ∃ report state,
    (withoutFile.project ⟨"/p"⟩).refresh 9 none withoutFile.state = (.ok report, state) ∧ report.removed = ["a.md"] ∧
      ∃ s, state.snapshot = some s ∧
        ∃ s', (withoutFile.project ⟨"/p"⟩).scan 9 withoutFile.state.files = .ok s' ∧ s.Agrees s' := by
  obtain ⟨hrefresh, hmemory, hfound, htexts⟩ :
      ((withoutFile.project ⟨"/p"⟩).refresh 9 none withoutFile.state).1.toOption.map
        (fun report => (report.errors, report.removed)) = some ([], ["a.md"]) ∧
      withoutFile.state.snapshot.isSome = true ∧
      ((withoutFile.project ⟨"/p"⟩).discover withoutFile.state.files).toOption = some [] ∧
      ∀ a ∈ [withoutFile.between ⟨"/p"⟩ 9 none, withoutFile, rebuilt, withFile], ∀ q ∈ a.looked ⟨"/p"⟩,
        ∀ c ∈ (a.state.files.readText q).toOption, c ∈ [""] := by
    decide +kernel
  obtain ⟨report, hr, he⟩ := exists_eq_ok hrefresh
  obtain ⟨herrors, hremoved⟩ := Prod.mk.inj he
  obtain ⟨s₀, hs₀⟩ := Option.isSome_iff_exists.mp hmemory
  have hstate : (withoutFile.between ⟨"/p"⟩ 9 none).state = withoutFile.state := Moment.state_between hs₀
  obtain ⟨s, hs, hscan, -⟩ := refresh_agrees_with_rebuild run_withoutFile onlyManagersWrite_withoutFile
    (.of_texts [""] htexts (by decide +kernel))
    (by
      intro found hd
      rw [hstate, eq_ok_of_toOption hfound] at hd
      cases hd
      intro q hq
      cases hq)
    (by
      rw [hstate]
      exact .refl _ _)
    (Prod.ext hr rfl) herrors
  exact ⟨report, _, Prod.ext hr rfl, hremoved, s, hs, hscan⟩

/-! ## A link to the snapshot -/

/-- A project in which only a link stands, to the file that the snapshot will have. -/
def selfLinked : Moment where
  options := {}
  state := { files := ⟨.ofList [("/p", .directory), ("/p/x.md", .link ⟨".mdck/.cache/metadata.json"⟩)]⟩ }

theorem readText_selfLinked (p : Path) (c : String) : selfLinked.state.files.readText p ≠ .ok c := by
  intro hc
  obtain ⟨b, hb, -⟩ := FileTree.readText_eq_ok.mp hc
  have hm : b ∈ ([] : List ByteArray) := FileTree.mem_contents hb
  cases hm

/-- The first refresh writes the snapshot and then finds it behind the link, where a rebuild finds nothing that it can read. A
refresh agrees with a rebuild only when the snapshot that it makes first changes nothing about the files. -/
theorem not_refresh_agrees_with_rebuild :
    ¬ ∀ (root : Path) (m : Moment) (past : List Moment) (now : Nat) (report : RefreshReport) (state : ProjectState),
      Run root (m :: past) → OnlyManagersWrite root (m :: past) →
      (∀ a ∈ m.between root now none :: m :: past, ∀ b ∈ m.between root now none :: m :: past, ∀ p q c d,
        a.state.files.readText p = .ok c → b.state.files.readText q = .ok d → contentHash c = contentHash d → c = d) →
      (∀ a ∈ m.between root now none :: m :: past, ∀ found, (a.project root).discover a.state.files = .ok found →
        Project.KeysApart root found) →
      (m.project root).refresh now none m.state = (.ok report, state) → report.errors = [] →
      ∃ s, state.snapshot = some s ∧
        ∀ s' state', (m.project root).rebuild now m.state = (.ok s', state') → s.Agrees s' := by
  intro h
  obtain ⟨hfound, hcontents, hrebuild, hrefresh, hfiles⟩ :
      (∀ a ∈ [selfLinked.between ⟨"/p"⟩ 7 none, selfLinked],
        ((a.project ⟨"/p"⟩).discover a.state.files).toOption = some [⟨"/p/x.md"⟩]) ∧
      (selfLinked.between ⟨"/p"⟩ 7 none).state.files.contents.length = 1 ∧
      ((selfLinked.project ⟨"/p"⟩).rebuild 7 selfLinked.state).1.toOption.map (·.files.contains "x.md") = some false ∧
      ((selfLinked.project ⟨"/p"⟩).refresh 7 none selfLinked.state).1.toOption.map (·.errors) = some [] ∧
      ((selfLinked.project ⟨"/p"⟩).refresh 7 none selfLinked.state).2.snapshot.map (·.files.contains "x.md") =
        some true := by
    decide +kernel
  obtain ⟨s', hs', hrebuilt⟩ := exists_eq_ok hrebuild
  obtain ⟨report, hr, herrors⟩ := exists_eq_ok hrefresh
  obtain ⟨s, hs, hagrees⟩ := h ⟨"/p"⟩ selfLinked [] 7 report _ (.start _ _)
    ⟨fun _ text ht => absurd ht (readText_selfLinked _ _), trivial⟩
    (by
      intro a ha b hb p q c d hc hd _
      simp only [List.mem_cons, List.not_mem_nil, or_false] at ha hb
      rcases ha with rfl | rfl
      · rcases hb with rfl | rfl
        · exact FileTree.readText_unique hcontents.le hc hd
        · exact absurd hd (readText_selfLinked q d)
      · exact absurd hc (readText_selfLinked p c))
    (by
      intro a ha found hd
      rw [eq_ok_of_toOption (hfound a ha)] at hd
      cases hd
      intro q hq r hr _
      rw [List.mem_singleton.mp hq, List.mem_singleton.mp hr])
    (Prod.ext hr rfl) herrors
  rw [hs, Option.map_some, (hagrees s' _ (Prod.ext hs' rfl)).files, hrebuilt] at hfiles
  cases hfiles

end MarkdownTemplates
