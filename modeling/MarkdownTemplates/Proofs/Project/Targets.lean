import MarkdownTemplates.Proofs.Project.Incremental

/-!
# Refreshes of some files

A refresh of some files changes what is known of these and nothing else. So while the files stay as they are, what several such
refreshes leave depends only on which files they looked at: each of these is known as it is, every other one as it was, and the
rest follows from that. When all files are among them that had changed, this is what a rebuild finds, in whichever order and
however often they were looked at.
-/

namespace MarkdownTemplates

open FileMetadata (own)

variable {root : Path} {moments past : List Moment} {m a : Moment} {now : Nat} {s s' : Snapshot} {found candidates aims : List Path}
  {files : FileTree} {k : String} {q : Path}

namespace Refresh

/-- A look at a file depends only on what can be read. -/
theorem looked_congr {t : FileTree} {c : String × Path}
    (h : (FileMetadata.read files c.1 c.2).toOption = (FileMetadata.read t c.1 c.2).toOption) (old : Option FileMetadata) :
    looked files c old = looked t c old := by
  unfold looked
  cases hr : FileMetadata.read files c.1 c.2 <;> cases hr' : FileMetadata.read t c.1 c.2 <;>
    simp_all [Except.toOption]

end Refresh

namespace Project

/-- The file to which a target leads. -/
def aim (p : Project) (target : Path) : Path := (p.root.join target).normalize

/-- Do two trees agree on the files of the project, and on which of some other files are there? -/
structure SameAt (p : Project) (files files' : FileTree) (aims : List Path) : Prop extends p.SameFiles files files' where
  contains : ∀ q ∈ aims, files.contains q = files'.contains q

theorem mem_firstOfKeys_keyed (hk : KeysApart root candidates) (hq : q ∈ candidates) :
    (Path.key root q, q) ∈ Refresh.firstOfKeys (keyed root candidates) := by
  obtain ⟨q', hf⟩ := Refresh.exists_mem_firstOfKeys (List.mem_map_of_mem hq : (Path.key root q, q) ∈ keyed root candidates)
  obtain ⟨r, hr, he⟩ := List.mem_map.mp (Refresh.mem_of_mem_firstOfKeys hf)
  obtain ⟨hkey, rfl⟩ := Prod.mk.inj he
  rwa [hk r hr q hq hkey] at hf

end Project

/-! ## One refresh -/

/-- Is `s'` like `s`, but with what can be read in the files of these paths? The errors that concern several files are left out:
they follow from the rest. -/
structure Snapshot.IsUpdate (s s' : Snapshot) (root : Path) (files : FileTree) (aims : List Path) : Prop where
  aimed : ∀ q ∈ aims, (s'.files.get? (Path.key root q)).map own = (FileMetadata.read files (Path.key root q) q).toOption
  other : ∀ k, (∀ q ∈ aims, Path.key root q ≠ k) → (s'.files.get? k).map own = (s.files.get? k).map own

section Step

variable (hc : CollisionFree root moments) (ha : a ∈ moments) (hd : (a.project root).discover a.state.files = .ok found)
  (hq : ∀ q ∈ candidates, q ∈ found ∨ a.state.files.contains q = false)
  (hsame : (a.project root).SameAt a.state.files files candidates)
include hd hq hsame

/-- A file that can be read has been discovered, and the same can be read in it. -/
theorem read_of_sameAt {md : FileMetadata} (hmem : q ∈ candidates) (hr : FileMetadata.read files k q = .ok md) :
    q ∈ found ∧ FileMetadata.read a.state.files k q = .ok md := by
  have hin : q ∈ found := by
    refine (hq q hmem).resolve_right fun hno => ?_
    rw [hsame.contains q hmem, FileMetadata.contains_of_read hr] at hno
    cases hno
  exact ⟨hin, eq_ok_of_toOption ((hsame.read found hd q hin k).trans (by rw [hr]; rfl))⟩

theorem toOption_read_of_sameAt (hmem : q ∈ candidates) :
    (FileMetadata.read files k q).toOption = (FileMetadata.read a.state.files k q).toOption := by
  rcases hq q hmem with hin | hno
  · exact (hsame.read found hd q hin k).symm
  · have hfails : ∀ {t : FileTree}, t.contains q = false → (FileMetadata.read t k q).toOption = none := by
      intro t ht
      cases hr : FileMetadata.read t k q with
      | error e => rfl
      | ok md =>
        rw [FileMetadata.contains_of_read hr] at ht
        cases ht
    rw [hfails hno, hfails ((hsame.contains q hmem).symm.trans hno)]

include hc ha

/-- A refresh of a sound snapshot while the files are as they were gives a sound one. -/
theorem Snapshot.IsSound.refresh_sameAt (hs : s.IsSound root moments) :
    (s.withFiles now ((a.project root).lookAt false candidates files s).files).IsSound root moments := by
  refine withFiles fun k md hm => ?_
  rcases Project.lookAt_cases hm with hm | ⟨q, hmem, hk, hl⟩
  · exact hs.recorded k md hm
  · cases hr : FileMetadata.read files k q with
    | error e =>
      rw [Refresh.looked_of_error hr] at hl
      exact hs.recorded k md hl
    | ok new =>
      obtain ⟨hin, hr'⟩ := read_of_sameAt hd hq hsame hmem hr
      rw [Refresh.looked_congr (t := a.state.files) (by rw [hr, hr'])] at hl
      exact Recorded.looked hc ha (.inr ⟨found, hd, hin⟩) hk (hs.recorded k) hl

/-- A refresh without errors brings the files at which it looks up to date, and leaves the others. -/
theorem Snapshot.isUpdate_refresh (hs : s.IsSound root moments) (hk : Project.KeysApart root candidates)
    (he : ((a.project root).lookAt false candidates files s).errors = []) :
    s.IsUpdate (s.withFiles now ((a.project root).lookAt false candidates files s).files) root a.state.files candidates := by
  have hown : ∀ k, ((s.withFiles now ((a.project root).lookAt false candidates files s).files).files.get? k).map own =
      (((a.project root).lookAt false candidates files s).files.get? k).map own := own_get?_withFiles _ _ _
  refine ⟨fun q hmem => ?_, fun k hother => ?_⟩
  · have hf := Project.mem_firstOfKeys_keyed hk hmem
    rw [hown, ← toOption_read_of_sameAt hd hq hsame hmem, Project.lookAt, Moment.project_root, Refresh.get?_run_of_mem hf]
    by_cases hp : files.contains q = true
    · obtain ⟨new, hr⟩ := Refresh.exists_read_of_run he hf hp
      obtain ⟨hin, hr'⟩ := read_of_sameAt hd hq hsame hmem hr
      rw [if_pos hp, Refresh.looked_congr (t := a.state.files) (by rw [hr, hr']),
        own_looked hc ha (.inr ⟨found, hd, hin⟩) (hs.recorded _) hr', hr]
      rfl
    · rw [if_neg hp]
      cases hr : FileMetadata.read files (Path.key root q) q with
      | error e => rfl
      | ok new => exact absurd (FileMetadata.contains_of_read hr) hp
  · have hnot : k ∉ (Project.keyed root candidates).map Prod.fst := by
      rw [Project.keyed, List.map_map]
      intro hmem
      obtain ⟨q, hq, hkey⟩ := List.mem_map.mp hmem
      exact hother q hq hkey
    rw [hown, Project.lookAt, Moment.project_root, Refresh.get?_run_of_notMem hnot]
    rfl

end Step

/-! ## Several refreshes -/

namespace Snapshot.IsUpdate

theorem refl (s : Snapshot) (root : Path) (files : FileTree) : s.IsUpdate s root files [] :=
  ⟨by simp, fun _ _ => rfl⟩

/-- The second update leaves what the first one has brought up to date, or does the same again. -/
theorem append {s₁ s₂ : Snapshot} {aims aims' : List Path} (h : s.IsUpdate s₁ root files aims)
    (h' : s₁.IsUpdate s₂ root files aims') (hk : Project.KeysApart root (aims ++ aims')) :
    s.IsUpdate s₂ root files (aims ++ aims') := by
  refine ⟨fun q hq => ?_, fun k hother => ?_⟩
  · by_cases hlater : ∃ r ∈ aims', Path.key root r = Path.key root q
    · obtain ⟨r, hr, hkey⟩ := hlater
      obtain rfl := hk r (List.mem_append_right _ hr) q hq hkey
      exact h'.aimed r hr
    · simp only [not_exists, not_and] at hlater
      have hfirst : q ∈ aims := (List.mem_append.mp hq).resolve_right fun hq => hlater q hq rfl
      rw [h'.other _ hlater, h.aimed q hfirst]
  · rw [h'.other k fun q hq => hother q (List.mem_append_right _ hq), h.other k fun q hq => hother q (List.mem_append_left _ hq)]

end Snapshot.IsUpdate

namespace Project

/-- Refreshes with these lists of targets, one after the other and without errors, while the files are as in `files`. -/
inductive Refreshes (p : Project) (files : FileTree) (aims : List Path) : List (List Path) → ProjectState → ProjectState → Prop
  | start {state : ProjectState} (h : p.SameAt files state.files aims) : Refreshes p files aims [] state state
  | next {lists : List (List Path)} {first mid state : ProjectState} {targets : List Path} {now : Nat} {report : RefreshReport}
      (hfirst : Refreshes p files aims lists first mid) (hrefresh : p.refresh now (some targets) mid = (.ok report, state))
      (herrors : report.errors = []) (h : p.SameAt files state.files aims) : Refreshes p files aims (lists ++ [targets]) first state

variable {p : Project} {lists : List (List Path)} {first final : ProjectState}

theorem SameAt.mono {files' : FileTree} {aims' : List Path} (h : p.SameAt files files' aims') (hs : aims ⊆ aims') :
    p.SameAt files files' aims :=
  ⟨h.toSameFiles, fun q hq => h.contains q (hs hq)⟩

theorem SameAt.of_reads {files' : FileTree} (hd : p.discover files = .ok found) (hd' : p.discover files' = .ok found)
    (hi : ∀ q ∈ found, ∃ i, files.info q = .ok i ∧ files'.info q = .ok i)
    (ht : ∀ q ∈ found, ∃ t, files.readText q = .ok t ∧ files'.readText q = .ok t)
    (hc : ∀ q ∈ aims, files.contains q = files'.contains q) : p.SameAt files files' aims where
  discover := hd.trans hd'.symm
  read := by
    intro found' hfound q hq k
    obtain rfl := Except.ok.inj (hfound.symm.trans hd)
    obtain ⟨i, hi, hi'⟩ := hi q hq
    obtain ⟨t, ht, ht'⟩ := ht q hq
    rw [FileMetadata.read, FileMetadata.read, hi, hi', ht, ht']
  contains := hc

theorem Refreshes.sameAt (h : p.Refreshes files aims lists first final) : p.SameAt files final.files aims := by
  cases h with
  | start h => exact h
  | next _ _ _ h => exact h

theorem KeysApart.mono {aims' : List Path} (h : KeysApart root aims') (hs : aims ⊆ aims') : KeysApart root aims :=
  fun q hq r hr => h q (hs hq) r (hs hr)

/-- A refresh of a snapshot in memory. -/
theorem refresh_eq_of_memory {state state' : ProjectState} {targets : List Path} {report : RefreshReport}
    (hm : state.snapshot = some s) (h : p.refresh now (some targets) state = (.ok report, state')) :
    report.errors = (p.lookAt false (targets.map p.aim) state.files s).errors ∧
      state'.snapshot = some (s.withFiles now (p.lookAt false (targets.map p.aim) state.files s).files) := by
  obtain ⟨s₀, mid, _, s', r, ho, hcand, rfl, rfl, hmemory, -, he⟩ := refresh_eq_ok h
  obtain ⟨rfl, rfl⟩ : s = s₀ ∧ state = mid := by simpa [obtain, hm] using ho
  obtain rfl := Except.ok.inj hcand
  exact ⟨he, hmemory⟩

/-- What refreshes of a sound snapshot leave, as long as the targets are files of the project or gone. -/
theorem Refreshes.isUpdate (hc : CollisionFree root moments) (ha : a ∈ moments)
    (hd : (a.project root).discover a.state.files = .ok found) (hq : ∀ q ∈ aims, q ∈ found ∨ a.state.files.contains q = false)
    (hk : KeysApart root aims) (h : (a.project root).Refreshes a.state.files aims lists first final)
    (hl : lists.flatten.map (a.project root).aim ⊆ aims) (hm : first.snapshot = some s) (hs : s.IsSound root moments) :
    ∃ s', final.snapshot = some s' ∧ s'.IsSound root moments ∧
      s.IsUpdate s' root a.state.files (lists.flatten.map (a.project root).aim) := by
  induction h with
  | start _ => exact ⟨s, hm, hs, .refl s root _⟩
  | @next lists first mid state targets now report hfirst hrefresh herrors _ ih =>
    rw [List.flatten_append, List.map_append, List.flatten_singleton] at hl ⊢
    obtain ⟨s₁, hm₁, hs₁, hu₁⟩ := ih (List.Subset.trans (List.subset_append_left _ _) hl) hm
    have hlast : targets.map (a.project root).aim ⊆ aims := List.Subset.trans (List.subset_append_right _ _) hl
    obtain ⟨he, hm₂⟩ := refresh_eq_of_memory hm₁ hrefresh
    have hq' : ∀ q ∈ targets.map (a.project root).aim, q ∈ found ∨ a.state.files.contains q = false :=
      fun q hmem => hq q (hlast hmem)
    have hsame := hfirst.sameAt.mono hlast
    refine ⟨_, hm₂, hs₁.refresh_sameAt hc ha hd hq' hsame, hu₁.append ?_ (hk.mono hl)⟩
    exact Snapshot.isUpdate_refresh hc ha hd hq' hsame hs₁ (hk.mono hlast) (he ▸ herrors)

/-- What a scan finds under the key of a file of the project, or of one that is gone. -/
theorem get?_scanned_of_apart (hk : KeysApart root (found ++ aims)) (hmem : q ∈ aims)
    (hq : q ∈ found ∨ files.contains q = false) :
    (scanned root files found).get? (Path.key root q) = (FileMetadata.read files (Path.key root q) q).toOption := by
  by_cases hin : q ∈ found
  · exact get?_scanned (hk.mono (List.subset_append_left _ _)) hin
  · have hne : ∀ r ∈ found, Path.key root r ≠ Path.key root q := by
      intro r hr he
      exact hin (hk r (List.mem_append_left _ hr) q (List.mem_append_right _ hmem) he ▸ hr)
    rw [get?_scanned_of_notMem hne]
    cases hr : FileMetadata.read files (Path.key root q) q with
    | error e => rfl
    | ok md =>
      have hno := hq.resolve_left hin
      rw [FileMetadata.contains_of_read hr] at hno
      cases hno

end Project

/-- While the files stay as they are, refreshes with targets that are files of the project or gone leave these files as a rebuild
finds them, and what is known of other files as it was; the errors that concern several files, the templates and the graph are
those that follow. When all files are among them of which something else was known than a rebuild finds, the snapshot is what a
rebuild makes, in whichever order and groups the files were given. -/
theorem Run.targeted_refreshes_compose {lists : List (List Path)} {start final : ProjectState} (hrun : Run root (m :: past))
    (hwrite : OnlyManagersWrite root (m :: past)) (hhash : CollisionFree root (m.between root now none :: m :: past))
    (hobtain : (m.project root).obtain now false m.state = (.ok s, start))
    (hfound : (m.project root).discover start.files = .ok found)
    (htargets : ∀ q ∈ lists.flatten.map (m.project root).aim, q ∈ found ∨ start.files.contains q = false)
    (hkeys : Project.KeysApart root (found ++ lists.flatten.map (m.project root).aim))
    (hrefreshes : (m.project root).Refreshes start.files (lists.flatten.map (m.project root).aim) lists start final) :
    ∃ s', final.snapshot = some s' ∧ s'.IsDerived ∧
      s.IsUpdate s' root start.files (lists.flatten.map (m.project root).aim) ∧
      ∀ now' r state, (m.project root).rebuild now' final = (.ok r, state) →
        (∀ q ∈ lists.flatten.map (m.project root).aim,
          (s'.files.get? (Path.key root q)).map own = (r.files.get? (Path.key root q)).map own) ∧
        ((∀ k, (s.files.get? k).map own ≠ (r.files.get? k).map own →
          ∃ q ∈ lists.flatten.map (m.project root).aim, Path.key root q = k) → s'.Agrees r) := by
  have hmid : (m.between root now none).state = start := congrArg Prod.snd hobtain
  have hsound : s.IsSound root (m.between root now none :: m :: past) :=
    ((Snapshot.IsSound.isInvariant root).obtain hrun hwrite (hhash.mono (List.subset_cons_self _ _)) hobtain).mono
      (List.subset_cons_self _ _)
  have hupdate : ∃ s', final.snapshot = some s' ∧ s'.IsSound root (m.between root now none :: m :: past) ∧
      s.IsUpdate s' root start.files (lists.flatten.map (m.project root).aim) := by
    rw [← hmid] at hfound htargets hrefreshes ⊢
    refine Project.Refreshes.isUpdate hhash List.mem_cons_self hfound htargets
      (hkeys.mono (List.subset_append_right _ _)) hrefreshes (List.Subset.refl _) ?_ hsound
    rw [hmid]
    exact Project.snapshot_of_obtain hobtain
  obtain ⟨s', hmemory, hs', hupdate⟩ := hupdate
  refine ⟨s', hmemory, hs'.isDerived, hupdate, fun now' r state hrebuild => ?_⟩
  obtain ⟨found', hd, rfl⟩ := Project.scan_eq_ok.mp (Project.rebuild_eq_ok hrebuild).1
  have hsame := hrefreshes.sameAt
  obtain rfl := Except.ok.inj (hfound.symm.trans (hsame.discover.trans hd))
  have hscan : ∀ k, ((Snapshot.ofFiles root now' (Project.scanned root final.files found)).files.get? k).map own =
      (Project.scanned root start.files found).get? k := fun k => by
    rw [← Dict.get?_mapValues (fun _ => own), Project.own_ofFiles_scanned, Project.scanned_congr (hsame.read found hfound)]
  have haimed : ∀ q ∈ lists.flatten.map (m.project root).aim, (s'.files.get? (Path.key root q)).map own =
      ((Snapshot.ofFiles root now' (Project.scanned root final.files found)).files.get? (Path.key root q)).map own :=
    fun q hq => by rw [hscan, Project.get?_scanned_of_apart hkeys hq (htargets q hq), hupdate.aimed q hq]
  refine ⟨haimed, fun hall => hs'.isDerived.agrees (Snapshot.isDerived_withFiles _ _ _) (Dict.ext_get? fun k => ?_)⟩
  rw [Dict.get?_mapValues, Dict.get?_mapValues]
  by_cases hk : ∃ q ∈ lists.flatten.map (m.project root).aim, Path.key root q = k
  · obtain ⟨q, hq, rfl⟩ := hk
    exact haimed q hq
  · rw [hupdate.other k fun q hq hkey => hk ⟨q, hq, hkey⟩]
    exact not_imp_comm.mp (hall k) hk

/-! ## A file that is renamed -/

/-- A project with one file, which defines a template. -/
def unmoved : Moment where
  options := {}
  state := { files := ⟨.ofList [("/p", .directory), ("/p/a.md", .file ":::template\x7bid=\"x\"\x7d\n:::\n".toUTF8 5)]⟩ }

def unmovedRebuilt : Moment := unmoved.after ((unmoved.project ⟨"/p"⟩).rebuild 7 unmoved.state)

/-- The file has got another name. The snapshot in memory still has the old one. -/
def moved : Moment where
  options := unmovedRebuilt.options
  state := { unmovedRebuilt.state with
    files := FileTree.put ⟨unmovedRebuilt.state.files.entries.erase (Place.text ["a.md", "p"])⟩ ["b.md", "p"]
      (.file ":::template\x7bid=\"x\"\x7d\n:::\n".toUTF8 8) }

def movedProject : Project where
  root := ⟨"/p"⟩

-- Projects are not compared through the moments: that would compare all files of these.
theorem project_moved : moved.project ⟨"/p"⟩ = movedProject := rfl

/-- After a refresh of the new file. -/
def movedFirst : ProjectState := (movedProject.refresh 9 (some [⟨"b.md"⟩]) moved.state).2

/-- After a refresh of the old file as well. -/
def movedSecond : ProjectState := (movedProject.refresh 10 (some [⟨"a.md"⟩]) movedFirst).2

/-- What is computed about the run. -/
@[mk_iff] structure MovedChecks : Prop where
  stores : (unmoved.state.files.readText (unmoved.project ⟨"/p"⟩).cachePath).toOption = none
  isFinished : unmovedRebuilt.isFinished = true
  place : ∀ t ∈ [moved.state.files, unmovedRebuilt.state.files],
    (t.locate true (unmovedRebuilt.project ⟨"/p"⟩).cachePath).toOption = some ["metadata.json", ".cache", ".mdck", "p"]
  texts : ∀ a ∈ [moved.between ⟨"/p"⟩ 9 none, moved, unmovedRebuilt, unmoved], ∀ q ∈ a.looked ⟨"/p"⟩,
    ∀ c ∈ (a.state.files.readText q).toOption, c ∈ [":::template\x7bid=\"x\"\x7d\n:::\n"]
  aims : movedProject.aim ⟨"b.md"⟩ = ⟨"/p/b.md"⟩ ∧ movedProject.aim ⟨"a.md"⟩ = ⟨"/p/a.md"⟩
  keys : Path.key ⟨"/p"⟩ ⟨"/p/b.md"⟩ = "b.md" ∧ Path.key ⟨"/p"⟩ ⟨"/p/a.md"⟩ = "a.md"
  same : ∀ t ∈ [moved.state.files, movedFirst.files, movedSecond.files],
    (movedProject.discover t).toOption = some [⟨"/p/b.md"⟩] ∧ (t.info ⟨"/p/b.md"⟩).toOption = some ⟨false, 24, 8⟩ ∧
      (t.readText ⟨"/p/b.md"⟩).toOption = some ":::template\x7bid=\"x\"\x7d\n:::\n" ∧ t.contains ⟨"/p/a.md"⟩ = false
  first : (movedProject.refresh 9 (some [⟨"b.md"⟩]) moved.state).1.toOption.map (·.errors) = some []
  second : (movedProject.refresh 10 (some [⟨"a.md"⟩]) movedFirst).1.toOption.map (·.errors) = some []
  before : moved.state.snapshot.map (·.files.keys) = some ["a.md"]
  stale : movedFirst.snapshot.map (fun s => (s.files.get? "b.md").map (·.errors.length)) = some (some 1)
  fresh : (movedProject.rebuild 11 movedFirst).1.toOption.map (fun s => (s.files.get? "b.md").map (·.errors.length)) =
    some (some 0)
  rebuilds : (movedProject.rebuild 11 movedSecond).1.toOption.map (·.files.keys) = some ["b.md"]

theorem movedChecks : MovedChecks := by
  -- All is decided at once, so that the kernel evaluates each state only once.
  rw [movedChecks_iff]
  decide +kernel

theorem run_moved : Run ⟨"/p"⟩ [moved, unmovedRebuilt, unmoved] := .edit _ (.rebuild 7 (.start _ _))

theorem onlyManagersWrite_moved : OnlyManagersWrite ⟨"/p"⟩ [moved, unmovedRebuilt, unmoved] := by
  have hc := movedChecks
  have hplace := fun t ht => eq_ok_of_toOption (hc.place t ht)
  have hlookup : moved.state.files.lookup? ["metadata.json", ".cache", ".mdck", "p"] =
      unmovedRebuilt.state.files.lookup? ["metadata.json", ".cache", ".mdck", "p"] :=
    (FileTree.lookup?_put_of_ne (by decide)).trans (FileTree.lookup?_erase_of_ne (by decide))
  exact .edit (.finished hc.isFinished (.start hc.stores)) (FileTree.readText_congr
    (hplace moved.state.files (.head _)) (hplace unmovedRebuilt.state.files (.tail _ (.head _))) hlookup)

theorem collisionFree_moved : CollisionFree ⟨"/p"⟩ [moved.between ⟨"/p"⟩ 9 none, moved, unmovedRebuilt, unmoved] := by
  have hc := movedChecks
  exact .of_texts _ hc.texts (List.nodup_singleton _)

theorem discover_moved : movedProject.discover moved.state.files = .ok [⟨"/p/b.md"⟩] := by
  have hc := movedChecks
  exact eq_ok_of_toOption (hc.same _ (.head _)).1

theorem sameAt_moved {t : FileTree} (ht : t ∈ [moved.state.files, movedFirst.files, movedSecond.files]) :
    movedProject.SameAt moved.state.files t [⟨"/p/b.md"⟩, ⟨"/p/a.md"⟩] := by
  have hc := movedChecks
  obtain ⟨hd, hi, htext, hgone⟩ := hc.same t ht
  obtain ⟨-, hi₀, htext₀, hgone₀⟩ := hc.same moved.state.files (.head _)
  have hi := eq_ok_of_toOption hi
  have hi₀ := eq_ok_of_toOption hi₀
  refine .of_reads discover_moved (eq_ok_of_toOption hd) ?_ ?_ ?_ <;>
    simp only [List.forall_mem_cons, List.not_mem_nil, IsEmpty.forall_iff, implies_true, and_true]
  · exact ⟨_, hi₀, hi⟩
  · exact ⟨_, eq_ok_of_toOption htext₀, eq_ok_of_toOption htext⟩
  · rw [hgone, hgone₀, FileTree.contains, FileTree.contains, hi, hi₀]
    exact ⟨rfl, rfl⟩

/-- The new file is looked at, and then the old one. -/
theorem refreshes_moved {aims : List Path} (h : aims ⊆ [⟨"/p/b.md"⟩, ⟨"/p/a.md"⟩]) :
    movedProject.Refreshes moved.state.files aims [[⟨"b.md"⟩]] moved.state movedFirst ∧
      movedProject.Refreshes moved.state.files aims [[⟨"b.md"⟩], [⟨"a.md"⟩]] moved.state movedSecond := by
  have hc := movedChecks
  obtain ⟨report, hr, he⟩ := exists_eq_ok hc.first
  obtain ⟨report', hr', he'⟩ := exists_eq_ok hc.second
  have hfirst : movedProject.Refreshes moved.state.files aims [[⟨"b.md"⟩]] moved.state movedFirst :=
    .next (.start ((sameAt_moved (.head _)).mono h)) (Prod.fst_eq_iff.mp hr) he ((sameAt_moved (.tail _ (.head _))).mono h)
  exact ⟨hfirst, .next hfirst (Prod.fst_eq_iff.mp hr') he' ((sameAt_moved (.tail _ (.tail _ (.head _)))).mono h)⟩

theorem obtain_moved : ∃ s, moved.state.snapshot = some s ∧ s.files.keys = ["a.md"] ∧
    movedProject.obtain 9 false moved.state = (.ok s, moved.state) := by
  have hc := movedChecks
  obtain ⟨s, hs, hkeys⟩ := Option.map_eq_some_iff.mp hc.before
  exact ⟨s, hs, hkeys, by simp only [Project.obtain, hs]⟩

/-- The keys of the two files differ. -/
theorem keysApart_moved {aims : List Path} (h : aims ⊆ [⟨"/p/b.md"⟩, ⟨"/p/a.md"⟩]) : Project.KeysApart ⟨"/p"⟩ aims := by
  have hc := movedChecks
  have hall : Project.KeysApart ⟨"/p"⟩ [⟨"/p/b.md"⟩, ⟨"/p/a.md"⟩] := by
    intro q hq r hr he
    simp only [List.mem_cons, List.not_mem_nil, or_false] at hq hr
    rcases hq with rfl | rfl <;> rcases hr with rfl | rfl
    · rfl
    · rw [hc.keys.1, hc.keys.2] at he
      simp at he
    · rw [hc.keys.1, hc.keys.2] at he
      simp at he
    · rfl
  exact hall.mono h

theorem found_or_gone_moved : ∀ q ∈ [⟨"/p/b.md"⟩, ⟨"/p/a.md"⟩],
    q ∈ [(⟨"/p/b.md"⟩ : Path)] ∨ moved.state.files.contains q = false := by
  have hc := movedChecks
  obtain ⟨-, -, -, hgone⟩ := hc.same moved.state.files (.head _)
  simp [hgone]

/-- After both files have been looked at, the snapshot is what a rebuild makes. -/
theorem targeted_refreshes_compose_moved : ∃ s r state, movedSecond.snapshot = some s ∧
    movedProject.rebuild 11 movedSecond = (.ok r, state) ∧ s.Agrees r := by
  have hc := movedChecks
  obtain ⟨s, hs, hkeys, hobtain⟩ := obtain_moved
  obtain ⟨r, hr, hkeys'⟩ := exists_eq_ok hc.rebuilds
  have haims : ([[⟨"b.md"⟩], [⟨"a.md"⟩]] : List (List Path)).flatten.map movedProject.aim = [⟨"/p/b.md"⟩, ⟨"/p/a.md"⟩] := by
    simp [hc.aims]
  have hrefreshes := (refreshes_moved (List.Subset.refl _)).2
  rw [← haims] at hrefreshes
  obtain ⟨s', hs', -, -, hrebuild⟩ := run_moved.targeted_refreshes_compose onlyManagersWrite_moved collisionFree_moved hobtain
    discover_moved (by rw [project_moved, haims]; exact found_or_gone_moved)
    (by rw [project_moved, haims]; exact keysApart_moved (by simp)) hrefreshes
  have hr := Prod.fst_eq_iff.mp hr
  refine ⟨s', r, _, hs', hr, (hrebuild 11 r _ hr).2 fun k hk => ?_⟩
  rw [project_moved, haims]
  -- The two snapshots have no other keys than those of the two files.
  have hnone : ∀ {d : Dict FileMetadata} {name : String}, d.keys = [name] → k ≠ name → d.get? k = none := by
    intro d name hd hne
    by_contra hsome
    have hmem := Dict.mem_keys.mpr (Option.ne_none_iff_isSome.mp hsome)
    rw [hd, List.mem_singleton] at hmem
    exact hne hmem
  by_cases hb : k = "b.md"
  · exact ⟨_, .head _, hb ▸ hc.keys.1⟩
  · by_cases ha : k = "a.md"
    · exact ⟨_, .tail _ (.head _), ha ▸ hc.keys.2⟩
    · exact absurd (by rw [hnone hkeys ha, hnone hkeys' hb]) hk

/-- After the new file has been looked at, it has an error that it would not have after a rebuild: what is known of the old file,
which is gone, still defines the same template. -/
theorem not_targeted_refreshes_compose :
    ¬ ∀ (root : Path) (m : Moment) (past : List Moment) (now : Nat) (s : Snapshot) (lists : List (List Path)) (found : List Path)
      (start final : ProjectState), Run root (m :: past) → OnlyManagersWrite root (m :: past) →
      CollisionFree root (m.between root now none :: m :: past) →
      (m.project root).obtain now false m.state = (.ok s, start) → (m.project root).discover start.files = .ok found →
      (∀ q ∈ lists.flatten.map (m.project root).aim, q ∈ found ∨ start.files.contains q = false) →
      Project.KeysApart root (found ++ lists.flatten.map (m.project root).aim) →
      (m.project root).Refreshes start.files (lists.flatten.map (m.project root).aim) lists start final →
      ∀ s', final.snapshot = some s' → ∀ now' r state, (m.project root).rebuild now' final = (.ok r, state) →
        ∀ q ∈ lists.flatten.map (m.project root).aim, s'.files.get? (Path.key root q) = r.files.get? (Path.key root q) := by
  have hc := movedChecks
  intro h
  obtain ⟨s, hs, -, hobtain⟩ := obtain_moved
  obtain ⟨s', hs', hstale⟩ := Option.map_eq_some_iff.mp hc.stale
  obtain ⟨r, hr, hfresh⟩ := exists_eq_ok hc.fresh
  have haims : ([[⟨"b.md"⟩]] : List (List Path)).flatten.map movedProject.aim = [⟨"/p/b.md"⟩] := by
    simp [hc.aims]
  have hsub : [(⟨"/p/b.md"⟩ : Path)] ⊆ [⟨"/p/b.md"⟩, ⟨"/p/a.md"⟩] := by simp
  have hrefreshes := (refreshes_moved hsub).1
  rw [← haims] at hrefreshes
  have hentry := h ⟨"/p"⟩ moved [unmovedRebuilt, unmoved] 9 s [[⟨"b.md"⟩]] [⟨"/p/b.md"⟩] moved.state movedFirst run_moved
    onlyManagersWrite_moved collisionFree_moved hobtain discover_moved
    (by rw [project_moved, haims]; exact fun q hq => found_or_gone_moved q (hsub hq))
    (by rw [project_moved, haims]; exact keysApart_moved (by simp)) hrefreshes s' hs' 11 r _ (Prod.fst_eq_iff.mp hr)
    ⟨"/p/b.md"⟩ (by rw [project_moved, haims]; exact .head _)
  rw [hc.keys.1] at hentry
  rw [hentry, hfresh] at hstale
  simp at hstale

end MarkdownTemplates
