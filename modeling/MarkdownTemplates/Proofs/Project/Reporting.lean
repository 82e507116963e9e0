import MarkdownTemplates.Proofs.Graph.Reachable
import MarkdownTemplates.Proofs.Project.Consistency
import MarkdownTemplates.Proofs.Snapshot.Description

/-!
# What a refresh reports

A refresh reports the files that it has added, changed and removed, and the ids that this affects: those in these files and
those that depend on them. For all other ids the templates are what they were, and so are those to which they lead. It is enough
to follow the new dependencies: an id that depended on a changed one and does so no more is in a changed file itself.
-/

namespace MarkdownTemplates

open Relation (TransGen ReflTransGen)

/-! ## Files that are reported -/

namespace FileMetadata

/-- Is the id listed in one of the files with these keys? -/
def IsListed (files : Dict FileMetadata) (keys : List String) (x : String) : Prop :=
  ∃ k ∈ keys, ∃ m, files.get? k = some m ∧ x ∈ m.templateIds

variable {files files' : Dict FileMetadata} {keys : List String} {k x : String} {m : FileMetadata}

theorem IsListed.congr (h : ∀ k ∈ keys, files.get? k = files'.get? k) : IsListed files keys x ↔ IsListed files' keys x :=
  exists_congr fun k => and_congr_right fun hk => by rw [h k hk]

theorem isListed_append_singleton :
    IsListed files (keys ++ [k]) x ↔ IsListed files keys x ∨ ∃ m, files.get? k = some m ∧ x ∈ m.templateIds := by
  constructor
  · rintro ⟨k', hk, h⟩
    rcases List.mem_append.mp hk with hk | hk
    · exact .inl ⟨k', hk, h⟩
    · exact .inr (List.mem_singleton.mp hk ▸ h)
  · rintro (⟨k', hk, h⟩ | h)
    · exact ⟨k', List.mem_append_left _ hk, h⟩
    · exact ⟨k, by simp, h⟩

/-- Files with the same content list the same ids. -/
theorem IsListed.of_content (hc : ∀ k, (files.get? k).map content = (files'.get? k).map content) (h : IsListed files keys x) :
    IsListed files' keys x := by
  obtain ⟨k, hk, m, hm, hx⟩ := h
  obtain ⟨m', hm', he⟩ := Option.map_eq_some_iff.mp ((hc k).symm.trans (congrArg (Option.map content) hm))
  exact ⟨k, hk, m', hm', templateIds_of_content he ▸ hx⟩

end FileMetadata

namespace Refresh

open FileMetadata (content IsListed)

variable {files : FileTree} {areAll : Bool} {r : Refresh} {known : Dict FileMetadata} {key : String} {m : FileMetadata}
  {candidates : List (String × Path)}

/-- The keys of the files that have changed. -/
def touched (r : Refresh) : List String := r.added ++ r.updated ++ r.removed

theorem mem_touched {k : String} : k ∈ r.touched ↔ k ∈ r.added ∨ k ∈ r.updated ∨ k ∈ r.removed := by
  rw [touched, List.mem_append, List.mem_append, or_assoc]

/-- Are the files that have changed since `known` those that are named, and the ids in them all that is said to have changed? -/
structure Reports (r : Refresh) (known : Dict FileMetadata) : Prop where
  kept : ∀ k, k ∉ r.touched → (r.files.get? k).map content = (known.get? k).map content
  added : ∀ k ∈ r.added, known.get? k = none ∧ r.files.contains k = true
  updated : ∀ k ∈ r.updated, known.contains k = true ∧ r.files.contains k = true
  removed : ∀ k ∈ r.removed, known.contains k = true ∧ r.files.get? k = none
  changed : ∀ x, r.changed.contains x = true ↔ IsListed r.files r.added x ∨
    (IsListed known r.updated x ∨ IsListed r.files r.updated x) ∨ IsListed known r.removed x

namespace Reports

theorem start (known : Dict FileMetadata) : Reports { files := known } known where
  kept _ _ := rfl
  added := by simp
  updated := by simp
  removed := by simp
  changed x := by simp [Dict.contains, IsListed]

/-- A file that has not been touched is known as it was. -/
theorem exists_known (h : r.Reports known) (hk : key ∉ r.touched) (hm : r.files.get? key = some m) :
    ∃ m₀, known.get? key = some m₀ ∧ m₀.templateIds = m.templateIds := by
  have hc := h.kept key hk
  rw [hm, Option.map_some] at hc
  obtain ⟨m₀, hm₀, he⟩ := Option.map_eq_some_iff.mp hc.symm
  exact ⟨m₀, hm₀, FileMetadata.templateIds_of_content he⟩

theorem known_eq_none (h : r.Reports known) (hk : key ∉ r.touched) (hm : r.files.get? key = none) :
    known.get? key = none := by
  have hc := h.kept key hk
  rw [hm, Option.map_none] at hc
  exact Option.map_eq_none_iff.mp hc.symm

/-- A step that changes only an untouched file leaves what is known about the touched ones. -/
theorem of_get? {files : Dict FileMetadata} (h : r.Reports known) (hk : key ∉ r.touched)
    (hget : ∀ k, k ≠ key → files.get? k = r.files.get? k) :
    (∀ k ∈ r.added, known.get? k = none ∧ files.contains k = true) ∧
    (∀ k ∈ r.updated, known.contains k = true ∧ files.contains k = true) ∧
    (∀ k ∈ r.removed, known.contains k = true ∧ files.get? k = none) ∧
    ∀ x, r.changed.contains x = true ↔ IsListed files r.added x ∨
      (IsListed known r.updated x ∨ IsListed files r.updated x) ∨ IsListed known r.removed x := by
  have hsame : ∀ k ∈ r.touched, files.get? k = r.files.get? k := fun k hm => hget k fun he => hk (he ▸ hm)
  have hadded : ∀ k ∈ r.added, files.get? k = r.files.get? k := fun k hm => hsame k (mem_touched.mpr (.inl hm))
  have hupdated : ∀ k ∈ r.updated, files.get? k = r.files.get? k := fun k hm => hsame k (mem_touched.mpr (.inr (.inl hm)))
  refine ⟨fun k hm => ?_, fun k hm => ?_, fun k hm => ?_, fun x => ?_⟩
  · simpa only [Dict.contains, hadded k hm] using h.added k hm
  · simpa only [Dict.contains, hupdated k hm] using h.updated k hm
  · rw [hsame k (mem_touched.mpr (.inr (.inr hm)))]
    exact h.removed k hm
  · rw [h.changed, FileMetadata.IsListed.congr hadded, FileMetadata.IsListed.congr hupdated]

theorem remove (h : r.Reports known) (hk : key ∉ r.touched) : (r.remove key).Reports known := by
  unfold Refresh.remove
  cases hm : r.files.get? key with
  | none => exact h
  | some m =>
    obtain ⟨m₀, hm₀, hids⟩ := h.exists_known hk hm
    have hget : ∀ k, k ≠ key → (r.files.erase key).get? k = r.files.get? k := fun k hne => by rw [Dict.get?_erase, if_neg hne]
    obtain ⟨hadded, hupdated, hremoved, hchanged⟩ := h.of_get? hk hget
    refine ⟨fun k hnot => ?_, hadded, hupdated, ?_, fun x => ?_⟩
    · simp only [touched, List.mem_append, List.mem_singleton, not_or] at hnot
      rw [hget k hnot.2.2]
      exact h.kept k (by simpa [touched] using ⟨hnot.1.1, hnot.1.2, hnot.2.1⟩)
    · simp only [List.forall_mem_append, List.forall_mem_singleton]
      exact ⟨hremoved, by simp [Dict.contains, hm₀], by simp [Dict.get?_erase]⟩
    · rw [NameSet.contains_insertMany, hchanged, FileMetadata.isListed_append_singleton]
      simp [hm₀, hids, or_assoc]

theorem put (h : r.Reports known) (hk : key ∉ r.touched) : (r.put key m).Reports known := by
  have hget : ∀ m k, k ≠ key → (r.files.insert key m).get? k = r.files.get? k := fun m k hne => by
    rw [Dict.get?_insert, if_neg hne]
  have hself : ∀ m, (r.files.insert key m).contains key = true := fun m => by simp [Dict.contains]
  unfold Refresh.put
  cases hm : r.files.get? key with
  | none =>
    obtain ⟨hadded, hupdated, hremoved, hchanged⟩ := h.of_get? hk (hget m)
    refine ⟨fun k hnot => ?_, ?_, hupdated, hremoved, fun x => ?_⟩
    · simp only [touched, List.mem_append, List.mem_singleton, not_or] at hnot
      rw [hget m k hnot.1.1.2]
      exact h.kept k (by simpa [touched] using ⟨hnot.1.1.1, hnot.1.2, hnot.2⟩)
    · simp only [List.forall_mem_append, List.forall_mem_singleton]
      exact ⟨hadded, h.known_eq_none hk hm, hself m⟩
    · rw [NameSet.contains_insertMany, hchanged, FileMetadata.isListed_append_singleton]
      simp [or_assoc, or_comm, or_left_comm]
  | some old =>
    obtain ⟨m₀, hm₀, hids⟩ := h.exists_known hk hm
    dsimp only
    split_ifs with hh
    · -- The content is the same: the file is not named.
      obtain ⟨hadded, hupdated, hremoved, hchanged⟩ := h.of_get? hk (hget (old.withFingerprint m.size m.modified))
      refine ⟨fun k hnot => ?_, hadded, hupdated, hremoved, hchanged⟩
      rw [← h.kept k hnot]
      change ((r.files.insert key (old.withFingerprint m.size m.modified)).get? k).map content = _
      by_cases hne : k = key
      · simp [hne, hm, FileMetadata.content_withFingerprint]
      · rw [hget _ k hne]
    · obtain ⟨hadded, hupdated, hremoved, hchanged⟩ := h.of_get? hk (hget m)
      refine ⟨fun k hnot => ?_, hadded, ?_, hremoved, fun x => ?_⟩
      · simp only [touched, List.mem_append, List.mem_singleton, not_or] at hnot
        rw [hget m k hnot.1.2.2]
        exact h.kept k (by simpa [touched] using ⟨hnot.1.1, hnot.1.2.1, hnot.2⟩)
      · simp only [List.forall_mem_append, List.forall_mem_singleton]
        exact ⟨hupdated, by simp [Dict.contains, hm₀], hself m⟩
      · rw [NameSet.contains_insertMany, hchanged, FileMetadata.isListed_append_singleton,
          FileMetadata.isListed_append_singleton]
        simp [hm₀, hids, or_assoc, or_comm, or_left_comm]

theorem check {c : String × Path} (h : r.Reports known) (hk : c.1 ∉ r.touched) :
    (Refresh.check files r c).Reports known := by
  unfold Refresh.check
  cases FileMetadata.read files c.1 c.2 with
  | error e => exact ⟨h.kept, h.added, h.updated, h.removed, h.changed⟩
  | ok m => exact h.put hk

end Reports

theorem touched_remove : (r.remove key).touched ⊆ key :: r.touched := by
  unfold remove
  cases r.files.get? key <;> intro k <;> simp [touched] <;> tauto

theorem touched_check {c : String × Path} : (check files r c).touched ⊆ c.1 :: r.touched := by
  unfold check
  cases FileMetadata.read files c.1 c.2 with
  | error e => exact List.subset_cons_self _ _
  | ok m =>
    dsimp only
    unfold put
    cases r.files.get? c.1 with
    | none => intro k; simp [touched]; tauto
    | some old =>
      dsimp only
      split_ifs
      · exact List.subset_cons_self _ _
      · intro k; simp [touched]; tauto

/-- What a refresh reports is what it changes. -/
theorem reports_run (files : FileTree) (areAll : Bool) (candidates : List (String × Path)) (known : Dict FileMetadata) :
    (run files areAll candidates known).Reports known :=
  run_induction touched (.start known) rfl (fun _ _ => Reports.remove) (fun _ _ => touched_remove) (fun _ _ => Reports.check)
    fun _ _ => touched_check

/-- The ids that are affected are the changed ones and those from which dependencies lead to a changed one. -/
theorem contains_affected {graph : DependencyGraph} {x : String} (hg : graph.reverseEdges = DependencyGraph.reverse graph.edges) :
    (r.report graph).affected.contains x = true ↔ ∃ y, ReflTransGen graph.HasEdge x y ∧ r.changed.contains y = true := by
  rw [report, NameSet.contains_insertMany, NameSet.mem_toList, DependencyGraph.contains_transitiveDependents hg]
  simp only [NameSet.mem_toList, Relation.reflTransGen_iff_eq_or_transGen]
  constructor
  · rintro (h | ⟨y, hy, hp⟩)
    · exact ⟨x, .inl rfl, h⟩
    · exact ⟨y, .inr hp, hy⟩
  · rintro ⟨y, rfl | hp, hy⟩
    · exact .inl hy
    · exact .inr ⟨y, hy, hp⟩

end Refresh

/-! ## Templates that are not affected -/

open FileMetadata (content IsListed)

namespace Snapshot

variable {root : Path} {s s' : Snapshot} {now : Nat} {files : Dict FileMetadata} {k x : String} {m : FileMetadata}

/-- What a file defines under an id follows from its content. -/
theorem bind_find?_congr {o o' : Option FileMetadata} (h : o.map content = o'.map content) :
    o.bind (·.definitions.find? (·.id = x)) = o'.bind (·.definitions.find? (·.id = x)) := by
  cases o <;> cases o' <;> simp only [Option.map_some, Option.map_none, Option.some.injEq, reduceCtorEq] at h
  · rfl
  · simp only [Option.bind_some, FileMetadata.definitions_of_content h]

/-- A consistent file defines no id that it does not list. -/
theorem bind_find?_eq_none {o : Option FileMetadata} (hc : ∀ m, o = some m → m.IsConsistent k)
    (hx : ∀ m, o = some m → x ∉ m.templateIds) : o.bind (·.definitions.find? (·.id = x)) = none := by
  cases o with
  | none => rfl
  | some m =>
    rw [Option.bind_some, List.find?_eq_none]
    intro t ht he
    exact hx m rfl (of_decide_eq_true he ▸ (hc m rfl).listed t ht)

/-- An id that is not among the changed ones has the template that it had, whichever file it is in. -/
theorem get?_templates_of_reports {r : Refresh} (hr : r.Reports s.files) (hs : s.IsConsistent root)
    (hs' : (s.withFiles now r.files).IsConsistent root) (hx : ¬ r.changed.contains x = true) :
    (s.withFiles now r.files).templates.get? x = s.templates.get? x := by
  rw [hr.changed, not_or, not_or, not_or] at hx
  obtain ⟨hadded, ⟨hupdated, hupdated'⟩, hremoved⟩ := hx
  refine hs'.isDerived.get?_templates_congr hs.isDerived fun k => ?_
  by_cases hk : k ∈ r.touched
  · -- A touched file defines the id neither before nor after.
    have hafter : ∀ m, (s.withFiles now r.files).files.get? k = some m → x ∉ m.templateIds := by
      intro m hm hid
      obtain ⟨m', hm', he⟩ := Option.map_eq_some_iff.mp
        ((content_withFiles s now r.files k).symm.trans (congrArg (Option.map content) hm))
      rw [← FileMetadata.templateIds_of_content he] at hid
      rcases Refresh.mem_touched.mp hk with hk | hk | hk
      · exact hadded ⟨k, hk, m', hm', hid⟩
      · exact hupdated' ⟨k, hk, m', hm', hid⟩
      · cases (hr.removed k hk).2.symm.trans hm'
    have hbefore : ∀ m, s.files.get? k = some m → x ∉ m.templateIds := by
      intro m hm hid
      rcases Refresh.mem_touched.mp hk with hk | hk | hk
      · cases (hr.added k hk).1.symm.trans hm
      · exact hupdated ⟨k, hk, m, hm, hid⟩
      · exact hremoved ⟨k, hk, m, hm, hid⟩
    rw [bind_find?_eq_none (hs'.files k) hafter, bind_find?_eq_none (hs.files k) hbefore]
  · exact bind_find?_congr ((content_withFiles s now r.files k).trans (hr.kept k hk))

end Snapshot

/-- Is the id listed in a file that the refresh has added, changed or removed, in what was known of the file before or in what is
known now? -/
def RefreshReport.Touches (report : RefreshReport) (before after : Snapshot) (x : String) : Prop :=
  IsListed after.files report.added x ∨ (IsListed before.files report.updated x ∨ IsListed after.files report.updated x) ∨
    IsListed before.files report.removed x

/-- The ids that a refresh reports are those in the files that have changed and those from which the new dependencies lead to one
of them. Every other id has the template that it had before, and so have all to which it leads, also when another file's
definition has taken the place of one that is gone. -/
theorem Run.refresh_reports_affected {root : Path} {m : Moment} {past : List Moment} {now : Nat} {targets : Option (List Path)}
    {report : RefreshReport} {state : ProjectState} (h : Run root (m :: past)) (hw : OnlyManagersWrite root (m :: past))
    (hrefresh : (m.project root).refresh now targets m.state = (.ok report, state)) :
    ∃ before after, (m.between root now targets).state.snapshot = some before ∧
      (∀ s, m.state.snapshot = some s → before = s) ∧ state.snapshot = some after ∧
      (∀ x, report.affected.contains x = true ↔
        ∃ y, ReflTransGen after.dependencies.HasEdge x y ∧ report.Touches before after y) ∧
      ∀ x, report.affected.contains x = false → ∀ y, ReflTransGen after.dependencies.HasEdge x y →
        after.templates.get? y = before.templates.get? y := by
  obtain ⟨before, mid, candidates, after, r, ho, -, hr, hafter, hmemory, -, rfl⟩ := Project.refresh_eq_report hrefresh
  have hmid : (m.between root now targets).state = mid := congrArg Prod.snd ho
  have hsnapshot := Project.snapshot_of_obtain ho
  have hbefore : before.IsConsistent root := (Snapshot.IsConsistent.isInvariant root).obtain h hw trivial ho
  have hreports : r.Reports before.files := hr ▸ Refresh.reports_run _ _ _ _
  have hconsistent : after.IsConsistent root := by
    rw [hafter, hr]
    exact hbefore.refresh
  have hgraph : after.dependencies.reverseEdges = DependencyGraph.reverse after.dependencies.edges := by
    rw [hconsistent.isDerived.graph]
    rfl
  have hcontent : ∀ k, (after.files.get? k).map content = (r.files.get? k).map content := by
    rw [hafter]
    exact Snapshot.content_withFiles before now r.files
  have hlisted : ∀ keys x, IsListed after.files keys x ↔ IsListed r.files keys x :=
    fun keys x => ⟨.of_content hcontent, .of_content fun k => (hcontent k).symm⟩
  have htouches : ∀ y, (r.report after.dependencies).Touches before after y ↔ r.changed.contains y = true := by
    intro y
    rw [hreports.changed, RefreshReport.Touches, hlisted, hlisted]
    rfl
  refine ⟨before, after, hmid ▸ hsnapshot, fun s hs => ?_, hmemory, fun x => ?_, fun x hx y hp => ?_⟩
  · rw [Moment.state_between hs] at hmid
    rw [← hmid, hs] at hsnapshot
    exact (Option.some.inj hsnapshot).symm
  · simp only [Refresh.contains_affected hgraph, htouches]
  · have hy : ¬ r.changed.contains y = true := by
      intro hy
      rw [Bool.eq_false_iff] at hx
      exact hx ((Refresh.contains_affected hgraph).mpr ⟨y, hp, hy⟩)
    rw [hafter] at hconsistent ⊢
    exact Snapshot.get?_templates_of_reports hreports hbefore hconsistent hy

/-! ## A definition that takes over -/

/-- Two files define one template, which a third one uses. -/
def overlapping : Moment where
  options := {}
  state := { files := ⟨.ofList [("/p", .directory), ("/p/a.md", .file ":::template\x7bid=\"x\"\x7d\n:::\n".toUTF8 5),
    ("/p/b.md", .file "\n:::template\x7bid=\"x\"\x7d\n:::\n".toUTF8 5),
    ("/p/c.md", .file (":::template\x7bid=\"t\"\x7d\n::template\x7bid=\"x\"\x7d\n:::\n" ++
      ":::template\x7bid=\"u\"\x7d\n:::\n").toUTF8 5)]⟩ }

def overlappingPaths : List Path := [⟨"/p/a.md"⟩, ⟨"/p/b.md"⟩, ⟨"/p/c.md"⟩]

def overlappingSnapshot : Snapshot := .ofFiles ⟨"/p"⟩ 7 (Project.scanned ⟨"/p"⟩ overlapping.state.files overlappingPaths)

def overlappingRebuilt : Moment where
  options := {}
  state := {
    files := ((overlapping.project ⟨"/p"⟩).save 7 overlappingSnapshot overlapping.state.files).2
    snapshot := some overlappingSnapshot }
  isFinished := true

/-- The first of the two files is gone. -/
def overlappingReduced : Moment where
  options := overlappingRebuilt.options
  state := { overlappingRebuilt.state with files := ⟨overlappingRebuilt.state.files.entries.erase (Place.text ["a.md", "p"])⟩ }

/-- What is computed about the run. -/
@[mk_iff] structure OverlappingChecks : Prop where
  stores : (overlapping.state.files.readText (overlapping.project ⟨"/p"⟩).cachePath).toOption = none
  searched : ((overlapping.project ⟨"/p"⟩).searched overlapping.state.files).toOption = some overlappingPaths
  sorted : overlappingPaths.Pairwise fun p q => (!q.before p) = true
  saves : ((overlapping.project ⟨"/p"⟩).save 7 overlappingSnapshot overlapping.state.files).1.toOption = some ()
  place : ∀ t ∈ [overlappingReduced.state.files, overlappingRebuilt.state.files],
    (t.locate true (overlappingRebuilt.project ⟨"/p"⟩).cachePath).toOption = some ["metadata.json", ".cache", ".mdck", "p"]
  templates : overlappingSnapshot.templates.entries.map (fun e => (e.1, e.2.file, e.2.dependencies)) =
    [("t", "c.md", ["x"]), ("u", "c.md", []), ("x", "a.md", [])]
  listed : (overlappingSnapshot.files.get? "a.md").map (·.templateIds) = some ["x"]
  report : ((overlappingReduced.project ⟨"/p"⟩).refresh 9 (some [⟨"a.md"⟩]) overlappingReduced.state).1.toOption.map
    (fun report => (report.added, report.updated, report.removed)) = some ([], [], ["a.md"])
  after : ((overlappingReduced.project ⟨"/p"⟩).refresh 9 (some [⟨"a.md"⟩]) overlappingReduced.state).2.snapshot.map
    (fun s => s.templates.entries.map fun e => (e.1, e.2.file, e.2.dependencies)) =
      some [("t", "c.md", ["x"]), ("u", "c.md", []), ("x", "b.md", [])]

theorem overlappingChecks : OverlappingChecks := by
  -- All is decided at once, so that the kernel evaluates the snapshots only once.
  rw [overlappingChecks_iff]
  decide +kernel

theorem run_overlapping : Run ⟨"/p"⟩ [overlappingReduced, overlappingRebuilt, overlapping] := by
  have hc := overlappingChecks
  have hscan : (overlapping.project ⟨"/p"⟩).scan 7 overlapping.state.files = .ok overlappingSnapshot :=
    Project.scan_eq_ok.mpr ⟨overlappingPaths, Project.discover_of_searched rfl hc.searched hc.sorted, rfl⟩
  have hrebuilt : overlapping.after ((overlapping.project ⟨"/p"⟩).rebuild 7 overlapping.state) = overlappingRebuilt := by
    rw [Moment.after, Project.rebuild_of_scan hscan hc.saves]
    rfl
  have hstart : Run ⟨"/p"⟩ [overlappingRebuilt, overlapping] := by
    rw [← hrebuilt]
    exact .rebuild 7 (.start _ _)
  exact .edit _ hstart

theorem onlyManagersWrite_overlapping : OnlyManagersWrite ⟨"/p"⟩ [overlappingReduced, overlappingRebuilt, overlapping] := by
  have hplace := fun t ht => eq_ok_of_toOption (overlappingChecks.place t ht)
  have hlookup : overlappingReduced.state.files.lookup? ["metadata.json", ".cache", ".mdck", "p"] =
      overlappingRebuilt.state.files.lookup? ["metadata.json", ".cache", ".mdck", "p"] :=
    FileTree.lookup?_erase_of_ne (by decide)
  exact .edit (.finished rfl (.start overlappingChecks.stores)) (FileTree.readText_congr
    (hplace overlappingReduced.state.files (.head _)) (hplace overlappingRebuilt.state.files (.tail _ (.head _))) hlookup)

/-- The other file's definition takes the place of the one that is gone. It is reported with the template that uses it, and the
third template stays as it is. -/
theorem refresh_reports_affected_overlapping : ∃ report state before after,
    (overlappingReduced.project ⟨"/p"⟩).refresh 9 (some [⟨"a.md"⟩]) overlappingReduced.state = (.ok report, state) ∧
    overlappingReduced.state.snapshot = some before ∧ state.snapshot = some after ∧ report.removed = ["a.md"] ∧
    (before.templates.get? "x").map (·.file) = some "a.md" ∧ (after.templates.get? "x").map (·.file) = some "b.md" ∧
    report.affected.contains "x" = true ∧ report.affected.contains "t" = true ∧ report.affected.contains "u" = false ∧
    after.templates.get? "u" = before.templates.get? "u" := by
  have hc := overlappingChecks
  obtain ⟨report, hr, he⟩ := exists_eq_ok hc.report
  simp only [Prod.mk.injEq] at he
  obtain ⟨hadded, hupdated, hremoved⟩ := he
  have hrefresh := Prod.fst_eq_iff.mp hr
  obtain ⟨before, after, -, hmemory, hstate, haffected, hunaffected⟩ :=
    run_overlapping.refresh_reports_affected onlyManagersWrite_overlapping hrefresh
  rw [hmemory overlappingSnapshot rfl] at haffected hunaffected
  have hderived : after.IsDerived := by
    obtain ⟨_, _, _, s', _, -, -, -, hs', hstate', -, -⟩ := Project.refresh_eq_report hrefresh
    obtain rfl := Option.some.inj (hstate.symm.trans hstate')
    rw [hs']
    exact Snapshot.isDerived_withFiles _ _ _
  have hafter := hc.after
  rw [hstate, Option.map_some, Option.some.injEq] at hafter
  obtain ⟨m, hm, hids⟩ := Option.map_eq_some_iff.mp hc.listed
  have htouches : ∀ y, report.Touches overlappingSnapshot after y ↔ y = "x" := by
    intro y
    simp [RefreshReport.Touches, IsListed, hadded, hupdated, hremoved, hm, hids]
  obtain ⟨t, ht, -, hdeps⟩ := (mem_templates_map hafter).mp (show ("t", "c.md", ["x"]) ∈ _ by simp)
  obtain ⟨x, hx, hfile, -⟩ := (mem_templates_map hafter).mp (show ("x", "b.md", []) ∈ _ by simp)
  obtain ⟨x₀, hx₀, hfile₀, -⟩ := (mem_templates_map hc.templates).mp (show ("x", "a.md", []) ∈ _ by simp)
  have hedge : after.dependencies.HasEdge "t" "x" := hderived.hasEdge_iff.mpr ⟨t, ht, by simp [hdeps]⟩
  have hnoEdge : ∀ y, ¬ after.dependencies.HasEdge "u" y := by
    intro y hy
    obtain ⟨u, hu, hy⟩ := hderived.hasEdge_iff.mp hy
    have hmem := (mem_templates_map hafter).mpr ⟨u, hu, rfl, rfl⟩
    simp only [List.mem_cons, Prod.mk.injEq, List.not_mem_nil, or_false] at hmem
    rcases hmem with ⟨hne, -⟩ | ⟨-, -, hnil⟩ | ⟨hne, -⟩
    · simp at hne
    · simp [hnil] at hy
    · simp at hne
  have hu : report.affected.contains "u" = false := by
    rw [Bool.eq_false_iff, ne_eq, haffected]
    rintro ⟨y, hp, hy⟩
    rw [htouches] at hy
    rcases ReflTransGen.cases_head hp with rfl | ⟨z, hz, -⟩
    · simp at hy
    · exact hnoEdge z hz
  exact ⟨report, _, overlappingSnapshot, after, hrefresh, rfl, hstate, hremoved, by simp [hx₀, hfile₀],
    by simp [hx, hfile], (haffected "x").mpr ⟨"x", .refl, (htouches "x").mpr rfl⟩,
    (haffected "t").mpr ⟨"x", .single hedge, (htouches "x").mpr rfl⟩, hu, hunaffected "u" hu "u" .refl⟩

end MarkdownTemplates
