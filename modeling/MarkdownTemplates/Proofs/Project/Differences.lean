import MarkdownTemplates.Proofs.Project.Reporting
import MarkdownTemplates.Proofs.Project.Targets

/-!
# A report is a difference

The lists in the report of a refresh are the difference of the snapshots before and after it. A key is in one of them at most, and
what is under a key in none of them has been kept but for its fingerprint and the errors that concern several files. A refresh of
all files that follows another one has nothing to report while the files say the same.
-/

namespace MarkdownTemplates

open FileMetadata (content IsListed)

namespace FileMetadata

theorem hash_of_content {m m' : FileMetadata} (h : m.content = m'.content) : m.hash = m'.hash := by
  have hhash := congrArg hash h
  exact hhash

/-- What is known in two places with the same content has the same digest. -/
theorem map_hash_of_content {o o' : Option FileMetadata} (h : o.map content = o'.map content) :
    o.map (·.hash) = o'.map (·.hash) := by
  cases o <;> cases o' <;> simp only [Option.map_some, Option.map_none, Option.some.injEq, reduceCtorEq] at h ⊢
  exact hash_of_content h

end FileMetadata

namespace Refresh

variable {files files' : FileTree} {areAll : Bool} {r : Refresh} {known : Dict FileMetadata} {key k : String} {m : FileMetadata}
  {candidates : List (String × Path)} {c : String × Path}

/-- The keys in a report, those of files that could not be read among them. -/
def named (r : Refresh) : List String := r.touched ++ r.errors.map (·.path)

/-- Has a step added the key to those that are named, or none at all? -/
def Names (r r' : Refresh) (key : String) : Prop := r'.named.Perm r.named ∨ r'.named.Perm (key :: r.named)

namespace Names

variable {r' : Refresh}

theorem subset (h : r.Names r' key) : r'.named ⊆ key :: r.named :=
  h.elim (fun hp _ hm => List.mem_cons_of_mem _ (hp.mem_iff.mp hm)) fun hp => hp.subset

theorem nodup (h : r.Names r' key) (hn : r.named.Nodup) (hk : key ∉ r.named) : r'.named.Nodup := by
  rcases h with hp | hp
  · exact hp.nodup_iff.mpr hn
  · exact hp.nodup_iff.mpr (List.nodup_cons.mpr ⟨hk, hn⟩)

theorem of_count (h : ∀ a, r'.named.count a = [key].count a + r.named.count a) : r.Names r' key :=
  .inr (List.perm_iff_count.mpr fun a => by rw [h, ← List.count_append, List.singleton_append])

theorem remove (r : Refresh) (key : String) : r.Names (r.remove key) key := by
  unfold Refresh.remove
  cases r.files.get? key with
  | none => exact .inl (.refl _)
  | some m =>
    refine of_count fun a => ?_
    simp only [named, touched, List.count_append]
    omega

theorem put (r : Refresh) (key : String) (m : FileMetadata) : r.Names (r.put key m) key := by
  unfold Refresh.put
  cases r.files.get? key with
  | none =>
    refine of_count fun a => ?_
    simp only [named, touched, List.count_append]
    omega
  | some old =>
    dsimp only
    split_ifs
    · exact .inl (.refl _)
    · refine of_count fun a => ?_
      simp only [named, touched, List.count_append]
      omega

theorem check (r : Refresh) (c : String × Path) : r.Names (check files r c) c.1 := by
  unfold Refresh.check
  cases hr : FileMetadata.read files c.1 c.2 with
  | error e =>
    refine of_count fun a => ?_
    simp only [named, touched, List.map_append, List.map_cons, List.map_nil, FileMetadata.path_of_read_eq_error hr,
      List.count_append]
    omega
  | ok m => exact put r c.1 m

end Names

/-- Does a refresh name each key once at most, and those as updated whose digest has changed? -/
structure IsExact (r : Refresh) (known : Dict FileMetadata) : Prop extends r.Reports known where
  distinct : r.named.Nodup
  rehashed : ∀ k ∈ r.updated, (known.get? k).map (·.hash) ≠ (r.files.get? k).map (·.hash)

namespace IsExact

theorem start (known : Dict FileMetadata) : IsExact { files := known } known where
  toReports := .start known
  distinct := List.nodup_nil
  rehashed := by simp

theorem notMem_touched (hk : key ∉ r.named) : key ∉ r.touched := fun hm => hk (List.mem_append_left _ hm)

/-- A step that changes nothing else leaves the digests of the files that have been updated before. -/
theorem rehashed_of_get? {files : Dict FileMetadata} (h : r.IsExact known) (hk : key ∉ r.touched)
    (hget : ∀ k, k ≠ key → files.get? k = r.files.get? k) :
    ∀ k ∈ r.updated, (known.get? k).map (·.hash) ≠ (files.get? k).map (·.hash) := by
  intro k hm
  rw [hget k fun he => hk (he ▸ mem_touched.mpr (.inr (.inl hm)))]
  exact h.rehashed k hm

theorem remove (h : r.IsExact known) (hk : key ∉ r.named) : (r.remove key).IsExact known := by
  refine ⟨h.toReports.remove (notMem_touched hk), (Names.remove r key).nodup h.distinct hk, ?_⟩
  unfold Refresh.remove
  cases r.files.get? key with
  | none => exact h.rehashed
  | some m => exact h.rehashed_of_get? (notMem_touched hk) fun k hne => by rw [Dict.get?_erase, if_neg hne]

theorem put (h : r.IsExact known) (hk : key ∉ r.named) : (r.put key m).IsExact known := by
  refine ⟨h.toReports.put (notMem_touched hk), (Names.put r key m).nodup h.distinct hk, ?_⟩
  have hget : ∀ m k, k ≠ key → (r.files.insert key m).get? k = r.files.get? k := fun m k hne => by
    rw [Dict.get?_insert, if_neg hne]
  unfold Refresh.put
  cases hold : r.files.get? key with
  | none => exact h.rehashed_of_get? (notMem_touched hk) (hget m)
  | some old =>
    dsimp only
    split_ifs with hhash
    · exact h.rehashed_of_get? (notMem_touched hk) (hget _)
    · simp only [List.forall_mem_append, List.forall_mem_singleton]
      refine ⟨h.rehashed_of_get? (notMem_touched hk) (hget m), ?_⟩
      -- Before this step the file was known as it had been at the start.
      rw [← FileMetadata.map_hash_of_content (h.kept key (notMem_touched hk)), hold, Dict.get?_insert_self]
      simpa using hhash

theorem check (h : r.IsExact known) (hk : c.1 ∉ r.named) : (Refresh.check files r c).IsExact known := by
  refine ⟨h.toReports.check (notMem_touched hk), (Names.check r c).nodup h.distinct hk, ?_⟩
  unfold Refresh.check
  cases FileMetadata.read files c.1 c.2 with
  | error e => exact h.rehashed
  | ok m => exact (h.put hk).rehashed

theorem run (files : FileTree) (areAll : Bool) (candidates : List (String × Path)) (known : Dict FileMetadata) :
    (Refresh.run files areAll candidates known).IsExact known :=
  run_induction named (.start known) rfl (fun _ _ => IsExact.remove) (fun r key => (Names.remove r key).subset)
    (fun _ _ => IsExact.check) fun r c => (Names.check r c).subset

/-! ### The lists -/

theorem exists_of_mem_updated (h : r.IsExact known) (hk : k ∈ r.updated) :
    ∃ m m', known.get? k = some m ∧ r.files.get? k = some m' ∧ m.hash ≠ m'.hash := by
  obtain ⟨m, hm⟩ := Dict.contains_iff.mp (h.updated k hk).1
  obtain ⟨m', hm'⟩ := Dict.contains_iff.mp (h.updated k hk).2
  have hhash := h.rehashed k hk
  rw [hm, hm'] at hhash
  exact ⟨m, m', hm, hm', by simpa using hhash⟩

/-- A key is in one list, which says what has become of it, or in none. -/
theorem cases_of_key (h : r.IsExact known) (k : String) :
    (k ∈ r.added ∧ known.get? k = none ∧ ∃ m', r.files.get? k = some m') ∨
      (k ∈ r.updated ∧ ∃ m m', known.get? k = some m ∧ r.files.get? k = some m' ∧ m.hash ≠ m'.hash) ∨
      (k ∈ r.removed ∧ (∃ m, known.get? k = some m) ∧ r.files.get? k = none) ∨
      k ∉ r.touched ∧ (r.files.get? k).map content = (known.get? k).map content := by
  by_cases hk : k ∈ r.touched
  · rcases mem_touched.mp hk with hk | hk | hk
    · obtain ⟨hnone, hsome⟩ := h.added k hk
      exact .inl ⟨hk, hnone, Dict.contains_iff.mp hsome⟩
    · exact .inr (.inl ⟨hk, h.exists_of_mem_updated hk⟩)
    · obtain ⟨hbefore, hafter⟩ := h.removed k hk
      exact .inr (.inr (.inl ⟨hk, Dict.contains_iff.mp hbefore, hafter⟩))
  · exact .inr (.inr (.inr ⟨hk, h.kept k hk⟩))

theorem mem_added (h : r.IsExact known) : k ∈ r.added ↔ known.contains k = false ∧ r.files.contains k = true := by
  refine ⟨fun hk => ⟨by simp [Dict.contains, (h.added k hk).1], (h.added k hk).2⟩, fun ⟨hbefore, hafter⟩ => ?_⟩
  simp only [Dict.contains, Option.isSome_eq_false_iff, Option.isNone_iff_eq_none] at hbefore hafter
  rcases h.cases_of_key k with ⟨hk, -⟩ | ⟨-, m, m', hm, -⟩ | ⟨-, ⟨m, hm⟩, -⟩ | ⟨-, hc⟩
  · exact hk
  · cases hbefore.symm.trans hm
  · cases hbefore.symm.trans hm
  · rw [hbefore, Option.map_none, Option.map_eq_none_iff] at hc
    simp [hc] at hafter

theorem mem_removed (h : r.IsExact known) : k ∈ r.removed ↔ known.contains k = true ∧ r.files.contains k = false := by
  refine ⟨fun hk => ⟨(h.removed k hk).1, by simp [Dict.contains, (h.removed k hk).2]⟩, fun ⟨hbefore, hafter⟩ => ?_⟩
  simp only [Dict.contains, Option.isSome_eq_false_iff, Option.isNone_iff_eq_none] at hbefore hafter
  rcases h.cases_of_key k with ⟨-, -, m', hm'⟩ | ⟨-, m, m', -, hm', -⟩ | ⟨hk, -⟩ | ⟨-, hc⟩
  · cases hafter.symm.trans hm'
  · cases hafter.symm.trans hm'
  · exact hk
  · rw [hafter, Option.map_none, eq_comm, Option.map_eq_none_iff] at hc
    simp [hc] at hbefore

theorem mem_updated (h : r.IsExact known) :
    k ∈ r.updated ↔ ∃ m m', known.get? k = some m ∧ r.files.get? k = some m' ∧ m.hash ≠ m'.hash := by
  refine ⟨h.exists_of_mem_updated, fun ⟨m, m', hm, hm', hhash⟩ => ?_⟩
  rcases h.cases_of_key k with ⟨-, hnone, -⟩ | ⟨hk, -⟩ | ⟨-, -, hnone⟩ | ⟨-, hc⟩
  · cases hnone.symm.trans hm
  · exact hk
  · cases hnone.symm.trans hm'
  · rw [hm, hm', Option.map_some, Option.map_some, Option.some.injEq] at hc
    exact absurd (FileMetadata.hash_of_content hc).symm hhash

/-- Without a new digest, nothing is named. -/
theorem touched_eq_nil (h : r.IsExact known) (hsame : ∀ k, (r.files.get? k).map (·.hash) = (known.get? k).map (·.hash)) :
    r.touched = [] := by
  rw [List.eq_nil_iff_forall_not_mem]
  intro k hk
  have hk' := hsame k
  rcases h.cases_of_key k with ⟨-, hnone, m', hm'⟩ | ⟨-, m, m', hm, hm', hhash⟩ | ⟨-, ⟨m, hm⟩, hnone⟩ | ⟨hnot, -⟩
  · simp [hnone, hm'] at hk'
  · rw [hm, hm', Option.map_some, Option.map_some, Option.some.injEq] at hk'
    exact hhash hk'.symm
  · simp [hnone, hm] at hk'
  · exact hnot hk

end IsExact

/-- Nothing has changed where nothing is named. -/
theorem changed_eq_empty (h : r.Reports known) (ht : r.touched = []) : r.changed = ∅ := by
  refine NameSet.ext_contains fun x => ?_
  rw [touched, List.append_eq_nil_iff, List.append_eq_nil_iff] at ht
  obtain ⟨⟨hadded, hupdated⟩, hremoved⟩ := ht
  rw [h.changed, hadded, hupdated, hremoved]
  simp [IsListed, Dict.contains]

/-! ## Looking again -/

theorem hash_looked (files : FileTree) (c : String × Path) (old : Option FileMetadata) :
    (looked files c old).map (·.hash) =
      ((FileMetadata.read files c.1 c.2).toOption.map (·.hash)).or (old.map (·.hash)) := by
  unfold looked
  cases FileMetadata.read files c.1 c.2 with
  | error e => simp [Except.toOption]
  | ok m =>
    cases old with
    | none => simp [Except.toOption]
    | some old =>
      by_cases h : old.hash = m.hash
      · simp [Except.toOption, h, FileMetadata.withFingerprint]
      · simp [Except.toOption, h]

variable (files known) in
/-- A second look at all files finds no new digest while the files say the same. -/
theorem hash_run_again (hcontains : ∀ c ∈ candidates, files.contains c.2 = files'.contains c.2)
    (hread : ∀ c ∈ candidates, (FileMetadata.read files c.1 c.2).toOption = (FileMetadata.read files' c.1 c.2).toOption)
    {again : Dict FileMetadata}
    (hagain : ∀ k, (again.get? k).map (·.hash) = ((run files true candidates known).files.get? k).map (·.hash)) (k : String) :
    ((run files' true candidates again).files.get? k).map (·.hash) = (again.get? k).map (·.hash) := by
  rw [hagain k]
  by_cases hk : k ∈ candidates.map Prod.fst
  · obtain ⟨c, hc, rfl⟩ := List.mem_map.mp hk
    obtain ⟨p, hp⟩ := exists_mem_firstOfKeys hc
    have hmem := mem_of_mem_firstOfKeys hp
    have hagain := hagain c.1
    rw [get?_run_of_mem hp] at hagain ⊢
    rw [get?_run_of_mem hp, ← hcontains _ hmem]
    split_ifs at hagain ⊢ with hthere
    · -- What a look finds does not depend on what was known, unless the file cannot be read.
      rw [hash_looked, ← hread _ hmem, hagain, hash_looked]
      cases (FileMetadata.read files c.1 p).toOption <;> rfl
    · rfl
  · rw [get?_run_of_notMem hk, get?_run_of_notMem hk]
    rfl

end Refresh

/-! ## Reports -/

/-- Is the report the difference of the two snapshots? -/
structure RefreshReport.IsDifference (report : RefreshReport) (before after : Snapshot) : Prop where
  distinct : (report.added ++ report.updated ++ report.removed).Nodup
  added : ∀ k, k ∈ report.added ↔ before.files.contains k = false ∧ after.files.contains k = true
  updated : ∀ k, k ∈ report.updated ↔
    ∃ m m', before.files.get? k = some m ∧ after.files.get? k = some m' ∧ m.hash ≠ m'.hash
  removed : ∀ k, k ∈ report.removed ↔ before.files.contains k = true ∧ after.files.contains k = false
  /-- The other entries differ in the fingerprint at most, and in the errors that concern several files. -/
  kept : ∀ k, k ∉ report.added ++ report.updated ++ report.removed →
    (after.files.get? k).map content = (before.files.get? k).map content
  unread : ∀ e ∈ report.errors, e.path ∉ report.added ++ report.updated ++ report.removed

namespace Refresh

variable {r : Refresh} {before : Snapshot} {now : Nat}

theorem IsExact.isDifference (h : r.IsExact before.files) :
    (r.report (before.withFiles now r.files).dependencies).IsDifference before (before.withFiles now r.files) := by
  have hcontent := Snapshot.content_withFiles before now r.files
  have hcontains : ∀ k, (before.withFiles now r.files).files.contains k = r.files.contains k := fun k => by
    rw [Dict.contains, Dict.contains, ← Option.isSome_map, hcontent k, Option.isSome_map]
  have hdistinct := List.nodup_append'.mp h.distinct
  refine ⟨hdistinct.1, fun k => ?_, fun k => ?_, fun k => ?_, fun k hk => (hcontent k).trans (h.kept k hk), fun e he hk => ?_⟩
  · rw [hcontains]
    exact h.mem_added
  · refine h.mem_updated.trans ⟨?_, ?_⟩
    · rintro ⟨m, m', hm, hm', hhash⟩
      obtain ⟨m'', hm'', hc⟩ := Option.map_eq_some_iff.mp ((hcontent k).trans (congrArg (Option.map content) hm'))
      exact ⟨m, m'', hm, hm'', FileMetadata.hash_of_content hc ▸ hhash⟩
    · rintro ⟨m, m', hm, hm', hhash⟩
      obtain ⟨m'', hm'', hc⟩ := Option.map_eq_some_iff.mp ((hcontent k).symm.trans (congrArg (Option.map content) hm'))
      exact ⟨m, m'', hm, hm'', FileMetadata.hash_of_content hc ▸ hhash⟩
  · rw [hcontains]
    exact h.mem_removed
  · exact hdistinct.2.2 hk (List.mem_map_of_mem he)

/-- Where nothing is named, nothing is affected. -/
theorem report_of_touched_eq_nil (h : r.Reports before.files) (ht : r.touched = []) :
    (r.report (before.withFiles now r.files).dependencies).hasChanges = false ∧
      (r.report (before.withFiles now r.files).dependencies).affected = ∅ := by
  have hchanged := changed_eq_empty h ht
  rw [touched, List.append_eq_nil_iff, List.append_eq_nil_iff] at ht
  obtain ⟨⟨hadded, hupdated⟩, hremoved⟩ := ht
  refine ⟨by simp [RefreshReport.hasChanges, report, hadded, hupdated, hremoved], NameSet.ext_contains fun x => ?_⟩
  have hgraph : (before.withFiles now r.files).dependencies.reverseEdges =
      DependencyGraph.reverse (before.withFiles now r.files).dependencies.edges := by
    rw [(Snapshot.isDerived_withFiles before now r.files).graph]
    rfl
  rw [contains_affected hgraph, hchanged]
  simp [Dict.contains]

end Refresh

namespace Project

variable {p : Project} {now later : Nat} {targets : Option (List Path)} {report report' : RefreshReport}
  {state state' state'' : ProjectState} {files files' : FileTree} {s : Snapshot} {found : List Path}

/-- A second refresh of all files names nothing while they say the same. -/
theorem touched_lookAt_again (hd : p.discover files = .ok found) (hsame : p.SameAt files files' found) :
    (p.lookAt true found files' (s.withFiles now (p.lookAt true found files s).files)).touched = [] := by
  refine Refresh.IsExact.touched_eq_nil (.run _ _ _ _)
    (Refresh.hash_run_again files s.files (fun c hc => ?_) (fun c hc => ?_) fun k => ?_)
  · obtain ⟨q, hq, rfl⟩ := List.mem_map.mp hc
    exact hsame.contains q hq
  · obtain ⟨q, hq, rfl⟩ := List.mem_map.mp hc
    exact hsame.read found hd q hq _
  · exact FileMetadata.map_hash_of_content (Snapshot.content_withFiles _ _ _ k)

/-- What a refresh that succeeds reports is the difference of the snapshots before and after it. When it was one of all files and
they still say the same, another one has nothing to report. -/
theorem refresh_reports_difference (h : p.refresh now targets state = (.ok report, state')) :
    ∃ before mid after, p.obtain now false state = (.ok before, mid) ∧ state'.snapshot = some after ∧
      report.IsDifference before after ∧
      (targets = none → ∀ found, p.discover mid.files = .ok found → ∀ files' later report' state'',
        p.SameAt mid.files files' found →
        p.refresh later none { files := files', snapshot := some after } = (.ok report', state'') →
        report'.hasChanges = false ∧ report'.affected = ∅) := by
  obtain ⟨before, mid, candidates, after, r, ho, hc, rfl, rfl, hmemory, -, rfl⟩ := refresh_eq_report h
  have hexact : (p.lookAt targets.isNone candidates mid.files before).IsExact before.files := .run _ _ _ _
  refine ⟨before, mid, _, ho, hmemory, hexact.isDifference, ?_⟩
  rintro rfl found hfound files' later report' state'' hsame h'
  obtain rfl := Except.ok.inj (hc.symm.trans hfound)
  obtain ⟨_, _, candidates', _, _, ho', hc', rfl, rfl, -, -, rfl⟩ := refresh_eq_report h'
  cases ho'
  obtain rfl := Except.ok.inj ((hfound.symm.trans hsame.discover).trans hc')
  exact Refresh.report_of_touched_eq_nil (Refresh.reports_run _ _ _ _) (touched_lookAt_again hfound hsame)

end Project

/-! ## The renamed file again -/

/-- After a refresh of all files. -/
def movedSynchronized : ProjectState := (movedProject.refresh 9 none moved.state).2

/-- What is computed about two refreshes. -/
@[mk_iff] structure SynchronizedChecks : Prop where
  first : (movedProject.refresh 9 none moved.state).1.toOption.map (fun report =>
    (report.added, report.updated, report.removed)) = some (["b.md"], [], ["a.md"])
  discover : (movedProject.discover movedSynchronized.files).toOption = some [⟨"/p/b.md"⟩]
  info : (movedSynchronized.files.info ⟨"/p/b.md"⟩).toOption = some ⟨false, 24, 8⟩
  readText : (movedSynchronized.files.readText ⟨"/p/b.md"⟩).toOption = some ":::template\x7bid=\"x\"\x7d\n:::\n"
  second : (movedProject.refresh 10 none movedSynchronized).1.toOption.map (·.errors) = some []

theorem synchronizedChecks : SynchronizedChecks := by
  rw [synchronizedChecks_iff]
  decide +kernel

/-- One refresh reports the new name and the old one, and the next one nothing. -/
theorem refresh_reports_difference_moved : ∃ report before after report' final,
    movedProject.refresh 9 none moved.state = (.ok report, movedSynchronized) ∧ moved.state.snapshot = some before ∧
    movedSynchronized.snapshot = some after ∧ report.added = ["b.md"] ∧ report.removed = ["a.md"] ∧
    report.IsDifference before after ∧ movedProject.refresh 10 none movedSynchronized = (.ok report', final) ∧
    report'.hasChanges = false ∧ report'.affected = ∅ := by
  have hc := synchronizedChecks
  obtain ⟨report, hr, hlists⟩ := exists_eq_ok hc.first
  obtain ⟨report', hr', -⟩ := exists_eq_ok hc.second
  simp only [Prod.mk.injEq] at hlists
  obtain ⟨hadded, -, hremoved⟩ := hlists
  have hrefresh : movedProject.refresh 9 none moved.state = (.ok report, movedSynchronized) := Prod.ext hr rfl
  obtain ⟨before, mid, after, ho, hafter, hdifference, hagain⟩ := Project.refresh_reports_difference hrefresh
  obtain ⟨s, hs, -, ho'⟩ := obtain_moved
  cases ho.symm.trans ho'
  have hsame : movedProject.SameAt moved.state.files movedSynchronized.files [⟨"/p/b.md"⟩] := by
    obtain ⟨-, hi₀, ht₀, -⟩ := movedChecks.same moved.state.files (.head _)
    have hi₀ := eq_ok_of_toOption hi₀
    have hi := eq_ok_of_toOption hc.info
    refine .of_reads discover_moved (eq_ok_of_toOption hc.discover) ?_ ?_ ?_ <;> rw [List.forall_mem_singleton]
    · exact ⟨_, hi₀, hi⟩
    · exact ⟨_, eq_ok_of_toOption ht₀, eq_ok_of_toOption hc.readText⟩
    · rw [FileTree.contains, FileTree.contains, hi₀, hi]
  have hstate : movedSynchronized = { files := movedSynchronized.files, snapshot := some after } := hafter ▸ rfl
  have hrefresh' := Prod.fst_eq_iff.mp hr'
  obtain ⟨hnone, haffected⟩ := hagain rfl _ discover_moved movedSynchronized.files 10 report' _ hsame (hstate ▸ hrefresh')
  exact ⟨report, before, after, report', _, hrefresh, hs, hafter, hadded, hremoved, hdifference, hrefresh', hnone, haffected⟩

end MarkdownTemplates
