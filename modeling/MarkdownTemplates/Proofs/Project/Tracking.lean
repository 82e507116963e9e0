import MarkdownTemplates.Proofs.Project.Consistency
import MarkdownTemplates.Proofs.Snapshot.Description

/-!
# Tracked files

A search for the files of a project finds only Markdown files below its root that no rule leaves out. A scan and a refresh of all
files read nothing else. A refresh that is told at which files to look reads these whatever they are: as long as they are gone or
would be found, all that snapshots say comes from files that were found when they were read.
-/

namespace MarkdownTemplates

open FileMetadata (content)

/-! ## What is found -/

namespace Discovery

variable {w : World} {rules : SearchRules} {root dir q : Path} {left found all pending : List Path} {names : List String}

/-- The root is searched, and so are the directories in such a one that are not left out. -/
inductive IsSearched (w : World) (rules : SearchRules) (root : Path) : Path → Prop
  | root : IsSearched w rules root root
  | inside {dir : Path} {names : List String} {name : String} (hdir : IsSearched w rules root dir)
      (hnames : w.files.names (w.cwd.join dir) = .ok names) (hname : name ∈ names)
      (hdirectory : w.files.isDirectory (w.cwd.join (dir.join ⟨name⟩)) = true)
      (hskips : rules.skips (dir.join ⟨name⟩) true = false) : IsSearched w rules root (dir.join ⟨name⟩)

/-- Is it the path of a Markdown file in a directory that is searched, and not left out? -/
inductive IsFound (w : World) (rules : SearchRules) (root : Path) : Path → Prop
  | intro {dir : Path} {names : List String} {name : String} (hdir : IsSearched w rules root dir)
      (hnames : w.files.names (w.cwd.join dir) = .ok names) (hname : name ∈ names)
      (hfile : w.files.isDirectory (w.cwd.join (dir.join ⟨name⟩)) = false)
      (hskips : rules.skips (dir.join ⟨name⟩) false = false) (hmarkdown : (dir.join ⟨name⟩).isMarkdown = true) :
      IsFound w rules root (dir.join ⟨name⟩)

theorem mem_entriesOf {isDirectory : Bool} (h : (q, isDirectory) ∈ entriesOf w rules dir names) : ∃ name ∈ names,
    dir.join ⟨name⟩ = q ∧ w.files.isDirectory (w.cwd.join q) = isDirectory ∧ rules.skips q isDirectory = false := by
  obtain ⟨hm, hs⟩ := List.mem_filter.mp h
  obtain ⟨name, hname, he⟩ := List.mem_map.mp hm
  obtain ⟨rfl, hdirectory⟩ := Prod.mk.inj he
  simp only [Bool.not_eq_true'] at hs
  exact ⟨name, hname, rfl, hdirectory, hs⟩

theorem isFound_of_search (h : search w rules left found pending = .ok all)
    (hpending : ∀ dir ∈ pending, IsSearched w rules root dir) (hfound : ∀ q ∈ found, IsFound w rules root q) :
    ∀ q ∈ all, IsFound w rules root q := by
  fun_induction search with
  | case1 left found =>
    cases h
    exact hfound
  | case2 => cases h
  | case3 => cases h
  | case4 left found dir pending names place hplace hnames hleft entries below markdown ih =>
    rw [List.forall_mem_cons] at hpending
    refine ih h (fun dir' hdir' => ?_) fun q hq => ?_
    · rcases List.mem_append.mp hdir' with hdir' | hdir'
      · obtain ⟨⟨p, b⟩, hm, rfl⟩ := List.mem_map.mp (List.mem_reverse.mp hdir')
        obtain ⟨hm, hb⟩ := List.mem_filter.mp hm
        obtain ⟨name, hname, rfl, hdirectory, hskips⟩ := mem_entriesOf hm
        obtain rfl : b = true := hb
        exact .inside hpending.1 hnames hname hdirectory hskips
      · exact hpending.2 dir' hdir'
    · rcases List.mem_append.mp hq with hq | hq
      · exact hfound q hq
      · obtain ⟨⟨p, b⟩, hm, rfl⟩ := List.mem_map.mp hq
        obtain ⟨hm, hb⟩ := List.mem_filter.mp hm
        obtain ⟨name, hname, rfl, hdirectory, hskips⟩ := mem_entriesOf hm
        rw [Bool.and_eq_true, Bool.not_eq_true'] at hb
        obtain rfl : b = false := hb.1
        exact .intro hpending.1 hnames hname hdirectory hskips hb.2
  | case5 => cases h

/-- Only Markdown files below the root are found that no rule leaves out. -/
theorem isFound_of_run {cacheDir : Path} {exclude : List String} (h : run w root cacheDir exclude = .ok found) :
    ∃ excluded, excludeRules root exclude = .ok excluded ∧
      ∀ q ∈ found, IsFound w ⟨cacheDir, IgnoreList.load w.files root (w.cwd.join root), excluded⟩ root q := by
  rw [run] at h
  obtain ⟨excluded, he, h⟩ := except_bind_eq_ok.mp h
  obtain ⟨all, hs, h⟩ := except_bind_eq_ok.mp h
  refine ⟨excluded, he, fun q hq => isFound_of_search hs (by simp [IsSearched.root]) (by simp) q ?_⟩
  cases h
  exact (List.mergeSort_perm _ _).mem_iff.mp hq

end Discovery

/-! ## What is known about files -/

variable {root : Path} {moments past : List Moment} {m a b : Moment} {now : Nat} {s : Snapshot} {k : String} {q : Path}
  {areAll : Bool} {candidates : List Path} {md : FileMetadata}

namespace Moment

/-- Would the file be found by a search for the files of the project? -/
def Discovers (m : Moment) (root q : Path) : Prop :=
  ∃ found, (m.project root).discover m.state.files = .ok found ∧ q ∈ found

/-- Is it a Markdown file below the root that neither its directories nor the rules of the project leave out? -/
def IsProjectFile (m : Moment) (root q : Path) : Prop :=
  ∃ excluded, Discovery.excludeRules root m.options.exclude = .ok excluded ∧
    Discovery.IsFound { files := m.state.files, cwd := root }
      ⟨(m.project root).cacheDir, IgnoreList.load m.state.files root (root.join root), excluded⟩ root q

theorem Discovers.isProjectFile (h : m.Discovers root q) : m.IsProjectFile root q := by
  obtain ⟨found, hd, hq⟩ := h
  obtain ⟨excluded, he, hall⟩ := Discovery.isFound_of_run hd
  exact ⟨excluded, he, hall q hq⟩

/-- Is this what can be read now from a file that would be found? -/
def Extracts (m : Moment) (root : Path) (k : String) (md : FileMetadata) : Prop :=
  ∃ q, m.Discovers root q ∧ Path.key root q = k ∧
    ∃ new, FileMetadata.read m.state.files k q = .ok new ∧ new.content = md.content

/-- Can the manager use the snapshot without reading the files? -/
def Holds (m : Moment) (root : Path) (s : Snapshot) : Prop :=
  m.state.snapshot = some s ∨ (m.project root).persisted m.state.files = .ok (some s)

/-- Was all that the snapshot in memory says about files known at the earlier moment, or could it be read then from a file that
would be found? -/
def Follows (b a : Moment) (root : Path) : Prop :=
  ∀ s, b.state.snapshot = some s → ∀ k md, s.files.get? k = some md →
    (∃ s₀ old, a.Holds root s₀ ∧ s₀.files.get? k = some old ∧ old.content = md.content) ∨ a.Extracts root k md

/-- Are the files at which a manager is told to look gone, or would they be found? -/
def AimsWell (m : Moment) (root : Path) : Prop :=
  ∀ q ∈ m.targets, m.state.files.contains q = true → m.Discovers root q

theorem Extracts.of_content {md' : FileMetadata} (h : m.Extracts root k md) (hc : md.content = md'.content) :
    m.Extracts root k md' := by
  obtain ⟨q, hq, hk, new, hr, hn⟩ := h
  exact ⟨q, hq, hk, new, hr, hn.trans hc⟩

theorem AimsWell.discovers (h : m.AimsWell root) (hl : m.LooksAt root q) (hr : FileMetadata.read m.state.files k q = .ok md) :
    m.Discovers root q :=
  hl.elim (fun hq => h q hq (FileMetadata.contains_of_read hr)) id

end Moment

/-- A look at a file keeps what was known of it or finds what can be read. -/
theorem looked_cases {files : FileTree} {c : String × Path} {old : Option FileMetadata}
    (h : Refresh.looked files c old = some md) :
    (∃ o, old = some o ∧ o.content = md.content) ∨ FileMetadata.read files c.1 c.2 = .ok md := by
  unfold Refresh.looked at h
  cases hr : FileMetadata.read files c.1 c.2 with
  | error e =>
    simp only [hr] at h
    exact .inl ⟨md, h, rfl⟩
  | ok new =>
    simp only [hr] at h
    cases old with
    | none => exact .inr (congrArg _ (Option.some.inj h))
    | some o =>
      simp only [Option.some.injEq] at h
      split_ifs at h
      · exact .inl ⟨o, rfl, h ▸ rfl⟩
      · exact .inr (congrArg _ h)

namespace Snapshot

/-- What a scan says about a file can be read from it. -/
theorem extracts_of_scan (h : (a.project root).scan now a.state.files = .ok s) (hm : s.files.get? k = some md) :
    a.Extracts root k md := by
  obtain ⟨found, hd, rfl⟩ := Project.scan_eq_ok.mp h
  obtain ⟨new, hn, hc⟩ := Option.map_eq_some_iff.mp
    ((content_withFiles _ _ _ k).symm.trans (congrArg (Option.map content) hm))
  obtain ⟨q, hq, hk, hr⟩ := Project.exists_read_of_scanned hn
  exact ⟨q, ⟨found, hd, hq⟩, hk, new, hr, hc⟩

/-- What a refresh says about a file was known before or can be read from it. -/
theorem extracts_of_refresh (ha : a.AimsWell root) (hq : ∀ q ∈ candidates, a.LooksAt root q)
    (hm : (s.withFiles now ((a.project root).lookAt areAll candidates a.state.files s).files).files.get? k = some md) :
    (∃ old, s.files.get? k = some old ∧ old.content = md.content) ∨ a.Extracts root k md := by
  obtain ⟨new, hn, hc⟩ := Option.map_eq_some_iff.mp
    ((content_withFiles _ _ _ k).symm.trans (congrArg (Option.map content) hm))
  rcases Project.lookAt_cases hn with hn | ⟨q, hcandidate, hk, hl⟩
  · exact .inl ⟨new, hn, hc⟩
  · rcases looked_cases hl with ⟨o, ho, hoc⟩ | hr
    · exact .inl ⟨o, ho, hoc.trans hc⟩
    · exact .inr ⟨q, ha.discovers (hq q hcandidate) hr, hk, new, hr, hc⟩

end Snapshot

/-! ## One operation -/

namespace Moment.Follows

theorem of_eq (h : b.state.snapshot = a.state.snapshot) : b.Follows a root :=
  fun s hs _ md hm => .inl ⟨s, md, .inl (h ▸ hs), hm, rfl⟩

theorem rebuild : (m.after ((m.project root).rebuild now m.state)).Follows m root := by
  rcases hr : (m.project root).rebuild now m.state with ⟨e | s', state⟩
  · exact of_eq (Project.snapshot_of_rebuild_error hr)
  · obtain ⟨hscan, -, hmemory⟩ := Project.rebuild_eq_ok hr
    intro s hs k md hm
    obtain rfl := Option.some.inj (hmemory.symm.trans hs)
    exact .inr (Snapshot.extracts_of_scan hscan hm)

theorem obtain {checkFiles : Bool} : (m.after ((m.project root).obtain now checkFiles m.state)).Follows m root := by
  rcases Project.obtain_cases (m.project root) now checkFiles m.state with ⟨s', -, ho⟩ | ⟨s', -, hl, ho⟩ | ⟨-, -, ho⟩
  · rw [ho]
    exact of_eq rfl
  · rw [ho]
    intro s hs k md hm
    obtain rfl := Option.some.inj hs
    exact .inl ⟨s', md, .inr (Project.persisted_of_load? hl).1, hm, rfl⟩
  · rw [ho]
    exact rebuild

theorem refresh {targets : Option (List Path)} (ha : (m.between root now targets).AimsWell root) :
    (m.after ((m.project root).refresh now targets m.state)).Follows (m.between root now targets) root := by
  rcases hr : (m.project root).refresh now targets m.state with ⟨r, state'⟩
  intro s hs k md hm
  have hmid : ∀ {r mid}, (m.project root).obtain now false m.state = (r, mid) →
      (m.between root now targets).state = mid := fun ho => congrArg Prod.snd ho
  rcases Project.snapshot_of_refresh hr hs with ⟨e, ho⟩ | ⟨s₀, mid, candidates, ho, hcand, rfl⟩
  · exact .inl ⟨s, md, .inl (by rw [hmid ho]; exact hs), hm, rfl⟩
  · have hs₀ : (m.between root now targets).state.snapshot = some s₀ := by
      rw [hmid ho]
      exact Project.snapshot_of_obtain ho
    rw [← hmid ho] at hcand hm
    exact (Snapshot.extracts_of_refresh ha (Moment.between_looksAt hcand) hm).imp_left
      fun ⟨old, hold, hc⟩ => ⟨s₀, old, .inl hs₀, hold, hc⟩

end Moment.Follows

/-- Each operation of a run reads only files that would be found. -/
theorem Run.isChain_follows (h : Run root moments) (ha : ∀ a ∈ moments, a.AimsWell root) :
    moments.IsChain fun b a => b.Follows a root := by
  induction h with
  | start => exact .singleton _
  | edit files _ ih => exact .cons_cons (.of_eq rfl) (ih fun a hm => ha a (.tail _ hm))
  | manager options _ ih => exact .cons_cons (fun s hs => by cases hs) (ih fun a hm => ha a (.tail _ hm))
  | get now _ ih => exact .cons_cons .obtain (ih fun a hm => ha a (.tail _ hm))
  | rebuild now _ ih => exact .cons_cons .rebuild (ih fun a hm => ha a (.tail _ hm))
  | refresh now targets _ ih =>
    refine .cons_cons (.refresh (ha _ (.tail _ (.head _)))) (.cons_cons ?_ (ih fun a hm => ha a (.tail _ (.tail _ hm))))
    exact Moment.Follows.obtain
  | clear _ ih =>
    refine .cons_cons (fun s hs => ?_) (ih fun a hm => ha a (.tail _ hm))
    rw [Moment.clear_memory] at hs
    cases hs

/-! ## All snapshots -/

/-- Was all that the snapshot says about files read from files that would be found then, and does the rest follow from it? -/
structure Snapshot.IsTracked (s : Snapshot) (root : Path) (moments : List Moment) : Prop where
  isConsistent : s.IsConsistent root
  extracted : ∀ k md, s.files.get? k = some md → ∃ a ∈ moments, a.Extracts root k md

namespace Snapshot.IsTracked

theorem isInvariant (root : Path) : IsInvariant root (fun moments => ∀ a ∈ moments, a.AimsWell root)
    fun moments s => s.IsTracked root moments where
  assumed_of_subset hs ha a hm := ha a (hs hm)
  mono hs h := ⟨h.isConsistent, fun k md hm => (h.extracted k md hm).imp fun _ ha => ha.imp_left (hs ·)⟩
  scan ha h := ⟨.scan h, fun _ _ hm => ⟨_, ha, extracts_of_scan h hm⟩⟩
  refresh := by
    intro moments a now areAll candidates s hall ha hq h
    refine ⟨h.isConsistent.refresh, fun k md hm => ?_⟩
    rcases extracts_of_refresh (hall a ha) hq hm with ⟨old, hold, hc⟩ | he
    · obtain ⟨b, hb, he⟩ := h.extracted k old hold
      exact ⟨b, hb, he.of_content hc⟩
    · exact ⟨a, ha, he⟩

/-- A recorded template is a definition in a file that would be found. -/
theorem exists_extracted (h : s.IsTracked root moments) {x : String} {t : CachedTemplate} (ht : s.templates.get? x = some t) :
    ∃ a ∈ moments, ∃ md, a.Extracts root t.file md ∧ t ∈ md.definitions := by
  obtain ⟨k, md, hm, hmem, -⟩ := h.isConsistent.isDerived.exists_first ht
  obtain ⟨a, ha, he⟩ := h.extracted k md hm
  rw [← (h.isConsistent.files k md hm).file t hmem] at he
  exact ⟨a, ha, md, he, hmem⟩

end Snapshot.IsTracked

/-- In a run in which every file at which a manager is told to look is gone or would be found, each operation reads only files that
would be found, which are Markdown files of the project. So all that snapshots say about files, in memory and in the file, comes
from such files, and each recorded template is a definition in one. -/
theorem Run.tracks_discovered (h : Run root moments) (hw : OnlyManagersWrite root moments)
    (ha : ∀ a ∈ moments, ∀ q ∈ a.targets, a.state.files.contains q = true → a.Discovers root q) :
    (moments.IsChain fun b a => b.Follows a root) ∧
    (∀ a ∈ moments, ∀ q, a.Discovers root q → a.IsProjectFile root q) ∧
    ∀ a ∈ moments, a.Keeps root fun s =>
      (∀ k md, s.files.get? k = some md → ∃ b ∈ moments, b.Extracts root k md) ∧
      ∀ x t, s.templates.get? x = some t → ∃ b ∈ moments, ∃ md, b.Extracts root t.file md ∧ t ∈ md.definitions := by
  refine ⟨h.isChain_follows ha, fun _ _ _ hq => hq.isProjectFile, fun a hm => ?_⟩
  exact ((Snapshot.IsTracked.isInvariant root).keeps h hw ha a hm).imp
    fun s hs => ⟨hs.extracted, fun _ _ ht => hs.exists_extracted ht⟩

/-! ## Looking at one file -/

/-- A project with one file, which defines a template. -/
def single (name : String) : Moment where
  options := {}
  state := { files := ⟨.ofList [("/p", .directory), ("/p/" ++ name, .file ":::template\x7bid=\"x\"\x7d\n:::\n".toUTF8 5)]⟩ }

def singleBetween (name : String) : Moment := (single name).between ⟨"/p"⟩ 7 (some [⟨name⟩])

/-- A new manager has been told to look at the file. -/
def singleRefreshed (name : String) : Moment :=
  (single name).after (((single name).project ⟨"/p"⟩).refresh 7 (some [⟨name⟩]) (single name).state)

def singleMoments (name : String) : List Moment := [singleRefreshed name, singleBetween name, single name]

theorem run_single (name : String) : Run ⟨"/p"⟩ (singleMoments name) := .refresh 7 _ (.start _ _)

/-- What is computed about the run when the manager looks at `q` and these files are found. -/
@[mk_iff] structure SingleChecks (name : String) (q : Path) (found : List Path) : Prop where
  stores : ((single name).state.files.readText ((single name).project ⟨"/p"⟩).cachePath).toOption = none
  isFinished : (singleRefreshed name).isFinished = true ∧ (singleBetween name).isFinished = true
  discover : ∀ a ∈ singleMoments name, ((a.project ⟨"/p"⟩).discover a.state.files).toOption = some found
  targets : (singleBetween name).targets = [q]
  templates : (singleRefreshed name).state.snapshot.map
    (fun s => s.templates.entries.map fun e => (e.1, e.2.file, e.2.dependencies)) = some [("x", name, [])]

namespace SingleChecks

variable {name : String} {found : List Path}

theorem onlyManagersWrite (h : SingleChecks name q found) : OnlyManagersWrite ⟨"/p"⟩ (singleMoments name) :=
  .finished h.isFinished.1 (.finished h.isFinished.2 (.start h.stores))

theorem discovers (h : SingleChecks name q found) (ha : a ∈ singleMoments name) {q' : Path} :
    a.Discovers ⟨"/p"⟩ q' ↔ q' ∈ found := by
  constructor
  · rintro ⟨found', hd, hq⟩
    cases (eq_ok_of_toOption (h.discover a ha)).symm.trans hd
    exact hq
  · exact fun hq => ⟨found, eq_ok_of_toOption (h.discover a ha), hq⟩

theorem eq_of_mem_targets (h : SingleChecks name q found) (ha : a ∈ singleMoments name) {q' : Path} (hq : q' ∈ a.targets) :
    q' = q := by
  simp only [singleMoments, List.mem_cons, List.not_mem_nil, or_false] at ha
  rcases ha with rfl | rfl | rfl
  · cases hq
  · rw [h.targets] at hq
    exact List.mem_singleton.mp hq
  · cases hq

theorem exists_template (h : SingleChecks name q found) :
    ∃ s t, (singleRefreshed name).state.snapshot = some s ∧ s.templates.get? "x" = some t ∧ t.file = name := by
  obtain ⟨s, hs, ht⟩ := Option.map_eq_some_iff.mp h.templates
  obtain ⟨t, ht, hfile, -⟩ := (mem_templates_map ht).mp (List.mem_singleton_self _)
  exact ⟨s, t, hs, ht, hfile⟩

end SingleChecks

/-- The template of a file that would be found is recorded. -/
theorem tracks_discovered_single : ∃ s t, (singleRefreshed "a.md").state.snapshot = some s ∧
    s.templates.get? "x" = some t ∧ ∃ b ∈ singleMoments "a.md", ∃ md, b.Extracts ⟨"/p"⟩ "a.md" md ∧ t ∈ md.definitions := by
  have hc : SingleChecks "a.md" ⟨"/p/a.md"⟩ [⟨"/p/a.md"⟩] := by
    rw [singleChecks_iff]
    decide +kernel
  obtain ⟨s, t, hs, ht, hfile⟩ := hc.exists_template
  obtain ⟨-, -, hall⟩ := (run_single "a.md").tracks_discovered hc.onlyManagersWrite fun a ha q hq _ =>
    (hc.discovers ha).mpr (List.mem_singleton.mpr (hc.eq_of_mem_targets ha hq))
  obtain ⟨-, htemplates⟩ := (hall _ (.head _)).memory s hs
  have he := htemplates "x" t ht
  rw [hfile] at he
  exact ⟨s, t, hs, ht, he⟩

/-- A file that is no Markdown file would not be found. When a manager is told to look at it, its template is recorded all the
same. -/
theorem not_tracks_discovered :
    ¬ ∀ (root : Path) (moments : List Moment), Run root moments → OnlyManagersWrite root moments →
      ∀ a ∈ moments, ∀ s, a.state.snapshot = some s → ∀ x t, s.templates.get? x = some t →
        ∃ b ∈ moments, ∃ q, b.Discovers root q ∧ Path.key root q = t.file := by
  intro h
  have hc : SingleChecks "notes.txt" ⟨"/p/notes.txt"⟩ [] := by
    rw [singleChecks_iff]
    decide +kernel
  obtain ⟨s, t, hs, ht, -⟩ := hc.exists_template
  obtain ⟨b, hb, q, hq, -⟩ := h ⟨"/p"⟩ _ (run_single "notes.txt") hc.onlyManagersWrite _ (.head _) s hs "x" t ht
  exact List.not_mem_nil ((hc.discovers hb).mp hq)

end MarkdownTemplates
