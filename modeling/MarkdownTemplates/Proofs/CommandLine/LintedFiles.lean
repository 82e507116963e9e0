import MarkdownTemplates.CommandLine.Lint
import MarkdownTemplates.Proofs.CommandLine.Completeness
import MarkdownTemplates.Proofs.Discovery.Listing
import MarkdownTemplates.Proofs.Project.Freshness

/-!
# The files that are linted

Linting finds the files of a project by a search, or takes those of the snapshot. Both are the same files, the first in the order of
their paths and the second in the order of their keys. Each file has a report of its own, whatever is linted before it.
-/

namespace MarkdownTemplates

open Relation (ReflTransGen)
open Resolver (outcome)

/-! ## The report of a file -/

namespace World

/-- Is whatever is read for the document in the file `p` the same in the other world? -/
def ReadsAlike (w w' : World) (restrict : Option Path) (p : Path) : Prop :=
  ∀ q, ReflTransGen (w.Imports restrict) p q → w'.document q = w.document q ∧
    ∀ document, w.document q = .ok document → ∀ r ∈ Reference.all document.root, ∀ src, r.src = some src →
      outcome w' restrict src (some q) = outcome w restrict src (some q)

theorem ReadsAlike.refl (w : World) (restrict : Option Path) (p : Path) : w.ReadsAlike w restrict p :=
  fun _ _ => ⟨rfl, fun _ _ _ _ _ _ => rfl⟩

/-- Without references, nothing but the file itself is read. -/
theorem readsAlike_of_references {w w' : World} {restrict : Option Path} {p : Path} {document : Document}
    (hd : w.document p = .ok document) (hd' : w'.document p = .ok document) (hnone : Reference.all document.root = []) :
    w.ReadsAlike w' restrict p := by
  intro q hq
  rcases ReflTransGen.cases_head hq with rfl | ⟨_, ⟨document', hdocument, r, hr, -⟩, -⟩
  · refine ⟨hd'.trans hd.symm, fun document' hdocument r hr => ?_⟩
    cases hd.symm.trans hdocument
    simp [hnone] at hr
  · cases hd.symm.trans hdocument
    simp [hnone] at hr

end World

namespace Closure

variable {w w' : World} {restrict : Option Path} {p : Path} {seen : NameSet} {pending : List PendingReference} {visits : List Visit}

theorem Visits.of_readsAlike (h : Visits w restrict seen pending visits) (hcwd : w'.cwd = w.cwd)
    (ha : w.ReadsAlike w' restrict p) (hp : ∀ r ∈ pending, Stands w restrict p r) : Visits w' restrict seen pending visits := by
  induction h with
  | done => exact .done
  | skip hs _ ih => exact .skip (by rwa [hcwd]) (ih (List.forall_mem_cons.mp hp).2)
  | @visit seen r src rest visits hsrc hnew _ ih =>
    obtain ⟨hr, hrest⟩ := List.forall_mem_cons.mp hp
    have ho : outcome w' restrict src r.base = outcome w restrict src r.base := by
      obtain ⟨q, document, hbase, hq, hd, hm⟩ := hr
      rw [hbase]
      exact (ha q hq).2 document hd r.reference hm src hsrc
    refine .step hsrc (by rwa [hcwd]) ho ?_
    rw [hcwd]
    refine ih fun r' hr' => ?_
    rcases List.mem_append.mp hr' with hr' | hr'
    · exact hrest r' hr'
    · exact hr.of_found hsrc hr'

end Closure

namespace Linter

variable {l : Linter} {w w' : World} {r : Resolver} {restrict file : Option Path} {root : Node} {p : Path} {paths : List Path}
  {visits : List Visit}

/-- The report of a file that is linted alone. -/
def reportOf (l : Linter) (w : World) (restrict : Option Path) (p : Path) : LintReport :=
  match w.document p with
  | .ok document => (l.run w { restrict } (some p) document.root).1
  | .error _ => ⟨some p, []⟩

theorem fst_run (l : Linter) (w : World) (r : Resolver) (file : Option Path) (root : Node) :
    (l.run w r file root).1 = ⟨file, l.rules.values.flatMap (l.findings ⟨file, (Analysis.run w r file root).1⟩)⟩ := rfl

theorem resolver_run (l : Linter) (file : Option Path) (root : Node) (hf : r.IsFaithful w) :
    (l.run w r file root).2.IsFaithful w ∧ (l.run w r file root).2.restrict = r.restrict := by
  have hsnd : (l.run w r file root).2 = (Analysis.run w r file root).2 := rfl
  rw [hsnd, Analysis.run]
  have hwalk : ∀ step : Analysis.Collected → Visit → Except Empty Analysis.Collected, ∀ start,
      (Closure.run w r file root step start).2.IsFaithful w ∧ (Closure.run w r file root step start).2.restrict = r.restrict :=
    fun _ _ => Closure.resolver_walk hf
  split
  rename_i c r' hr
  exact congrArg Prod.snd hr ▸ hwalk _ _

/-- A report depends on the visits only. -/
theorem run_eq {r' : Resolver} (hf : r.IsFaithful w) (hf' : r'.IsFaithful w') (hv : Closure.VisitsOf w r.restrict file root visits)
    (hv' : Closure.VisitsOf w' r'.restrict file root visits) : (l.run w r file root).1 = (l.run w' r' file root).1 := by
  rw [fst_run, fst_run, Analysis.run_eq hv hf, Analysis.run_eq hv' hf']

/-- Each file has the report that it has alone. -/
theorem runFiles_eq (hf : r.IsFaithful w) (hd : ∀ p ∈ paths, ∃ document, w.document p = .ok document) :
    l.runFiles w r paths = .ok (paths.map (l.reportOf w r.restrict)) := by
  induction paths generalizing r with
  | nil => rfl
  | cons p paths ih =>
    obtain ⟨⟨document, hdocument⟩, hd⟩ := List.forall_mem_cons.mp hd
    obtain ⟨visits, hv⟩ := Closure.exists_visitsOf w r.restrict (some p) document.root
    have halone : l.reportOf w r.restrict p = (l.run w r (some p) document.root).1 := by
      unfold reportOf
      rw [hdocument]
      exact run_eq (Resolver.isFaithful_of_memo rfl) hf hv hv
    obtain ⟨hf', hr'⟩ := resolver_run l (some p) document.root hf
    have hrest := ih hf' hd
    rw [hr'] at hrest
    simp only [runFiles, hdocument, bind, Except.bind, hrest, List.map_cons, halone]
    rfl

/-- A file has the same report in a world in which the same is read for it. -/
theorem reportOf_eq (hcwd : w'.cwd = w.cwd) (ha : w.ReadsAlike w' restrict p) : l.reportOf w' restrict p = l.reportOf w restrict p := by
  unfold reportOf
  rw [(ha p .refl).1]
  cases hd : w.document p with
  | error e => rfl
  | ok document =>
    obtain ⟨visits, hv⟩ := Closure.exists_visitsOf w restrict (some p) document.root
    have hv' : Closure.VisitsOf w' restrict (some p) document.root visits :=
      hv.of_readsAlike hcwd ha fun r hr => by
        obtain ⟨reference, hm, rfl⟩ := List.mem_map.mp hr
        exact ⟨p, document, rfl, .refl, hd, hm⟩
    exact run_eq (Resolver.isFaithful_of_memo rfl) (Resolver.isFaithful_of_memo rfl) hv' hv

end Linter

/-! ## The files of a snapshot -/

theorem FileMetadata.exists_read {files : FileTree} {p : Path} {text : String} (key : String) (h : files.readText p = .ok text) :
    ∃ m, FileMetadata.read files key p = .ok m := by
  obtain ⟨bytes, hb, -⟩ := FileTree.readText_eq_ok.mp h
  obtain ⟨place, modified, hl, he⟩ := FileTree.readBytes_eq_ok.mp hb
  have hinfo : files.info p = .ok ⟨false, bytes.size, modified⟩ := by
    rw [FileTree.info, FileTree.find_eq_ok.mpr ⟨hl, he⟩]
    rfl
  exact ⟨_, FileMetadata.read_eq_ok.mpr ⟨_, text, hinfo, h, rfl⟩⟩

namespace Project

variable {p : Project} {now : Nat} {files : FileTree} {state : ProjectState} {s : Snapshot} {root : Path} {found : List Path}

theorem contains_of_scan (hscan : p.scan now files = .ok s) (hd : p.discover files = .ok found)
    (hread : ∀ q ∈ found, ∃ text, files.readText q = .ok text) (hn : (found.map (Path.key p.root)).Nodup) (k : String) :
    s.files.contains k = true ↔ ∃ q ∈ found, Path.key p.root q = k := by
  obtain ⟨found', hd', rfl⟩ := scan_eq_ok.mp hscan
  cases hd.symm.trans hd'
  have hcontains : (Snapshot.ofFiles p.root now (scanned p.root files found)).files.contains k =
      (scanned p.root files found).contains k := by
    have hsome := congrArg Option.isSome (Snapshot.content_withFiles { lastUpdated := now, root := p.root } now
      (scanned p.root files found) k)
    rwa [Option.isSome_map, Option.isSome_map] at hsome
  rw [hcontains, Dict.contains_iff]
  constructor
  · rintro ⟨m, hm⟩
    obtain ⟨q, hq, hk, -⟩ := exists_read_of_scanned hm
    exact ⟨q, hq, hk⟩
  · rintro ⟨q, hq, rfl⟩
    obtain ⟨text, ht⟩ := hread q hq
    obtain ⟨m, hm⟩ := FileMetadata.exists_read (Path.key p.root q) ht
    refine ⟨m, ?_⟩
    rw [get?_scanned (fun q hq r hr he => List.inj_on_of_nodup_map hn hq hr he) hq, hm]
    rfl

/-- A rebuild fails only where a scan fails or what it makes cannot be stored. -/
theorem rebuild_eq_error {state' : ProjectState} {e : Failure} (h : p.rebuild now state = (.error e, state')) :
    p.scan now state.files = .error e ∨
      ∃ s, p.scan now state.files = .ok s ∧ (p.save now s state.files).1 = .error e :=
  (rebuild_error_cases h).imp And.left fun ⟨s, _, hscan, hsave, _⟩ => ⟨s, hscan, congrArg Prod.fst hsave⟩

/-- A new manager loads a snapshot or makes it anew. -/
theorem get_cases (p : Project) (now : Nat) (files : FileTree) :
    (∃ s, p.load? now true files = some s ∧ p.get now { files } = (.ok s, { files, snapshot := some s })) ∨
      p.get now { files } = p.rebuild now { files } := by
  rcases obtain_cases p now true { files } with ⟨s, hs, -⟩ | ⟨s, -, hl, ho⟩ | ⟨-, -, ho⟩
  · cases hs
  · exact .inl ⟨s, hl, ho⟩
  · exact .inr ho

/-- A new manager that has a snapshot has one of the files that are found, when all of them can be read. -/
theorem contains_of_get (hget : p.get now { files } = (.ok s, state)) (hd : p.discover files = .ok found)
    (hread : ∀ q ∈ found, ∃ text, files.readText q = .ok text) (hn : (found.map (Path.key p.root)).Nodup) (k : String) :
    s.files.contains k = true ↔ ∃ q ∈ found, Path.key p.root q = k := by
  rcases get_cases p now files with ⟨s', hl, ho⟩ | ho
  · cases ho.symm.trans hget
    obtain ⟨-, found', hd', hc, hlength⟩ := isFaithful_iff.mp ((persisted_of_load? hl).2 rfl)
    cases hd.symm.trans hd'
    exact contains_iff_of_length hn hc hlength k
  · exact contains_of_scan (rebuild_eq_ok (ho.symm.trans hget)).1 hd hread hn k

/-- The paths of the files of a snapshot, in the order of their keys. -/
theorem perm_of_contains (hk : ∀ k, s.files.contains k = true ↔ ∃ q ∈ found, Path.key root q = k) (hn : found.Nodup)
    (hback : ∀ q ∈ found, root.join ⟨Path.key root q⟩ = q) :
    (s.files.keys.map fun key => root.join ⟨key⟩).Perm found ∧
      ((s.files.keys.map fun key => root.join ⟨key⟩).map (Path.key root)).Pairwise (· < ·) := by
  have hkeys : (s.files.keys.map fun key => root.join ⟨key⟩).map (Path.key root) = s.files.keys := by
    rw [List.map_map]
    refine (List.map_congr_left fun k hm => ?_).trans (List.map_id' _)
    obtain ⟨q, hq, rfl⟩ := (hk k).mp (Dict.mem_keys.mp hm)
    exact congrArg (Path.key root) (hback q hq)
  have hordered : s.files.keys.Pairwise (· < ·) := List.pairwise_map.mpr s.files.ordered
  refine ⟨(List.perm_ext_iff_of_nodup ?_ hn).mpr fun q => ?_, by rwa [hkeys]⟩
  · exact .of_map (Path.key root) (by rw [hkeys]; exact Dict.nodup_keys _)
  · rw [List.mem_map]
    constructor
    · rintro ⟨k, hm, rfl⟩
      obtain ⟨q, hq, rfl⟩ := (hk k).mp (Dict.mem_keys.mp hm)
      rwa [hback q hq]
    · intro hq
      exact ⟨_, Dict.mem_keys.mpr ((hk _).mpr ⟨q, hq, rfl⟩), hback q hq⟩

end Project

namespace Session

variable {s : Session} {found : List Path}

theorem discover_eq (h : s.root.isAbsolute = true) : s.discover = s.project.discover s.world.files :=
  (Discovery.run_cwd s.root h).symm

theorem projectFiles_true {r : Except Failure Snapshot} {state : ProjectState}
    (hget : s.project.get s.now { files := s.world.files } = (r, state)) :
    s.projectFiles true = (r.map fun snapshot => snapshot.files.keys.map fun key => s.root.join ⟨key⟩, state.files) := by
  rw [projectFiles, if_pos rfl, hget]

/-- Files are linted one by one, and each has its own report, where the same is read for them. -/
theorem lintReports_eq {files : FileTree} {config : LintConfig} {paths : List Path}
    (hread : ∀ q ∈ paths, ∃ document, s.world.document q = .ok document)
    (ha : ∀ q ∈ paths, s.world.ReadsAlike { s.world with files } s.resolver.restrict q) :
    s.lintReports files config paths = .ok (paths.map (Linter.reportOf { config } s.world s.resolver.restrict)) := by
  have hread' : ∀ q ∈ paths, ∃ document, World.document { s.world with files } q = .ok document := by
    intro q hq
    obtain ⟨document, hd⟩ := hread q hq
    exact ⟨document, (ha q hq q .refl).1.trans hd⟩
  have hsame : paths.map (Linter.reportOf { config } { s.world with files } s.resolver.restrict) =
      paths.map (Linter.reportOf { config } s.world s.resolver.restrict) :=
    List.map_congr_left fun q hq => Linter.reportOf_eq rfl (ha q hq)
  simp only [lintReports]
  rw [Linter.runFiles_eq (Resolver.isFaithful_of_memo rfl) hread', hsame, Except.mapError]

/-- Without the snapshot, each file of the project is linted once, in the order of the paths. With the snapshot the same files are
linted, in the order of their keys, unless a new snapshot has to be made and cannot be stored. As long as storing it changes nothing
that is read for these files, each of them has the same report. -/
theorem lints_same_files (hroot : s.root.isAbsolute = true) (hnames : s.world.files.HasNames)
    (hfound : (s.projectFiles false).1 = .ok found) (hread : ∀ q ∈ found, ∃ document, s.world.document q = .ok document)
    (hplain : ∀ q ∈ found, '\\' ∉ Path.textBelow s.root q) :
    found.Nodup ∧ (found.Pairwise fun p q => q.before p = false) ∧
    ((∃ snapshot e, s.project.scan s.now s.world.files = .ok snapshot ∧
        (s.project.save s.now snapshot s.world.files).1 = .error e ∧ (s.projectFiles true).1 = .error e) ∨
      ∃ listed, (s.projectFiles true).1 = .ok listed ∧ listed.Perm found ∧
        (listed.map (Path.key s.root)).Pairwise (· < ·) ∧
        (listed = found ↔ (found.map (Path.key s.root)).Pairwise (· < ·)) ∧
        ((s.projectFiles true).2 = s.world.files ∨ ∃ snapshot, s.project.scan s.now s.world.files = .ok snapshot ∧
          s.project.save s.now snapshot s.world.files = (.ok (), (s.projectFiles true).2)) ∧
        ∀ config, (∀ q ∈ found,
            s.world.ReadsAlike { s.world with files := (s.projectFiles true).2 } s.resolver.restrict q) →
          s.lintReports (s.projectFiles false).2 config found =
            .ok (found.map (Linter.reportOf { config } s.world s.resolver.restrict)) ∧
          s.lintReports (s.projectFiles true).2 config listed =
            .ok (listed.map (Linter.reportOf { config } s.world s.resolver.restrict))) := by
  have hdiscover : s.project.discover s.world.files = .ok found := (discover_eq hroot).symm.trans hfound
  obtain ⟨hn, hsorted⟩ := Discovery.nodup_of_run hfound hnames
  have hback : ∀ q ∈ found, s.root.join ⟨Path.key s.root q⟩ = q :=
    fun q hq => (Discovery.join_key_of_run hfound hnames hroot hq).2 (hplain q hq)
  have hkeys : (found.map (Path.key s.root)).Nodup := by
    refine List.Nodup.map_on (fun q hq r hr he => ?_) hn
    rw [← hback q hq, he, hback r hr]
  have htext : ∀ q ∈ found, ∃ text, s.world.files.readText q = .ok text := by
    intro q hq
    obtain ⟨document, hd⟩ := hread q hq
    obtain ⟨text, ht, -⟩ := World.document_eq_ok.mp hd
    rw [Path.join_of_isAbsolute (Discovery.join_key_of_run hfound hnames hroot hq).1] at ht
    exact ⟨text, ht⟩
  refine ⟨hn, hsorted, ?_⟩
  rcases hget : s.project.get s.now { files := s.world.files } with ⟨e | snapshot, state⟩
  · left
    rcases Project.get_cases s.project s.now s.world.files with ⟨_, -, h⟩ | h
    · cases h.symm.trans hget
    · rcases Project.rebuild_eq_error (h.symm.trans hget) with hscan | ⟨snapshot, hscan, hsave⟩
      · cases hscan.symm.trans (Project.scan_eq_ok.mpr ⟨found, hdiscover, rfl⟩)
      · exact ⟨snapshot, e, hscan, hsave, by rw [projectFiles_true hget]; rfl⟩
  · right
    obtain ⟨hperm, hordered⟩ := Project.perm_of_contains (Project.contains_of_get hget hdiscover htext hkeys) hn hback
    rw [projectFiles_true hget]
    refine ⟨_, rfl, hperm, hordered, ⟨fun he => he ▸ hordered, fun hfoundordered => ?_⟩, ?_, fun config ha => ⟨?_, ?_⟩⟩
    · -- Two lists in the same strict order are equal when they have the same members.
      exact hperm.eq_of_pairwise (fun _ _ _ _ hlt hgt => absurd hlt hgt.asymm) (List.pairwise_map.mp hordered)
        (List.pairwise_map.mp hfoundordered)
    · rcases Project.get_cases s.project s.now s.world.files with ⟨_, -, h⟩ | h
      · cases h.symm.trans hget
        exact .inl rfl
      · obtain ⟨hscan, hsave, -⟩ := Project.rebuild_eq_ok (h.symm.trans hget)
        exact .inr ⟨snapshot, hscan, hsave⟩
    · exact lintReports_eq hread fun q _ => .refl _ _ q
    · exact lintReports_eq (fun q hq => hread q (hperm.mem_iff.mp hq)) fun q hq => ha q (hperm.mem_iff.mp hq)

/-! ### A directory beside a file of the same name -/

def nestedTree : FileTree :=
  ⟨.ofList [("/p", .directory), ("/p/a", .directory), ("/p/a.md", .file "\n".toUTF8 5), ("/p/a/x.md", .file "\n".toUTF8 5)]⟩

/-- A session in a new project with these files. -/
def nested : Session := { few [] with world := { files := nestedTree, cwd := ⟨"/p"⟩ } }

/-- The files in their order. The key of the second one comes first, as a dot comes before a slash. -/
def nestedPaths : List Path := [⟨"/p/a/x.md"⟩, ⟨"/p/a.md"⟩]

def nestedSnapshot : Snapshot := .ofFiles ⟨"/p"⟩ 7 (Project.scanned ⟨"/p"⟩ nestedTree nestedPaths)

/-- The files when the snapshot is stored. -/
def nestedSaved : FileTree := (nested.project.save 7 nestedSnapshot nestedTree).2

/-- What is computed about this project. -/
@[mk_iff] structure NestedChecks : Prop where
  names : ∀ key ∈ nestedTree.entries.keys, ∃ place ∈ [["p"], ["a", "p"], ["a.md", "p"], ["x.md", "a", "p"]],
    (∀ s ∈ place, FileTree.IsName s) ∧ Place.text place = key
  loads : (nested.project.load? 7 true nestedTree).isNone = true
  searched : (nested.project.searched nestedTree).toOption = some nestedPaths.reverse
  before : Path.before ⟨"/p/a/x.md"⟩ ⟨"/p/a.md"⟩ = true
  saves : (nested.project.save 7 nestedSnapshot nestedTree).1.toOption = some ()
  keys : nestedSnapshot.files.keys.map (fun key => Path.join ⟨"/p"⟩ ⟨key⟩) = nestedPaths.reverse
  reads : ∀ q ∈ nestedPaths, (nestedTree.readText (Path.join ⟨"/p"⟩ q)).toOption = some "\n" ∧
    (nestedSaved.readText (Path.join ⟨"/p"⟩ q)).toOption = some "\n"
  plain : ∀ q ∈ nestedPaths, '\\' ∉ Path.textBelow ⟨"/p"⟩ q
  references : Reference.all (Document.parse "\n".toList).root = []

theorem nestedChecks : NestedChecks := by
  rw [nestedChecks_iff]
  decide +kernel

theorem hasNames_nested : nestedTree.HasNames := by
  intro key hkey
  obtain ⟨place, -, hplace⟩ := nestedChecks.names key hkey
  exact ⟨place, hplace⟩

theorem mergeSort_nested : nestedPaths.reverse.mergeSort (fun p q => !q.before p) = nestedPaths := by
  simp [nestedPaths, List.mergeSort, List.MergeSort.Internal.splitInTwo, nestedChecks.before]

theorem discover_nested : nested.project.discover nestedTree = .ok nestedPaths := by
  rw [Project.discover_eq_mergeSort rfl nestedChecks.searched, mergeSort_nested]

theorem get_nested :
    nested.project.get nested.now { files := nested.world.files } = (.ok nestedSnapshot, ⟨nestedSaved, some nestedSnapshot⟩) := by
  have hscan : nested.project.scan 7 nestedTree = .ok nestedSnapshot :=
    Project.scan_eq_ok.mpr ⟨nestedPaths, discover_nested, rfl⟩
  have hsave := Prod.fst_eq_iff.mp (eq_ok_of_toOption nestedChecks.saves)
  exact Project.get_of_scan (Option.isNone_iff_eq_none.mp nestedChecks.loads) hscan hsave

theorem projectFiles_nested : (nested.projectFiles false).1 = .ok nestedPaths ∧
    nested.projectFiles true = (.ok nestedPaths.reverse, nestedSaved) := by
  refine ⟨(discover_eq (by decide)).trans discover_nested, ?_⟩
  rw [projectFiles_true get_nested]
  exact congrArg (fun paths => (Except.ok paths, nestedSaved)) nestedChecks.keys

theorem document_nested {q : Path} (hq : q ∈ nestedPaths) : nested.world.document q = .ok (.parse "\n".toList) ∧
    World.document { nested.world with files := nestedSaved } q = .ok (.parse "\n".toList) :=
  ⟨World.document_eq_ok.mpr ⟨_, eq_ok_of_toOption (nestedChecks.reads q hq).1, rfl⟩,
    World.document_eq_ok.mpr ⟨_, eq_ok_of_toOption (nestedChecks.reads q hq).2, rfl⟩⟩

/-- Both files are linted with the snapshot, in the other order. -/
theorem lints_same_files_nested : ∃ listed, (nested.projectFiles true).1 = .ok listed ∧ listed.Perm nestedPaths ∧
    listed ≠ nestedPaths ∧ nested.lintReports (nested.projectFiles true).2 {} listed =
      .ok (listed.map (Linter.reportOf {} nested.world none)) := by
  obtain ⟨hfound, hcached⟩ := projectFiles_nested
  obtain ⟨-, -, ⟨_, e, -, -, hfail⟩ | ⟨listed, hlisted, hperm, -, -, -, hreports⟩⟩ :=
    lints_same_files (by decide) hasNames_nested hfound (fun q hq => ⟨_, (document_nested hq).1⟩) nestedChecks.plain
  · rw [hcached] at hfail
    cases hfail
  · refine ⟨listed, hlisted, hperm, fun he => ?_, (hreports {} fun q hq => ?_).2⟩
    · rw [hcached, he] at hlisted
      exact absurd (Except.ok.inj hlisted) (by decide)
    · rw [hcached]
      exact World.readsAlike_of_references (document_nested hq).1 (document_nested hq).2 nestedChecks.references

/-- With the snapshot, files may be linted in another order than without it. -/
theorem not_lints_same_files :
    ¬ ∀ (s : Session) (found : List Path), s.root.isAbsolute = true → s.world.files.HasNames →
      (s.projectFiles false).1 = .ok found → (∀ q ∈ found, ∃ document, s.world.document q = .ok document) →
      (∀ q ∈ found, '\\' ∉ Path.textBelow s.root q) → (s.projectFiles true).1 = .ok found := by
  intro h
  obtain ⟨hfound, hcached⟩ := projectFiles_nested
  have hsame := h nested nestedPaths (by decide) hasNames_nested hfound (fun q hq => ⟨_, (document_nested hq).1⟩)
    nestedChecks.plain
  rw [hcached] at hsame
  exact absurd (Except.ok.inj hsame) (by decide)

end Session

end MarkdownTemplates
