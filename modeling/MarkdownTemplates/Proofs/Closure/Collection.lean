import MarkdownTemplates.Proofs.Closure.Imports

/-!
# Collections and reachable files

A document is given together with its path, and need not be the one in the file. The collection of its definitions takes those of
every file that can be reached from it, each once, and no others.
-/

namespace MarkdownTemplates

open Relation (ReflTransGen)
open Resolver (outcome resolvePath)

variable {w : World} {p q q' : Path} {root : Node} {visits : List Visit}

namespace Resolver

/-- A resolver that may read everything finds the document in the file that is named. -/
theorem outcome_none_eq_ok {src : String} {base : Option Path} {file : ResolvedFile} :
    outcome w none src base = .ok file ↔
      file.path = resolvePath w.cwd src base ∧ w.document (resolvePath w.cwd src base) = .ok file.document := by
  constructor
  · intro h
    have hpath := (outcome_eq_ok h).1
    exact ⟨hpath, hpath ▸ document_of_outcome h⟩
  · rintro ⟨hpath, hd⟩
    obtain ⟨text, ht, hdocument⟩ := World.document_eq_ok.mp hd
    rw [outcome_none, ht]
    show Except.ok (ResolvedFile.mk _ _) = _
    rw [← hpath, ← hdocument]

end Resolver

namespace World

/-- The document of the file `q`, where that of `p` is given and all others are read. -/
def rootOf (w : World) (p : Path) (root : Node) (q : Path) : Option Node :=
  if q = p then some root else (w.document q).toOption.map (·.root)

/-- Does a `src` in the document of `q` name the path `q'`? -/
def Names (w : World) (p : Path) (root : Node) (q q' : Path) : Prop :=
  ∃ node, w.rootOf p root q = some node ∧ ∃ r ∈ Reference.all node, ∃ src, r.src = some src ∧
    resolvePath w.cwd src (some q) = q'

/-- The definitions in the document of `q`. -/
def sitesOf (w : World) (p : Path) (root : Node) (q : Path) : List Site := (w.rootOf p root q).elim [] (Site.all (some q))

theorem rootOf_start : w.rootOf p root p = some root := if_pos rfl

theorem rootOf_eq_some (hq : q ≠ p) {node : Node} :
    w.rootOf p root q = some node ↔ ∃ document, w.document q = .ok document ∧ document.root = node := by
  rw [rootOf, if_neg hq]
  cases w.document q <;> simp [Except.toOption]

theorem sitesOf_start : w.sitesOf p root p = Site.all (some p) root := by
  rw [sitesOf, rootOf_start, Option.elim_some]

theorem file_of_mem_sitesOf {s : Site} (hs : s ∈ w.sitesOf p root q) : s.file = some q := by
  rw [sitesOf] at hs
  cases hn : w.rootOf p root q with
  | none => simp [hn] at hs
  | some node =>
    rw [hn] at hs
    obtain ⟨n, -, rfl⟩ := List.mem_map.mp hs
    rfl

end World

namespace Closure.VisitsOf

variable {v : Visit}

/-- Every visit follows a reference in a document that can be reached. -/
theorem exists_names (h : VisitsOf w none (some p) root visits) (hp : p.normalize = p) (hv : v ∈ visits) :
    ∃ q, ReflTransGen (w.Names p root) p q ∧ w.Names p root q v.path ∧ ∃ src, v.outcome = outcome w none src (some q) := by
  -- What the walk keeps: its pending references stand in documents that can be reached.
  let P (r : PendingReference) : Prop := ∃ q node, r.base = some q ∧ ReflTransGen (w.Names p root) p q ∧
    w.rootOf p root q = some node ∧ r.reference ∈ Reference.all node
  have hstart : ∀ r ∈ (Reference.all root).map (⟨·, some p, true⟩), P r := by
    intro r hr
    obtain ⟨reference, hm, rfl⟩ := List.mem_map.mp hr
    exact ⟨p, root, rfl, .refl, World.rootOf_start, hm⟩
  have hfound : ∀ r src, P r → r.reference.src = some src →
      (NameSet.ofList ((some p).map (·.normalize.text)).toList).contains (resolvePath w.cwd src r.base).text = false →
      ∀ r' ∈ found (outcome w none src r.base), P r' := by
    rintro r src ⟨q, node, hbase, hq, hn, hm⟩ hsrc hnew r' hr'
    obtain ⟨file, ho, reference, hreference, rfl⟩ := mem_found.mp hr'
    obtain ⟨hpath, hd⟩ := Resolver.outcome_none_eq_ok.mp ho
    have hne : file.path ≠ p := by
      intro he
      rw [← hpath, (contains_start_iff hp).mpr he] at hnew
      exact Bool.false_ne_true hnew.symm
    have hnames : w.Names p root q file.path := ⟨node, hn, r.reference, hm, src, hsrc, by rw [← hbase, hpath]⟩
    have hroot : w.rootOf p root file.path = some file.document.root :=
      (World.rootOf_eq_some hne).mpr ⟨file.document, hpath ▸ hd, rfl⟩
    exact ⟨file.path, file.document.root, rfl, hq.tail hnames, hroot, hreference⟩
  obtain ⟨r, src, ⟨q, node, hbase, hq, hn, hm⟩, hsrc, rfl⟩ := Visits.follows h hstart hfound v hv
  exact ⟨q, hq, ⟨node, hn, r.reference, hm, src, hsrc, by rw [Visit.path_follow, hbase]⟩, src, by rw [hbase]⟩

/-- A visit finds the document of its file, if there is one. -/
theorem outcome_eq_ok_iff (h : VisitsOf w none (some p) root visits) (hp : p.normalize = p) (hv : v ∈ visits)
    {file : ResolvedFile} : v.outcome = .ok file ↔ file.path = v.path ∧ w.document v.path = .ok file.document := by
  obtain ⟨q, -, -, src, ho⟩ := h.exists_names hp hv
  rw [ho, Visit.path_eq ho, Resolver.outcome_none_eq_ok]

theorem ne_of_mem_paths (h : VisitsOf w none (some p) root visits) (hp : p.normalize = p) (hq : q ∈ visits.map Visit.path) :
    q ≠ p := by
  rintro rfl
  exact (List.nodup_cons.mp (h.nodup_paths hp)).1 hq

/-- The paths of the visits are those that can be reached, but for the first one. -/
theorem mem_paths_iff (h : VisitsOf w none (some p) root visits) (hp : p.normalize = p) :
    q ∈ p :: visits.map Visit.path ↔ ReflTransGen (w.Names p root) p q := by
  constructor
  · intro hq
    rcases List.mem_cons.mp hq with rfl | hq
    · exact .refl
    · obtain ⟨v, hv, rfl⟩ := List.mem_map.mp hq
      obtain ⟨q, hq, hnames, -⟩ := h.exists_names hp hv
      exact hq.tail hnames
  · intro hq
    induction hq with
    | refl => exact List.mem_cons_self
    | @tail q q' _ hnames ih =>
      obtain ⟨node, hn, r, hr, src, hsrc, rfl⟩ := hnames
      -- The reference is pending from the start when it stands in the document itself, and else once its file is visited.
      have hnext : (NameSet.ofList ((some p).map fun p => p.normalize.text).toList).contains
          (resolvePath w.cwd src (some q)).text = true ∨ ∃ v ∈ visits, v.outcome = outcome w none src (some q) := by
        rcases List.mem_cons.mp ih with rfl | hq
        · obtain rfl : root = node := Option.some.inj (World.rootOf_start.symm.trans hn)
          exact Visits.visited_of_pending (r := ⟨r, some q, true⟩) h (List.mem_map.mpr ⟨r, hr, rfl⟩) hsrc
        · obtain ⟨document, hd, rfl⟩ := (World.rootOf_eq_some (h.ne_of_mem_paths hp hq)).mp hn
          obtain ⟨v, hv, rfl⟩ := List.mem_map.mp hq
          have ho : v.outcome = .ok ⟨v.path, document⟩ := (h.outcome_eq_ok_iff hp hv).mpr ⟨rfl, hd⟩
          exact Visits.visited_of_visited h hv ho hr hsrc
      rcases hnext with hseen | ⟨v, hv, ho⟩
      · rw [(contains_start_iff hp).mp hseen]
        exact List.mem_cons_self
      · exact List.mem_cons_of_mem _ (List.mem_map.mpr ⟨v, hv, Visit.path_eq ho⟩)

theorem sites_eq (h : VisitsOf w none (some p) root visits) (hp : p.normalize = p) (hv : v ∈ visits) :
    v.sites = w.sitesOf p root v.path := by
  have hne : v.path ≠ p := h.ne_of_mem_paths hp (List.mem_map_of_mem hv)
  rw [Visit.sites, World.sitesOf]
  cases ho : v.outcome with
  | ok file =>
    obtain ⟨hpath, hd⟩ := (h.outcome_eq_ok_iff hp hv).mp ho
    rw [(World.rootOf_eq_some hne).mpr ⟨file.document, hd, rfl⟩, ← hpath, Option.elim_some]
  | error u =>
    cases hn : w.rootOf p root v.path with
    | none => rfl
    | some node =>
      obtain ⟨document, hd, -⟩ := (World.rootOf_eq_some hne).mp hn
      have hok : v.outcome = .ok ⟨v.path, document⟩ := (h.outcome_eq_ok_iff hp hv).mpr ⟨rfl, hd⟩
      simp [ho] at hok

theorem ofVisits_eq_flatMap (h : VisitsOf w none (some p) root visits) (hp : p.normalize = p) :
    Site.ofVisits (some p) root visits = (p :: visits.map Visit.path).flatMap (w.sitesOf p root) := by
  rw [Site.ofVisits, List.flatMap_cons, World.sitesOf_start, List.flatMap_map]
  exact congrArg _ (List.flatMap_congr fun v hv => h.sites_eq hp hv)

/-- All visits are successful exactly when every path that can be reached has a document. -/
theorem forall_isResolved_iff (h : VisitsOf w none (some p) root visits) (hp : p.normalize = p) :
    (∀ v ∈ visits, v.IsResolved) ↔ ∀ q, ReflTransGen (w.Names p root) p q → ∃ node, w.rootOf p root q = some node := by
  simp only [← h.mem_paths_iff hp, List.forall_mem_cons, List.forall_mem_map]
  constructor
  · intro hok
    refine ⟨⟨root, World.rootOf_start⟩, fun v hv => ?_⟩
    obtain ⟨file, ho⟩ := hok v hv
    have hne : v.path ≠ p := h.ne_of_mem_paths hp (List.mem_map_of_mem hv)
    exact ⟨_, (World.rootOf_eq_some hne).mpr ⟨file.document, ((h.outcome_eq_ok_iff hp hv).mp ho).2, rfl⟩⟩
  · rintro ⟨-, hnodes⟩ v hv
    obtain ⟨node, hn⟩ := hnodes v hv
    obtain ⟨document, hd, -⟩ := (World.rootOf_eq_some (h.ne_of_mem_paths hp (List.mem_map_of_mem hv))).mp hn
    exact ⟨⟨v.path, document⟩, (h.outcome_eq_ok_iff hp hv).mpr ⟨rfl, hd⟩⟩

end Closure.VisitsOf

namespace TemplateDefinition

variable {r : Resolver}

/-- A collection is there exactly when every path that can be reached has a document, in each document the definitions have ids of
their own, and no two documents define the same id. It then has the definitions of all these documents, each under its own file,
and every file but the first is visited once. -/
theorem collectAll_eq_reachable (hp : p.normalize = p) (hr : r.restrict = none) (hf : r.IsFaithful w) :
    ((∃ ds, (collectAll w r (some p) root).1 = .ok ds) ↔
      (∀ q, ReflTransGen (w.Names p root) p q → ∃ node, w.rootOf p root q = some node) ∧
      (∀ q, ReflTransGen (w.Names p root) p q → AreDistinct (w.sitesOf p root q)) ∧
      ∀ q, ReflTransGen (w.Names p root) p q → ∀ q', ReflTransGen (w.Names p root) p q' →
        ∀ x ∈ (w.sitesOf p root q).filterMap Site.id?, x ∈ (w.sitesOf p root q').filterMap Site.id? → q = q') ∧
    (∀ ds, (collectAll w r (some p) root).1 = .ok ds → ∀ id d, ds.get? id = some d ↔
      ∃ q, ReflTransGen (w.Names p root) p q ∧ ∃ s ∈ w.sitesOf p root q, s.id? = some id ∧ d = .ofNode id (some q) s.node) ∧
    ∃ visits : List Visit, (visits.map Visit.path).Nodup ∧
      (∀ q, q ∈ visits.map Visit.path ↔ q ≠ p ∧ ReflTransGen (w.Names p root) p q) ∧
      (collectAll w r (some p) root).1 = collect (some p) root >>= fun ds => visits.foldlM addVisit ds := by
  obtain ⟨visits, hv⟩ := Closure.exists_visitsOf w none (some p) root
  have hvr : Closure.VisitsOf w r.restrict (some p) root visits := hr ▸ hv
  have hsites := hv.ofVisits_eq_flatMap hp
  refine ⟨?_, fun ds hds id d => ?_, visits, (List.nodup_cons.mp (hv.nodup_paths hp)).2, fun q => ?_,
    collectAll_eq_bind hvr hf⟩
  · have hdistinct : AreDistinct ((p :: visits.map Visit.path).flatMap (w.sitesOf p root)) ↔ _ :=
      areDistinct_flatMap (hv.nodup_paths hp)
    simp only [hv.mem_paths_iff hp] at hdistinct
    rw [exists_collectAll_iff hvr hf, hv.forall_isResolved_iff hp, hsites, hdistinct]
  · have hcol := ((collectAll_eq_ok hvr hf).mp hds).2
    rw [hcol.get?_eq_some, hsites]
    constructor
    · rintro ⟨s, hs, hid, rfl⟩
      obtain ⟨q, hq, hs⟩ := List.mem_flatMap.mp hs
      refine ⟨q, (hv.mem_paths_iff hp).mp hq, s, hs, hid, ?_⟩
      rw [Site.definition, World.file_of_mem_sitesOf hs]
    · rintro ⟨q, hq, s, hs, hid, rfl⟩
      refine ⟨s, List.mem_flatMap.mpr ⟨q, (hv.mem_paths_iff hp).mpr hq, hs⟩, hid, ?_⟩
      rw [Site.definition, World.file_of_mem_sitesOf hs]
  · rw [← hv.mem_paths_iff hp, List.mem_cons]
    exact ⟨fun hq => ⟨hv.ne_of_mem_paths hp hq, .inr hq⟩, fun hq => hq.2.resolve_left hq.1⟩

end TemplateDefinition

/-! ### A file that refers back -/

namespace Mutual

/-- A template `b`, which uses `a`, and a reference to itself. -/
def source : String :=
  ":::template\x7bid=\"b\"\x7d\n::template\x7bid=\"a\" src=\"a.md\"\x7d\n:::\n\n::template\x7bid=\"b\" src=\"b.md\"\x7d\n"

def world : World := fileWorld source

def document : Document := .parse source.toList

def start : Path := ⟨"/a.md"⟩

def file : Path := ⟨"/b.md"⟩

/-- What is computed about the two texts. -/
@[mk_iff] structure Checks : Prop where
  normal : start.normalize = start
  read : world.files.readText (world.cwd.join file) = .ok source
  names : ∃ r ∈ Reference.all linkedDocument.root, r.src = some "b.md" ∧ resolvePath world.cwd "b.md" (some start) = file
  ofStart : ∀ r ∈ Reference.all linkedDocument.root, ∀ src ∈ r.src, resolvePath world.cwd src (some start) = file
  ofFile : ∀ r ∈ Reference.all document.root, ∀ src ∈ r.src, resolvePath world.cwd src (some file) ∈ [start, file]
  isDistinct : ∀ sites ∈ [Site.all (some start) linkedDocument.root, Site.all (some file) document.root], AreDistinct sites
  ids : (Site.all (some start) linkedDocument.root).filterMap Site.id? = ["a"] ∧
    (Site.all (some file) document.root).filterMap Site.id? = ["b"]

theorem checks : Checks := by
  rw [checks_iff]
  decide +kernel

theorem rootOf_file : world.rootOf start linkedDocument.root file = some document.root := by
  have hd : world.document file = .ok document :=
    World.document_eq_ok.mpr ⟨source, checks.read, rfl⟩
  exact (World.rootOf_eq_some (by decide)).mpr ⟨document, hd, rfl⟩

theorem names_file : world.Names start linkedDocument.root start file :=
  have ⟨r, hr, hsrc, hfile⟩ := checks.names
  ⟨linkedDocument.root, World.rootOf_start, r, hr, "b.md", hsrc, hfile.symm⟩

/-- The references lead to the file and back, and to nothing else. -/
theorem eq_of_reflTransGen (h : ReflTransGen (world.Names start linkedDocument.root) start q) : q = start ∨ q = file := by
  induction h with
  | refl => exact .inl rfl
  | tail _ hnames ih =>
    obtain ⟨node, hn, r, hr, src, hsrc, rfl⟩ := hnames
    rcases ih with rfl | rfl
    · obtain rfl := Option.some.inj (World.rootOf_start.symm.trans hn)
      exact .inr (checks.ofStart r hr src hsrc)
    · obtain rfl := Option.some.inj (rootOf_file.symm.trans hn)
      simpa using checks.ofFile r hr src hsrc

theorem sitesOf_file : world.sitesOf start linkedDocument.root file = Site.all (some file) document.root := by
  rw [World.sitesOf, rootOf_file, Option.elim_some]

end Mutual

open Mutual

/-- The file is collected once although it names itself, and the document is not collected again. -/
theorem collectAll_eq_reachable_mutual :
    ∃ ds, (TemplateDefinition.collectAll world {} (some start) linkedDocument.root).1 = .ok ds ∧
      (∃ d, ds.get? "a" = some d ∧ d.file = some start) ∧ ∃ d, ds.get? "b" = some d ∧ d.file = some file := by
  obtain ⟨hiff, hget, -⟩ := @TemplateDefinition.collectAll_eq_reachable world start linkedDocument.root {} checks.normal rfl
    (Resolver.isFaithful_of_memo rfl)
  obtain ⟨hstart, hfile⟩ := checks.ids
  have hreach : ∀ {P : Path → Prop}, P start → P file →
      ∀ q, ReflTransGen (world.Names start linkedDocument.root) start q → P q := by
    intro P ha hb q hq
    rcases eq_of_reflTransGen hq with rfl | rfl <;> assumption
  obtain ⟨ds, hds⟩ := hiff.mpr ⟨hreach ⟨_, World.rootOf_start⟩ ⟨_, rootOf_file⟩,
    hreach (by rw [World.sitesOf_start]; exact checks.isDistinct _ (.head _)) (by rw [sitesOf_file]; exact checks.isDistinct _ (.tail _ (.head _))),
    hreach (hreach (by simp) (by simp [World.sitesOf_start, sitesOf_file, hstart, hfile]))
      (hreach (by simp [World.sitesOf_start, sitesOf_file, hstart, hfile]) (by simp))⟩
  have hdefined : ∀ q, ReflTransGen (world.Names start linkedDocument.root) start q →
      ∀ id ∈ (world.sitesOf start linkedDocument.root q).filterMap Site.id?, ∃ d, ds.get? id = some d ∧ d.file = some q := by
    intro q hq id hid
    obtain ⟨s, hs, hid⟩ := List.mem_filterMap.mp hid
    exact ⟨_, (hget ds hds id _).mpr ⟨q, hq, s, hs, hid, rfl⟩, rfl⟩
  refine ⟨ds, hds, hdefined start .refl "a" ?_, hdefined file (.single names_file) "b" ?_⟩
  · rw [World.sitesOf_start, hstart]
    exact List.mem_singleton_self _
  · rw [sitesOf_file, hfile]
    exact List.mem_singleton_self _

end MarkdownTemplates
