import MarkdownTemplates.Proofs.Closure.Following

/-!
# Spellings of the start

A walk notes the path at which it starts in its normal form, and all other paths in their absolute normal forms. So a relative path
is never recognized: where a document is named again, its file is loaded like any other. Otherwise the spelling of the path shows in
nothing but the places of the definitions in the document.
-/

namespace MarkdownTemplates

open Resolver (outcome resolvePath)

namespace FileTree

variable {t : FileTree} {p : Path}

theorem readText_ne_ok_of_isDirectory (h : t.isDirectory p = true) (text : String) : t.readText p ≠ .ok text := by
  intro hread
  obtain ⟨b, hb, -⟩ := readText_eq_ok.mp hread
  obtain ⟨place, modified, hl, he⟩ := readBytes_eq_ok.mp hb
  obtain ⟨place', hl', hd⟩ := exists_of_isDirectory h
  cases hl.symm.trans hl'
  cases he.symm.trans hd

end FileTree

namespace Resolver

variable {w : World} {restrict : Option Path} {src : String} {base : Option Path} {p : Path}

theorem exists_error_of_readText (h : ∀ text, w.files.readText (w.cwd.join (resolvePath w.cwd src base)) ≠ .ok text) :
    ∃ u, outcome w restrict src base = .error u := by
  cases ho : outcome w restrict src base with
  | error u => exact ⟨u, rfl⟩
  | ok file =>
    obtain ⟨hpath, text, ht, -⟩ := outcome_eq_ok ho
    exact absurd (hpath ▸ ht) (h text)

end Resolver

namespace Path

variable {p : Path}

/-- The normal form of a relative path to a file is none of the paths that a `src` names. -/
theorem not_isAnchored_normalize (hp : p.fileName?.isSome = true) (hr : p.isAbsolute = false) : ¬ p.normalize.IsAnchored := by
  obtain ⟨s, hs⟩ := Option.isSome_iff_exists.mp hp
  obtain ⟨dir, -, -, hinner⟩ := exists_parent hs
  rintro (hdot | ⟨q, hq, he⟩)
  · have hnames := congrArg Climb.names ((climb_normalize p).symm.trans (congrArg climb hdot))
    rw [climb_concat hinner] at hnames
    cases hnames
  · rw [← isAbsolute_normalize, he, isAbsolute_normalize, hq] at hr
    cases hr

end Path

/-! ## Other paths for files -/

namespace Site

variable {f : Path → Path} {sites : List Site}

def mapFile (f : Path → Path) (s : Site) : Site := { s with file := s.file.map f }

theorem filterMap_id?_map (sites : List Site) : (sites.map (mapFile f)).filterMap id? = sites.filterMap id? := by
  rw [List.filterMap_map]
  rfl

theorem first?_map (sites : List Site) (id : String) : first? (sites.map (mapFile f)) id = (first? sites id).map (mapFile f) := by
  rw [first?, List.find?_map]
  rfl

theorem areDistinct_map : AreDistinct (sites.map (mapFile f)) ↔ AreDistinct sites := by
  rw [AreDistinct, AreDistinct, filterMap_id?_map, List.forall_mem_map]
  rfl

theorem map_all (f : Path → Path) (x : Path) (root : Node) : (all (some x) root).map (mapFile f) = all (some (f x)) root := by
  rw [all, List.map_map]
  rfl

end Site

def TemplateDefinition.mapFile (f : Path → Path) (d : TemplateDefinition) : TemplateDefinition := { d with file := d.file.map f }

def Occurrence.mapFile (f : Path → Path) (o : Occurrence) : Occurrence := { o with file := o.file.map f }

def DuplicateTemplate.mapFile (f : Path → Path) (d : DuplicateTemplate) : DuplicateTemplate :=
  { d with occurrences := d.occurrences.map (.mapFile f) }

def LocatedReference.mapFile (f : Path → Path) (l : LocatedReference) : LocatedReference := { l with file := l.file.map f }

theorem IsCollection.mapFile {sites : List Site} {ds : Definitions} (h : IsCollection sites ds) (f : Path → Path) :
    IsCollection (sites.map (Site.mapFile f)) (ds.mapValues fun _ => .mapFile f) where
  distinct := Site.areDistinct_map.mpr h.distinct
  get?_eq id := by
    rw [Dict.get?_mapValues, h.get?_eq, Site.first?_map, Option.map_map, Option.map_map]
    rfl

namespace Analysis

variable {f : Path → Path} {x y : Path} {root : Node} {c c' : Collected}

theorem duplicates_mapFile (file file' : Option Path) (h : c'.occurrences = c.occurrences.map (.mapFile f)) :
    (ofCollected file' root c').duplicates = (ofCollected file root c).duplicates.map (.mapFile f) := by
  have hpairs : c'.occurrences.filterMap (fun o => o.id.map (·, o)) =
      (c.occurrences.filterMap fun o => o.id.map (·, o)).map fun e => (e.1, e.2.mapFile f) := by
    rw [h, List.filterMap_map, List.map_filterMap]
    refine List.filterMap_congr fun o _ => ?_
    rw [Option.map_map]
    rfl
  have hgroups : byId c'.occurrences = (byId c.occurrences).mapValues fun _ => List.map (Occurrence.mapFile f) := by
    rw [byId, byId, hpairs, Dict.group_map]
  show duplicatesOf (byId c'.occurrences) = (duplicatesOf (byId c.occurrences)).map _
  rw [hgroups, duplicatesOf, duplicatesOf, Dict.mapValues, List.filterMap_map, List.map_filterMap]
  refine List.filterMap_congr fun e _ => ?_
  simp only [Function.comp_apply, List.length_map]
  split <;> rfl

theorem undefined_eq_map_filter (file : Option Path) (c : Collected) : (ofCollected file root c).undefined =
    ((Reference.all root).filter fun r => !(ofCollected file root c).definitions.contains r.id).map (LocatedReference.mk · file) :=
  List.filter_map

theorem undefined_mapFile (hx : f x = y) (h : c'.occurrences = c.occurrences.map (.mapFile f)) :
    (ofCollected (some y) root c').undefined = (ofCollected (some x) root c).undefined.map (.mapFile f) := by
  subst hx
  have hcontains : ∀ id, (ofCollected (some (f x)) root c').definitions.contains id =
      (ofCollected (some x) root c).definitions.contains id := by
    intro id
    rw [Dict.contains, Dict.contains, get?_definitions, get?_definitions, h, List.find?_map, Option.isSome_map]
    rfl
  rw [undefined_eq_map_filter, undefined_eq_map_filter, List.map_map]
  simp only [hcontains]
  rfl

end Analysis

/-- The path where another one is put in the place of one path. -/
def Path.respell (p q x : Path) : Path := if x = p then q else x

namespace Closure

variable {w : World} {restrict : Option Path} {root : Node} {p q x : Path} {file : ResolvedFile} {visits visits' : List Visit}

/-- Every `src` names the same in a file when its path is put in its absolute normal form. -/
theorem startAlike_absolute (hcwd : w.cwd.isAbsolute = true) (hdir : w.files.isDirectory w.cwd.normalize = true)
    (hp : p.fileName?.isSome = true) : StartAlike w restrict p (p.absolute w.cwd) := by
  intro src
  refine (Resolver.resolvePath_absolute hcwd hp src).imp_right fun ⟨_, hdot, hself⟩ => ⟨?_, ?_⟩
  · refine Resolver.exists_error_of_readText fun text => ?_
    rw [hdot]
    exact FileTree.readText_join_current_ne_ok _ text
  · refine Resolver.exists_error_of_readText fun text => ?_
    rw [hself, Path.join_of_isAbsolute (by rw [Path.isAbsolute_normalize, hcwd])]
    exact FileTree.readText_ne_ok_of_isDirectory hdir text

theorem Follows.exists_resolvePath {start : Path} (h : Follows w restrict start root x) :
    ∃ src base, x = resolvePath w.cwd src base := by
  cases h with
  | own => exact ⟨_, _, rfl⟩
  | onward => exact ⟨_, _, rfl⟩

/-- A relative path at which a walk starts is not followed. -/
theorem not_follows_normalize {start : Path} (hcwd : w.cwd.isAbsolute = true) (hp : p.fileName?.isSome = true)
    (hr : p.isAbsolute = false) : ¬ Follows w restrict start root p.normalize := by
  intro h
  obtain ⟨src, base, he⟩ := h.exists_resolvePath
  exact Path.not_isAnchored_normalize hp hr (he ▸ Resolver.isAnchored_resolvePath hcwd src base)

/-- With an absolute path, a walk is the same in both spellings. -/
theorem VisitsOf.absolute (h : VisitsOf w restrict (some p) root visits) (hcwd : w.cwd.isAbsolute = true)
    (hp : p.fileName?.isSome = true) (ha : p.isAbsolute = true) : VisitsOf w restrict (some (p.absolute w.cwd)) root visits := by
  have hnormal : (p.absolute w.cwd).normalize = p.normalize := by
    rw [Path.normalize_absolute hp, Path.absolute_eq_normalize hp, Path.join_of_isAbsolute ha]
  have hpath : ∀ src, resolvePath w.cwd src (some p) = resolvePath w.cwd src (some (p.absolute w.cwd)) := fun src =>
    (Resolver.resolvePath_absolute hcwd hp src).resolve_right fun hn => Bool.false_ne_true (hn.1.symm.trans ha)
  have hseen : NameSet.ofList ((some (p.absolute w.cwd)).map (·.normalize.text)).toList =
      .ofList ((some p).map (·.normalize.text)).toList := by
    simp only [Option.map_some, hnormal]
  rw [VisitsOf, hseen]
  refine Visits.congr h ?_
  rw [List.forall₂_map_left_iff, List.forall₂_map_right_iff]
  exact List.forall₂_same.mpr fun r _ => ⟨rfl, rfl, fun src _ => hpath src⟩

/-- Unless it comes back to a relative path, a walk loads the same files in both spellings, and none of its visits fails or in both some
do. -/
theorem loaded_absolute (hv : VisitsOf w restrict (some p) root visits)
    (hv' : VisitsOf w restrict (some (p.absolute w.cwd)) root visits') (hcwd : w.cwd.isAbsolute = true)
    (hdir : w.files.isDirectory w.cwd.normalize = true) (hp : p.fileName?.isSome = true)
    (hback : p.isAbsolute = true ∨ ¬ Follows w restrict (p.absolute w.cwd) root (p.absolute w.cwd)) :
    loaded visits = loaded visits' ∧ ((∀ v ∈ visits, v.IsResolved) ↔ ∀ v ∈ visits', v.IsResolved) := by
  cases ha : p.isAbsolute with
  | true =>
    obtain rfl := Visits.unique (hv.absolute hcwd hp ha) hv'
    exact ⟨rfl, .rfl⟩
  | false =>
    have hback' := hback.resolve_left (Bool.eq_false_iff.mp ha)
    have halike : StartAlike w restrict p (p.absolute w.cwd) := startAlike_absolute hcwd hdir hp
    have hnormal : (p.absolute w.cwd).normalize = p.absolute w.cwd := Path.normalize_absolute hp w.cwd
    have hfresh : ¬ Follows w restrict p root p.normalize := not_follows_normalize hcwd hp ha
    constructor
    · refine Visits.loaded_eq hv hv' (halike.areAlike _) isFollowed_start fun x file hx hfile => ?_
      -- Neither walk comes back to the path that it has noted at its start.
      have hleft : x ≠ p.normalize := fun he => hfresh (he ▸ (follows_iff_of_loads halike hfile).mpr hx)
      have hright : x ≠ (p.absolute w.cwd).normalize := fun he => hback' (by rw [hnormal] at he; exact he ▸ hx)
      rw [Bool.eq_iff_iff, VisitsOf.contains_start, VisitsOf.contains_start]
      exact iff_of_false hleft hright
    · rw [hv.forall_isResolved_iff_loads hfresh, hv'.forall_isResolved_iff_loads (by rwa [hnormal])]
      exact ⟨halike.forall_loads, halike.symm.forall_loads⟩

/-- A walk from the normal form does not come back to it. -/
theorem notMem_files_absolute (hv : VisitsOf w restrict (some (p.absolute w.cwd)) root visits) (hp : p.fileName?.isSome = true) :
    p.absolute w.cwd ∉ visits.flatMap Visit.files := fun hm =>
  (List.nodup_cons.mp (hv.nodup_paths (Path.normalize_absolute hp w.cwd))).1 ((Visit.sublist_files visits).subset hm)

/-- The file of the document is loaded where the path is relative, and named again. -/
theorem mem_files_absolute_iff (hv : VisitsOf w restrict (some p) root visits) (hcwd : w.cwd.isAbsolute = true)
    (hdir : w.files.isDirectory w.cwd.normalize = true) (hp : p.fileName?.isSome = true) :
    p.absolute w.cwd ∈ visits.flatMap Visit.files ↔ p.isAbsolute = false ∧
      Follows w restrict (p.absolute w.cwd) root (p.absolute w.cwd) ∧ ∃ file, Loads w restrict (p.absolute w.cwd) file := by
  have halike : StartAlike w restrict p (p.absolute w.cwd) := startAlike_absolute hcwd hdir hp
  constructor
  · intro hm
    obtain ⟨v, hmem, file, ho, hpath⟩ := VisitsOf.mem_files.mp hm
    obtain ⟨src, base, -, hnamed, hfollows⟩ := hv.exists_follows hmem
    have hfile : Loads w restrict v.path file := (hv.loads_iff hmem).mp ho
    have hvisit : v.path = p.absolute w.cwd := hfile.path_eq.symm.trans hpath
    rw [← hnamed, hvisit] at hfollows
    rw [hvisit] at hfile
    exact ⟨Bool.eq_false_iff.mpr fun ha => notMem_files_absolute (hv.absolute hcwd hp ha) hp hm,
      (follows_iff_of_loads halike hfile).mp hfollows, file, hfile⟩
  · rintro ⟨ha, hfollows, file, hfile⟩
    have hfollows' := (follows_iff_of_loads halike hfile).mpr hfollows
    obtain ⟨v, hmem, hpath⟩ := List.mem_map.mp ((hv.mem_paths_iff_follows (not_follows_normalize hcwd hp ha)).mpr hfollows')
    exact VisitsOf.mem_files.mpr ⟨v, hmem, file, (hv.loads_iff hmem).mpr (hpath ▸ hfile), hfile.path_eq⟩

/-- A path that a `src` names is its own absolute normal form. -/
theorem absolute_resolvePath {src : String} {base : Option Path} (hcwd : w.cwd.isAbsolute = true) (hp : p.fileName?.isSome = true)
    (h : p = resolvePath w.cwd src base) : p.absolute w.cwd = p := by
  obtain ⟨y, hy⟩ := Resolver.exists_normalize_resolvePath w.cwd src base
  have hnormal : p.normalize = p := by rw [h, hy, Path.normalize_normalize]
  have hanchored : p.normalize.IsAnchored := by
    rw [hnormal, h]
    exact Resolver.isAnchored_resolvePath hcwd src base
  have ha : p.isAbsolute = true := by
    rw [← Bool.not_eq_false]
    exact fun hr => Path.not_isAnchored_normalize hp hr hanchored
  rw [Path.absolute_eq_normalize hp, Path.join_of_isAbsolute ha, hnormal]

/-- In both spellings, the same definitions are found, those of the document under the path that is given. -/
theorem ofVisits_absolute (hv : VisitsOf w restrict (some p) root visits) (hcwd : w.cwd.isAbsolute = true)
    (hp : p.fileName?.isSome = true) (hloaded : loaded visits = loaded visits') :
    Site.ofVisits (some (p.absolute w.cwd)) root visits' =
      (Site.ofVisits (some p) root visits).map (.mapFile (.respell p (p.absolute w.cwd))) := by
  rw [Site.ofVisits, Site.ofVisits, List.map_append, Site.map_all, flatMap_sites, flatMap_sites, ← hloaded, List.map_flatMap,
    Path.respell, if_pos rfl]
  refine congrArg _ (List.flatMap_congr fun file hfile => ?_)
  rw [Site.map_all, Path.respell]
  split_ifs with he
  · obtain ⟨v, hmem, ho⟩ := mem_loaded.mp hfile
    obtain ⟨src, base, ho', -, -⟩ := hv.exists_follows hmem
    have hnamed : p = resolvePath w.cwd src base := he.symm.trans (Resolver.outcome_eq_ok (ho'.symm.trans ho)).1
    rw [he, absolute_resolvePath hcwd hp hnamed]
  · rfl

end Closure

namespace TemplateDefinition

open Closure (VisitsOf Follows Loads loaded)

variable {w : World} {r : Resolver} {root : Node} {p : Path} {visits visits' : List Visit}

/-- The definitions are collected in both spellings or in none. -/
theorem collectAll_absolute (hf : r.IsFaithful w) (hv : VisitsOf w r.restrict (some p) root visits)
    (hv' : VisitsOf w r.restrict (some (p.absolute w.cwd)) root visits') (hcwd : w.cwd.isAbsolute = true)
    (hp : p.fileName?.isSome = true) (hloaded : loaded visits = loaded visits')
    (hresolved : (∀ v ∈ visits, v.IsResolved) ↔ ∀ v ∈ visits', v.IsResolved) :
    (collectAll w r (some (p.absolute w.cwd)) root).1.toOption =
      (collectAll w r (some p) root).1.toOption.map (.mapValues fun _ => .mapFile (.respell p (p.absolute w.cwd))) := by
  have hsites := Closure.ofVisits_absolute hv hcwd hp hloaded
  cases hds : (collectAll w r (some p) root).1 with
  | ok ds =>
    obtain ⟨hall, hcol⟩ := (collectAll_eq_ok hv hf).mp hds
    rw [(collectAll_eq_ok hv' hf).mpr ⟨hresolved.mp hall, hsites ▸ hcol.mapFile _⟩]
    rfl
  | error e =>
    cases hds' : (collectAll w r (some (p.absolute w.cwd)) root).1 with
    | error e' => rfl
    | ok ds' =>
      obtain ⟨hall, hcol⟩ := (collectAll_eq_ok hv' hf).mp hds'
      have hdistinct : AreDistinct (Site.ofVisits (some p) root visits) := Site.areDistinct_map.mp (hsites ▸ hcol.distinct)
      obtain ⟨ds, hok⟩ := (exists_collectAll_iff hv hf).mpr ⟨hresolved.mpr hall, hdistinct⟩
      cases hds.symm.trans hok

/-- Where a walk from a relative path comes back, definitions are collected only if the file does not define what the document
defines. -/
theorem disjoint_of_collectAll {ds : Definitions} (hf : r.IsFaithful w) (hcwd : w.cwd.isAbsolute = true)
    (hdir : w.files.isDirectory w.cwd.normalize = true) (hp : p.fileName?.isSome = true) (ha : p.isAbsolute = false)
    (hback : Follows w r.restrict (p.absolute w.cwd) root (p.absolute w.cwd)) (hds : (collectAll w r (some p) root).1 = .ok ds) :
    ∃ file, Loads w r.restrict (p.absolute w.cwd) file ∧
      ∀ id ∈ (Site.all (some file.path) file.document.root).filterMap Site.id?, id ∉ (Site.all (some p) root).filterMap Site.id? := by
  obtain ⟨visits, hv⟩ := Closure.exists_visitsOf w r.restrict (some p) root
  obtain ⟨hresolved, hcol⟩ := (collectAll_eq_ok hv hf).mp hds
  have halike : Closure.StartAlike w r.restrict p (p.absolute w.cwd) := Closure.startAlike_absolute hcwd hdir hp
  have hall := (hv.forall_isResolved_iff_loads (Closure.not_follows_normalize hcwd hp ha)).mp hresolved
  obtain ⟨file, hfile⟩ := halike.forall_loads hall _ hback
  refine ⟨file, hfile, fun id hid => (areDistinct_append.mp hcol.distinct).2.2 id ?_⟩
  have hm : p.absolute w.cwd ∈ visits.flatMap Visit.files :=
    (Closure.mem_files_absolute_iff hv hcwd hdir hp).mpr ⟨ha, hback, file, hfile⟩
  obtain ⟨v, hmem, file', ho, hpath⟩ := VisitsOf.mem_files.mp hm
  have hfile' : Loads w r.restrict v.path file' := (hv.loads_iff hmem).mp ho
  rw [hfile'.path_eq.symm.trans hpath] at hfile'
  obtain rfl := hfile.unique hfile'
  have hsites : v.sites = Site.all (some file.path) file.document.root := by rw [Visit.sites, ho]
  obtain ⟨s, hs, hid⟩ := List.mem_filterMap.mp hid
  exact List.mem_filterMap.mpr ⟨s, List.mem_flatMap.mpr ⟨v, hmem, hsites ▸ hs⟩, hid⟩

/-- A document is collected and analyzed alike in both spellings of its path, with the document's own definitions under the path that
is given, if the path is absolute or the document is not named again. A relative path that is named again is not recognized: its file
is loaded as one more file, and what it defines must not be what the document defines. The normal form is never loaded again. -/
theorem collects_alike_absolute (hf : r.IsFaithful w) (hcwd : w.cwd.isAbsolute = true)
    (hdir : w.files.isDirectory w.cwd.normalize = true) (hp : p.fileName?.isSome = true) {q : Path} (hq : p.absolute w.cwd = q) :
    (p.isAbsolute = true ∨ ¬ Follows w r.restrict q root q →
      (collectAll w r (some q) root).1.toOption =
        (collectAll w r (some p) root).1.toOption.map (.mapValues fun _ => .mapFile (.respell p q)) ∧
      (Analysis.run w r (some q) root).1.duplicates =
        (Analysis.run w r (some p) root).1.duplicates.map (.mapFile (.respell p q)) ∧
      (Analysis.run w r (some q) root).1.undefined =
        (Analysis.run w r (some p) root).1.undefined.map (.mapFile (.respell p q)) ∧
      (Analysis.run w r (some q) root).1.externalFiles = (Analysis.run w r (some p) root).1.externalFiles) ∧
    q ∉ (Analysis.run w r (some q) root).1.externalFiles ∧
    (q ∈ (Analysis.run w r (some p) root).1.externalFiles ↔
      p.isAbsolute = false ∧ Follows w r.restrict q root q ∧ ∃ file, Loads w r.restrict q file) ∧
    (p.isAbsolute = false → Follows w r.restrict q root q → ∀ ds, (collectAll w r (some p) root).1 = .ok ds →
      ∃ file, Loads w r.restrict q file ∧ ∀ id ∈ (Site.all (some file.path) file.document.root).filterMap Site.id?,
        id ∉ (Site.all (some p) root).filterMap Site.id?) := by
  subst hq
  obtain ⟨visits, hv⟩ := Closure.exists_visitsOf w r.restrict (some p) root
  obtain ⟨visits', hv'⟩ := Closure.exists_visitsOf w r.restrict (some (p.absolute w.cwd)) root
  refine ⟨fun hback => ?_, ?_, ?_, fun ha hback ds hds => disjoint_of_collectAll hf hcwd hdir hp ha hback hds⟩
  · obtain ⟨hloaded, hresolved⟩ := Closure.loaded_absolute hv hv' hcwd hdir hp hback
    have hoccurrences : (Site.ofVisits (some (p.absolute w.cwd)) root visits').map Site.occurrence =
        ((Site.ofVisits (some p) root visits).map Site.occurrence).map (.mapFile (.respell p (p.absolute w.cwd))) := by
      rw [Closure.ofVisits_absolute hv hcwd hp hloaded, List.map_map, List.map_map]
      rfl
    have hstart : Path.respell p (p.absolute w.cwd) p = p.absolute w.cwd := if_pos rfl
    refine ⟨collectAll_absolute hf hv hv' hcwd hp hloaded hresolved, ?_, ?_, ?_⟩
    · rw [Analysis.run_eq hv hf, Analysis.run_eq hv' hf]
      exact Analysis.duplicates_mapFile _ _ hoccurrences
    · rw [Analysis.run_eq hv hf, Analysis.run_eq hv' hf]
      exact Analysis.undefined_mapFile hstart hoccurrences
    · rw [Analysis.externalFiles_run hv hf, Analysis.externalFiles_run hv' hf, Closure.flatMap_files, Closure.flatMap_files, hloaded]
  · rw [Analysis.externalFiles_run hv' hf]
    exact Closure.notMem_files_absolute hv' hp
  · rw [Analysis.externalFiles_run hv hf]
    exact Closure.mem_files_absolute_iff hv hcwd hdir hp

end TemplateDefinition

/-! ### A file that imports itself -/

namespace SelfImport

open Closure (VisitsOf Follows Loads)
open TemplateDefinition (collectAll collects_alike_absolute disjoint_of_collectAll exists_collectAll_iff)

def source : String := ":::template\x7bid=\"a\"\x7d\n::template\x7bid=\"a\" src=\"a.md\"\x7d\n:::\n"

def world : World := { files := ⟨.ofList [("/a.md", .file source.toUTF8 0)]⟩ }

def document : Document := .parse source.toList

/-- The path of the file as it may be given. -/
def start : Path := ⟨"a.md"⟩

def file : Path := ⟨"/a.md"⟩

/-- What is computed about the file. -/
@[mk_iff] structure Checks : Prop where
  isAbsolute : world.cwd.isAbsolute = true
  isDirectory : world.files.isDirectory world.cwd.normalize = true
  isNamed : start.fileName?.isSome = true
  isRelative : start.isAbsolute = false
  absolute : start.absolute world.cwd = file
  normal : file.normalize = file
  read : (world.files.readText (world.cwd.join file)).toOption = some source
  references : (Reference.all document.root).map (·.src) = [some "a.md"]
  path : resolvePath world.cwd "a.md" (some file) = file
  isDistinct : AreDistinct (Site.all (some file) document.root)
  ids : (Site.all (some file) document.root).filterMap Site.id? = ["a"] ∧
    (Site.all (some start) document.root).filterMap Site.id? = ["a"]

theorem checks : Checks := by
  rw [checks_iff]
  decide +kernel

theorem exists_reference : ∃ r, Reference.all document.root = [r] ∧ r.src = some "a.md" := by
  obtain ⟨r, hr, hsrc⟩ := List.map_eq_singleton_iff.mp checks.references
  exact ⟨r, hr, hsrc⟩

theorem follows_file : Follows world none file document.root file := by
  obtain ⟨r, hr, hsrc⟩ := exists_reference
  have hown : Follows world none file document.root (resolvePath world.cwd "a.md" (some file)) :=
    .own (hr ▸ List.mem_singleton_self r) hsrc
  rwa [checks.path] at hown

theorem loads_file : Loads world none file ⟨file, document⟩ := by
  refine ⟨"a.md", some file, checks.path, ?_⟩
  rw [Resolver.outcome_none, checks.path, eq_ok_of_toOption checks.read]
  rfl

/-- From its normal form, the file is not visited. -/
theorem visitsOf_file : VisitsOf world none (some file) document.root [] := by
  obtain ⟨r, hr, hsrc⟩ := exists_reference
  rw [VisitsOf, hr]
  refine .skip (fun src hsrc' => ?_) .done
  cases hsrc.symm.trans hsrc'
  rw [checks.path]
  exact VisitsOf.contains_start.mpr checks.normal.symm

/-- What the file defines is what the document defines. -/
theorem not_disjoint : ¬ ∀ id ∈ (Site.all (some file) document.root).filterMap Site.id?,
    id ∉ (Site.all (some start) document.root).filterMap Site.id? := by
  obtain ⟨hfile, hstart⟩ := checks.ids
  rw [hfile, hstart]
  simp

theorem not_collectAll_start {again : ResolvedFile} (hfile : Loads world none file again) :
    ¬ ∀ id ∈ (Site.all (some again.path) again.document.root).filterMap Site.id?,
      id ∉ (Site.all (some start) document.root).filterMap Site.id? := by
  rw [hfile.unique loads_file]
  exact not_disjoint

/-- The file is loaded again under its normal form, so that its template is defined twice. -/
theorem collects_alike_absolute_self :
    file ∈ (Analysis.run world {} (some start) document.root).1.externalFiles ∧
      file ∉ (Analysis.run world {} (some file) document.root).1.externalFiles ∧
      ∀ ds, (collectAll world {} (some start) document.root).1 ≠ .ok ds := by
  obtain ⟨-, hfile, hstart, hcollect⟩ := @collects_alike_absolute world {} document.root start (Resolver.isFaithful_of_memo rfl)
    checks.isAbsolute checks.isDirectory checks.isNamed file checks.absolute
  refine ⟨hstart.mpr ⟨checks.isRelative, follows_file, _, loads_file⟩, hfile, fun ds hds => ?_⟩
  obtain ⟨again, hagain, hids⟩ := hcollect checks.isRelative follows_file ds hds
  exact not_collectAll_start hagain hids

/-- Whether a document is collected depends on the spelling of its path. -/
theorem not_collects_alike_absolute :
    ¬ ∀ (w : World) (r : Resolver) (p : Path) (root : Node), r.IsFaithful w → w.cwd.isAbsolute = true →
      w.files.isDirectory w.cwd.normalize = true → p.fileName?.isSome = true →
      ((∃ ds, (collectAll w r (some p) root).1 = .ok ds) ↔ ∃ ds, (collectAll w r (some (p.absolute w.cwd)) root).1 = .ok ds) := by
  intro h
  have hf : Resolver.IsFaithful world {} := Resolver.isFaithful_of_memo rfl
  have hiff := h world {} start document.root hf checks.isAbsolute checks.isDirectory checks.isNamed
  have hdistinct : AreDistinct (Site.ofVisits (some file) document.root []) := by
    rw [Site.ofVisits, List.flatMap_nil, List.append_nil]
    exact checks.isDistinct
  have hfile : ∃ ds, (collectAll world {} (some file) document.root).1 = .ok ds :=
    (exists_collectAll_iff visitsOf_file hf).mpr ⟨by simp, hdistinct⟩
  rw [checks.absolute] at hiff
  obtain ⟨ds, hds⟩ := hiff.mpr hfile
  have hback : Follows world none (start.absolute world.cwd) document.root (start.absolute world.cwd) := by
    rw [checks.absolute]
    exact follows_file
  obtain ⟨again, hagain, hids⟩ :=
    disjoint_of_collectAll hf checks.isAbsolute checks.isDirectory checks.isNamed checks.isRelative hback hds
  have hfile' : Loads world none file again := by
    rw [← checks.absolute]
    exact hagain
  exact not_collectAll_start hfile' hids

end SelfImport

end MarkdownTemplates
