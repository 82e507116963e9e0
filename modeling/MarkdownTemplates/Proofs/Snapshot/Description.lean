import MarkdownTemplates.Proofs.Closure.Imports
import MarkdownTemplates.Proofs.Graph.Cycles
import MarkdownTemplates.Proofs.Project.Run
import MarkdownTemplates.Proofs.Snapshot.Winners
import MarkdownTemplates.Proofs.Template.Reference

/-!
# Snapshots that describe the files

A snapshot describes the files when each file has the content from which its metadata was made. Its templates are then the
definitions that the files hold. A snapshot that is made anew describes the files, unless writing it changes them.
-/

namespace MarkdownTemplates

/-- The recorded templates from a list of their ids, files and dependencies. -/
theorem mem_templates_map {snapshot : Snapshot} {l : List (String × String × List String)}
    (h : snapshot.templates.entries.map (fun e => (e.1, e.2.file, e.2.dependencies)) = l) {x file : String}
    {dependencies : List String} : (x, file, dependencies) ∈ l ↔
      ∃ c, snapshot.templates.get? x = some c ∧ c.file = file ∧ c.dependencies = dependencies := by
  subst h
  rw [List.mem_map]
  constructor
  · rintro ⟨⟨k, c⟩, hc, heq⟩
    cases heq
    exact ⟨c, Dict.mem_entries.mp hc, rfl, rfl⟩
  · rintro ⟨c, hc, rfl, rfl⟩
    exact ⟨(x, c), Dict.mem_entries.mpr hc, rfl⟩

namespace Snapshot

/-- Does the snapshot say what the files hold? -/
structure Describes (s : Snapshot) (w : World) (root : Path) : Prop where
  isDerived : s.IsDerived
  read : ∀ key m, s.files.get? key = some m → ∃ text size modified,
    w.files.readText (w.cwd.join (root.join ⟨key⟩)) = .ok text ∧ m.own = .ofContent key text size modified

/-- Has no file an error? -/
def IsClean (s : Snapshot) : Prop := ∀ key m, s.files.get? key = some m → m.errors = []

namespace Describes

variable {s : Snapshot} {w : World} {root p q : Path} {key x : String} {m : FileMetadata} {site site' : Site}

theorem exists_content (h : s.Describes w root) (hm : s.files.get? key = some m) :
    ∃ text size modified, w.document (root.join ⟨key⟩) = .ok (.parse text.toList) ∧
      m.definitions = (FileMetadata.ofContent key text size modified).definitions ∧
      (m.errors = [] → (FileMetadata.ofContent key text size modified).errors = []) := by
  obtain ⟨text, size, modified, ht, hown⟩ := h.read key m hm
  refine ⟨text, size, modified, World.document_eq_ok.mpr ⟨text, ht, rfl⟩, by rw [← hown, FileMetadata.own], fun he => ?_⟩
  rw [← hown, FileMetadata.own, he, List.filter_nil]

/-- The metadata of a file has the first definition of each id in the file. -/
theorem find?_definitions (h : s.Describes w root) (hm : s.files.get? key = some m) (x : String) :
    m.definitions.find? (·.id = x) = (Site.first? (w.sites (root.join ⟨key⟩)) x).map
      fun site => ⟨x, key, site.node.dependencies, site.node.line?, site.node.endLine?⟩ := by
  obtain ⟨text, size, modified, hd, hdefs, -⟩ := h.exists_content hm
  rw [hdefs, World.sites_eq hd]
  exact FileMetadata.find?_definitions_ofContent key text size modified _ x

theorem areDistinct_sites (h : s.Describes w root) (hc : s.IsClean) (hm : s.files.get? key = some m) :
    AreDistinct (w.sites (root.join ⟨key⟩)) := by
  obtain ⟨text, size, modified, hd, -, he⟩ := h.exists_content hm
  rw [World.sites_eq hd]
  exact FileMetadata.errors_ofContent_eq_nil.mp (he (hc key m hm))

/-- What a file of the snapshot defines is recorded, and in no other file. -/
theorem get?_templates_of_mem (h : s.Describes w root) (hc : s.IsClean) (hm : s.files.get? key = some m)
    (hs : site ∈ w.sites (root.join ⟨key⟩)) (hid : site.id? = some x) :
    ∃ c, s.templates.get? x = some c ∧ c.file = key ∧ c.dependencies = site.node.dependencies := by
  have hfirst : Site.first? (w.sites (root.join ⟨key⟩)) x = some site := (h.areDistinct_sites hc hm).first?_eq hs hid
  have hfind := h.find?_definitions hm x
  rw [hfirst, Option.map_some] at hfind
  set c : CachedTemplate := ⟨x, key, site.node.dependencies, site.node.line?, site.node.endLine?⟩ with hcached
  have hmem : c ∈ s.files.values.flatMap (·.definitions) :=
    List.mem_flatMap.mpr ⟨m, Dict.mem_values.mpr ⟨key, hm⟩, List.mem_of_find?_eq_some hfind⟩
  refine ⟨c, ?_, rfl, rfl⟩
  rw [h.isDerived.get?_templates]
  cases hf : (s.files.values.flatMap (·.definitions)).find? (·.id = x) with
  | none => exact absurd (List.find?_eq_none.mp hf c hmem) (by simp [hcached])
  | some c' =>
    have hid' : c'.id = x := by simpa using List.find?_some hf
    exact congrArg some (List.inj_on_of_nodup_map (h.isDerived.nodup_definitions hc) (List.mem_of_find?_eq_some hf) hmem hid')

/-- A recorded template stands in a file of the snapshot. -/
theorem exists_site (h : s.Describes w root) {c : CachedTemplate} (ht : s.templates.get? x = some c) :
    ∃ m, s.files.get? c.file = some m ∧ ∃ site ∈ w.sites (root.join ⟨c.file⟩), site.id? = some x := by
  have hid : c.id = x := h.isDerived.id_of_get? ht
  rw [h.isDerived.get?_templates] at ht
  obtain ⟨m, hm, hc⟩ := List.mem_flatMap.mp (List.mem_of_find?_eq_some ht)
  obtain ⟨key, hm⟩ := Dict.mem_values.mp hm
  obtain ⟨_, _, _, -, hdefs, -⟩ := h.exists_content hm
  have hkey : c.file = key := FileMetadata.file_of_mem_ofContent (hdefs ▸ hc)
  have hfind : (m.definitions.find? (·.id = x)).isSome = true := List.find?_isSome.mpr ⟨c, hc, by simpa using hid⟩
  rw [h.find?_definitions hm, Option.isSome_map] at hfind
  obtain ⟨site, hsite⟩ := Option.isSome_iff_exists.mp hfind
  obtain ⟨hmem, hid⟩ := Site.of_first?_eq_some hsite
  exact ⟨m, hkey ▸ hm, site, hkey ▸ hmem, hid⟩

/-! ### References without `src` -/

/-- A direct reference without `src` is an edge of the graph. -/
theorem hasEdge_of_refersTo (h : s.Describes w root) (hc : s.IsClean) {c : CachedTemplate} {n : Node} {y : String}
    (ht : s.templates.get? x = some c) (hs : site ∈ w.sites (root.join ⟨c.file⟩)) (hid : site.id? = some x)
    (hn : n ∈ site.node.children) (hy : n.RefersTo y) (hsrc : n.attribute? "src" = none) : s.dependencies.HasEdge x y := by
  obtain ⟨m, hm, -⟩ := h.exists_site ht
  obtain ⟨c', ht', hfile, hdeps⟩ := h.get?_templates_of_mem hc hm hs hid
  cases ht.symm.trans ht'
  refine h.isDerived.hasEdge_iff.mpr ⟨c, ht, ?_⟩
  rw [hdeps, Node.mem_dependencies]
  exact ⟨n, Node.mem_preorderList_of_mem hn, hy, hsrc⟩

end Describes

/-! ## Scans -/

/-- A scan describes the files that it has read, as long as they are the same. -/
theorem describes_of_scan {p : Project} {now : Nat} {files : FileTree} {s : Snapshot} {w : World}
    (h : p.scan now files = .ok s)
    (hsame : ∀ found, p.discover files = .ok found → ∀ q ∈ found, p.root.join ⟨Path.key p.root q⟩ = q ∧
      w.files.readText (w.cwd.join q) = files.readText q) : s.Describes w p.root := by
  obtain ⟨found, hd, rfl⟩ := Project.scan_eq_ok.mp h
  refine ⟨isDerived_withFiles _ _ _, fun key m hm => ?_⟩
  have hown : (Project.scanned p.root files found).get? key = some m.own := by
    rw [← Project.own_ofFiles_scanned p.root now files found, Dict.get?_mapValues, hm, Option.map_some]
  obtain ⟨q, hq, hkey, hread⟩ := Project.exists_read_of_scanned hown
  obtain ⟨info, text, -, ht, hm⟩ := FileMetadata.read_eq_ok.mp hread
  obtain ⟨hback, hsame⟩ := hsame found hd q hq
  rw [hkey] at hback
  exact ⟨text, info.size, info.modified, by rw [hback, hsame, ht], hm.symm⟩

end Snapshot

namespace Discovery

variable {w : World} {root cacheDir : Path} {exclude : List String} {rules : IgnoreList} {found : List Path}

/-- Files that are found in their order stay in it. -/
theorem run_of_search (hrules : excludeRules root exclude = .ok rules)
    (hsearch : search w ⟨cacheDir, IgnoreList.load w.files root (w.cwd.join root), rules⟩ (directories w.files) [] [root] =
      .ok found)
    (hsorted : found.Pairwise fun p q => (!q.before p) = true) : run w root cacheDir exclude = .ok found := by
  rw [run, hrules]
  show (search w _ _ _ _ >>= fun found => pure (found.mergeSort fun p q => !q.before p)) = _
  rw [hsearch]
  exact congrArg Except.ok (List.mergeSort_of_pairwise hsorted)

end Discovery

namespace Project

variable {p : Project} {now : Nat} {files files' : FileTree} {s : Snapshot}

/-- What a search for the files of the project finds when no file is excluded, before they are put in order. -/
def searched (p : Project) (files : FileTree) : Except Failure (List Path) :=
  Discovery.search { files, cwd := p.root }
    ⟨p.cacheDir, IgnoreList.load files p.root (p.root.join p.root), ⟨p.root, []⟩⟩ (Discovery.directories files) [] [p.root]

theorem discover_eq_mergeSort {all : List Path} (he : p.options.exclude = []) (h : (p.searched files).toOption = some all) :
    p.discover files = .ok (all.mergeSort fun p q => !q.before p) := by
  rw [discover, he]
  show (p.searched files >>= fun found => pure (found.mergeSort fun p q => !q.before p)) = _
  rw [eq_ok_of_toOption h]
  rfl

theorem discover_of_searched {found : List Path} (he : p.options.exclude = []) (h : (p.searched files).toOption = some found)
    (hsorted : found.Pairwise fun p q => (!q.before p) = true) : p.discover files = .ok found := by
  rw [discover_eq_mergeSort he h, List.mergeSort_of_pairwise hsorted]

/-- Without a usable snapshot in the file, a new one is made. -/
theorem get_of_scan (hload : p.load? now true files = none) (hscan : p.scan now files = .ok s)
    (hsave : p.save now s files = (.ok (), files')) : p.get now { files } = (.ok s, { files := files', snapshot := some s }) := by
  rcases obtain_cases p now true { files } with ⟨s', hs, -⟩ | ⟨s', -, hl, -⟩ | ⟨-, -, ho⟩
  · cases hs
  · cases hload.symm.trans hl
  · rw [get, ho, rebuild, hscan]
    simp only [hsave]

end Project

end MarkdownTemplates
