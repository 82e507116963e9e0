import MarkdownTemplates.Proofs.Discovery

/-!
# Searches in any order

A directory may list its entries in any order. When no two of the directories to be searched are the same place, a search finds what
is in them whatever the order is, each file once. Otherwise it reaches a place again, in every order, and says so.
-/

namespace MarkdownTemplates

open FileTree (IsName)

namespace FileTree

variable {t : FileTree} {p : Path}

/-- What is asked of a directory can be answered, and its path without links is one of those in the tree. -/
theorem exists_names (h : t.isDirectory p = true) :
    ∃ names place, t.names p = .ok names ∧ t.canonical p = .ok place ∧ place ∈ Discovery.directories t := by
  obtain ⟨place, hl, hd⟩ := exists_of_isDirectory h
  have hfind : t.find true p = .ok (place, .directory) := find_eq_ok.mpr ⟨hl, hd⟩
  refine ⟨_, place.path, names_eq_ok.mpr ⟨place, hfind, rfl⟩, by rw [canonical, hfind]; rfl, ?_⟩
  cases place with
  | nil => exact List.mem_cons_self
  | cons s place =>
    refine List.mem_cons_of_mem _ (List.mem_filterMap.mpr ⟨(Place.text (s :: place), .directory), ?_, rfl⟩)
    exact Dict.mem_entries.mpr hd

theorem isDirectory_of_names {names : List String} (h : t.names p = .ok names) : t.isDirectory p = true := by
  obtain ⟨place, hfind, -⟩ := names_eq_ok.mp h
  simp only [isDirectory, info, hfind, bind, Except.bind]

end FileTree

namespace Discovery

variable {w : World} {rules : SearchRules} {root dir dir' sub q place cacheDir : Path}
  {reached left found all pending : List Path} {names listed : List String} {s s' : String} {exclude : List String}
  {excluded : IgnoreList}

/-! ## One directory -/

/-- Is it a directory in `dir` that is not left out? -/
def Enters (w : World) (rules : SearchRules) (dir sub : Path) : Prop :=
  ∃ names name, w.files.names (w.cwd.join dir) = .ok names ∧ name ∈ names ∧ dir.join ⟨name⟩ = sub ∧
    w.files.isDirectory (w.cwd.join sub) = true ∧ rules.skips sub true = false

/-- Is it a Markdown file in `dir` that is not left out? -/
def Holds (w : World) (rules : SearchRules) (dir q : Path) : Prop :=
  ∃ names name, w.files.names (w.cwd.join dir) = .ok names ∧ name ∈ names ∧ dir.join ⟨name⟩ = q ∧
    w.files.isDirectory (w.cwd.join q) = false ∧ rules.skips q false = false ∧ q.isMarkdown = true

theorem IsSearched.enters (h : IsSearched w rules root dir) (hsub : Enters w rules dir sub) : IsSearched w rules root sub := by
  obtain ⟨names, name, hnames, hname, rfl, hdirectory, hskips⟩ := hsub
  exact .inside h hnames hname hdirectory hskips

theorem isFound_iff : IsFound w rules root q ↔ ∃ dir, IsSearched w rules root dir ∧ Holds w rules dir q := by
  constructor
  · rintro @⟨dir, names, name, hdir, hnames, hname, hfile, hskips, hmarkdown⟩
    exact ⟨dir, hdir, names, name, hnames, hname, rfl, hfile, hskips, hmarkdown⟩
  · rintro ⟨dir, hdir, names, name, hnames, hname, rfl, hfile, hskips, hmarkdown⟩
    exact .intro hdir hnames hname hfile hskips hmarkdown

theorem IsSearched.isDirectory (hroot : w.files.isDirectory (w.cwd.join root) = true) (h : IsSearched w rules root dir) :
    w.files.isDirectory (w.cwd.join dir) = true := by
  cases h with
  | root => exact hroot
  | inside _ _ _ hdirectory _ => exact hdirectory

/-- A path below the root leads to one name in one directory. -/
theorem eq_of_join_eq (ht : w.files.HasNames) (h : IsSearched w rules root dir) (h' : IsSearched w rules root dir') (hs : IsName s)
    (hs' : IsName s') (he : dir.join ⟨s⟩ = dir'.join ⟨s'⟩) : dir = dir' ∧ s = s' := by
  obtain ⟨ns, hns, rfl⟩ := h.exists_inside ht
  obtain ⟨ns', hns', rfl⟩ := h'.exists_inside ht
  rw [← Path.inside_concat, ← Path.inside_concat] at he
  have hnames := Path.inside_injective (by simpa [or_imp, forall_and] using ⟨hns, hs⟩)
    (by simpa [or_imp, forall_and] using ⟨hns', hs'⟩) he
  obtain ⟨rfl, hlast⟩ := List.append_inj' hnames rfl
  exact ⟨rfl, List.singleton_inj.mp hlast⟩

theorem ne_root_of_enters (ht : w.files.HasNames) (h : IsSearched w rules root dir) (hsub : Enters w rules dir sub) : sub ≠ root := by
  obtain ⟨names, name, hnames, hname, rfl, -⟩ := hsub
  obtain ⟨ns, hns, rfl⟩ := h.exists_inside ht
  rw [← Path.inside_concat]
  intro he
  have hnil : ns ++ [name] = [] := by
    refine Path.inside_injective (by simpa [or_imp, forall_and] using ⟨hns, ht.isName hnames name hname⟩) ?_ he
    simp
  simp at hnil

theorem eq_of_enters (ht : w.files.HasNames) (h : IsSearched w rules root dir) (h' : IsSearched w rules root dir')
    (hsub : Enters w rules dir sub) (hsub' : Enters w rules dir' sub) : dir = dir' := by
  obtain ⟨names, name, hnames, hname, rfl, -⟩ := hsub
  obtain ⟨names', name', hnames', hname', he, -⟩ := hsub'
  exact (eq_of_join_eq ht h h' (ht.isName hnames name hname) (ht.isName hnames' name' hname') he.symm).1

theorem eq_of_holds (ht : w.files.HasNames) (h : IsSearched w rules root dir) (h' : IsSearched w rules root dir')
    (hq : Holds w rules dir q) (hq' : Holds w rules dir' q) : dir = dir' := by
  obtain ⟨names, name, hnames, hname, rfl, -⟩ := hq
  obtain ⟨names', name', hnames', hname', he, -⟩ := hq'
  exact (eq_of_join_eq ht h h' (ht.isName hnames name hname) (ht.isName hnames' name' hname') he.symm).1

/-- The directories that are searched after `dir`, when it lists these names. -/
def subdirectories (w : World) (rules : SearchRules) (dir : Path) (listed : List String) : List Path :=
  ((entriesOf w rules dir listed).filter (·.2)).map (·.1)

/-- The files that are found in `dir`, when it lists these names. -/
def documents (w : World) (rules : SearchRules) (dir : Path) (listed : List String) : List Path :=
  ((entriesOf w rules dir listed).filter fun e => !e.2 && e.1.isMarkdown).map (·.1)

theorem mem_entriesOf_iff {isDirectory : Bool} : (q, isDirectory) ∈ entriesOf w rules dir listed ↔ ∃ name ∈ listed,
    dir.join ⟨name⟩ = q ∧ w.files.isDirectory (w.cwd.join q) = isDirectory ∧ rules.skips q isDirectory = false := by
  constructor
  · exact mem_entriesOf
  · rintro ⟨name, hname, rfl, rfl, hskips⟩
    exact List.mem_filter.mpr ⟨List.mem_map.mpr ⟨name, hname, rfl⟩, by simp [hskips]⟩

theorem mem_subdirectories (hnames : w.files.names (w.cwd.join dir) = .ok names) (hl : listed.Perm names) :
    sub ∈ subdirectories w rules dir listed ↔ Enters w rules dir sub := by
  constructor
  · intro h
    obtain ⟨⟨p, isDirectory⟩, hm, rfl⟩ := List.mem_map.mp h
    obtain ⟨hm, hdirectory⟩ := List.mem_filter.mp hm
    obtain rfl : isDirectory = true := hdirectory
    obtain ⟨name, hname, he⟩ := mem_entriesOf_iff.mp hm
    exact ⟨names, name, hnames, hl.mem_iff.mp hname, he⟩
  · rintro ⟨names', name, hnames', hname, he⟩
    cases hnames.symm.trans hnames'
    exact List.mem_map.mpr ⟨(sub, true), List.mem_filter.mpr ⟨mem_entriesOf_iff.mpr ⟨name, hl.mem_iff.mpr hname, he⟩, rfl⟩, rfl⟩

theorem mem_documents (hnames : w.files.names (w.cwd.join dir) = .ok names) (hl : listed.Perm names) :
    q ∈ documents w rules dir listed ↔ Holds w rules dir q := by
  constructor
  · intro h
    obtain ⟨⟨p, isDirectory⟩, hm, rfl⟩ := List.mem_map.mp h
    obtain ⟨hm, hmarkdown⟩ := List.mem_filter.mp hm
    obtain ⟨rfl, hmarkdown⟩ : isDirectory = false ∧ p.isMarkdown = true := by simpa using hmarkdown
    obtain ⟨name, hname, hq, hfile, hskips⟩ := mem_entriesOf_iff.mp hm
    exact ⟨names, name, hnames, hl.mem_iff.mp hname, hq, hfile, hskips, hmarkdown⟩
  · rintro ⟨names', name, hnames', hname, hq, hfile, hskips, hmarkdown⟩
    cases hnames.symm.trans hnames'
    refine List.mem_map.mpr ⟨(q, false), List.mem_filter.mpr ⟨?_, by simpa using hmarkdown⟩, rfl⟩
    exact mem_entriesOf_iff.mpr ⟨name, hl.mem_iff.mpr hname, hq, hfile, hskips⟩

theorem nodup_listed (ht : w.files.HasNames) (h : IsSearched w rules root dir)
    (hnames : w.files.names (w.cwd.join dir) = .ok names) (hl : listed.Perm names) :
    (subdirectories w rules dir listed).Nodup ∧ (documents w rules dir listed).Nodup := by
  obtain ⟨ns, hns, rfl⟩ := h.exists_inside ht
  have hname : ∀ s ∈ listed, IsName s := fun s hs => ht.isName hnames s (hl.mem_iff.mp hs)
  have hnodup : ((entriesOf w rules (root.inside ns) listed).map (·.1)).Nodup :=
    nodup_entriesOf hns hname (hl.nodup_iff.mpr (FileTree.nodup_names hnames))
  exact ⟨(List.filter_sublist.map _).nodup hnodup, (List.filter_sublist.map _).nodup hnodup⟩

/-! ## Searches in the order of a listing -/

/-- What directories list. -/
abbrev Listing := Path → Except FileError (List String)

/-- Does every directory list its names, in some order? -/
def Lists (w : World) (list : Listing) : Prop :=
  ∀ dir names, w.files.names (w.cwd.join dir) = .ok names → ∃ listed, list dir = .ok listed ∧ listed.Perm names

/-- Search as `search` does, with the entries of a directory in the order in which it lists them. -/
def searchWith (w : World) (rules : SearchRules) (list : Listing) (left found : List Path) :
    List Path → Except Failure (List Path)
  | [] => .ok found
  | dir :: pending =>
    match list dir, w.files.canonical (w.cwd.join dir) with
    | .error e, _ => .error (.io e)
    | .ok _, .error e => .error (.io e)
    | .ok listed, .ok place =>
      if _h : place ∈ left then
        searchWith w rules list (left.erase place) (found ++ documents w rules dir listed)
          ((subdirectories w rules dir listed).reverse ++ pending)
      else .error (.symlinkCycle dir.text)
  termination_by left.length
  decreasing_by
    have := List.length_pos_of_mem _h
    have := List.length_erase_of_mem _h
    omega

/-- What `run` gives when directories list their entries so. -/
def runWith (w : World) (list : Listing) (root cacheDir : Path) (exclude : List String) : Except Failure (List Path) := do
  let rules : SearchRules :=
    { cacheDir, shared := IgnoreList.load w.files root (w.cwd.join root), excluded := ← excludeRules root exclude }
  let found ← searchWith w rules list (directories w.files) [] [root]
  return found.mergeSort fun a b => !b.before a

theorem searchWith_names (left found pending : List Path) :
    searchWith w rules (fun dir => w.files.names (w.cwd.join dir)) left found pending = search w rules left found pending := by
  fun_induction search w rules left found pending with
  | case1 => rw [searchWith]
  | case2 left found dir pending e he =>
    rw [searchWith]
    simp [he]
  | case3 left found dir pending names e hnames he =>
    rw [searchWith]
    simp [he, hnames]
  | case4 left found dir pending names place hplace hnames hleft entries below markdown ih =>
    rw [searchWith]
    simp only [hplace, hnames, hleft, dite_true]
    exact ih
  | case5 left found dir pending names place hplace hnames hleft =>
    rw [searchWith]
    simp [hplace, hnames, hleft]

theorem runWith_names : runWith w (fun dir => w.files.names (w.cwd.join dir)) root cacheDir exclude = run w root cacheDir exclude := by
  simp only [runWith, searchWith_names, run]

theorem lists_names (w : World) : Lists w fun dir => w.files.names (w.cwd.join dir) := fun _ names h => ⟨names, h, .refl _⟩

/-! ## What holds while a search goes on -/

/-- Is no directory to be searched the same place as another one? -/
def AreApart (w : World) (rules : SearchRules) (root : Path) : Prop :=
  ∀ dir dir', IsSearched w rules root dir → IsSearched w rules root dir' →
    w.files.canonical (w.cwd.join dir) = w.files.canonical (w.cwd.join dir') → dir = dir'

/-- The directories `reached` were searched and are apart, and what they hold is `found`. The directories in them are `pending`,
and `left` has the places of all others. -/
structure Halfway (w : World) (rules : SearchRules) (root : Path) (reached left found pending : List Path) : Prop where
  isSearched : ∀ dir ∈ reached ++ pending, IsSearched w rules root dir
  nodup : (reached ++ pending).Nodup
  root_mem : root ∈ reached ++ pending
  enters : ∀ sub ∈ reached ++ pending, sub = root ∨ ∃ dir ∈ reached, Enters w rules dir sub
  closed : ∀ dir ∈ reached, ∀ sub, Enters w rules dir sub → sub ∈ reached ++ pending
  nodup_left : left.Nodup
  mem_left : ∀ place, place ∈ left ↔
    place ∈ directories w.files ∧ ∀ dir ∈ reached, w.files.canonical (w.cwd.join dir) ≠ .ok place
  apart : ∀ dir ∈ reached, ∀ dir' ∈ reached, w.files.canonical (w.cwd.join dir) = w.files.canonical (w.cwd.join dir') → dir = dir'
  nodup_found : found.Nodup
  mem_found : ∀ q, q ∈ found ↔ ∃ dir ∈ reached, Holds w rules dir q

namespace Halfway

theorem start (ht : w.files.HasNames) : Halfway w rules root [] (directories w.files) [] [root] where
  isSearched := by simpa using IsSearched.root
  nodup := by simp
  root_mem := by simp
  enters := by simp
  closed := by simp
  nodup_left := nodup_directories ht
  mem_left := by simp
  apart := by simp
  nodup_found := List.nodup_nil
  mem_found := by simp

theorem isSearched_of_mem_reached (h : Halfway w rules root reached left found pending) (hdir : dir ∈ reached) :
    IsSearched w rules root dir :=
  h.isSearched dir (List.mem_append_left _ hdir)

theorem ne_of_mem_reached (h : Halfway w rules root reached left found (dir :: pending)) (hdir' : dir' ∈ reached) : dir' ≠ dir :=
  (List.nodup_append.mp h.nodup).2.2 dir' hdir' dir List.mem_cons_self

/-- A directory that is searched is not in one that was searched before. -/
theorem notMem_of_enters (h : Halfway w rules root reached left found (dir :: pending)) (ht : w.files.HasNames)
    (hsub : Enters w rules dir sub) : sub ∉ reached ++ dir :: pending := by
  have hdir : IsSearched w rules root dir := h.isSearched dir (by simp)
  intro hm
  rcases h.enters sub hm with rfl | ⟨dir', hdir', hsub'⟩
  · exact ne_root_of_enters ht hdir hsub rfl
  · exact h.ne_of_mem_reached hdir' (eq_of_enters ht (h.isSearched_of_mem_reached hdir') hdir hsub' hsub)

theorem step (h : Halfway w rules root reached left found (dir :: pending)) (ht : w.files.HasNames)
    (hnames : w.files.names (w.cwd.join dir) = .ok names) (hl : listed.Perm names)
    (hplace : w.files.canonical (w.cwd.join dir) = .ok place) (hleft : place ∈ left) :
    Halfway w rules root (dir :: reached) (left.erase place) (found ++ documents w rules dir listed)
      ((subdirectories w rules dir listed).reverse ++ pending) := by
  have hdir : IsSearched w rules root dir := h.isSearched dir (by simp)
  obtain ⟨hsubs, hdocs⟩ := nodup_listed ht hdir hnames hl
  have hsub : ∀ sub, sub ∈ (subdirectories w rules dir listed).reverse ↔ Enters w rules dir sub := by
    simp [mem_subdirectories hnames hl]
  -- The directories that are known now are the ones that were known, and those in this one.
  have hperm : (dir :: reached ++ ((subdirectories w rules dir listed).reverse ++ pending)).Perm
      ((subdirectories w rules dir listed).reverse ++ (reached ++ dir :: pending)) := by
    grind
  have hknown : ∀ sub, sub ∈ dir :: reached ++ ((subdirectories w rules dir listed).reverse ++ pending) ↔
      Enters w rules dir sub ∨ sub ∈ reached ++ dir :: pending := by
    intro sub
    rw [hperm.mem_iff, List.mem_append, hsub]
  obtain ⟨hmem, hnew⟩ := (h.mem_left place).mp hleft
  constructor
  case isSearched =>
    intro sub hm
    exact ((hknown sub).mp hm).elim hdir.enters (h.isSearched sub)
  case nodup =>
    refine hperm.nodup_iff.mpr (List.nodup_append.mpr ⟨List.nodup_reverse.mpr hsubs, h.nodup, ?_⟩)
    rintro sub hm _ hm' rfl
    exact h.notMem_of_enters ht ((hsub sub).mp hm) hm'
  case root_mem => exact (hknown root).mpr (.inr h.root_mem)
  case enters =>
    intro sub hm
    rcases (hknown sub).mp hm with hin | hm
    · exact .inr ⟨dir, List.mem_cons_self, hin⟩
    · exact (h.enters sub hm).imp_right fun ⟨dir', hdir', hin⟩ => ⟨dir', List.mem_cons_of_mem _ hdir', hin⟩
  case closed =>
    intro dir' hdir' sub hin
    refine (hknown sub).mpr ?_
    rcases List.mem_cons.mp hdir' with rfl | hdir'
    · exact .inl hin
    · exact .inr (h.closed dir' hdir' sub hin)
  case nodup_left => exact h.nodup_left.erase _
  case mem_left =>
    intro place'
    rw [h.nodup_left.mem_erase_iff, h.mem_left, List.forall_mem_cons, hplace]
    grind
  case apart =>
    intro a ha b hb he
    obtain ha | ha := List.mem_cons.mp ha <;> obtain hb | hb := List.mem_cons.mp hb
    · exact ha.trans hb.symm
    · exact absurd (he.symm.trans (ha ▸ hplace)) (hnew b hb)
    · exact absurd (he.trans (hb ▸ hplace)) (hnew a ha)
    · exact h.apart a ha b hb he
  case nodup_found =>
    refine List.nodup_append.mpr ⟨h.nodup_found, hdocs, ?_⟩
    rintro q hq _ hq' rfl
    obtain ⟨dir', hdir', hin⟩ := (h.mem_found q).mp hq
    obtain rfl := eq_of_holds ht (h.isSearched_of_mem_reached hdir') hdir hin ((mem_documents hnames hl).mp hq')
    exact hnew dir' hdir' hplace
  case mem_found =>
    intro q
    rw [List.mem_append, h.mem_found, mem_documents hnames hl, List.exists_mem_cons_iff]
    exact or_comm

/-- When nothing is pending, all directories to be searched were. -/
theorem mem_reached (h : Halfway w rules root reached left found []) (hdir : IsSearched w rules root dir) : dir ∈ reached := by
  induction hdir with
  | root => simpa using h.root_mem
  | inside _ hnames hname hdirectory hskips ih => simpa using h.closed _ ih _ ⟨_, _, hnames, hname, rfl, hdirectory, hskips⟩

theorem areApart (h : Halfway w rules root reached left found []) : AreApart w rules root :=
  fun dir dir' hdir hdir' => h.apart dir (h.mem_reached hdir) dir' (h.mem_reached hdir')

theorem mem_found_iff (h : Halfway w rules root reached left found []) : q ∈ found ↔ IsFound w rules root q := by
  rw [h.mem_found, isFound_iff]
  exact exists_congr fun dir =>
    and_congr_left' ⟨h.isSearched_of_mem_reached, h.mem_reached⟩

end Halfway

/-- Is it searched, as another directory that is the same place? -/
def IsMet (w : World) (rules : SearchRules) (root dir : Path) : Prop :=
  IsSearched w rules root dir ∧ ∃ dir', IsSearched w rules root dir' ∧ dir' ≠ dir ∧
    w.files.canonical (w.cwd.join dir') = w.files.canonical (w.cwd.join dir)

theorem IsMet.not_areApart (h : IsMet w rules root dir) : ¬ AreApart w rules root := by
  obtain ⟨hdir, dir', hdir', hne, he⟩ := h
  exact fun hapart => hne (hapart dir' dir hdir' hdir he)

/-- A search goes to its end, or says which directory is the same place as another one. -/
theorem searchWith_cases {list : Listing} (hl : Lists w list) (ht : w.files.HasNames)
    (hroot : w.files.isDirectory (w.cwd.join root) = true) (h : Halfway w rules root reached left found pending) :
    (∃ reached' left' all, searchWith w rules list left found pending = .ok all ∧ Halfway w rules root reached' left' all []) ∨
    (∃ dir, searchWith w rules list left found pending = .error (.symlinkCycle dir.text) ∧ IsMet w rules root dir) := by
  fun_induction searchWith w rules list left found pending generalizing reached with
  | case1 left found => exact .inl ⟨reached, left, found, rfl, h⟩
  | case2 left found dir pending e he =>
    obtain ⟨names, place, hnames, -⟩ := FileTree.exists_names ((h.isSearched dir (by simp)).isDirectory hroot)
    obtain ⟨listed, hlisted, -⟩ := hl dir names hnames
    cases hlisted.symm.trans he
  | case3 left found dir pending listed e he =>
    obtain ⟨names, place, -, hplace, -⟩ := FileTree.exists_names ((h.isSearched dir (by simp)).isDirectory hroot)
    cases hplace.symm.trans he
  | case4 left found dir pending listed place hplace hlisted hleft ih =>
    obtain ⟨names, place', hnames, -⟩ := FileTree.exists_names ((h.isSearched dir (by simp)).isDirectory hroot)
    obtain ⟨listed', hlisted', hperm⟩ := hl dir names hnames
    cases hlisted.symm.trans hlisted'
    exact ih (h.step ht hnames hperm hplace hleft)
  | case5 left found dir pending listed place hplace hlisted hleft =>
    have hdir : IsSearched w rules root dir := h.isSearched dir (by simp)
    obtain ⟨names, place', -, hplace', hmem⟩ := FileTree.exists_names (hdir.isDirectory hroot)
    cases hplace.symm.trans hplace'
    have hmet : ∃ dir' ∈ reached, w.files.canonical (w.cwd.join dir') = .ok place := by
      simpa [hmem] using mt (h.mem_left place).mpr hleft
    obtain ⟨dir', hdir', he⟩ := hmet
    exact .inr ⟨dir, rfl, hdir, dir', h.isSearched_of_mem_reached hdir', h.ne_of_mem_reached hdir', he.trans hplace.symm⟩

/-! ## What a search finds -/

theorem eq_of_positions_eq (ht : w.files.HasNames) (h : IsFound w rules root q) (h' : IsFound w rules root place)
    (he : q.positions = place.positions) : q = place := by
  obtain ⟨names, -, hn, rfl⟩ := h.exists_inside ht
  obtain ⟨names', -, hn', rfl⟩ := h'.exists_inside ht
  have hparts := List.map_injective_iff.mpr PathPart.position_injective he
  rw [Path.parts_inside root hn, Path.parts_inside root hn'] at hparts
  rw [List.map_injective_iff.mpr (fun _ _ => PathPart.name.inj) (List.append_cancel_left hparts)]

/-- Is it the list of the files to be found, in strict order? -/
def IsListOf (w : World) (rules : SearchRules) (root : Path) (found : List Path) : Prop :=
  (∀ q, q ∈ found ↔ IsFound w rules root q) ∧ found.Pairwise fun p q => p.before q = true

theorem IsListOf.eq (h : IsListOf w rules root found) (h' : IsListOf w rules root all) : found = all :=
  Path.eq_of_pairwise_before h.2 h'.2 fun q => (h.1 q).trans (h'.1 q).symm

theorem Halfway.isListOf (h : Halfway w rules root reached left found []) (ht : w.files.HasNames) :
    IsListOf w rules root (found.mergeSort fun p q => !q.before p) := by
  refine ⟨fun q => (List.mergeSort_perm _ _).mem_iff.trans h.mem_found_iff, ?_⟩
  exact Path.pairwise_before_mergeSort h.nodup_found fun p hp q hq =>
    eq_of_positions_eq ht (h.mem_found_iff.mp hp) (h.mem_found_iff.mp hq)

/-- A run ends with the list of the files to be found, or at a directory that is met again. -/
theorem runWith_cases {list : Listing} (hl : Lists w list) (ht : w.files.HasNames)
    (hroot : w.files.isDirectory (w.cwd.join root) = true) (hexcluded : excludeRules root exclude = .ok excluded)
    (hrules : rules = ⟨cacheDir, IgnoreList.load w.files root (w.cwd.join root), excluded⟩) :
    (∃ found, runWith w list root cacheDir exclude = .ok found ∧ AreApart w rules root ∧ IsListOf w rules root found) ∨
    (∃ dir, runWith w list root cacheDir exclude = .error (.symlinkCycle dir.text) ∧ IsMet w rules root dir) := by
  simp only [runWith, hexcluded, bind, Except.bind, ← hrules]
  rcases searchWith_cases hl ht hroot (Halfway.start ht) with ⟨reached, left, all, hs, h⟩ | ⟨dir, hs, h⟩
  · exact .inl ⟨_, by rw [hs]; rfl, h.areApart, h.isListOf ht⟩
  · exact .inr ⟨dir, by rw [hs], h⟩

/-- Where the directories are apart, the files are found, in whatever order directories list their entries. Where they are not, a
directory is met again, in every order. -/
theorem run_exact (ht : w.files.HasNames) (hroot : w.files.isDirectory (w.cwd.join root) = true)
    (hexcluded : excludeRules root exclude = .ok excluded)
    (hrules : rules = ⟨cacheDir, IgnoreList.load w.files root (w.cwd.join root), excluded⟩) :
    (AreApart w rules root → ∃ found, IsListOf w rules root found ∧ run w root cacheDir exclude = .ok found ∧
      ∀ list, Lists w list → runWith w list root cacheDir exclude = .ok found) ∧
    (¬ AreApart w rules root → ∃ dir, run w root cacheDir exclude = .error (.symlinkCycle dir) ∧
      ∀ list, Lists w list → ∃ dir, runWith w list root cacheDir exclude = .error (.symlinkCycle dir)) := by
  constructor
  · intro hapart
    have hfinds : ∀ list, Lists w list → ∃ found, runWith w list root cacheDir exclude = .ok found ∧ IsListOf w rules root found := by
      intro list hl
      rcases runWith_cases hl ht hroot hexcluded hrules with ⟨found, hrun, -, hfound⟩ | ⟨dir, -, hmet⟩
      · exact ⟨found, hrun, hfound⟩
      · exact absurd hapart hmet.not_areApart
    obtain ⟨found, hrun, hfound⟩ := hfinds _ (lists_names w)
    refine ⟨found, hfound, runWith_names.symm.trans hrun, fun list hl => ?_⟩
    obtain ⟨found', hrun', hfound'⟩ := hfinds list hl
    rw [hrun', hfound'.eq hfound]
  · intro hapart
    have hfails : ∀ list, Lists w list → ∃ dir, runWith w list root cacheDir exclude = .error (.symlinkCycle dir) := by
      intro list hl
      rcases runWith_cases hl ht hroot hexcluded hrules with ⟨found, -, hall, -⟩ | ⟨dir, hrun, -⟩
      · exact absurd hall hapart
      · exact ⟨dir.text, hrun⟩
    obtain ⟨dir, hrun⟩ := hfails _ (lists_names w)
    exact ⟨dir, runWith_names.symm.trans hrun, hfails⟩

/-! ### A link to a directory elsewhere, and one to the directory where it is -/

def notesTree : FileTree :=
  ⟨.ofList [("/p", .directory), ("/p/b.md", .file "\n".toUTF8 0), ("/p/notes", .link ⟨"/q"⟩), ("/q", .directory),
    ("/q/a.md", .file "\n".toUTF8 0)]⟩

def loopTree : FileTree := ⟨.ofList [("/p", .directory), ("/p/up", .link ⟨"."⟩)]⟩

/-- The project in these files. -/
def projectIn (files : FileTree) : World := { files, cwd := ⟨"/p"⟩ }

/-- The rules of the project where it excludes nothing. -/
def rulesIn (files : FileTree) : SearchRules := ⟨⟨"/p/.mdtcache"⟩, IgnoreList.load files ⟨"/p"⟩ ⟨"/p"⟩, ⟨⟨"/p"⟩, []⟩⟩

/-- What a search in the project finds, before it is put in order. -/
def searchIn (files : FileTree) : Except Failure (List Path) :=
  search (projectIn files) (rulesIn files) (directories files) [] [⟨"/p"⟩]

theorem excludeRules_nil : excludeRules root [] = .ok ⟨root, []⟩ := rfl

theorem run_projectIn (files : FileTree) : run (projectIn files) ⟨"/p"⟩ ⟨"/p/.mdtcache"⟩ [] =
    (searchIn files).map fun found => found.mergeSort fun p q => !q.before p := rfl

/-- What is computed about these trees. -/
@[mk_iff] structure LinkChecks : Prop where
  names : ∀ key ∈ notesTree.entries.keys ++ loopTree.entries.keys,
    ∃ place ∈ [["p"], ["b.md", "p"], ["notes", "p"], ["q"], ["a.md", "q"], ["up", "p"]],
      (∀ s ∈ place, IsName s) ∧ Place.text place = key
  isDirectory : notesTree.isDirectory (Path.join ⟨"/p"⟩ ⟨"/p"⟩) = true ∧ loopTree.isDirectory (Path.join ⟨"/p"⟩ ⟨"/p"⟩) = true
  notes : (searchIn notesTree).toOption = some [⟨"/p/b.md"⟩, ⟨"/p/notes/a.md"⟩]
  sorted : [⟨"/p/b.md"⟩, ⟨"/p/notes/a.md"⟩].Pairwise fun p q : Path => (!q.before p) = true
  loop : (searchIn loopTree).toOption = none

theorem linkChecks : LinkChecks := by
  rw [linkChecks_iff]
  decide +kernel

theorem hasNames_links : notesTree.HasNames ∧ loopTree.HasNames := by
  have hkeys : ∀ key ∈ notesTree.entries.keys ++ loopTree.entries.keys, ∃ place : Place,
      (∀ s ∈ place, IsName s) ∧ place.text = key := by
    intro key hkey
    obtain ⟨place, -, hplace⟩ := linkChecks.names key hkey
    exact ⟨place, hplace⟩
  exact ⟨fun key hkey => hkeys key (List.mem_append_left _ hkey), fun key hkey => hkeys key (List.mem_append_right _ hkey)⟩

theorem run_exact_links :
    (∀ list, Lists (projectIn notesTree) list → runWith (projectIn notesTree) list ⟨"/p"⟩ ⟨"/p/.mdtcache"⟩ [] =
      .ok [⟨"/p/b.md"⟩, ⟨"/p/notes/a.md"⟩]) ∧
    (∀ list, Lists (projectIn loopTree) list → ∃ dir, runWith (projectIn loopTree) list ⟨"/p"⟩ ⟨"/p/.mdtcache"⟩ [] =
      .error (.symlinkCycle dir)) := by
  constructor
  · have hrun : run (projectIn notesTree) ⟨"/p"⟩ ⟨"/p/.mdtcache"⟩ [] = .ok [⟨"/p/b.md"⟩, ⟨"/p/notes/a.md"⟩] := by
      rw [run_projectIn, eq_ok_of_toOption linkChecks.notes]
      exact congrArg Except.ok (List.mergeSort_of_pairwise linkChecks.sorted)
    obtain ⟨hall, hmet⟩ := run_exact (w := projectIn notesTree) hasNames_links.1 linkChecks.isDirectory.1 excludeRules_nil
      (rfl : rulesIn notesTree = _)
    by_cases hapart : AreApart (projectIn notesTree) (rulesIn notesTree) ⟨"/p"⟩
    · obtain ⟨found, -, hfound, hlist⟩ := hall hapart
      cases hrun.symm.trans hfound
      exact hlist
    · obtain ⟨dir, hfails, -⟩ := hmet hapart
      cases hrun.symm.trans hfails
  · obtain ⟨hall, hmet⟩ := run_exact (w := projectIn loopTree) hasNames_links.2 linkChecks.isDirectory.2 excludeRules_nil
      (rfl : rulesIn loopTree = _)
    by_cases hapart : AreApart (projectIn loopTree) (rulesIn loopTree) ⟨"/p"⟩
    · obtain ⟨found, -, hfound, -⟩ := hall hapart
      have hnone := linkChecks.loop
      rw [run_projectIn] at hfound
      cases hs : searchIn loopTree with
      | error e => simp [hs, Except.map] at hfound
      | ok all => simp [hs, Except.toOption] at hnone
    · obtain ⟨dir, -, hlist⟩ := hmet hapart
      exact hlist

/-! ### What is found -/

theorem isListOf_of_run (h : run w root cacheDir exclude = .ok found) (ht : w.files.HasNames) :
    ∃ excluded, excludeRules root exclude = .ok excluded ∧
      IsListOf w ⟨cacheDir, IgnoreList.load w.files root (w.cwd.join root), excluded⟩ root found := by
  obtain ⟨excluded, he, hs⟩ := except_bind_eq_ok.mp h
  obtain ⟨all, hs, -⟩ := except_bind_eq_ok.mp hs
  have hroot : w.files.isDirectory (w.cwd.join root) = true := by
    rw [search] at hs
    cases hnames : w.files.names (w.cwd.join root) with
    | error e => simp [hnames] at hs
    | ok names => exact FileTree.isDirectory_of_names hnames
  refine ⟨excluded, he, ?_⟩
  rcases runWith_cases (lists_names w) ht hroot he rfl with ⟨found', hrun, -, hfound⟩ | ⟨dir, hrun, -⟩
  · rw [runWith_names, h] at hrun
    exact Except.ok.inj hrun ▸ hfound
  · rw [runWith_names, h] at hrun
    cases hrun

/-- No path is found twice, and the paths are in their order. -/
theorem nodup_of_run (h : run w root cacheDir exclude = .ok found) (ht : w.files.HasNames) :
    found.Nodup ∧ found.Pairwise fun p q => q.before p = false := by
  obtain ⟨excluded, -, -, hsorted⟩ := isListOf_of_run h ht
  refine ⟨hsorted.imp fun hlt he => ?_, hsorted.imp fun hlt => ?_⟩
  · exact absurd (Path.before_iff.mp (he ▸ hlt)) (lt_irrefl _)
  · exact Path.before_eq_false_iff.mpr (Path.before_iff.mp hlt).le

end Discovery

end MarkdownTemplates
