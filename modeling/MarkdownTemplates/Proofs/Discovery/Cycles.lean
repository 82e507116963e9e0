import MarkdownTemplates.Proofs.Discovery.Listing

/-!
# Directories that are reached twice

A directory that is reached again fails the search. Where links lead back to a directory above, this is a cycle, but two paths can
also lead to one place side by side. Neither happens without links.
-/

namespace MarkdownTemplates

open FileTree (IsName)

namespace Path

variable {p q : Path}

/-- Do names lead from the first path down to the second one? -/
def IsAbove (p q : Path) : Prop := ∃ names, names ≠ [] ∧ (∀ s ∈ names, IsName s) ∧ q = p.inside names

theorem IsAbove.length_lt (h : p.IsAbove q) : p.parts.length < q.parts.length := by
  obtain ⟨names, hne, hn, rfl⟩ := h
  have := List.length_pos_of_ne_nil hne
  rw [parts_inside p hn, List.length_append, List.length_map]
  omega

theorem IsAbove.ne (h : p.IsAbove q) : p ≠ q := by
  rintro rfl
  exact lt_irrefl _ h.length_lt

end Path

namespace FileTree

variable {t : FileTree} {d : Path} {here there : Place} {s : String}

/-- Is there a link at the end of the path? -/
def IsLinkAt (t : FileTree) (p : Path) : Prop := ∃ place target, t.find false p = .ok (place, .link target)

/-- A name that is no link leads to the place of that name in the directory. -/
theorem locate_join (hs : IsName s) (hdir : t.locate true d = .ok here) (hsub : t.locate true (d.join ⟨s⟩) = .ok there)
    (hl : ¬ t.IsLinkAt (d.join ⟨s⟩)) : there = s :: here := by
  obtain ⟨ps, -, hsteps, hsteps'⟩ := exists_steps_join d
  obtain ⟨hu, hw⟩ := locate_eq_ok.mp hsub
  obtain ⟨m, hr⟩ := walk_true_iff.mp hw
  obtain ⟨hu', hw'⟩ := locate_eq_ok.mp hdir
  obtain ⟨m', hr'⟩ := walk_true_iff.mp hw'
  rw [hsteps s hs] at hr
  obtain ⟨k, mid, hmid, hlast⟩ := Reaches.append_iff.mp hr
  obtain rfl : mid = here := by
    rcases hsteps' hu'.1 with h | h <;> rw [h] at hr'
    · exact hmid.unique hr'
    · exact hmid.unique hr'.of_dot
  cases hlast with
  | move _ hm => cases hm
  | name _ _ _ hdone =>
    cases hdone
    rfl
  | link hd hsize hx _ =>
    refine absurd ⟨s :: mid, _, find_eq_ok.mpr ⟨locate_eq_ok.mpr ⟨hu, ?_⟩, hx⟩⟩ hl
    rw [hsteps s hs]
    exact walk_false_concat.mpr ⟨_, mid, hmid, hd, hsize, rfl⟩

/-- Entries stand at places with names. -/
theorem HasNames.isName_of_locate (ht : t.HasNames) (hl : t.locate true d = .ok here) (hd : t.lookup? here = some .directory) :
    ∀ s ∈ here, IsName s := by
  cases here with
  | nil => simp
  | cons s here =>
    obtain ⟨m, hr⟩ := walk_true_iff.mp (locate_eq_ok.mp hl).2
    obtain ⟨place, hplace, htext⟩ := ht _ (mem_keys_of_lookup? hd)
    have hplain : Place.IsPlain (s :: here) := hr.isPlain (by simp [Place.IsPlain]) (hasPlainNames_steps d)
    rwa [← Place.text_injective (fun r hr => (hplace r hr).plain) hplain htext]

end FileTree

namespace Discovery

variable {w : World} {rules : SearchRules} {root dir cacheDir : Path} {exclude : List String} {excluded : IgnoreList} {place : Place}

/-- Can links be followed for ever, from a directory to a place below it that is the same directory? -/
def HasCycle (w : World) (rules : SearchRules) (root : Path) : Prop :=
  ∃ dir dir', IsSearched w rules root dir ∧ IsSearched w rules root dir' ∧ dir.IsAbove dir' ∧
    w.files.canonical (w.cwd.join dir) = w.files.canonical (w.cwd.join dir')

/-- Do two paths of which none is above the other lead to the same directory? -/
def HasDetour (w : World) (rules : SearchRules) (root : Path) : Prop :=
  ∃ dir dir', IsSearched w rules root dir ∧ IsSearched w rules root dir' ∧ dir ≠ dir' ∧ ¬ dir.IsAbove dir' ∧ ¬ dir'.IsAbove dir ∧
    w.files.canonical (w.cwd.join dir) = w.files.canonical (w.cwd.join dir')

theorem not_areApart_iff : ¬ AreApart w rules root ↔ HasCycle w rules root ∨ HasDetour w rules root := by
  constructor
  · intro h
    simp only [AreApart, not_forall] at h
    obtain ⟨dir, dir', hdir, hdir', he, hne⟩ := h
    by_cases hab : dir.IsAbove dir'
    · exact .inl ⟨dir, dir', hdir, hdir', hab, he⟩
    by_cases hba : dir'.IsAbove dir
    · exact .inl ⟨dir', dir, hdir', hdir, hba, he.symm⟩
    · exact .inr ⟨dir, dir', hdir, hdir', hne, hab, hba, he⟩
  · rintro (⟨dir, dir', hdir, hdir', hab, he⟩ | ⟨dir, dir', hdir, hdir', hne, -, -, he⟩) hapart
    · exact hab.ne (hapart dir dir' hdir hdir' he)
    · exact hne (hapart dir dir' hdir hdir' he)

/-! ## Searches without links -/

/-- Are all directories below the root that are searched directories themselves, no links to such? -/
def AreReal (w : World) (rules : SearchRules) (root : Path) : Prop :=
  ∀ dir, IsSearched w rules root dir → dir ≠ root → ¬ w.files.IsLinkAt (w.cwd.join dir)

/-- Where no link is followed, names lead to the place of these names. -/
theorem IsSearched.exists_locate (ht : w.files.HasNames) (hroot : w.files.locate true (w.cwd.join root) = .ok place)
    (hreal : AreReal w rules root) (h : IsSearched w rules root dir) : ∃ names, (∀ s ∈ names, IsName s) ∧
      dir = root.inside names ∧ w.files.locate true (w.cwd.join dir) = .ok (names.reverse ++ place) := by
  induction h with
  | root => exact ⟨[], by simp, rfl, hroot⟩
  | @inside dir names name hdir hnames hname hdirectory hskips ih =>
    obtain ⟨ns, hns, rfl, hl⟩ := ih
    have hs : IsName name := ht.isName hnames name hname
    have hsub : Enters w rules (root.inside ns) ((root.inside ns).join ⟨name⟩) :=
      ⟨names, name, hnames, hname, rfl, hdirectory, hskips⟩
    have hlink := hreal _ (hdir.enters hsub) (ne_root_of_enters ht hdir hsub)
    obtain ⟨there, hthere, -⟩ := FileTree.exists_of_isDirectory hdirectory
    rw [Path.join_join] at hthere hlink
    obtain rfl := FileTree.locate_join hs hl hthere hlink
    refine ⟨ns ++ [name], by simpa [or_imp, forall_and] using ⟨hns, hs⟩, (Path.inside_concat ..).symm, ?_⟩
    rw [Path.join_join, hthere]
    simp

theorem AreReal.areApart (ht : w.files.HasNames) (hroot : w.files.isDirectory (w.cwd.join root) = true)
    (hreal : AreReal w rules root) : AreApart w rules root := by
  obtain ⟨place, hl, -⟩ := FileTree.exists_of_isDirectory hroot
  intro dir dir' hdir hdir' he
  obtain ⟨ns, -, rfl, hns⟩ := hdir.exists_locate ht hl hreal
  obtain ⟨ns', -, rfl, hns'⟩ := hdir'.exists_locate ht hl hreal
  obtain ⟨_, hl₁, hd₁⟩ := FileTree.exists_of_isDirectory (hdir.isDirectory hroot)
  obtain ⟨_, hl₂, hd₂⟩ := FileTree.exists_of_isDirectory (hdir'.isDirectory hroot)
  cases hns.symm.trans hl₁
  cases hns'.symm.trans hl₂
  rw [FileTree.canonical, FileTree.canonical, FileTree.find_eq_ok.mpr ⟨hl₁, hd₁⟩, FileTree.find_eq_ok.mpr ⟨hl₂, hd₂⟩] at he
  have hplace := Place.path_injective (ht.isName_of_locate hl₁ hd₁) (ht.isName_of_locate hl₂ hd₂) (Except.ok.inj he)
  rw [List.reverse_inj.mp (List.append_cancel_right hplace)]

/-- A search fails at a directory that was reached before, where links make a cycle or a detour, and only then. It does not fail
when no link is followed. -/
theorem run_fails_iff (ht : w.files.HasNames) (hroot : w.files.isDirectory (w.cwd.join root) = true)
    (hexcluded : excludeRules root exclude = .ok excluded)
    (hrules : rules = ⟨cacheDir, IgnoreList.load w.files root (w.cwd.join root), excluded⟩) :
    ((∃ dir, run w root cacheDir exclude = .error (.symlinkCycle dir)) ↔ HasCycle w rules root ∨ HasDetour w rules root) ∧
    (∀ e, run w root cacheDir exclude = .error e → ∃ dir, e = .symlinkCycle dir.text ∧ IsMet w rules root dir) ∧
    (AreReal w rules root → ∃ found, run w root cacheDir exclude = .ok found) := by
  rw [← not_areApart_iff, ← runWith_names]
  rcases runWith_cases (lists_names w) ht hroot hexcluded hrules with ⟨found, hrun, hapart, -⟩ | ⟨dir, hrun, hmet⟩
  · simp [hrun, hapart]
  · refine ⟨⟨fun _ => hmet.not_areApart, fun _ => ⟨_, hrun⟩⟩, fun e he => ?_, fun hreal => ?_⟩
    · cases hrun.symm.trans he
      exact ⟨dir, rfl, hmet⟩
    · exact absurd (hreal.areApart ht hroot) hmet.not_areApart

/-! ### A link to a directory beside it -/

def sharedTree : FileTree := ⟨.ofList [("/p", .directory), ("/p/a", .directory), ("/p/b", .link ⟨"a"⟩)]⟩

/-- All paths below the root that lead to a directory. -/
def sharedPaths : List Path := [⟨"/p"⟩, ⟨"/p/a"⟩, ⟨"/p/b"⟩]

/-- What is computed about this tree. -/
@[mk_iff] structure SharedChecks : Prop where
  places : ∀ key ∈ sharedTree.entries.keys, ∃ place ∈ [["p"], ["a", "p"], ["b", "p"]],
    (∀ s ∈ place, IsName s) ∧ Place.text place = key
  isDirectory : sharedTree.isDirectory (Path.join ⟨"/p"⟩ ⟨"/p"⟩) = true
  names : ∀ dir ∈ sharedPaths, ∀ name ∈ ((sharedTree.names (Path.join ⟨"/p"⟩ dir)).toOption.getD []),
    dir.join ⟨name⟩ ∈ sharedPaths
  enters : (sharedTree.names (Path.join ⟨"/p"⟩ ⟨"/p"⟩)).toOption = some ["a", "b"] ∧ ∀ name ∈ ["a", "b"],
    sharedTree.isDirectory (Path.join ⟨"/p"⟩ (Path.join ⟨"/p"⟩ ⟨name⟩)) = true ∧
      (rulesIn sharedTree).skips (Path.join ⟨"/p"⟩ ⟨name⟩) true = false
  same : (sharedTree.canonical (Path.join ⟨"/p"⟩ ⟨"/p/a"⟩)).toOption = some ⟨"/p/a"⟩ ∧
    (sharedTree.canonical (Path.join ⟨"/p"⟩ ⟨"/p/b"⟩)).toOption = some ⟨"/p/a"⟩
  level : ∀ dir ∈ sharedPaths, ∀ dir' ∈ sharedPaths, (sharedTree.canonical (Path.join ⟨"/p"⟩ dir)).toOption =
    (sharedTree.canonical (Path.join ⟨"/p"⟩ dir')).toOption → dir.parts.length = dir'.parts.length

theorem sharedChecks : SharedChecks := by
  rw [sharedChecks_iff]
  decide +kernel

theorem hasNames_shared : sharedTree.HasNames := by
  intro key hkey
  obtain ⟨place, -, hplace⟩ := sharedChecks.places key hkey
  exact ⟨place, hplace⟩

theorem isSearched_shared (name : String) (hname : name ∈ ["a", "b"]) :
    IsSearched (projectIn sharedTree) (rulesIn sharedTree) ⟨"/p"⟩ (Path.join ⟨"/p"⟩ ⟨name⟩) := by
  obtain ⟨hnames, henters⟩ := sharedChecks.enters
  exact .inside .root (eq_ok_of_toOption hnames) hname (henters name hname).1 (henters name hname).2

theorem mem_sharedPaths (h : IsSearched (projectIn sharedTree) (rulesIn sharedTree) ⟨"/p"⟩ dir) : dir ∈ sharedPaths := by
  induction h with
  | root => exact List.mem_cons_self
  | @inside dir names name _ hnames hname _ _ ih =>
    have hnames' : sharedTree.names (Path.join ⟨"/p"⟩ dir) = .ok names := hnames
    exact sharedChecks.names dir ih name (by rw [hnames']; exact hname)

/-- None of the three paths leads to a directory above. -/
theorem not_hasCycle_shared : ¬ HasCycle (projectIn sharedTree) (rulesIn sharedTree) ⟨"/p"⟩ := by
  rintro ⟨dir, dir', hdir, hdir', habove, he⟩
  have hlevel := sharedChecks.level dir (mem_sharedPaths hdir) dir' (mem_sharedPaths hdir') (congrArg Except.toOption he)
  exact absurd habove.length_lt (by omega)

theorem hasDetour_shared : HasDetour (projectIn sharedTree) (rulesIn sharedTree) ⟨"/p"⟩ := by
  have he : sharedTree.canonical (Path.join ⟨"/p"⟩ ⟨"/p/a"⟩) = sharedTree.canonical (Path.join ⟨"/p"⟩ ⟨"/p/b"⟩) :=
    (eq_ok_of_toOption sharedChecks.same.1).trans (eq_ok_of_toOption sharedChecks.same.2).symm
  have ha : IsSearched (projectIn sharedTree) (rulesIn sharedTree) ⟨"/p"⟩ ⟨"/p/a"⟩ := isSearched_shared "a" (by simp)
  have hb : IsSearched (projectIn sharedTree) (rulesIn sharedTree) ⟨"/p"⟩ ⟨"/p/b"⟩ := isSearched_shared "b" (by simp)
  refine ⟨⟨"/p/a"⟩, ⟨"/p/b"⟩, ha, hb, by decide, fun h => ?_, fun h => ?_, he⟩
  · exact not_hasCycle_shared ⟨_, _, ha, hb, h, he⟩
  · exact not_hasCycle_shared ⟨_, _, hb, ha, h, he.symm⟩

theorem run_fails_iff_shared : (∃ dir, run (projectIn sharedTree) ⟨"/p"⟩ ⟨"/p/.mdtcache"⟩ [] = .error (.symlinkCycle dir)) ∧
    ¬ AreReal (projectIn sharedTree) (rulesIn sharedTree) ⟨"/p"⟩ := by
  obtain ⟨hiff, -, hreal⟩ := run_fails_iff (w := projectIn sharedTree) hasNames_shared sharedChecks.isDirectory excludeRules_nil
    (rfl : rulesIn sharedTree = _)
  obtain ⟨dir, hrun⟩ := hiff.mpr (.inr hasDetour_shared)
  refine ⟨⟨dir, hrun⟩, fun h => ?_⟩
  obtain ⟨found, hfound⟩ := hreal h
  cases hrun.symm.trans hfound

theorem exists_run_shared : ∃ dir, run (projectIn sharedTree) ⟨"/p"⟩ ⟨"/p/.mdtcache"⟩ [] = .error (.symlinkCycle dir) := by
  rw [← runWith_names]
  rcases runWith_cases (lists_names (projectIn sharedTree)) hasNames_shared sharedChecks.isDirectory excludeRules_nil
    (rfl : rulesIn sharedTree = _) with ⟨found, -, hapart, -⟩ | ⟨dir, hrun, -⟩
  · exact absurd hapart (not_areApart_iff.mpr (.inr hasDetour_shared))
  · exact ⟨dir.text, hrun⟩

/-- A cycle is also reported where there is none. -/
theorem not_hasCycle_of_run_fails :
    ¬ ∀ (w : World) (root cacheDir : Path) (exclude : List String) (excluded : IgnoreList), w.files.HasNames →
      w.files.isDirectory (w.cwd.join root) = true → excludeRules root exclude = .ok excluded →
      (∃ dir, run w root cacheDir exclude = .error (.symlinkCycle dir)) →
        HasCycle w ⟨cacheDir, IgnoreList.load w.files root (w.cwd.join root), excluded⟩ root := by
  intro h
  obtain ⟨dir, hrun⟩ := exists_run_shared
  exact not_hasCycle_shared (h (projectIn sharedTree) ⟨"/p"⟩ ⟨"/p/.mdtcache"⟩ [] _ hasNames_shared sharedChecks.isDirectory
    excludeRules_nil ⟨dir, hrun⟩)

end Discovery

end MarkdownTemplates
