import MarkdownTemplates.Proofs.Path.Inside
import MarkdownTemplates.Proofs.Project.Tracking

/-!
# Files that are found

A search finds paths to which names lead from the root. Where it starts at an absolute path, the current directory does not
matter.
-/

namespace MarkdownTemplates

open FileTree (IsName)

/-! ## Names in a tree -/

namespace FileTree

variable {t : FileTree} {p : Path} {place : Place} {key s : String} {names : List String}

/-- Does every entry stand at a place with names? -/
def HasNames (t : FileTree) : Prop := ∀ key ∈ t.entries.keys, ∃ place : Place, (∀ s ∈ place, IsName s) ∧ place.text = key

instance (s : String) : Decidable (IsName s) :=
  decidable_of_iff (s.toList ≠ [] ∧ '/' ∉ s.toList ∧ s.toList ≠ ['.'] ∧ s.toList ≠ ['.', '.'])
    ⟨fun ⟨h, h', hc, hp⟩ => ⟨h, h', hc, hp⟩, fun ⟨h, h', hc, hp⟩ => ⟨h, h', hc, hp⟩⟩

theorem splitOn_text (place : Place) (hs : '/' ∉ s.toList) : Text.splitOn (· == '/') (Place.text (s :: place)).toList =
    Text.splitOn (· == '/') place.text.toList ++ [s.toList] := by
  rw [← Text.splitOn_append _ hs]
  simp [Place.text_cons]

theorem nameIn?_eq_some : nameIn? place key = some s ↔ key = Place.text (s :: place) ∧ '/' ∉ s.toList := by
  rw [nameIn?, Option.bind_eq_bind, Option.bind_eq_some_iff]
  simp only [Text.dropStart?_eq_some]
  constructor
  · rintro ⟨name, hkey, h⟩
    by_cases hslash : '/' ∈ name
    · simp [hslash] at h
    · simp [hslash] at h
      subst h
      refine ⟨String.toList_inj.mp ?_, by simpa using hslash⟩
      simp [Place.text_cons, hkey]
  · rintro ⟨rfl, hslash⟩
    exact ⟨s.toList, by simp [Place.text_cons], by simp [hslash]⟩

theorem names_eq_ok : t.names p = .ok names ↔
    ∃ place, t.find true p = .ok (place, .directory) ∧ t.entries.keys.filterMap (nameIn? place) = names := by
  rw [FileTree.names, except_bind_eq_ok]
  constructor
  · rintro ⟨⟨place, e⟩, hf, h⟩
    cases e with
    | directory => exact ⟨place, hf, Except.ok.inj h⟩
    | file => cases h
    | link => cases h
  · rintro ⟨place, hf, rfl⟩
    exact ⟨_, hf, rfl⟩

theorem HasNames.isName (h : t.HasNames) (hn : t.names p = .ok names) : ∀ s ∈ names, IsName s := by
  obtain ⟨place, -, rfl⟩ := names_eq_ok.mp hn
  intro s hs
  obtain ⟨key, hkey, hname⟩ := List.mem_filterMap.mp hs
  obtain ⟨htext, hslash⟩ := nameIn?_eq_some.mp hname
  obtain ⟨place', hplace', rfl⟩ := h key hkey
  cases place' with
  | nil => exact absurd htext.symm (Place.text_ne_empty s place)
  | cons s' place' =>
    -- Both names are what follows the last slash of the key.
    have hs' : IsName s' := hplace' s' List.mem_cons_self
    have hsplit := (splitOn_text place' hs'.plain).symm.trans ((congrArg _ (congrArg _ htext)).trans (splitOn_text place hslash))
    have hlast := List.singleton_inj.mp (List.append_inj' hsplit rfl).2
    exact String.toList_inj.mp hlast ▸ hs'

theorem nodup_names (h : t.names p = .ok names) : names.Nodup := by
  obtain ⟨place, -, rfl⟩ := names_eq_ok.mp h
  refine List.Nodup.filterMap (fun key key' s hs hs' => ?_) (Dict.nodup_keys _)
  exact (nameIn?_eq_some.mp hs).1.trans (nameIn?_eq_some.mp hs').1.symm

end FileTree

namespace Place

variable {place place' : Place} {s : String}

/-- Only an empty name would have the text of the root. -/
theorem text_ne_slash (hs : IsName s) : text (s :: place) ≠ "/" := by
  intro htext
  have hsplit := (FileTree.splitOn_text place hs.plain).symm.trans (congrArg _ (congrArg _ htext))
  exact hs.ne_empty (List.singleton_inj.mp (List.append_inj' (hsplit.trans (by rfl : _ = [[]] ++ [[]])) rfl).2)

theorem path_injective (h : ∀ s ∈ place, IsName s) (h' : ∀ s ∈ place', IsName s) (he : place.path = place'.path) :
    place = place' := by
  cases place with
  | nil =>
    cases place' with
    | nil => rfl
    | cons s' place' => exact absurd (congrArg Path.text he).symm (text_ne_slash (h' s' List.mem_cons_self))
  | cons s place =>
    cases place' with
    | nil => exact absurd (congrArg Path.text he) (text_ne_slash (h s List.mem_cons_self))
    | cons s' place' => exact text_injective (fun r hr => (h r hr).plain) (fun r hr => (h' r hr).plain) (congrArg Path.text he)

end Place

namespace Discovery

variable {w : World} {rules : SearchRules} {root dir q : Path} {left found all pending : List Path} {names : List String}
  {cacheDir : Path} {exclude : List String}

/-- What is made of some members of a list keeps their order. -/
theorem sublist_map_filterMap {α β γ : Type} {f : α → Option β} {g : β → γ} {h : α → γ} (hf : ∀ a b, f a = some b → g b = h a)
    (l : List α) : ((l.filterMap f).map g).Sublist (l.map h) := by
  induction l with
  | nil => exact .slnil
  | cons a l ih =>
    cases ha : f a with
    | none =>
      rw [List.filterMap_cons_none ha]
      exact ih.cons _
    | some b =>
      rw [List.filterMap_cons_some ha, List.map_cons, List.map_cons, hf a b ha]
      exact ih.cons_cons _

/-- Each directory of a tree is listed once. -/
theorem nodup_directories {t : FileTree} (h : t.HasNames) : (directories t).Nodup := by
  have hsub : ((directories t).map Path.text).Sublist ("/" :: t.entries.keys) := by
    rw [directories, List.map_cons]
    refine (sublist_map_filterMap (fun e p hp => ?_) _).cons_cons _
    obtain ⟨key, e⟩ := e
    cases e with
    | directory => exact (congrArg Path.text (Option.some.inj hp)).symm
    | file => cases hp
    | link => cases hp
  -- No entry stands under a single slash, as that would be an empty name in the root.
  have hroot : "/" ∉ t.entries.keys := by
    intro hm
    obtain ⟨place, hplace, htext⟩ := h _ hm
    cases place with
    | nil => exact absurd htext (by decide)
    | cons s place => exact Place.text_ne_slash (hplace s List.mem_cons_self) htext
  exact .of_map _ (hsub.nodup (List.nodup_cons.mpr ⟨hroot, Dict.nodup_keys _⟩))

/-! ## The directory from which relative paths start -/

theorem isAbsolute_of_mem_entriesOf {e : Path × Bool} (hdir : dir.isAbsolute = true) (h : e ∈ entriesOf w rules dir names) :
    e.1.isAbsolute = true := by
  obtain ⟨q, isDirectory⟩ := e
  obtain ⟨name, -, rfl, -⟩ := mem_entriesOf h
  exact Path.isAbsolute_join hdir _

theorem entriesOf_cwd (cwd : Path) (hdir : dir.isAbsolute = true) :
    entriesOf { w with cwd } rules dir names = entriesOf w rules dir names := by
  simp only [entriesOf, Path.join_of_isAbsolute (Path.isAbsolute_join hdir _)]

/-- A search that starts at absolute paths does not depend on the current directory. -/
theorem search_cwd (cwd : Path) (h : ∀ dir ∈ pending, dir.isAbsolute = true) :
    search { w with cwd } rules left found pending = search w rules left found pending := by
  fun_induction search w rules left found pending with
  | case1 left found => rw [search]
  | case2 left found dir pending e he =>
    have hdir := (List.forall_mem_cons.mp h).1
    rw [Path.join_of_isAbsolute hdir] at he
    rw [search, Path.join_of_isAbsolute hdir]
    simp [he]
  | case3 left found dir pending names e hnames he =>
    have hdir := (List.forall_mem_cons.mp h).1
    rw [Path.join_of_isAbsolute hdir] at he hnames
    rw [search, Path.join_of_isAbsolute hdir]
    simp [he, hnames]
  | case4 left found dir pending names place hplace hnames hleft entries below markdown ih =>
    obtain ⟨hdir, hrest⟩ := List.forall_mem_cons.mp h
    rw [Path.join_of_isAbsolute hdir] at hplace hnames
    rw [search, Path.join_of_isAbsolute hdir]
    simp only [hplace, hnames, hleft, dite_true, entriesOf_cwd cwd hdir]
    refine ih fun p hp => ?_
    rcases List.mem_append.mp hp with hp | hp
    · obtain ⟨e, he, rfl⟩ := List.mem_map.mp (List.mem_reverse.mp hp)
      exact isAbsolute_of_mem_entriesOf hdir (List.mem_filter.mp he).1
    · exact hrest p hp
  | case5 left found dir pending names place hplace hnames hleft =>
    have hdir := (List.forall_mem_cons.mp h).1
    rw [Path.join_of_isAbsolute hdir] at hplace hnames
    rw [search, Path.join_of_isAbsolute hdir]
    simp [hplace, hnames, hleft]

theorem run_cwd (cwd : Path) (h : root.isAbsolute = true) :
    run { w with cwd } root cacheDir exclude = run w root cacheDir exclude := by
  simp only [run, Path.join_of_isAbsolute h]
  simp only [search_cwd cwd (List.forall_mem_singleton.mpr h)]

/-! ## Paths below the root -/

theorem IsSearched.exists_inside (ht : w.files.HasNames) (h : IsSearched w rules root dir) :
    ∃ names, (∀ s ∈ names, IsName s) ∧ dir = root.inside names := by
  induction h with
  | root => exact ⟨[], by simp, rfl⟩
  | @inside dir names name _ hnames hname _ _ ih =>
    obtain ⟨ns, hns, rfl⟩ := ih
    refine ⟨ns ++ [name], ?_, (Path.inside_concat ..).symm⟩
    simpa [or_imp, forall_and] using ⟨hns, ht.isName hnames name hname⟩

theorem IsFound.exists_inside (ht : w.files.HasNames) (h : IsFound w rules root q) :
    ∃ names, names ≠ [] ∧ (∀ s ∈ names, IsName s) ∧ q = root.inside names := by
  obtain @⟨dir, names, name, hdir, hnames, hname, -, -, -⟩ := h
  obtain ⟨ns, hns, rfl⟩ := hdir.exists_inside ht
  refine ⟨ns ++ [name], by simp, ?_, (Path.inside_concat ..).symm⟩
  simpa [or_imp, forall_and] using ⟨hns, ht.isName hnames name hname⟩

/-- A directory that lists each name once has each entry once. -/
theorem nodup_entriesOf {ns : List String} (hns : ∀ s ∈ ns, IsName s)
    (hnames : ∀ s ∈ names, IsName s) (hnodup : names.Nodup) : ((entriesOf w rules (root.inside ns) names).map (·.1)).Nodup := by
  have hsub : ((entriesOf w rules (root.inside ns) names).map (·.1)).Sublist (names.map fun s => root.inside (ns ++ [s])) := by
    have hkept := (List.filter_sublist (p := fun e => !rules.skips e.1 e.2) (l := names.map fun name =>
      ((root.inside ns).join ⟨name⟩, w.files.isDirectory (w.cwd.join ((root.inside ns).join ⟨name⟩))))).map Prod.fst
    simpa only [entriesOf, Path.inside_concat, List.map_map, Function.comp_def] using hkept
  have hname : ∀ s ∈ names, ∀ s' ∈ ns ++ [s], IsName s' :=
    fun s hs => by simpa [or_imp, forall_and] using ⟨hns, hnames s hs⟩
  refine hsub.nodup (List.Nodup.map_on (fun s hs s' hs' he => ?_) hnodup)
  have hsame := Path.inside_injective (hname s hs) (hname s' hs') he
  exact List.singleton_inj.mp (List.append_cancel_left hsame)

/-- What is found is absolute, and its key leads back to it unless a backslash is taken for a slash. -/
theorem join_key_of_run (h : run w root cacheDir exclude = .ok found) (ht : w.files.HasNames) (hroot : root.isAbsolute = true)
    (hq : q ∈ found) : q.isAbsolute = true ∧ ('\\' ∉ Path.textBelow root q → root.join ⟨Path.key root q⟩ = q) := by
  obtain ⟨excluded, -, hall⟩ := isFound_of_run h
  obtain ⟨names, hne, hn, rfl⟩ := (hall q hq).exists_inside ht
  exact ⟨Path.isAbsolute_inside hroot names, (Path.join_key_inside_iff root hne hn).mpr⟩

end Discovery

end MarkdownTemplates
