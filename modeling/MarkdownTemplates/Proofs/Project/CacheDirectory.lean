import MarkdownTemplates.Proofs.Project.Saving

/-!
# The cache directory

The snapshot and the temporary files stand in one directory, to which the path of the cache directory leads.
-/

namespace MarkdownTemplates

namespace Project

open FileTree (IsName IsUsable Reaches steps maxLinks maxNameSize lookup?_of_text lookup?_put_self)

variable {p : Project} {t t' : FileTree} {dir dir' place : Place} {name : String} {e : Entry}

/-- Does the path of the cache directory lead to the directory `dir`? -/
def LeadsTo (p : Project) (t : FileTree) (dir : Place) : Prop :=
  t.lookup? dir = some .directory ∧ ∃ ps m, (∀ name, IsName name → steps (p.cacheDir.join ⟨name⟩) = ps ++ [.name name]) ∧
    t.Reaches maxLinks [] ps m dir

namespace LeadsTo

theorem unique (h : p.LeadsTo t dir) (h' : p.LeadsTo t dir') : dir = dir' := by
  obtain ⟨-, ps, m, hps, hr⟩ := h
  obtain ⟨-, ps', m', hps', hr'⟩ := h'
  obtain rfl : ps = ps' :=
    List.append_cancel_right ((hps _ isName_snapshotName).symm.trans (hps' _ isName_snapshotName))
  exact hr.unique hr'

theorem mono (h : p.LeadsTo t dir) (hway : ∀ q e, t.lookup? q = some e → e.IsWay → t'.lookup? q = some e) :
    p.LeadsTo t' dir := by
  obtain ⟨hd, ps, m, hps, hr⟩ := h
  have hd' := hway dir .directory hd trivial
  exact ⟨hd', ps, m, hps, hr.mono hway (by simp [hd'])⟩

end LeadsTo

theorem locate_join_eq_ok (hn : IsName name) : t.locate false (p.cacheDir.join ⟨name⟩) = .ok place ↔
    IsUsable (p.cacheDir.join ⟨name⟩) ∧ name.utf8ByteSize ≤ maxNameSize ∧ ∃ dir, p.LeadsTo t dir ∧ place = name :: dir := by
  obtain ⟨ps, -, hps, -⟩ := FileTree.exists_steps_join p.cacheDir
  rw [FileTree.locate_eq_ok, hps name hn, FileTree.walk_false_concat]
  refine and_congr_right fun _ => ?_
  constructor
  · rintro ⟨m, dir, hr, hd, hs, rfl⟩
    exact ⟨hs, dir, ⟨hd, ps, m, hps, hr⟩, rfl⟩
  · rintro ⟨hs, dir, ⟨hd, ps', m, hps', hr⟩, rfl⟩
    obtain rfl : ps = ps' := List.append_cancel_right ((hps name hn).symm.trans (hps' name hn))
    exact ⟨m, dir, hr, hd, hs, rfl⟩

theorem find_join_eq_ok (hn : IsName name) : t.find false (p.cacheDir.join ⟨name⟩) = .ok (place, e) ↔
    (IsUsable (p.cacheDir.join ⟨name⟩) ∧ name.utf8ByteSize ≤ maxNameSize) ∧
      ∃ dir, p.LeadsTo t dir ∧ place = name :: dir ∧ t.lookup? (name :: dir) = some e := by
  rw [FileTree.find_eq_ok, locate_join_eq_ok hn]
  constructor
  · rintro ⟨⟨hu, hs, dir, hl, rfl⟩, he⟩
    exact ⟨⟨hu, hs⟩, dir, hl, rfl, he⟩
  · rintro ⟨⟨hu, hs⟩, dir, hl, rfl, he⟩
    exact ⟨⟨hu, hs, dir, hl, rfl⟩, he⟩

/-- Where no link is, a file is found in the cache directory itself. -/
theorem exists_of_locate_true (hn : IsName name) (h : t.locate true (p.cacheDir.join ⟨name⟩) = .ok place) :
    IsUsable (p.cacheDir.join ⟨name⟩) ∧ name.utf8ByteSize ≤ maxNameSize ∧
      ∃ dir, p.LeadsTo t dir ∧ ((∀ x, t.lookup? (name :: dir) ≠ some (.link x)) → place = name :: dir) := by
  obtain ⟨ps, -, hps, -⟩ := FileTree.exists_steps_join p.cacheDir
  obtain ⟨hu, hw⟩ := FileTree.locate_eq_ok.mp h
  rw [hps name hn, FileTree.walk_true_iff] at hw
  obtain ⟨m, hr⟩ := hw
  obtain ⟨k, dir, hdir, hlast⟩ := Reaches.append_iff.mp hr
  cases hlast with
  | move _ hm => cases hm
  | name hd hs _ hlast =>
    cases hlast
    exact ⟨hu, hs, dir, ⟨hd, ps, _, hps, hdir⟩, fun _ => rfl⟩
  | link hd hs hx _ => exact ⟨hu, hs, dir, ⟨hd, ps, _, hps, hdir⟩, fun hl => absurd hx (hl _)⟩

/-- Nothing is left of a file that is removed again. -/
theorem remove_of_write {b : ByteArray} {now : Nat} (hn : IsName name)
    (hnone : ∀ dir, t.lookup? (name :: dir) = none ∨ t.lookup? (name :: dir) = some .directory)
    (hw : t.write (p.cacheDir.join ⟨name⟩) b now = .ok t') : t'.remove (p.cacheDir.join ⟨name⟩) = .ok t := by
  obtain ⟨place, hl, hd, rfl⟩ := FileTree.write_eq_ok.mp hw
  obtain ⟨hu, hs, dir, hdir, hplace⟩ := exists_of_locate_true hn hl
  obtain rfl : place = name :: dir := by
    refine hplace fun x hx => ?_
    rcases hnone dir with h | h <;> cases h.symm.trans hx
  have hnone : t.lookup? (name :: dir) = none := (hnone dir).resolve_right (FileTree.lookup?_ne_directory hd)
  have hdir' : p.LeadsTo (t.put (name :: dir) (.file b now)) dir := by
    refine hdir.mono fun q e he _ => ?_
    have hq : q.text ≠ Place.text (name :: dir) := fun hq => by cases he.symm.trans ((lookup?_of_text hq).trans hnone)
    rw [FileTree.lookup?_put_of_ne hq, he]
  refine FileTree.remove_eq_ok.mpr ⟨_, _, (find_join_eq_ok hn).mpr ⟨⟨hu, hs⟩, dir, hdir', rfl, lookup?_put_self ..⟩, by simp, ?_⟩
  exact (FileTree.erase_put hnone _).symm

/-- A file that can be read can be replaced by one that has been written beside it. -/
theorem exists_rename_of_write {temporary : String} {b b' : ByteArray} {now : Nat} (hn : IsName name) (ht : IsName temporary)
    (hw : t.write (p.cacheDir.join ⟨temporary⟩) b now = .ok t') (hb : t.readBytes (p.cacheDir.join ⟨name⟩) = .ok b') :
    ∃ renamed, t'.rename (p.cacheDir.join ⟨temporary⟩) (p.cacheDir.join ⟨name⟩) = .ok renamed := by
  obtain ⟨place, hl, hd, rfl⟩ := FileTree.write_eq_ok.mp hw
  obtain ⟨hu, hs, dir, hdir, hplace⟩ := exists_of_locate_true ht hl
  obtain ⟨place', modified, hl', hfile⟩ := FileTree.readBytes_eq_ok.mp hb
  obtain ⟨hu', hs', dir', hdir', hplace'⟩ := exists_of_locate_true hn hl'
  obtain rfl := hdir.unique hdir'
  have hway : ∀ q e, e.IsWay → ((t.put place (.file b now)).lookup? q = some e ↔ t.lookup? q = some e) :=
    fun q e he => FileTree.lookup?_put_file hd (FileTree.lookup?_ne_link_of_locate hl) q he
  have hleads : p.LeadsTo (t.put place (.file b now)) dir := hdir.mono fun q e hq he => (hway q e he).mpr hq
  obtain ⟨e, he⟩ : ∃ e, (t.put place (.file b now)).lookup? (temporary :: dir) = some e := by
    by_cases hlink : ∀ x, t.lookup? (temporary :: dir) ≠ some (.link x)
    · obtain rfl := hplace hlink
      exact ⟨_, lookup?_put_self ..⟩
    · obtain ⟨x, hx⟩ := not_forall_not.mp hlink
      exact ⟨_, (hway _ (.link x) trivial).mpr hx⟩
  have hnot : (t.put place (.file b now)).isDirectoryAt (name :: dir) = false := by
    rw [← Bool.not_eq_true, FileTree.isDirectoryAt_iff]
    intro hdirectory
    have hdirectory := (hway _ .directory trivial).mp hdirectory
    obtain rfl := hplace' fun x hx => by cases hdirectory.symm.trans hx
    cases hdirectory.symm.trans hfile
  exact ⟨_, FileTree.rename_eq_ok.mpr ⟨_, e, _, (find_join_eq_ok ht).mpr ⟨⟨hu, hs⟩, dir, hleads, rfl, he⟩,
    (locate_join_eq_ok hn).mpr ⟨hu', hs', dir, hleads, rfl⟩, hnot, rfl⟩⟩

end Project

end MarkdownTemplates
