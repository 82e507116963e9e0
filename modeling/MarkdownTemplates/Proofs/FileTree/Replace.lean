import MarkdownTemplates.Proofs.FileTree.Reading

/-!
# Replacing a file

A file is replaced when its new content is written under another name in the same directory, and then that name is put in its
place. Whatever links there are, a file that is read afterwards has the new content.
-/

namespace MarkdownTemplates

namespace FileTree

variable {t t' : FileTree} {p q : Path} {b : ByteArray} {now : Nat}

theorem isDirectoryAt_iff {place : Place} : t.isDirectoryAt place = true ↔ t.lookup? place = some .directory := by
  unfold isDirectoryAt
  split <;> simp_all

theorem lookup?_ne_directory {place : Place} (h : t.isDirectoryAt place = false) : t.lookup? place ≠ some .directory := by
  rw [Ne, ← isDirectoryAt_iff, h]
  exact Bool.false_ne_true

theorem ne_nil_of_not_directory {place : Place} (h : t.isDirectoryAt place = false) : place ≠ [] := by
  rintro rfl
  simp [isDirectoryAt, lookup?] at h

theorem lookup?_congr {place place' : Place} (h : place ≠ []) (h' : place' ≠ []) (ht : place.text = place'.text) :
    t.lookup? place = t.lookup? place' := by
  simp [lookup?, h, h', ht]

theorem lookup?_of_text {q here : Place} {s : String} (h : q.text = Place.text (s :: here)) :
    t.lookup? q = t.lookup? (s :: here) := by
  refine lookup?_congr ?_ (List.cons_ne_nil _ _) h
  rintro rfl
  exact Place.text_ne_empty _ _ h.symm

theorem write_eq_ok : t.write p b now = .ok t' ↔
    ∃ place, t.locate true p = .ok place ∧ t.isDirectoryAt place = false ∧ t' = t.put place (.file b now) := by
  simp only [write]
  cases hp : t.locate true p with
  | error x => simp [bind, Except.bind]
  | ok place =>
    cases hd : t.isDirectoryAt place <;> simp [bind, Except.bind, hd, @eq_comm _ t']

theorem rename_eq_ok : t.rename p q = .ok t' ↔
    ∃ old e place, t.find false p = .ok (old, e) ∧ t.locate false q = .ok place ∧ t.isDirectoryAt place = false ∧
      t' = put ⟨t.entries.erase old.text⟩ place e := by
  simp only [rename]
  cases hp : t.find false p with
  | error x => simp [bind, Except.bind]
  | ok r =>
    obtain ⟨old, e⟩ := r
    cases hq : t.locate false q with
    | error x => simp [bind, Except.bind]
    | ok place =>
      cases hd : t.isDirectoryAt place <;> simp [bind, Except.bind, hd, @eq_comm _ t']

/-- Writing a file changes no directory and no link. -/
theorem lookup?_put_file {place : Place} (hd : t.isDirectoryAt place = false) (hl : ∀ x, t.lookup? place ≠ some (.link x))
    (q : Place) {e : Entry} (he : e.IsWay) : (t.put place (.file b now)).lookup? q = some e ↔ t.lookup? q = some e := by
  rw [lookup?_put]
  split_ifs with h₁ h₂
  · simp [h₁, lookup?]
  · rw [lookup?_congr h₁ (ne_nil_of_not_directory hd) h₂]
    cases e with
    | file => exact absurd he (by simp [Entry.IsWay])
    | directory =>
      have hn : t.lookup? place ≠ some .directory := fun h => by simp [isDirectoryAt_iff.mpr h] at hd
      simp [hn]
    | link x => simp [hl x]
  · rfl

/-- In the directory `dir`, to which the steps `ps` lead, the entry `e` with the name `temporary` has been given the name `name`.
Reading it gives `b`. -/
structure Renamed (t t' : FileTree) (ps : List PathPart) (dir : Place) (name temporary : String) (e : Entry) (b : ByteArray)
    (now : Nat) : Prop where
  plainNames : HasPlainNames ps
  isPlain : dir.IsPlain
  reaches : ∃ m, t.Reaches maxLinks [] ps m dir
  isDirectory : t.lookup? dir = some .directory
  isShort : name.utf8ByteSize ≤ maxNameSize
  isName : '/' ∉ name.toList
  /-- The entry is a file, or a link to one. -/
  content : e = .file b now ∨ ∃ x n m place, e = .link x ∧ t.Reaches n (linkStart dir x) (steps x) m place ∧
    t.lookup? place = some (.file b now)
  lookup?_temporary : t.lookup? (temporary :: dir) = some e
  lookup?_name : t.isDirectoryAt (name :: dir) = false
  lookup?_eq : ∀ q, t'.lookup? q = if q = [] then some .directory else if q.text = Place.text (name :: dir) then some e
    else if q.text = Place.text (temporary :: dir) then none else t.lookup? q

theorem exists_renamed {t₁ t₂ : FileTree} {d : Path} {name temporary : String} (hn : IsName name) (ht : IsName temporary)
    (hw : t.write (d.join ⟨temporary⟩) b now = .ok t₁) (hr : t₁.rename (d.join ⟨temporary⟩) (d.join ⟨name⟩) = .ok t₂) :
    ∃ ps dir e, steps (d.join ⟨name⟩) = ps ++ [.name name] ∧ IsUsable (d.join ⟨name⟩) ∧
      (e = .file b now ∨ ∃ x, t.lookup? (temporary :: dir) = some (.link x)) ∧
      (∀ q e, e.IsWay → (t₁.lookup? q = some e ↔ t.lookup? q = some e)) ∧
      Renamed t₁ t₂ ps dir name temporary e b now := by
  obtain ⟨ps, hps, hsteps, -⟩ := exists_steps_join d
  obtain ⟨place, hl, hd, rfl⟩ := write_eq_ok.mp hw
  obtain ⟨hu, hl⟩ := locate_eq_ok.mp hl
  rw [hsteps temporary ht] at hl
  obtain ⟨m₀, hr₀⟩ := walk_true_iff.mp hl
  have hnl : ∀ x, t.lookup? place ≠ some (.link x) := hr₀.isDirect isDirect_nil place (List.suffix_refl _)
  have hway : ∀ q e, e.IsWay → ((t.put place (.file b now)).lookup? q = some e ↔ t.lookup? q = some e) :=
    fun q e he => lookup?_put_file hd hnl q he
  have hplace : (t.put place (.file b now)).lookup? place = some (.file b now) := by
    rw [lookup?_put, if_neg (ne_nil_of_not_directory hd), if_pos rfl]
  obtain ⟨m, dir, hdir, hlast⟩ := Reaches.append_iff.mp hr₀
  have hisDir : t.lookup? dir = some .directory := by
    rcases hlast.eq_or_directory with ⟨h, -⟩ | h
    · cases h
    · exact h
  have hdir₁ : (t.put place (.file b now)).Reaches maxLinks [] ps m dir := by
    refine hdir.mono (fun q e hq he => (hway q e he).mpr hq) fun x hx => ?_
    cases hisDir.symm.trans ((hway dir (.link x) trivial).mp hx)
  obtain ⟨old, e, place', hf, hl', hd', rfl⟩ := rename_eq_ok.mp hr
  obtain ⟨hf, hold⟩ := find_eq_ok.mp hf
  obtain ⟨-, hf⟩ := locate_eq_ok.mp hf
  obtain ⟨hu', hl'⟩ := locate_eq_ok.mp hl'
  rw [hsteps temporary ht, walk_false_concat] at hf
  rw [hsteps name hn, walk_false_concat] at hl'
  obtain ⟨_, dir₁, hr₁, -, -, rfl⟩ := hf
  obtain ⟨_, dir₂, hr₂, hdir₂, hs, rfl⟩ := hl'
  cases hr₁.unique hdir₁
  cases hr₂.unique hdir₁
  have hcontent : e = .file b now ∨ ∃ x, t.lookup? (temporary :: dir) = some (.link x) ∧ e = .link x ∧
      ∃ n k, t.Reaches n (linkStart dir x) (steps x) k place := by
    cases hlast with
    | move _ hm => cases hm
    | name _ _ _ hlast =>
      cases hlast
      exact .inl (Option.some.inj (hold.symm.trans hplace))
    | link _ _ hx hlast =>
      rw [List.append_nil] at hlast
      exact .inr ⟨_, hx, Option.some.inj (hold.symm.trans ((hway _ (.link _) trivial).mpr hx)), _, _, hlast⟩
  refine ⟨ps, dir, e, hsteps name hn, hu', hcontent.imp_right fun ⟨x, hx, _⟩ => ⟨x, hx⟩, hway, ?_⟩
  refine ⟨hps, hdir.isPlain (by simp [Place.IsPlain]) hps, ⟨m, hdir₁⟩, hdir₂, hs, hn.plain, ?_, hold, hd', fun q => ?_⟩
  · rcases hcontent with h | ⟨x, -, he, n, k, hx⟩
    · exact .inl h
    · refine .inr ⟨x, n, k, place, he, hx.mono (fun q e hq he => (hway q e he).mpr hq) fun y hy => ?_, hplace⟩
      cases hplace.symm.trans hy
  · rw [lookup?_put, lookup?_erase]
    split_ifs <;> rfl

namespace Renamed

variable {ps qs rest : List PathPart} {dir here there : Place} {name temporary : String} {e e' : Entry} {n m modified : Nat}
  {b' : ByteArray} {x : Path}

theorem lookup?_new (h : Renamed t t' ps dir name temporary e b now) : t'.lookup? (name :: dir) = some e := by
  simp [h.lookup?_eq]

theorem lookup?_of_ne (h : Renamed t t' ps dir name temporary e b now) {q : Place} (hq : q.text ≠ Place.text (name :: dir))
    (he : t'.lookup? q = some e') : t.lookup? q = some e' := by
  rw [h.lookup?_eq] at he
  split_ifs at he with h₁ h₂
  · rwa [h₁]
  · exact he

/-- Only the entry that got the name is new. -/
theorem lookup?_of_ne_entry (h : Renamed t t' ps dir name temporary e b now) {q : Place} (he : t'.lookup? q = some e')
    (hne : e' ≠ e) : t.lookup? q = some e' := by
  by_cases hq : q.text = Place.text (name :: dir)
  · rw [h.lookup?_eq] at he
    split_ifs at he with h₁
    · rwa [h₁]
    · exact absurd (Option.some.inj he).symm hne
  · exact h.lookup?_of_ne hq he

/-- When a file got the name, no directory and no link is new. -/
theorem way_of_file (h : Renamed t t' ps dir name temporary (.file b now) b now) (q : Place) (e' : Entry)
    (he : t'.lookup? q = some e') (hw : e'.IsWay) : t.lookup? q = some e' := by
  refine h.lookup?_of_ne_entry he ?_
  rintro rfl
  exact hw

/-- When a file got the name, the steps lead to no other directory. -/
theorem eq_of_reaches (h : Renamed t t' ps dir name temporary (.file b now) b now) (hr : t'.Reaches n [] ps m there)
    (hd : t'.lookup? there = some .directory) : there = dir := by
  have hd' := h.way_of_file there _ hd trivial
  obtain ⟨_, hdir⟩ := h.reaches
  exact (hr.mono h.way_of_file (by simp [hd'])).unique hdir

theorem bytes_of_file (h : Renamed t t' ps dir name temporary (.file b now) b now)
    (hr : t'.Reaches n [] (ps ++ [.name name]) m there) (he : t'.lookup? there = some (.file b' modified)) : b' = b := by
  obtain ⟨k, mid, hm, hlast⟩ := Reaches.append_iff.mp hr
  have hd : t'.lookup? mid = some .directory := by
    rcases hlast.eq_or_directory with ⟨h, -⟩ | h
    · cases h
    · exact h
  obtain rfl := h.eq_of_reaches hm hd
  have hnew := h.lookup?_new
  cases hlast with
  | move _ hm => cases hm
  | name _ _ _ hlast =>
    cases hlast
    cases hnew.symm.trans he
    rfl
  | link _ _ hx => cases hnew.symm.trans hx

/-- When a link got the name, steps lead where they did before, unless they come to the new link. -/
theorem reaches_or_link (h : Renamed t t' ps dir name temporary (.link x) b now) (hr : t'.Reaches n here (qs ++ rest) m there)
    (hf : t'.lookup? there = some (.file b' modified)) (hh : here.IsPlain) (hq : HasPlainNames qs) :
    (∃ k mid, t.Reaches n here qs k mid ∧ t'.Reaches k mid rest m there) ∨
      ∃ k qs', k < n ∧ t'.Reaches k (linkStart dir x) (steps x ++ (qs' ++ rest)) m there := by
  have hway : ∀ q e', t'.lookup? q = some e' → e' ≠ .link x → t.lookup? q = some e' := fun _ _ => h.lookup?_of_ne_entry
  generalize hp : qs ++ rest = rs at hr
  induction hr generalizing qs with
  | done =>
    obtain ⟨rfl, rfl⟩ := List.append_eq_nil_iff.mp hp
    exact .inl ⟨_, _, .done, .done⟩
  | @move _ _ here _ _ part _ hd hm hr ih =>
    cases qs with
    | nil => subst hp; exact .inl ⟨_, _, .done, .move hd hm hr⟩
    | cons part qs =>
      obtain ⟨rfl, rfl⟩ := List.cons.inj hp
      rcases ih hf (isPlain_move hh hm) hq.tail rfl with ⟨k, mid, hr, hrest⟩ | hlink
      · exact .inl ⟨k, mid, .move (hway _ _ hd (by simp)) hm hr, hrest⟩
      · exact .inr hlink
  | @name _ _ here _ s _ hd hs hl hr ih =>
    cases qs with
    | nil => subst hp; exact .inl ⟨_, _, .done, .name hd hs hl hr⟩
    | cons part qs =>
      obtain ⟨rfl, rfl⟩ := List.cons.inj hp
      have hl' : ∀ y, t.lookup? (s :: here) ≠ some (.link y) := by
        intro y hy
        rcases hr.eq_or_directory with ⟨-, rfl⟩ | hd'
        · cases hy.symm.trans (hway _ _ hf (by simp))
        · cases hy.symm.trans (hway _ _ hd' (by simp))
      rcases ih hf (isPlain_cons hh (hq s List.mem_cons_self)) hq.tail rfl with ⟨k, mid, hr, hrest⟩ | hlink
      · exact .inl ⟨k, mid, .name (hway _ _ hd (by simp)) hs hl' hr, hrest⟩
      · exact .inr hlink
  | @link n _ here _ s y _ hd hs hy hr ih =>
    cases qs with
    | nil => subst hp; exact .inl ⟨_, _, .done, .link hd hs hy hr⟩
    | cons part qs =>
      obtain ⟨rfl, rfl⟩ := List.cons.inj hp
      have hplain := isPlain_cons hh (hq s List.mem_cons_self)
      by_cases hn : Place.text (s :: here) = Place.text (name :: dir)
      · obtain ⟨rfl, rfl⟩ := List.cons.inj (Place.text_injective hplain (isPlain_cons h.isPlain h.isName) hn)
        cases hy.symm.trans h.lookup?_new
        exact .inr ⟨n, qs, Nat.lt_succ_self n, hr⟩
      · rcases ih hf (isPlain_linkStart hh y) ((hasPlainNames_steps y).append hq.tail) (List.append_assoc _ _ _) with
          ⟨k, mid, hr, hrest⟩ | ⟨k, qs', hk, hlink⟩
        · exact .inl ⟨k, mid, .link (hway _ _ hd (by simp)) hs (h.lookup?_of_ne hn hy) hr, hrest⟩
        · exact .inr ⟨k, qs', Nat.lt_succ_of_lt hk, hlink⟩

theorem bytes_of_link (h : Renamed t t' ps dir name temporary (.link x) b now)
    (hr : t'.Reaches n (linkStart dir x) (steps x ++ rest) m there) (hf : t'.lookup? there = some (.file b' modified)) :
    b' = b := by
  induction n using Nat.strong_induction_on generalizing rest with
  | _ n ih =>
    rcases h.reaches_or_link hr hf (isPlain_linkStart h.isPlain x) (hasPlainNames_steps x) with
      ⟨k, mid, hr, hrest⟩ | ⟨k, qs, hk, hlink⟩
    · obtain ⟨y, _, _, place, hy, hplace, hfile⟩ := h.content.resolve_left (by simp)
      cases hy
      obtain rfl := hr.unique hplace
      rcases hrest.eq_or_directory with ⟨-, rfl⟩ | hd
      · cases hfile.symm.trans (h.lookup?_of_ne_entry hf (by simp))
        rfl
      · cases hfile.symm.trans (h.lookup?_of_ne_entry hd (by simp))
    · exact ih k hk hlink

/-- A file that is read under the new name has the content that was written. -/
theorem bytes (h : Renamed t t' ps dir name temporary e b now) (hr : t'.Reaches n [] (ps ++ [.name name]) m there)
    (hf : t'.lookup? there = some (.file b' modified)) : b' = b := by
  rcases h.content with rfl | ⟨x, -, -, -, rfl, -, -⟩
  · exact h.bytes_of_file hr hf
  · rcases h.reaches_or_link hr hf (by simp [Place.IsPlain]) h.plainNames with ⟨k, mid, hm, hlast⟩ | ⟨k, qs, -, hlink⟩
    · obtain ⟨_, hdir⟩ := h.reaches
      obtain rfl := hm.unique hdir
      have hnew := h.lookup?_new
      cases hlast with
      | move _ hm => cases hm
      | name _ _ hl => exact absurd hnew (hl x)
      | link _ _ hy hlast =>
        cases hnew.symm.trans hy
        exact h.bytes_of_link hlast hf
    · exact h.bytes_of_link hlink hf

/-- When a file got the name and no link had it, no directory and no link is gone. -/
theorem way_to_file (h : Renamed t t' ps dir name temporary (.file b now) b now)
    (hl : ∀ x, t.lookup? (name :: dir) ≠ some (.link x)) (q : Place) (e' : Entry) (he : t.lookup? q = some e')
    (hw : e'.IsWay) : t'.lookup? q = some e' := by
  rw [h.lookup?_eq]
  split_ifs with h₁ h₂ h₃
  · rw [← he, h₁]
    rfl
  · rw [lookup?_congr h₁ (by simp) h₂] at he
    cases e' with
    | file => exact hw.elim
    | directory =>
      have hd := h.lookup?_name
      simp [isDirectoryAt_iff.mpr he] at hd
    | link x => exact absurd he (hl x)
  · rw [lookup?_congr h₁ (by simp) h₃] at he
    cases he.symm.trans h.lookup?_temporary
    exact hw.elim
  · exact he

/-- When a file got the name, it is found where the steps still lead to the directory. -/
theorem reaches_name (h : Renamed t t' ps dir name temporary (.file b now) b now) (hr : t'.Reaches n [] ps m dir)
    (hd : t'.lookup? dir = some .directory) : t'.Reaches n [] (ps ++ [.name name]) m (name :: dir) := by
  refine Reaches.append_iff.mpr ⟨m, dir, hr, .name hd h.isShort (fun x hx => ?_) .done⟩
  cases h.lookup?_new.symm.trans hx

end Renamed

section Replace

variable {t₁ t₂ : FileTree} {d : Path} {name temporary : String} {b' : ByteArray}

theorem eq_of_readBytes_replaced (hn : IsName name) (ht : IsName temporary)
    (hw : t.write (d.join ⟨temporary⟩) b now = .ok t₁) (hr : t₁.rename (d.join ⟨temporary⟩) (d.join ⟨name⟩) = .ok t₂)
    (hb : t₂.readBytes (d.join ⟨name⟩) = .ok b') : b' = b := by
  obtain ⟨ps, dir, e, hsteps, -, -, -, h⟩ := exists_renamed hn ht hw hr
  obtain ⟨place, modified, hl, he⟩ := readBytes_eq_ok.mp hb
  obtain ⟨-, hwalk⟩ := locate_eq_ok.mp hl
  obtain ⟨m, hreach⟩ := walk_true_iff.mp hwalk
  rw [hsteps] at hreach
  exact h.bytes hreach he

/-- Without links of either name, the file can be read. -/
theorem readBytes_replaced (hn : IsName name) (ht : IsName temporary)
    (hw : t.write (d.join ⟨temporary⟩) b now = .ok t₁) (hr : t₁.rename (d.join ⟨temporary⟩) (d.join ⟨name⟩) = .ok t₂)
    (hname : ∀ dir x, t.lookup? (name :: dir) ≠ some (.link x))
    (htemporary : ∀ dir x, t.lookup? (temporary :: dir) ≠ some (.link x)) :
    t₂.readBytes (d.join ⟨name⟩) = .ok b := by
  obtain ⟨ps, dir, e, hsteps, hu, he, hway, h⟩ := exists_renamed hn ht hw hr
  obtain rfl : e = .file b now := he.resolve_right fun ⟨x, hx⟩ => htemporary dir x hx
  have hl : ∀ x, t₁.lookup? (name :: dir) ≠ some (.link x) := fun x hx => hname dir x ((hway _ (.link x) trivial).mp hx)
  have hd := h.way_to_file hl _ _ h.isDirectory trivial
  obtain ⟨m, hdir⟩ := h.reaches
  have hreach := h.reaches_name (hdir.mono (h.way_to_file hl) (by simp [hd])) hd
  rw [← hsteps] at hreach
  exact readBytes_eq_ok.mpr ⟨_, now, locate_eq_ok.mpr ⟨hu, walk_true_iff.mpr ⟨m, hreach⟩⟩, h.lookup?_new⟩

/-- Where the path still leads to a directory, the file can be read, unless a link had the name under which it was written first. -/
theorem readBytes_replaced_of_isDirectory (hn : IsName name) (ht : IsName temporary)
    (hw : t.write (d.join ⟨temporary⟩) b now = .ok t₁) (hr : t₁.rename (d.join ⟨temporary⟩) (d.join ⟨name⟩) = .ok t₂)
    (htemporary : ∀ dir x, t.lookup? (temporary :: dir) ≠ some (.link x)) (hd : t₂.isDirectory d = true) :
    t₂.readBytes (d.join ⟨name⟩) = .ok b := by
  obtain ⟨ps, dir, e, hsteps, hu, he, -, h⟩ := exists_renamed hn ht hw hr
  obtain rfl : e = .file b now := he.resolve_right fun ⟨x, hx⟩ => htemporary dir x hx
  obtain ⟨place, hl, hplace⟩ := exists_of_isDirectory hd
  obtain ⟨hud, hwalk⟩ := locate_eq_ok.mp hl
  obtain ⟨m, hreach⟩ := walk_true_iff.mp hwalk
  have hdir : ∃ m, t₂.Reaches maxLinks [] ps m place := by
    obtain ⟨ps', -, hsteps', hstepsd⟩ := exists_steps_join d
    obtain rfl : ps = ps' := List.append_cancel_right (hsteps.symm.trans (hsteps' name hn))
    rcases hstepsd hud.1 with hs | hs
    · exact ⟨m, hs ▸ hreach⟩
    · exact ⟨m, (hs ▸ hreach).of_dot⟩
  obtain ⟨m, hdir⟩ := hdir
  obtain rfl := h.eq_of_reaches hdir hplace
  have hreach := h.reaches_name hdir hplace
  rw [← hsteps] at hreach
  exact readBytes_eq_ok.mpr ⟨_, now, locate_eq_ok.mpr ⟨hu, walk_true_iff.mpr ⟨m, hreach⟩⟩, h.lookup?_new⟩

end Replace

/-! ## Adding directories -/

theorem add_eq_ok : t.add p e = .ok t' ↔
    ∃ place, t.locate false p = .ok place ∧ t.lookup? place = none ∧ t' = t.put place e := by
  simp only [add]
  cases hl : t.locate false p with
  | error x => simp [bind, Except.bind]
  | ok place => cases hp : t.lookup? place <;> simp [hp, bind, Except.bind, @eq_comm _ t']

/-- Making directories is adding some of them one by one, also when not all of them can be added. -/
theorem makeDirectoryBelow_induction {motive : FileTree → Prop} {ps : List Path} (ht : motive t)
    (hadd : ∀ q ∈ ps, ∀ g g', motive g → g.addDirectory q = .ok g' → motive g') : motive (t.makeDirectoryBelow ps).2 := by
  induction ps with
  | nil => exact ht
  | cons p above ih =>
    have habove : motive (t.makeDirectoryBelow above).2 := ih fun q hq => hadd q (List.mem_cons_of_mem _ hq)
    rw [makeDirectoryBelow]
    split
    · rename_i ha
      exact hadd p List.mem_cons_self _ _ ht ha
    · rcases hb : t.makeDirectoryBelow above with ⟨e | _, t₁⟩
      · rw [hb] at habove
        exact habove
      · rw [hb] at habove
        dsimp only
        split
        · rename_i ha
          exact hadd p List.mem_cons_self _ _ habove ha
        · exact habove
    · exact ht

/-- Does `g` have the entries of `t`, and otherwise directories only? -/
def GrowsTo (t g : FileTree) : Prop := ∀ q, g.lookup? q = t.lookup? q ∨ t.lookup? q = none ∧ g.lookup? q = some .directory

theorem GrowsTo.refl (t : FileTree) : t.GrowsTo t := fun _ => .inl rfl

theorem GrowsTo.lookup?_eq_some (h : t.GrowsTo t') (q : Place) (e : Entry) (hq : t.lookup? q = some e) :
    t'.lookup? q = some e := by
  rcases h q with he | ⟨hnone, -⟩
  · exact he.trans hq
  · cases hnone.symm.trans hq

theorem lookup?_put_directory {place : Place} (hd : t.lookup? place = none) (q : Place) :
    (t.put place .directory).lookup? q = t.lookup? q ∨
      t.lookup? q = none ∧ (t.put place .directory).lookup? q = some .directory := by
  rw [lookup?_put]
  split_ifs with hq ht
  · exact .inl (by rw [hq]; rfl)
  · have hne : place ≠ [] := by
      rintro rfl
      cases hd
    exact .inr ⟨(lookup?_congr hq hne ht).trans hd, rfl⟩
  · exact .inl rfl

theorem GrowsTo.put {g : FileTree} {place : Place} (h : t.GrowsTo g) (hd : g.lookup? place = none) :
    t.GrowsTo (g.put place .directory) := by
  intro q
  rcases lookup?_put_directory hd q with he | ⟨hnone, he⟩
  · rw [he]
    exact h q
  · rcases h q with hq | ⟨-, hq⟩
    · exact .inr ⟨hq.symm.trans hnone, he⟩
    · rw [hnone] at hq
      cases hq

theorem growsTo_makeDirectories (t : FileTree) (p : Path) : t.GrowsTo (t.makeDirectories p).2 := by
  refine makeDirectoryBelow_induction (.refl t) fun q _ g g' hg ha => ?_
  obtain ⟨place, -, hnone, rfl⟩ := add_eq_ok.mp ha
  exact hg.put hnone

theorem addDirectories_eq_ok : t.addDirectories p = .ok t' ↔ t.makeDirectories p = (.ok (), t') := by
  rw [addDirectories]
  rcases t.makeDirectories p with ⟨e | _, g⟩ <;> simp [Except.map]

theorem growsTo_of_addDirectories (h : t.addDirectories p = .ok t') : t.GrowsTo t' := by
  have hg := growsTo_makeDirectories t p
  rwa [addDirectories_eq_ok.mp h] at hg

/-- Adding directories adds no link. -/
theorem link_of_addDirectories (h : t.addDirectories p = .ok t') {q : Place} {x : Path}
    (hq : t'.lookup? q = some (.link x)) : t.lookup? q = some (.link x) := by
  rcases growsTo_of_addDirectories h q with he | ⟨-, he⟩
  · exact he.symm.trans hq
  · cases he.symm.trans hq

end FileTree

end MarkdownTemplates
