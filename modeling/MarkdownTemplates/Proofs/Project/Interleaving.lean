import MarkdownTemplates.Proofs.Project.CacheDirectory

/-!
# Managers that work at the same time

Managers of one project save, clear and read its snapshot at the same time, and each of them may stand still at any moment. What
is read at the file of the snapshot is always one whole snapshot, as some manager has saved it.
-/

namespace MarkdownTemplates

open Relation (ReflTransGen)

namespace Project

open FileTree (IsName IsUsable lookup?_of_text lookup?_put_self lookup?_erase_self)

variable {p : Project} {t t' g : FileTree} {dir dir' here place : Place} {name s : String} {e : Entry}

/-! ## Steps of saves -/

/-- Saves of snapshots by managers of one project, each by way of a temporary file of its own. -/
structure Saves (ι : Type) where
  snapshot : ι → Snapshot
  isStorable : ∀ i, (snapshot i).isStorable = true
  temporary : ι → String
  isName : ∀ i, IsName (temporary i)
  ne_snapshotName : ∀ i, temporary i ≠ snapshotName.text
  injective : Function.Injective temporary

/-- How far a save has come. -/
inductive SavePhase where
  | preparing
  | writing (written : ByteArray)
  | saved
  /-- The temporary file could not take the place of the snapshot. -/
  | failed
  | removed

def SavePhase.written? : SavePhase → Option ByteArray
  | preparing => some .empty
  | writing written => some written
  | _ => none

/-- The files that managers share, and how far their saves have come. -/
structure Shared (ι : Type) where
  files : FileTree
  phase : ι → SavePhase

variable {ι : Type}

namespace Saves

def payload (S : Saves ι) (i : ι) : ByteArray := (S.snapshot i).encode.toUTF8

def path (S : Saves ι) (p : Project) (i : ι) : Path := p.cacheDir.join ⟨S.temporary i⟩

/-- What the temporary file of a save has in a phase, when it is there. -/
def content? (S : Saves ι) (i : ι) : SavePhase → Option ByteArray
  | .writing written => some written
  | .failed => some (S.payload i)
  | _ => none

def atTimes (snapshot : ι → Snapshot) (hs : ∀ i, (snapshot i).isStorable = true) (times : ι → Nat)
    (ht : Function.Injective times) : Saves ι where
  snapshot
  isStorable := hs
  temporary i := temporaryName (times i)
  isName _ := isName_temporaryName _
  ne_snapshotName _ := temporaryName_ne_snapshotName _
  injective := temporaryName_injective.comp ht

end Saves

/-- One step of a save or of a manager that clears. Managers that read change nothing. -/
inductive Step [DecidableEq ι] (p : Project) (S : Saves ι) : Shared ι → Shared ι → Prop
  | makeDirectory {σ : Shared ι} {i : ι} {q : Path} {files : FileTree} : σ.phase i = .preparing →
      q ∈ FileTree.withParents p.cacheDir → σ.files.addDirectory q = .ok files → Step p S σ { σ with files }
  | write {σ : Shared ι} {i : ι} {written piece rest : ByteArray} {now : Nat} {files : FileTree} :
      (σ.phase i).written? = some written → S.payload i = written ++ piece ++ rest →
      σ.files.write (S.path p i) (written ++ piece) now = .ok files →
      Step p S σ ⟨files, Function.update σ.phase i (.writing (written ++ piece))⟩
  | rename {σ : Shared ι} {i : ι} {files : FileTree} : σ.phase i = .writing (S.payload i) →
      σ.files.rename (S.path p i) p.cachePath = .ok files → Step p S σ ⟨files, Function.update σ.phase i .saved⟩
  | renameFails {σ : Shared ι} {i : ι} {error : FileError} : σ.phase i = .writing (S.payload i) →
      σ.files.rename (S.path p i) p.cachePath = .error error →
      Step p S σ { σ with phase := Function.update σ.phase i .failed }
  | removeTemporary {σ : Shared ι} {i : ι} {files : FileTree} : σ.phase i = .failed →
      σ.files.remove (S.path p i) = .ok files → Step p S σ ⟨files, Function.update σ.phase i .removed⟩
  | clear {σ : Shared ι} {files : FileTree} : σ.files.remove p.cachePath = .ok files → Step p S σ { σ with files }

/-- Is the file of the snapshot missing, or a directory, or the whole of what a save has written? -/
def IsWhole (p : Project) (S : Saves ι) (phase : ι → SavePhase) (t : FileTree) : Prop :=
  ∀ place e, t.find false p.cachePath = .ok (place, e) →
    e = .directory ∨ ∃ i modified, phase i = .saved ∧ e = .file (S.payload i) modified

structure Starts (p : Project) (S : Saves ι) (σ : Shared ι) : Prop where
  phase : ∀ i, σ.phase i = .preparing ∨ σ.phase i = .saved
  /-- No link has the name of a temporary file. -/
  temporary : ∀ i dir x, σ.files.lookup? (S.temporary i :: dir) ≠ some (.link x)
  /-- The file of the snapshot is whole, and stays so when directories are made on the way to it. -/
  snapshot : ∀ g, σ.files.GrowsTo g → p.IsWhole S σ.phase g

/-! ## What the steps leave behind -/

/-- Does a place hold a file with the content, or no link when there is none? -/
def HasContent (t : FileTree) (place : Place) : Option ByteArray → Prop
  | none => ∀ x, t.lookup? place ≠ some (.link x)
  | some content => ∃ modified, t.lookup? place = some (.file content modified)

theorem HasContent.congr {content : Option ByteArray} (h : HasContent t place content) (he : t'.lookup? place = t.lookup? place) :
    HasContent t' place content := by
  cases content with
  | none => exact fun x => he ▸ h x
  | some content => exact h.imp fun _ => he.trans

theorem HasContent.lookup?_ne_link {content : Option ByteArray} (h : HasContent t place content) (x : Path) :
    t.lookup? place ≠ some (.link x) := by
  cases content with
  | none => exact h x
  | some content =>
    obtain ⟨modified, h⟩ := h
    simp [h]

/-- What saves have made of the tree `g`, in which `dir` is the cache directory: their temporary files stand in it, and what the
file of the snapshot was may be gone. -/
structure Traces (p : Project) (S : Saves ι) (g : FileTree) (σ : Shared ι) (dir : Place) : Prop where
  leadsTo : p.LeadsTo g dir
  other : ∀ q : Place, q.text ≠ Place.text (snapshotName.text :: dir) →
    (∀ i, q.text ≠ Place.text (S.temporary i :: dir)) → σ.files.lookup? q = g.lookup? q
  snapshot : σ.files.lookup? (snapshotName.text :: dir) = g.lookup? (snapshotName.text :: dir) ∨
    (∀ e, g.lookup? (snapshotName.text :: dir) = some e → ¬ e.IsWay) ∧
      ∀ e, σ.files.lookup? (snapshotName.text :: dir) = some e →
        e = .directory ∨ ∃ i modified, σ.phase i = .saved ∧ e = .file (S.payload i) modified
  isWay : ∀ i e, g.lookup? (S.temporary i :: dir) = some e → e.IsWay → σ.files.lookup? (S.temporary i :: dir) = some e
  temporary : ∀ i, HasContent σ.files (S.temporary i :: dir) (S.content? i (σ.phase i))

/-- What managers have made of the files from which they started: first of all more directories, which give the tree `g`. -/
structure IsReached (p : Project) (S : Saves ι) (start σ : Shared ι) (g : FileTree) : Prop where
  growsTo : start.files.GrowsTo g
  saved : ∀ i, start.phase i = .saved → σ.phase i = .saved
  traces : ((∀ q, σ.files.lookup? q = g.lookup? q) ∧ ∀ i, S.content? i (σ.phase i) = none) ∨ ∃ dir, p.Traces S g σ dir

variable {S : Saves ι} {start σ σ' : Shared ι} {i j : ι} {files : FileTree} {phase : SavePhase}

theorem text_temporary_ne_snapshot (S : Saves ι) (i : ι) (here there : Place) :
    Place.text (S.temporary i :: here) ≠ Place.text (snapshotName.text :: there) := fun h =>
  S.ne_snapshotName i (Place.name_eq_of_text (S.isName i).plain isName_snapshotName.plain h)

theorem text_temporary_ne (S : Saves ι) (h : i ≠ j) (here there : Place) :
    Place.text (S.temporary i :: here) ≠ Place.text (S.temporary j :: there) := fun he =>
  h (S.injective (Place.name_eq_of_text (S.isName i).plain (S.isName j).plain he))

theorem Traces.lookup?_of_isWay (h : p.Traces S g σ dir) (q : Place) (e : Entry) (hq : g.lookup? q = some e) (he : e.IsWay) :
    σ.files.lookup? q = some e := by
  by_cases hs : q.text = Place.text (snapshotName.text :: dir)
  · rw [lookup?_of_text hs] at hq ⊢
    rcases h.snapshot with hsame | ⟨hway, -⟩
    · rw [hsame, hq]
    · exact absurd he (hway e hq)
  · by_cases ht : ∀ i, q.text ≠ Place.text (S.temporary i :: dir)
    · rw [h.other q hs ht, hq]
    · obtain ⟨i, ht⟩ := not_forall_not.mp ht
      rw [lookup?_of_text ht] at hq ⊢
      exact h.isWay i e hq he

/-- Where the path of the cache directory leads, the saves have worked, if anywhere. -/
theorem IsReached.traces_of_leadsTo (hstart : p.Starts S start) (h : p.IsReached S start σ g) (hl : p.LeadsTo σ.files dir) :
    p.Traces S g σ dir := by
  rcases h.traces with ⟨hsame, hphase⟩ | ⟨dir', htraces⟩
  · refine ⟨hl.mono fun q e hq _ => (hsame q).symm.trans hq, fun q _ _ => hsame q, .inl (hsame _),
      fun i e he _ => (hsame _).trans he, fun i => ?_⟩
    rw [hphase i]
    intro x hx
    rcases h.growsTo (S.temporary i :: dir) with he | ⟨-, he⟩
    · exact hstart.temporary i dir x (he.symm.trans ((hsame _).symm.trans hx))
    · cases he.symm.trans ((hsame _).symm.trans hx)
  · obtain rfl := (htraces.leadsTo.mono htraces.lookup?_of_isWay).unique hl
    exact htraces

/-- What is found at the file of the snapshot, before anything is done with it, was no directory and no link at the start. -/
theorem Traces.snapshot_not_isWay (h : p.Traces S g σ dir) (hwhole : p.IsWhole S start.phase g)
    (hu : IsUsable p.cachePath) (hd : σ.files.lookup? (snapshotName.text :: dir) ≠ some .directory) :
    ∀ e, g.lookup? (snapshotName.text :: dir) = some e → ¬ e.IsWay := by
  rcases h.snapshot with hsame | ⟨hway, -⟩
  · intro e he hway
    have hfind : g.find false p.cachePath = .ok (snapshotName.text :: dir, e) :=
      (find_join_eq_ok isName_snapshotName).mpr ⟨⟨hu, by decide⟩, dir, h.leadsTo, rfl, he⟩
    rcases hwhole _ _ hfind with rfl | ⟨i, modified, -, rfl⟩
    · exact hd (hsame.trans he)
    · exact hway
  · exact hway

/-- When the file of the snapshot goes or is replaced by a whole one, the rest stays. -/
theorem Traces.replace (h : p.Traces S g σ dir) (hway : ∀ e, g.lookup? (snapshotName.text :: dir) = some e → ¬ e.IsWay)
    (hother : ∀ q : Place, q.text ≠ Place.text (snapshotName.text :: dir) → files.lookup? q = σ.files.lookup? q)
    (hs : ∀ e, files.lookup? (snapshotName.text :: dir) = some e →
      e = .directory ∨ ∃ i modified, σ.phase i = .saved ∧ e = .file (S.payload i) modified) :
    p.Traces S g { σ with files } dir where
  leadsTo := h.leadsTo
  other q hq ht := by
    rw [hother q hq, h.other q hq ht]
  snapshot := .inr ⟨hway, hs⟩
  isWay j e he hway := (hother _ (text_temporary_ne_snapshot S j _ _)).trans (h.isWay j e he hway)
  temporary j := (h.temporary j).congr (hother _ (text_temporary_ne_snapshot S j _ _))

/-- Where nothing was, a directory may be made. It stands in the tree `g` too, unless a file is gone from that place. -/
theorem Traces.put_directory (h : p.Traces S g σ dir) (hnone : σ.files.lookup? (s :: here) = none) :
    ∃ g', (g' = g ∨ g.lookup? (s :: here) = none ∧ g' = g.put (s :: here) .directory) ∧
      p.Traces S g' { σ with files := σ.files.put (s :: here) .directory } dir := by
  have hnew : ∀ {t : FileTree} {q : Place}, q.text = Place.text (s :: here) →
      (t.put (s :: here) .directory).lookup? q = some .directory := fun ht => (lookup?_of_text ht).trans (lookup?_put_self ..)
  have htemporary : ∀ i, HasContent (σ.files.put (s :: here) .directory) (S.temporary i :: dir) (S.content? i (σ.phase i)) := by
    intro i
    by_cases ht : Place.text (S.temporary i :: dir) = Place.text (s :: here)
    · have hi := h.temporary i
      cases hc : S.content? i (σ.phase i) with
      | none => simp [HasContent, hnew ht]
      | some content =>
        rw [hc] at hi
        obtain ⟨modified, hi⟩ := hi
        cases hi.symm.trans ((lookup?_of_text ht).trans hnone)
    · exact (h.temporary i).congr (FileTree.lookup?_put_of_ne ht)
  -- Where `g` has a file, the snapshot or a temporary file stood and is gone by now.
  by_cases hg : g.lookup? (s :: here) = none
  · refine ⟨_, .inr ⟨hg, rfl⟩, ?_, fun q hs ht => ?_, ?_, fun i e he hway => ?_, htemporary⟩
    · refine h.leadsTo.mono fun q e he _ => ?_
      rcases FileTree.lookup?_put_directory hg q with hq | ⟨hq, -⟩
      · rw [hq, he]
      · cases hq.symm.trans he
    · rw [FileTree.lookup?_put, FileTree.lookup?_put, h.other q hs ht]
    · by_cases ht : Place.text (snapshotName.text :: dir) = Place.text (s :: here)
      · exact .inl ((hnew ht).trans (hnew ht).symm)
      · rw [FileTree.lookup?_put_of_ne ht, FileTree.lookup?_put_of_ne ht]
        exact h.snapshot
    · by_cases ht : Place.text (S.temporary i :: dir) = Place.text (s :: here)
      · exact (hnew ht).trans ((hnew ht).symm.trans he)
      · rw [FileTree.lookup?_put_of_ne ht] at he ⊢
        exact h.isWay i e he hway
  · refine ⟨g, .inl rfl, h.leadsTo, fun q hs ht => ?_, ?_, fun i e he hway => ?_, htemporary⟩
    · have hq : q.text ≠ Place.text (s :: here) := fun hq =>
        hg ((lookup?_of_text hq).symm.trans ((h.other q hs ht).symm.trans ((lookup?_of_text hq).trans hnone)))
      exact (FileTree.lookup?_put_of_ne hq).trans (h.other q hs ht)
    · by_cases ht : Place.text (snapshotName.text :: dir) = Place.text (s :: here)
      · rcases h.snapshot with hsame | ⟨hway, -⟩
        · exact absurd ((lookup?_of_text ht).symm.trans (hsame.symm.trans ((lookup?_of_text ht).trans hnone))) hg
        · exact .inr ⟨hway, fun e he => .inl (Option.some.inj (he.symm.trans (hnew ht)))⟩
      · rw [FileTree.lookup?_put_of_ne ht]
        exact h.snapshot
    · by_cases ht : Place.text (S.temporary i :: dir) = Place.text (s :: here)
      · cases (h.isWay i e he hway).symm.trans ((lookup?_of_text ht).trans hnone)
      · exact (FileTree.lookup?_put_of_ne ht).trans (h.isWay i e he hway)

theorem IsReached.makeDirectory (h : p.IsReached S start σ g) {q : Path} (ha : σ.files.addDirectory q = .ok files) :
    ∃ g', p.IsReached S start { σ with files } g' := by
  obtain ⟨place, -, hnone, rfl⟩ := FileTree.add_eq_ok.mp ha
  cases place with
  | nil => cases hnone
  | cons s here =>
    rcases h.traces with ⟨hsame, hphase⟩ | ⟨dir, htraces⟩
    · refine ⟨_, h.growsTo.put ((hsame _).symm.trans hnone), h.saved, .inl ⟨fun q => ?_, hphase⟩⟩
      rw [FileTree.lookup?_put, FileTree.lookup?_put, hsame]
    · obtain ⟨g', hg, htraces⟩ := htraces.put_directory hnone
      refine ⟨g', ?_, h.saved, .inr ⟨dir, htraces⟩⟩
      rcases hg with rfl | ⟨hg, rfl⟩
      · exact h.growsTo
      · exact h.growsTo.put hg

theorem IsReached.clear (hstart : p.Starts S start) (h : p.IsReached S start σ g)
    (hr : σ.files.remove p.cachePath = .ok files) : p.IsReached S start { σ with files } g := by
  obtain ⟨place, e, hfind, hnot, rfl⟩ := FileTree.remove_eq_ok.mp hr
  obtain ⟨⟨hu, -⟩, dir, hdir, rfl, he⟩ := (find_join_eq_ok isName_snapshotName).mp hfind
  have htraces := h.traces_of_leadsTo hstart hdir
  have hway := htraces.snapshot_not_isWay (hstart.snapshot g h.growsTo) hu fun hd => hnot (Option.some.inj (he.symm.trans hd))
  refine ⟨h.growsTo, h.saved, .inr ⟨dir, htraces.replace hway (fun q hq => FileTree.lookup?_erase_of_ne hq) ?_⟩⟩
  intro e he
  cases (lookup?_erase_self ..).symm.trans he

theorem IsWhole.exists_of_readBytes {phase : ι → SavePhase} {b : ByteArray} (h : p.IsWhole S phase t)
    (hb : t.readBytes p.cachePath = .ok b) : ∃ i, phase i = .saved ∧ b = S.payload i := by
  obtain ⟨place, modified, hl, he⟩ := FileTree.readBytes_eq_ok.mp hb
  obtain ⟨hu, hs, dir, hdir, hplace⟩ := exists_of_locate_true isName_snapshotName hl
  have hwhole : ∀ e, t.lookup? (snapshotName.text :: dir) = some e →
      e = .directory ∨ ∃ i modified, phase i = .saved ∧ e = .file (S.payload i) modified := fun e he =>
    h _ e ((find_join_eq_ok isName_snapshotName).mpr ⟨⟨hu, hs⟩, dir, hdir, rfl, he⟩)
  have hlink : ∀ x, t.lookup? (snapshotName.text :: dir) ≠ some (.link x) := by
    intro x hx
    rcases hwhole _ hx with hx | ⟨i, modified, -, hx⟩ <;> cases hx
  obtain rfl := hplace hlink
  rcases hwhole _ he with he | ⟨i, modified, hi, he⟩
  · cases he
  · cases he
    exact ⟨i, hi, rfl⟩

theorem starts_of_directories (hphase : ∀ i, start.phase i = .preparing)
    (h : ∀ e ∈ start.files.entries.entries, e.2 = .directory) : p.Starts S start := by
  have hlookup : ∀ q e, start.files.lookup? q = some e → e = .directory := by
    intro q e hq
    unfold FileTree.lookup? at hq
    split_ifs at hq
    · exact (Option.some.inj hq).symm
    · exact h _ (Dict.mem_entries.mpr hq)
  refine ⟨fun i => .inl (hphase i), fun i dir x hx => ?_, fun g hg place e hfind => .inl ?_⟩
  · cases hlookup _ _ hx
  · obtain ⟨-, he⟩ := FileTree.find_eq_ok.mp hfind
    rcases hg place with hq | ⟨-, hq⟩
    · exact hlookup place e (hq.symm.trans he)
    · exact (Option.some.inj (hq.symm.trans he)).symm

variable [DecidableEq ι]

theorem saved_update (hi : σ.phase i ≠ .saved) (hj : σ.phase j = .saved) : Function.update σ.phase i phase j = .saved := by
  have hne : j ≠ i := by
    rintro rfl
    exact hi hj
  rw [Function.update_of_ne hne, hj]

/-- A save that is done with its temporary file, or still has it, leaves the rest as it is. -/
theorem Traces.update (h : p.Traces S g σ dir) (hi : σ.phase i ≠ .saved)
    (hd : σ.files.lookup? (S.temporary i :: dir) ≠ some .directory)
    (hother : ∀ q : Place, q.text ≠ Place.text (S.temporary i :: dir) → files.lookup? q = σ.files.lookup? q)
    (htemporary : HasContent files (S.temporary i :: dir) (S.content? i phase)) :
    p.Traces S g ⟨files, Function.update σ.phase i phase⟩ dir where
  leadsTo := h.leadsTo
  other q hs ht := by
    rw [hother q (ht i), h.other q hs ht]
  snapshot := by
    rw [hother _ fun he => text_temporary_ne_snapshot S i _ _ he.symm]
    refine h.snapshot.imp_right fun ⟨hway, hs⟩ => ⟨hway, fun e he => ?_⟩
    rcases hs e he with rfl | ⟨j, modified, hj, rfl⟩
    · exact .inl rfl
    · exact .inr ⟨j, modified, saved_update hi hj, rfl⟩
  isWay j e he hway := by
    rcases eq_or_ne j i with rfl | hne
    -- What stands there now is no directory and no link, so that nothing of the kind was there.
    · cases e with
      | file => exact hway.elim
      | directory => exact absurd (h.isWay j _ he hway) hd
      | link x => exact absurd (h.isWay j _ he hway) ((h.temporary j).lookup?_ne_link x)
    · exact (hother _ (text_temporary_ne S hne _ _)).trans (h.isWay j e he hway)
  temporary j := by
    rcases eq_or_ne j i with rfl | hne
    · dsimp only
      rwa [Function.update_self]
    · dsimp only
      rw [Function.update_of_ne hne]
      exact (h.temporary j).congr (hother _ (text_temporary_ne S hne _ _))

theorem Traces.erase_temporary (h : p.Traces S g σ dir) (hi : σ.phase i ≠ .saved)
    (hd : σ.files.lookup? (S.temporary i :: dir) ≠ some .directory) (hc : S.content? i phase = none) :
    p.Traces S g ⟨⟨σ.files.entries.erase (Place.text (S.temporary i :: dir))⟩, Function.update σ.phase i phase⟩ dir := by
  refine h.update hi hd (fun q hq => FileTree.lookup?_erase_of_ne hq) ?_
  rw [hc]
  intro x hx
  cases (lookup?_erase_self ..).symm.trans hx

theorem IsReached.update (h : p.IsReached S start σ g) (hi : σ.phase i ≠ .saved)
    (ht : p.Traces S g ⟨files, Function.update σ.phase i phase⟩ dir) :
    p.IsReached S start ⟨files, Function.update σ.phase i phase⟩ g where
  growsTo := h.growsTo
  saved j hj := saved_update hi (h.saved j hj)
  traces := .inr ⟨dir, ht⟩

theorem IsReached.write (hstart : p.Starts S start) (h : p.IsReached S start σ g) {written piece : ByteArray} {now : Nat}
    (hi : (σ.phase i).written? = some written) (hw : σ.files.write (S.path p i) (written ++ piece) now = .ok files) :
    p.IsReached S start ⟨files, Function.update σ.phase i (.writing (written ++ piece))⟩ g := by
  have hphase : σ.phase i ≠ .saved := fun he => by simp [he, SavePhase.written?] at hi
  obtain ⟨place, hl, hd, rfl⟩ := FileTree.write_eq_ok.mp hw
  obtain ⟨-, -, dir, hdir, hplace⟩ := exists_of_locate_true (S.isName i) hl
  have htraces := h.traces_of_leadsTo hstart hdir
  obtain rfl := hplace (htraces.temporary i).lookup?_ne_link
  exact h.update hphase (htraces.update hphase (FileTree.lookup?_ne_directory hd) (fun q hq => FileTree.lookup?_put_of_ne hq)
    ⟨now, lookup?_put_self ..⟩)

theorem IsReached.rename (hstart : p.Starts S start) (h : p.IsReached S start σ g) (hi : σ.phase i = .writing (S.payload i))
    (hr : σ.files.rename (S.path p i) p.cachePath = .ok files) :
    p.IsReached S start ⟨files, Function.update σ.phase i .saved⟩ g := by
  have hphase : σ.phase i ≠ .saved := fun he => by simp [he] at hi
  obtain ⟨old, e, place, hold, hplace, hd, rfl⟩ := FileTree.rename_eq_ok.mp hr
  obtain ⟨-, dir, hdir, rfl, he⟩ := (find_join_eq_ok (S.isName i)).mp hold
  obtain ⟨hu, -, dir', hdir', rfl⟩ := (locate_join_eq_ok isName_snapshotName).mp hplace
  obtain rfl := hdir.unique hdir'
  have htraces := h.traces_of_leadsTo hstart hdir
  have htemporary := htraces.temporary i
  rw [hi] at htemporary
  obtain ⟨modified, hfile⟩ := htemporary
  obtain rfl := Option.some.inj (he.symm.trans hfile)
  have hway := htraces.snapshot_not_isWay (hstart.snapshot g h.growsTo) hu (FileTree.lookup?_ne_directory hd)
  -- First the temporary file is gone, and then it stands at the file of the snapshot.
  have hgone : p.Traces S g ⟨_, Function.update σ.phase i .saved⟩ dir :=
    htraces.erase_temporary hphase (by simp [hfile]) rfl
  refine h.update hphase (hgone.replace hway (fun q hq => FileTree.lookup?_put_of_ne hq) fun e he => ?_)
  obtain rfl := Option.some.inj ((lookup?_put_self ..).symm.trans he)
  exact .inr ⟨i, modified, Function.update_self .., rfl⟩

theorem IsReached.renameFails (h : p.IsReached S start σ g) (hi : σ.phase i = .writing (S.payload i)) :
    p.IsReached S start { σ with phase := Function.update σ.phase i .failed } g := by
  have hphase : σ.phase i ≠ .saved := fun he => by simp [he] at hi
  rcases h.traces with ⟨-, hnone⟩ | ⟨dir, htraces⟩
  · simpa [hi, Saves.content?] using hnone i
  · have htemporary := htraces.temporary i
    rw [hi] at htemporary
    obtain ⟨modified, hfile⟩ := htemporary
    exact h.update hphase (htraces.update hphase (by simp [hfile]) (fun _ _ => rfl) ⟨modified, hfile⟩)

theorem IsReached.removeTemporary (hstart : p.Starts S start) (h : p.IsReached S start σ g) (hi : σ.phase i = .failed)
    (hr : σ.files.remove (S.path p i) = .ok files) :
    p.IsReached S start ⟨files, Function.update σ.phase i .removed⟩ g := by
  have hphase : σ.phase i ≠ .saved := fun he => by simp [he] at hi
  obtain ⟨place, e, hfind, hnot, rfl⟩ := FileTree.remove_eq_ok.mp hr
  obtain ⟨-, dir, hdir, rfl, he⟩ := (find_join_eq_ok (S.isName i)).mp hfind
  have hd : σ.files.lookup? (S.temporary i :: dir) ≠ some .directory := fun hd => hnot (Option.some.inj (he.symm.trans hd))
  exact h.update hphase ((h.traces_of_leadsTo hstart hdir).erase_temporary hphase hd rfl)

theorem IsReached.step (hstart : p.Starts S start) (h : ∃ g, p.IsReached S start σ g) (hs : Step p S σ σ') :
    ∃ g, p.IsReached S start σ' g := by
  obtain ⟨g, h⟩ := h
  cases hs with
  | makeDirectory _ _ ha => exact h.makeDirectory ha
  | write hi _ hw => exact ⟨g, h.write hstart hi hw⟩
  | rename hi hr => exact ⟨g, h.rename hstart hi hr⟩
  | renameFails hi _ => exact ⟨g, h.renameFails hi⟩
  | removeTemporary hi hr => exact ⟨g, h.removeTemporary hstart hi hr⟩
  | clear hr => exact ⟨g, h.clear hstart hr⟩

theorem Starts.exists_isReached (hstart : p.Starts S start) (hrun : ReflTransGen (Step p S) start σ) :
    ∃ g, p.IsReached S start σ g := by
  -- By induction on the steps. At the start, no save has written anything.
  induction hrun with
  | refl =>
    refine ⟨start.files, .refl _, fun _ => id, .inl ⟨fun _ => rfl, fun i => ?_⟩⟩
    rcases hstart.phase i with hi | hi <;> rw [hi] <;> rfl
  | tail _ hs ih => exact IsReached.step hstart ih hs

theorem Starts.isWhole (hstart : p.Starts S start) (hrun : ReflTransGen (Step p S) start σ) : p.IsWhole S σ.phase σ.files := by
  intro place e hfind
  obtain ⟨g, h⟩ := hstart.exists_isReached hrun
  obtain ⟨hu, dir, hdir, rfl, he⟩ := (find_join_eq_ok isName_snapshotName).mp hfind
  have htraces := h.traces_of_leadsTo hstart hdir
  -- Either the file of the snapshot is as it was at the start, or a save or a removal has changed it.
  rcases htraces.snapshot with hsame | ⟨-, hwhole⟩
  · have hfind : g.find false p.cachePath = .ok (snapshotName.text :: dir, e) :=
      (find_join_eq_ok isName_snapshotName).mpr ⟨hu, dir, htraces.leadsTo, rfl, hsame.symm.trans he⟩
    refine (hstart.snapshot g h.growsTo _ _ hfind).imp_right ?_
    rintro ⟨i, modified, hi, rfl⟩
    exact ⟨i, modified, h.saved i hi, rfl⟩
  · exact hwhole e he

/-! ## Managers alone -/

theorem steps_of_makeDirectories (hi : σ.phase i = .preparing) :
    ReflTransGen (Step p S) σ { σ with files := (σ.files.makeDirectories p.cacheDir).2 } :=
  FileTree.makeDirectoryBelow_induction (motive := fun g => ReflTransGen (Step p S) σ { σ with files := g }) .refl
    fun _ hq _ _ hg ha => hg.tail (.makeDirectory hi hq ha)

theorem Step.write_first {now : Nat} {piece rest : ByteArray} (hi : σ.phase i = .preparing) (hp : S.payload i = piece ++ rest)
    (hw : σ.files.write (S.path p i) piece now = .ok files) :
    Step p S σ ⟨files, Function.update σ.phase i (.writing piece)⟩ := by
  have hstep : Step p S σ ⟨files, Function.update σ.phase i (.writing (.empty ++ piece))⟩ :=
    .write (by rw [hi]; rfl) (by rwa [ByteArray.empty_append]) (by rwa [ByteArray.empty_append])
  rwa [ByteArray.empty_append] at hstep

/-- A save that nothing interrupts takes these steps. -/
theorem exists_steps_of_save {now : Nat} (hi : σ.phase i = .preparing) (ht : S.temporary i = temporaryName now)
    (hnone : ∀ dir, σ.files.lookup? (S.temporary i :: dir) = none) :
    ∃ phase, ReflTransGen (Step p S) σ ⟨(p.save now (S.snapshot i) σ.files).2, Function.update σ.phase i phase⟩ ∧
      ((p.save now (S.snapshot i) σ.files).1 = .ok () ↔ phase = .saved) := by
  have hpath : p.temporaryPath now = S.path p i := by
    rw [Saves.path, ht]
    rfl
  have hpreparing : Function.update σ.phase i .preparing = σ.phase := hi ▸ Function.update_eq_self i σ.phase
  have hmade := steps_of_makeDirectories (p := p) (S := S) hi
  have hgrows := FileTree.growsTo_makeDirectories σ.files p.cacheDir
  generalize ht₁ : (σ.files.makeDirectories p.cacheDir).2 = t₁ at hmade hgrows
  rcases save_cases p now (S.snapshot i) ht₁ with ⟨e, he⟩ | ⟨-, t₂, hw, hrenamed⟩
  · exact ⟨.preparing, by rwa [he, hpreparing], by simp [he]⟩
  · rw [hpath] at hw hrenamed
    have hwritten := hmade.tail (.write_first hi ByteArray.append_empty.symm hw)
    have hphase : Function.update σ.phase i (.writing (S.payload i)) i = .writing (S.payload i) := Function.update_self ..
    rcases hrenamed with ⟨x, e, hr, he⟩ | ⟨t₃, hr, hs⟩
    · have hremove : t₂.remove (S.path p i) = .ok t₁ := by
        refine remove_of_write (S.isName i) (fun dir => ?_) hw
        exact (hgrows (S.temporary i :: dir)).imp (·.trans (hnone dir)) And.right
      have hfailed := hwritten.tail (.renameFails hphase hr)
      have hremoved := hfailed.tail (.removeTemporary (Function.update_self ..) hremove)
      rw [Function.update_idem, Function.update_idem] at hremoved
      exact ⟨.removed, by rwa [he, hremove], by simp [he]⟩
    · have hsaved := hwritten.tail (.rename hphase hr)
      rw [Function.update_idem] at hsaved
      exact ⟨.saved, by rwa [hs], by simp [hs]⟩

/-- Clearing takes one step, or none when nothing is removed. -/
theorem steps_of_clear (snapshot : Option Snapshot) :
    ReflTransGen (Step p S) σ { σ with files := (p.clear ⟨σ.files, snapshot⟩).2.files } := by
  unfold clear
  split
  · rename_i files hr
    exact .single (.clear hr)
  · exact .refl
  · exact .refl

/-! ## Reading -/

/-- Whatever managers do at the same time, a manager reads no snapshot, or one that has been saved, or it learns why the file
cannot be read. -/
theorem reads_whole_snapshots (hstart : p.Starts S start) (hrun : ReflTransGen (Step p S) start σ) :
    p.IsWhole S σ.phase σ.files ∧
      (p.persisted σ.files = .ok none ∨
        (∃ i, σ.phase i = .saved ∧ p.persisted σ.files = .ok (some (S.snapshot i))) ∨
        ∃ e, σ.files.readBytes p.cachePath = .error e ∧ p.persisted σ.files = .error (.io e)) := by
  have hwhole := hstart.isWhole hrun
  refine ⟨hwhole, ?_⟩
  cases hb : σ.files.readBytes p.cachePath with
  | error e =>
    have hr : σ.files.readText p.cachePath = .error e := by simp [FileTree.readText, hb, bind, Except.bind]
    exact (persisted_of_error hr).imp_right fun hp => .inr ⟨e, rfl, hp⟩
  | ok b =>
    obtain ⟨i, hi, rfl⟩ := hwhole.exists_of_readBytes hb
    have hr : σ.files.readText p.cachePath = .ok (S.snapshot i).encode :=
      FileTree.readText_eq_ok.mpr ⟨_, hb, fromUTF8?_toUTF8 _⟩
    exact .inr (.inl ⟨i, hi, persisted_of_readText hr (S.isStorable i)⟩)

/-! ### Two managers -/

def bare : Project := ⟨⟨"/p"⟩, { dir := ⟨"."⟩ }⟩

def twoSaves : Saves Bool :=
  .atTimes (fun later => .ofFiles ⟨"/p"⟩ later.toNat ∅) (by decide) Bool.toNat (by decide)

def twoStart : Shared Bool := ⟨⟨.ofList [("/p", .directory)]⟩, fun _ => .preparing⟩

def twoWritten : FileTree := twoStart.files.put ["metadata.json.tmp-0", "p"] (.file (twoSaves.payload false) 0)

def twoWriting : FileTree := twoWritten.put ["metadata.json.tmp-1", "p"] (.file .empty 1)

/-- The first save is over, and the second one goes on. -/
def twoHalfway : Shared Bool where
  files := FileTree.put ⟨twoWriting.entries.erase "/p/metadata.json.tmp-0"⟩ ["metadata.json", "p"]
    (.file (twoSaves.payload false) 0)
  phase later := if later then .writing .empty else .saved

theorem twoSteps : ReflTransGen (Step bare twoSaves) twoStart twoHalfway := by
  have hwritten : twoStart.files.write (twoSaves.path bare false) (twoSaves.payload false) 0 = .ok twoWritten :=
    FileTree.write_eq_ok.mpr ⟨["metadata.json.tmp-0", "p"], by decide +kernel, by decide +kernel, rfl⟩
  have hwriting : twoWritten.write (twoSaves.path bare true) .empty 1 = .ok twoWriting :=
    FileTree.write_eq_ok.mpr ⟨["metadata.json.tmp-1", "p"], by decide +kernel, by decide +kernel, rfl⟩
  have hfind : twoWriting.find false (twoSaves.path bare false) =
      .ok (["metadata.json.tmp-0", "p"], .file (twoSaves.payload false) 0) :=
    FileTree.find_eq_ok.mpr ⟨by decide +kernel, rfl⟩
  have hrenamed : twoWriting.rename (twoSaves.path bare false) bare.cachePath = .ok twoHalfway.files :=
    FileTree.rename_eq_ok.mpr ⟨_, _, ["metadata.json", "p"], hfind, by decide +kernel, by decide +kernel, rfl⟩
  have hfirst := ReflTransGen.single (Step.write_first rfl ByteArray.append_empty.symm hwritten)
  have hsecond := hfirst.tail (.write_first rfl ByteArray.empty_append.symm hwriting)
  have hthird := hsecond.tail (.rename rfl hrenamed)
  have hphase : twoHalfway.phase = Function.update (Function.update (Function.update twoStart.phase false
      (.writing (twoSaves.payload false))) true (.writing .empty)) false .saved := by
    funext later
    cases later <;> rfl
  rwa [← hphase] at hthird

/-- What is read while the first of two saves is over and the second one still writes. -/
theorem reads_whole_snapshots_twoHalfway : bare.Starts twoSaves twoStart ∧
    bare.IsWhole twoSaves twoHalfway.phase twoHalfway.files ∧
    (bare.persisted twoHalfway.files = .ok none ∨
      (∃ i, twoHalfway.phase i = .saved ∧ bare.persisted twoHalfway.files = .ok (some (twoSaves.snapshot i))) ∨
      ∃ e, twoHalfway.files.readBytes bare.cachePath = .error e ∧ bare.persisted twoHalfway.files = .error (.io e)) := by
  have hentries : twoStart.files.entries.entries = [("/p", .directory)] := rfl
  have hstart : bare.Starts twoSaves twoStart := starts_of_directories (fun _ => rfl) (by simp [hentries])
  exact ⟨hstart, reads_whole_snapshots hstart twoSteps⟩

/-! ### What is in the way -/

/-- A project in which the way to the cache directory needs a directory where the snapshot would stand. -/
def selfCrossing : Project := ⟨⟨"/p"⟩, { dir := ⟨"metadata.json/.."⟩ }⟩

def selfCrossed : Shared Bool := { twoStart with files := twoStart.files.put ["metadata.json", "p"] .directory }

/-- The project `bare`, where a link to the snapshot has the name of a temporary file. -/
def linked : Shared Bool :=
  { twoStart with files := ⟨.ofList [("/p", .directory), ("/p/metadata.json.tmp-0", .link ⟨"metadata.json"⟩)]⟩ }

def linkedWriting : Shared Bool where
  files := linked.files.put ["metadata.json", "p"] (.file .empty 0)
  phase := Function.update linked.phase false (.writing .empty)

/-- Not all that managers read is whole: a save may make a directory at the file of the snapshot, or write through a link. -/
theorem not_reads_whole_snapshots :
    (¬ ∀ (p : Project) (S : Saves Bool) (start σ : Shared Bool), (∀ i, start.phase i = .preparing) →
      p.persisted start.files = .ok none → ReflTransGen (Step p S) start σ →
        p.persisted σ.files = .ok none ∨ ∃ i, p.persisted σ.files = .ok (some (S.snapshot i))) ∧
    ¬ ∀ (p : Project) (S : Saves Bool) (start σ : Shared Bool), (∀ i, start.phase i = .preparing) →
      p.persisted start.files = .ok none → ReflTransGen (Step p S) start σ →
        p.persisted σ.files ≠ .error (.cache "invalid snapshot") := by
  have hnone : ∀ {p : Project} {t : FileTree}, t.readText p.cachePath = .error .noEntry → p.persisted t = .ok none := by
    intro p t hr
    unfold persisted
    rw [hr]
  constructor
  · intro h
    have hadded : twoStart.files.addDirectory ⟨"/p/metadata.json"⟩ = .ok selfCrossed.files :=
      FileTree.add_eq_ok.mpr ⟨["metadata.json", "p"], by decide +kernel, rfl, rfl⟩
    have hstep : Step selfCrossing twoSaves twoStart selfCrossed := .makeDirectory (i := false) rfl (by decide +kernel) hadded
    have hread : selfCrossed.files.readText selfCrossing.cachePath = .error .isDirectory := by decide +kernel
    have hpersisted : selfCrossing.persisted selfCrossed.files = .error (.io .isDirectory) := by
      unfold persisted
      rw [hread]
    rcases h selfCrossing twoSaves twoStart selfCrossed (fun _ => rfl) (hnone (by decide +kernel)) (.single hstep) with h | ⟨i, h⟩
    · cases hpersisted.symm.trans h
    · cases hpersisted.symm.trans h
  · intro h
    have hwritten : linked.files.write (twoSaves.path bare false) .empty 0 = .ok linkedWriting.files :=
      FileTree.write_eq_ok.mpr ⟨["metadata.json", "p"], by decide +kernel, by decide +kernel, rfl⟩
    have hstep : Step bare twoSaves linked linkedWriting := .write_first rfl ByteArray.empty_append.symm hwritten
    have hread : linkedWriting.files.readText bare.cachePath = .ok "" := by decide +kernel
    have hdecode : Snapshot.decode? "" = none := by
      have : (Snapshot.decode? "").isNone = true := by decide +kernel
      simpa using this
    refine h bare twoSaves linked linkedWriting (fun _ => rfl) (hnone (by decide +kernel)) (.single hstep) ?_
    unfold persisted
    rw [hread]
    dsimp only
    rw [hdecode]

end Project

end MarkdownTemplates
