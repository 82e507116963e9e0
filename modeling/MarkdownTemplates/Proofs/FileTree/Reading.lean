import MarkdownTemplates.Proofs.FileTree.Reach

/-!
# Reading through paths

What is read depends on the place to which a path leads and on the entry there. In trees without links a path leads to one
place only, whatever else the trees hold.
-/

namespace MarkdownTemplates

namespace FileTree

variable {t t' : FileTree} {follow : Bool} {n m n' m' : Nat} {here there there' place place' : Place} {ps : List PathPart}
  {p : Path} {e : Entry} {b : ByteArray}

/-! ## Names at the end of paths -/

/-- What a path may end with to lead to an entry of that name. -/
structure IsName (name : String) : Prop where
  ne_empty : name.toList ≠ []
  plain : '/' ∉ name.toList
  ne_current : name.toList ≠ ['.']
  ne_parent : name.toList ≠ ['.', '.']

theorem IsName.ofSegment? {name : String} (h : IsName name) : PathPart.ofSegment? name.toList = some (.name name) := by
  unfold PathPart.ofSegment?
  split
  · exact absurd ‹_› h.ne_empty
  · exact absurd ‹_› h.ne_current
  · exact absurd ‹_› h.ne_parent
  · rw [String.ofList_toList]

theorem IsName.not_isAbsolute {name : String} (h : IsName name) : Path.isAbsolute ⟨name⟩ = false := by
  rw [Path.isAbsolute, Text.startsWith]
  cases hn : name.toList with
  | nil => exact absurd hn h.ne_empty
  | cons c cs =>
    have hc : '/' ≠ c := fun hc => h.plain (by rw [hn]; exact List.mem_cons.mpr (.inl hc))
    simp [Text.dropStart?, hc]

/-- Every path to a name in a directory has the same text in front of the name, that of the directory itself but for a slash at
its end. -/
theorem exists_text_join (d : Path) : d.text.isEmpty = true ∨
    ∃ s, (d.text.toList = s ∨ d.text.toList = s ++ ['/']) ∧
      ∀ name, IsName name → (d.join ⟨name⟩).text.toList = s ++ '/' :: name.toList := by
  by_cases hd : d.text.isEmpty = true
  · exact .inl hd
  · right
    by_cases hl : d.text.toList.getLast? = some '/'
    · obtain ⟨s, hs⟩ := List.getLast?_eq_some_iff.mp hl
      refine ⟨s, .inr hs, fun name hn => ?_⟩
      rw [Path.join, if_neg (by simp [hn.not_isAbsolute, hd]), if_pos hl]
      simp [hs]
    · refine ⟨d.text.toList, .inl rfl, fun name hn => ?_⟩
      rw [Path.join, if_neg (by simp [hn.not_isAbsolute, hd]), if_neg hl]
      simp

/-- The steps to a name in a directory are those to the directory and then the name. Those to the directory alone may have a dot at
their end. -/
theorem exists_steps_join (d : Path) : ∃ ps, HasPlainNames ps ∧
    (∀ name, IsName name → steps (d.join ⟨name⟩) = ps ++ [.name name]) ∧
      (d.text.isEmpty = false → steps d = ps ∨ steps d = ps ++ [.current]) := by
  rcases exists_text_join d with hd | ⟨s, hd, hs⟩
  · refine ⟨[], by simp [HasPlainNames], fun name hn => ?_, fun h => absurd (hd.symm.trans h) (by simp)⟩
    rw [Path.join, if_pos (.inr hd), steps, Path.segments, Text.splitOn_of_notMem hn.plain]
    simp [hn.ne_current, hn.ofSegment?, hn.ne_empty]
  · have hsteps : ∀ name, IsName name → steps (d.join ⟨name⟩) = (Text.splitOn (· == '/') s).filterMap
        (fun segment => if segment = ['.'] then some .current else PathPart.ofSegment? segment) ++ [.name name] := by
      intro name hn
      rw [steps, Path.segments, hs name hn, Text.splitOn_append s hn.plain, List.filterMap_append]
      simp [hn.ne_current, hn.ofSegment?, hn.ne_empty]
    refine ⟨_, fun t ht => ?_, hsteps, fun _ => ?_⟩
    · have hn : IsName "a" := ⟨by decide, by decide, by decide, by decide⟩
      refine hasPlainNames_steps (d.join ⟨"a"⟩) t ?_
      rw [hsteps "a" hn]
      exact List.mem_append_left _ ht
    · rcases hd with hd | hd
      · rw [steps, Path.segments, hd]
        split
        · exact .inr rfl
        · exact .inl (List.append_nil _)
      · right
        rw [steps, Path.segments, hd, Text.splitOn_append s List.not_mem_nil, List.filterMap_append]
        simp [PathPart.ofSegment?]

/-! ## Looking up paths -/

/-- Has a path a text that may be followed? -/
def IsUsable (p : Path) : Prop :=
  p.text.isEmpty = false ∧ p.text.toList.contains '\x00' = false ∧ p.text.utf8ByteSize ≤ maxPathSize

theorem locate_eq_ok : t.locate follow p = .ok place ↔ IsUsable p ∧ t.walk follow maxLinks [] (steps p) = .ok place := by
  unfold locate
  split_ifs with h₁ h₂ h₃
  · simp [IsUsable, h₁]
  · simp [IsUsable, -List.contains_eq_mem, h₂]
  · simp [IsUsable, not_le.mpr h₃]
  · simp [IsUsable, -List.contains_eq_mem, h₁, h₂, not_lt.mp h₃]

/-- No link stands at the end of a path that is followed through all links. -/
theorem lookup?_ne_link_of_locate (h : t.locate true p = .ok place) (x : Path) : t.lookup? place ≠ some (.link x) := by
  obtain ⟨m, hr⟩ := walk_true_iff.mp (locate_eq_ok.mp h).2
  exact hr.isDirect isDirect_nil place (List.suffix_refl _) x

theorem find_eq_ok : t.find follow p = .ok (place, e) ↔ t.locate follow p = .ok place ∧ t.lookup? place = some e := by
  simp only [find]
  cases hp : t.locate follow p with
  | error x => simp [bind, Except.bind]
  | ok q =>
    simp only [bind, Except.bind]
    cases hq : t.lookup? q with
    | none =>
      simp only [reduceCtorEq, Except.ok.injEq, false_iff, not_and]
      rintro rfl
      simp [hq]
    | some e' =>
      simp only [Except.ok.injEq, Prod.mk.injEq]
      constructor
      · rintro ⟨rfl, rfl⟩
        exact ⟨rfl, hq⟩
      · rintro ⟨rfl, he⟩
        exact ⟨rfl, Option.some.inj (hq.symm.trans he)⟩

theorem readBytes_eq_ok : t.readBytes p = .ok b ↔
    ∃ place modified, t.locate true p = .ok place ∧ t.lookup? place = some (.file b modified) := by
  simp only [readBytes]
  cases hf : t.find true p with
  | error x =>
    simp only [bind, Except.bind, reduceCtorEq, false_iff, not_exists]
    rintro place modified h
    rw [find_eq_ok.mpr h] at hf
    cases hf
  | ok r =>
    obtain ⟨place, e⟩ := r
    have h := find_eq_ok.mp hf
    simp only [bind, Except.bind]
    constructor
    · intro hb
      cases e with
      | file b' modified => cases hb; exact ⟨place, modified, h⟩
      | directory => cases hb
      | link => cases hb
    · rintro ⟨place', modified, h'⟩
      cases hf.symm.trans (find_eq_ok.mpr h')
      rfl

theorem exists_of_isDirectory (h : t.isDirectory p = true) :
    ∃ place, t.locate true p = .ok place ∧ t.lookup? place = some .directory := by
  rw [isDirectory, info] at h
  rcases hf : t.find true p with x | ⟨place, e⟩
  · simp [hf, bind, Except.bind] at h
  · obtain ⟨hl, he⟩ := find_eq_ok.mp hf
    refine ⟨place, hl, ?_⟩
    cases e with
    | file => simp [hf, bind, Except.bind] at h
    | directory => exact he
    | link x => exact absurd he (lookup?_ne_link_of_locate hl x)

theorem readText_eq_ok {text : String} :
    t.readText p = .ok text ↔ ∃ b, t.readBytes p = .ok b ∧ String.fromUTF8? b = some text := by
  simp only [readText]
  cases hb : t.readBytes p with
  | error x => simp [bind, Except.bind]
  | ok b =>
    simp only [bind, Except.bind]
    cases hs : String.fromUTF8? b <;> simp [hs]

/-- The contents of all files. -/
def contents (t : FileTree) : List ByteArray :=
  t.entries.entries.filterMap fun e =>
    match e.2 with
    | .file bytes _ => some bytes
    | _ => none

theorem mem_contents (h : t.readBytes p = .ok b) : b ∈ t.contents := by
  obtain ⟨place, modified, -, hl⟩ := readBytes_eq_ok.mp h
  unfold lookup? at hl
  split at hl
  · cases hl
  · exact List.mem_filterMap.mpr ⟨_, Dict.mem_entries.mpr hl, rfl⟩

/-- Whatever is read is the same when there is only one file. -/
theorem readText_unique {q : Path} {c d : String} (hl : t.contents.length ≤ 1) (hc : t.readText p = .ok c)
    (hd : t.readText q = .ok d) : c = d := by
  obtain ⟨b, hb, hc⟩ := readText_eq_ok.mp hc
  obtain ⟨b', hb', hd⟩ := readText_eq_ok.mp hd
  have hbb : b = b' := by
    have hm := mem_contents hb
    have hm' := mem_contents hb'
    cases ht : t.contents with
    | nil => simp [ht] at hm
    | cons b₀ l =>
      obtain rfl : l = [] := by simpa [ht] using hl
      rw [ht, List.mem_singleton] at hm hm'
      rw [hm, hm']
  subst hbb
  exact Option.some.inj (hc.symm.trans hd)

/-! ## Adding and removing entries -/

theorem lookup?_put (q : Place) : (t.put place e).lookup? q =
    if q = [] then some .directory else if q.text = place.text then some e else t.lookup? q := by
  cases q with
  | nil => simp [lookup?]
  | cons s q => simp [lookup?, put, Dict.get?_insert]

theorem lookup?_erase (q : Place) : (⟨t.entries.erase place.text⟩ : FileTree).lookup? q =
    if q = [] then some .directory else if q.text = place.text then none else t.lookup? q := by
  cases q with
  | nil => simp [lookup?]
  | cons s q => simp [lookup?, Dict.get?_erase]

theorem lookup?_put_of_ne {q : Place} (h : q.text ≠ place.text) : (t.put place e).lookup? q = t.lookup? q := by
  rw [lookup?_put, if_neg h]
  split_ifs with hq
  · rw [hq]
    rfl
  · rfl

theorem lookup?_erase_of_ne {q : Place} (h : q.text ≠ place.text) :
    (⟨t.entries.erase place.text⟩ : FileTree).lookup? q = t.lookup? q := by
  rw [lookup?_erase, if_neg h]
  split_ifs with hq
  · rw [hq]
    rfl
  · rfl

theorem lookup?_put_self (t : FileTree) (s : String) (here : Place) (e : Entry) :
    (t.put (s :: here) e).lookup? (s :: here) = some e := by
  simp [lookup?_put]

theorem lookup?_erase_self (t : FileTree) (s : String) (here : Place) :
    (⟨t.entries.erase (Place.text (s :: here))⟩ : FileTree).lookup? (s :: here) = none := by
  simp [lookup?_erase]

theorem erase_put {s : String} {here : Place} (h : t.lookup? (s :: here) = none) (e : Entry) :
    (⟨(t.put (s :: here) e).entries.erase (Place.text (s :: here))⟩ : FileTree) = t := by
  have hnone : t.entries.get? (Place.text (s :: here)) = none := h
  refine congrArg FileTree.mk (Dict.ext_get? fun key => ?_)
  rw [Dict.get?_erase, put, Dict.get?_insert]
  split_ifs with hkey
  · rw [hkey, hnone]
  · rfl

/-- What is read in a tree is also read in a tree with more entries. -/
theorem readBytes_mono (h : ∀ q e, t.lookup? q = some e → t'.lookup? q = some e) (hb : t.readBytes p = .ok b) :
    t'.readBytes p = .ok b := by
  obtain ⟨place, modified, hl, he⟩ := readBytes_eq_ok.mp hb
  obtain ⟨hu, hw⟩ := locate_eq_ok.mp hl
  obtain ⟨m, hr⟩ := walk_true_iff.mp hw
  have he' := h _ _ he
  have hr' : t'.Reaches maxLinks [] (steps p) m place := hr.mono (fun q e hq _ => h q e hq) (by simp [he'])
  exact readBytes_eq_ok.mpr ⟨place, modified, locate_eq_ok.mpr ⟨hu, walk_true_iff.mpr ⟨m, hr'⟩⟩, he'⟩

theorem readText_mono {text : String} (h : ∀ q e, t.lookup? q = some e → t'.lookup? q = some e) (hr : t.readText p = .ok text) :
    t'.readText p = .ok text := by
  obtain ⟨b, hb, hs⟩ := readText_eq_ok.mp hr
  exact readText_eq_ok.mpr ⟨b, readBytes_mono h hb, hs⟩

/-- What a path leads to depends on the place alone. -/
theorem readText_congr (h : t.locate true p = .ok place) (h' : t'.locate true p = .ok place)
    (hp : t.lookup? place = t'.lookup? place) : t.readText p = t'.readText p := by
  simp only [readText, readBytes, find, h, h', hp, bind, Except.bind]

theorem remove_eq_ok : t.remove p = .ok t' ↔
    ∃ place e, t.find false p = .ok (place, e) ∧ e ≠ .directory ∧ t' = ⟨t.entries.erase place.text⟩ := by
  simp only [remove]
  cases hf : t.find false p with
  | error x => simp [bind, Except.bind]
  | ok r =>
    obtain ⟨place, e⟩ := r
    cases e <;> simp [bind, Except.bind, @eq_comm _ t']

/-- A file that is removed hides no other one. -/
theorem lookup?_of_remove (h : t.remove p = .ok t') (q : Place) (e : Entry) (he : t'.lookup? q = some e) :
    t.lookup? q = some e := by
  obtain ⟨place, _, -, -, rfl⟩ := remove_eq_ok.mp h
  rw [lookup?_erase] at he
  split_ifs at he with hq
  · simpa [hq, lookup?] using he
  · exact he

/-! ## Trees without links -/

/-- Is no entry a link? -/
def IsLinkFree (t : FileTree) : Prop := ∀ q x, t.lookup? q ≠ some (.link x)

/-- Is the entry a link? -/
def isLink : Entry → Bool
  | .link _ => true
  | _ => false

theorem isLinkFree_of_entries (h : ∀ e ∈ t.entries.entries, isLink e.2 = false) : t.IsLinkFree := by
  intro q x hq
  unfold lookup? at hq
  split at hq
  · cases hq
  · cases h _ (Dict.mem_entries.mpr hq)

theorem Reaches.eq_of_isLinkFree (hl : t.IsLinkFree) (hl' : t'.IsLinkFree) (h : t.Reaches n here ps m there)
    (h' : t'.Reaches n' here ps m' there') : there = there' := by
  induction h generalizing n' with
  | done => cases h'; rfl
  | move _ hm _ ih =>
    cases h' with
    | move _ hm' h' =>
      cases hm.symm.trans hm'
      exact ih h'
    | name => cases hm
    | link => cases hm
  | name _ _ _ _ ih =>
    cases h' with
    | move _ hm' => cases hm'
    | name _ _ _ h' => exact ih h'
    | link _ _ hx => exact absurd hx (hl' _ _)
  | link _ _ hx => exact absurd hx (hl _ _)

theorem locate_eq_of_isLinkFree (hl : t.IsLinkFree) (hl' : t'.IsLinkFree) (h : t.locate true p = .ok place)
    (h' : t'.locate true p = .ok place') : place = place' := by
  obtain ⟨m, hr⟩ := walk_true_iff.mp (locate_eq_ok.mp h).2
  obtain ⟨m', hr'⟩ := walk_true_iff.mp (locate_eq_ok.mp h').2
  exact hr.eq_of_isLinkFree hl hl' hr'

/-- Are both entries files, with different times or the same content, or is none of them one? -/
def areToldApart : Entry → Entry → Bool
  | .file b modified, .file b' modified' => decide (modified ≠ modified' ∨ b = b')
  | .file _ _, _ => false
  | _, .file _ _ => false
  | _, _ => true

/-- Is the same read from files of both trees that have the same size and time? -/
def FingerprintsTell (t t' : FileTree) : Prop := ∀ p i j, t.info p = .ok i → t'.info p = .ok j → i.size = j.size →
  i.modified = j.modified → t.readBytes p = t'.readBytes p

theorem FingerprintsTell.refl (t : FileTree) : t.FingerprintsTell t := fun _ _ _ _ _ _ _ => rfl

instance : Std.Symm FingerprintsTell where
  symm _ _ h p i j hi hj hs hm := (h p j i hj hi hs.symm hm.symm).symm

theorem fingerprintsTell_of_times (hl : t.IsLinkFree) (hl' : t'.IsLinkFree)
    (ht : ∀ e ∈ t.entries.entries, ∀ e' ∈ t'.entries.entries, e.1 = e'.1 → areToldApart e.2 e'.2 = true) :
    t.FingerprintsTell t' := by
  intro p i j hi hj _ hm
  simp only [info] at hi hj
  cases hf : t.find true p with
  | error x => simp [hf, bind, Except.bind] at hi
  | ok r =>
    cases hf' : t'.find true p with
    | error x => simp [hf', bind, Except.bind] at hj
    | ok r' =>
      obtain ⟨place, e⟩ := r
      obtain ⟨place', e'⟩ := r'
      obtain ⟨hp, he⟩ := find_eq_ok.mp hf
      obtain ⟨hp', he'⟩ := find_eq_ok.mp hf'
      cases locate_eq_of_isLinkFree hl hl' hp hp'
      rw [readBytes, readBytes, hf, hf']
      have htold : areToldApart e e' = true := by
        by_cases hn : place = []
        · simp only [lookup?, List.isEmpty_iff, hn, if_true, Option.some.injEq] at he he'
          rw [← he, ← he']
          rfl
        · simp only [lookup?, List.isEmpty_iff, hn, if_false] at he he'
          exact ht _ (Dict.mem_entries.mpr he) _ (Dict.mem_entries.mpr he') rfl
      rw [hf] at hi
      rw [hf'] at hj
      cases e with
      | file b modified =>
        cases e' with
        | file b' modified' =>
          cases hi
          cases hj
          rw [(of_decide_eq_true htold).resolve_left fun hne => hne hm]
          rfl
        | directory => cases htold
        | link => cases htold
      | directory =>
        cases e' with
        | file => cases htold
        | directory => rfl
        | link => rfl
      | link =>
        cases e' with
        | file => cases htold
        | directory => rfl
        | link => rfl

end FileTree

end MarkdownTemplates
