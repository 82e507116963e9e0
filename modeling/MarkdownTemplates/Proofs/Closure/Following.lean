import MarkdownTemplates.Proofs.Closure.Imports
import MarkdownTemplates.Proofs.Path.Parent

/-!
# Paths that are followed

The references of a document name paths, those of the files there name further ones, and so on. A walk visits all of these once, unless
the path at which it starts is named again. What it loads does not depend on how that path is spelled.
-/

namespace MarkdownTemplates

open Resolver (outcome resolvePath)

namespace Closure

variable {w : World} {restrict : Option Path} {root : Node} {p q start start' x : Path} {file : ResolvedFile} {src : String}
  {base : Option Path} {seen seen' : NameSet} {pending pending' : List PendingReference} {r r' : PendingReference}
  {visits visits' : List Visit} {v : Visit}

/-! ## Names and files -/

/-- Does a `src` that names the path lead to the file? -/
def Loads (w : World) (restrict : Option Path) (x : Path) (file : ResolvedFile) : Prop :=
  ∃ src base, resolvePath w.cwd src base = x ∧ outcome w restrict src base = .ok file

theorem loads_resolvePath : Loads w restrict (resolvePath w.cwd src base) file ↔ outcome w restrict src base = .ok file := by
  constructor
  · rintro ⟨src', base', hpath, ho⟩
    rw [Resolver.outcome_congr hpath.symm, ho]
  · exact fun ho => ⟨src, base, rfl, ho⟩

theorem not_loads_of_fails (h : ∃ u, outcome w restrict src base = .error u) :
    ¬ ∃ file, Loads w restrict (resolvePath w.cwd src base) file := by
  rintro ⟨file, hfile⟩
  obtain ⟨u, hu⟩ := h
  cases hu.symm.trans (loads_resolvePath.mp hfile)

theorem Loads.path_eq (h : Loads w restrict x file) : file.path = x := by
  obtain ⟨src, base, rfl, ho⟩ := h
  exact (Resolver.outcome_eq_ok ho).1

theorem Loads.unique {file' : ResolvedFile} (h : Loads w restrict x file) (h' : Loads w restrict x file') : file = file' := by
  obtain ⟨src, base, rfl, ho⟩ := h
  exact Except.ok.inj (ho.symm.trans (loads_resolvePath.mp h'))

/-- Is the path named in the document at `start`, or in a file to which such names lead? -/
inductive Follows (w : World) (restrict : Option Path) (start : Path) (root : Node) : Path → Prop
  | own {r : Reference} {src : String} (hr : r ∈ Reference.all root) (hsrc : r.src = some src) :
      Follows w restrict start root (resolvePath w.cwd src (some start))
  | onward {x : Path} {file : ResolvedFile} {r : Reference} {src : String} (hx : Follows w restrict start root x)
      (hfile : Loads w restrict x file) (hr : r ∈ Reference.all file.document.root) (hsrc : r.src = some src) :
      Follows w restrict start root (resolvePath w.cwd src (some x))

/-- Does a pending reference name a path that is followed? -/
def IsFollowed (w : World) (restrict : Option Path) (start : Path) (root : Node) (r : PendingReference) : Prop :=
  ∀ src, r.reference.src = some src → Follows w restrict start root (resolvePath w.cwd src r.base)

theorem isFollowed_start : ∀ r ∈ (Reference.all root).map (⟨·, some start, true⟩), IsFollowed w restrict start root r := by
  rw [List.forall_mem_map]
  exact fun r hr src hsrc => .own hr hsrc

theorem IsFollowed.found (h : IsFollowed w restrict start root r) (hsrc : r.reference.src = some src) :
    ∀ r' ∈ found (outcome w restrict src r.base), IsFollowed w restrict start root r' := by
  intro r' hr' src' hsrc'
  obtain ⟨file, ho, reference, hreference, rfl⟩ := mem_found.mp hr'
  have hfile := loads_resolvePath.mpr ho
  show Follows w restrict start root (resolvePath w.cwd src' (some file.path))
  rw [hfile.path_eq]
  exact .onward (h src hsrc) hfile hreference hsrc'

/-! ## The paths that a walk visits -/

namespace VisitsOf

theorem exists_follows (h : VisitsOf w restrict (some start) root visits) (hv : v ∈ visits) :
    ∃ src base, v.outcome = outcome w restrict src base ∧ v.path = resolvePath w.cwd src base ∧
      Follows w restrict start root (resolvePath w.cwd src base) := by
  obtain ⟨r, src, hr, hsrc, rfl⟩ := Visits.follows h isFollowed_start (fun r src hr hsrc _ => hr.found hsrc) v hv
  exact ⟨src, r.base, rfl, Visit.path_follow r src, hr src hsrc⟩

theorem loads_iff (h : VisitsOf w restrict (some start) root visits) (hv : v ∈ visits) :
    v.outcome = .ok file ↔ Loads w restrict v.path file := by
  obtain ⟨src, base, ho, hpath, -⟩ := h.exists_follows hv
  rw [ho, hpath, loads_resolvePath]

/-- A walk visits the paths that are followed, unless one of them is that where it starts. -/
theorem mem_paths_iff_follows (h : VisitsOf w restrict (some start) root visits)
    (hstart : ¬ Follows w restrict start root start.normalize) :
    x ∈ visits.map Visit.path ↔ Follows w restrict start root x := by
  constructor
  · intro hx
    obtain ⟨v, hv, rfl⟩ := List.mem_map.mp hx
    obtain ⟨src, base, -, hpath, hfollows⟩ := h.exists_follows hv
    exact hpath ▸ hfollows
  · intro hx
    have hvisited : ∀ {src base}, Follows w restrict start root (resolvePath w.cwd src base) →
        ((NameSet.ofList ((some start).map (·.normalize.text)).toList).contains (resolvePath w.cwd src base).text = true ∨
          ∃ v ∈ visits, v.outcome = outcome w restrict src base) → resolvePath w.cwd src base ∈ visits.map Visit.path := by
      rintro src base hfollows (hseen | ⟨v, hv, ho⟩)
      · rw [contains_start.mp hseen] at hfollows
        exact absurd hfollows hstart
      · exact List.mem_map.mpr ⟨v, hv, Visit.path_eq ho⟩
    induction hx with
    | @own r src hr hsrc =>
      exact hvisited (.own hr hsrc) (Visits.visited_of_pending (r := ⟨r, some start, true⟩) h (List.mem_map.mpr ⟨r, hr, rfl⟩) hsrc)
    | @onward x file r src hx hfile hr hsrc ih =>
      obtain ⟨v, hv, rfl⟩ := List.mem_map.mp ih
      have hnext := Visits.visited_of_visited h hv ((h.loads_iff hv).mpr hfile) hr hsrc
      rw [hfile.path_eq] at hnext
      exact hvisited (.onward hx hfile hr hsrc) hnext

/-- All visits are successful exactly when all paths that are followed lead to files. -/
theorem forall_isResolved_iff_loads (h : VisitsOf w restrict (some start) root visits)
    (hstart : ¬ Follows w restrict start root start.normalize) :
    (∀ v ∈ visits, v.IsResolved) ↔ ∀ x, Follows w restrict start root x → ∃ file, Loads w restrict x file := by
  simp only [← h.mem_paths_iff_follows hstart, List.forall_mem_map]
  exact forall₂_congr fun v hv => exists_congr fun file => h.loads_iff hv

end VisitsOf

/-! ## The files that a walk loads -/

/-- The files of the successful visits. -/
def loaded (visits : List Visit) : List ResolvedFile := visits.filterMap (·.outcome.toOption)

theorem mem_loaded : file ∈ loaded visits ↔ ∃ v ∈ visits, v.outcome = .ok file := by
  rw [loaded, List.mem_filterMap]
  refine exists_congr fun v => and_congr_right fun _ => ?_
  cases v.outcome <;> simp [Except.toOption]

theorem loaded_cons_error {u : Unresolved} (h : v.outcome = .error u) : loaded (v :: visits) = loaded visits :=
  List.filterMap_cons_none (by rw [h]; rfl)

theorem loaded_cons_ok (h : v.outcome = .ok file) : loaded (v :: visits) = file :: loaded visits :=
  List.filterMap_cons_some (by rw [h]; rfl)

theorem flatMap_files (visits : List Visit) : visits.flatMap Visit.files = (loaded visits).map (·.path) := by
  induction visits with
  | nil => rfl
  | cons v visits ih =>
    rw [List.flatMap_cons, ih, Visit.files]
    cases ho : v.outcome with
    | ok file => rw [loaded_cons_ok ho]; rfl
    | error u => rw [loaded_cons_error ho]; rfl

theorem flatMap_sites (visits : List Visit) :
    visits.flatMap Visit.sites = (loaded visits).flatMap fun file => Site.all (some file.path) file.document.root := by
  induction visits with
  | nil => rfl
  | cons v visits ih =>
    rw [List.flatMap_cons, ih, Visit.sites]
    cases ho : v.outcome with
    | ok file => rw [loaded_cons_ok ho]; rfl
    | error u => rw [loaded_cons_error ho]; rfl

/-! ## Walks that load the same files -/

/-- Do both references name the same path, or both none that leads to a file? -/
structure AreAlike (w : World) (restrict : Option Path) (r r' : PendingReference) : Prop where
  src_eq : r.reference.src = r'.reference.src
  path_eq : ∀ src, r.reference.src = some src → resolvePath w.cwd src r.base = resolvePath w.cwd src r'.base ∨
    (∃ u, outcome w restrict src r.base = .error u) ∧ ∃ u, outcome w restrict src r'.base = .error u

theorem AreAlike.refl (r : PendingReference) : AreAlike w restrict r r := ⟨rfl, fun _ _ => .inl rfl⟩

/-- Does the reference lead to no file? -/
def Fails (w : World) (restrict : Option Path) (r : PendingReference) : Prop :=
  ∀ src, r.reference.src = some src → ∃ u, outcome w restrict src r.base = .error u

theorem AreAlike.cases (h : AreAlike w restrict r r') :
    (Fails w restrict r ∧ Fails w restrict r') ∨ ∃ src file, r.reference.src = some src ∧ r'.reference.src = some src ∧
      resolvePath w.cwd src r.base = resolvePath w.cwd src r'.base ∧ outcome w restrict src r.base = .ok file ∧
      outcome w restrict src r'.base = .ok file := by
  by_cases hfails : Fails w restrict r
  · refine .inl ⟨hfails, fun src hsrc => ?_⟩
    have hsrc' := h.src_eq.trans hsrc
    rcases h.path_eq src hsrc' with hpath | ⟨-, hfails'⟩
    · rw [← Resolver.outcome_congr hpath]
      exact hfails src hsrc'
    · exact hfails'
  · right
    simp only [Fails, not_forall] at hfails
    obtain ⟨src, hsrc, hloads⟩ := hfails
    cases ho : outcome w restrict src r.base with
    | error u => exact absurd ⟨u, ho⟩ hloads
    | ok file =>
      rcases h.path_eq src hsrc with hpath | ⟨⟨u, hu⟩, -⟩
      · exact ⟨src, file, hsrc, h.src_eq.symm.trans hsrc, hpath, ho, (Resolver.outcome_congr hpath).symm.trans ho⟩
      · cases ho.symm.trans hu

/-- Have the same of the paths that are followed and lead to files been seen? -/
def SeeAlike (w : World) (restrict : Option Path) (start : Path) (root : Node) (seen seen' : NameSet) : Prop :=
  ∀ x file, Follows w restrict start root x → Loads w restrict x file → seen.contains x.text = seen'.contains x.text

theorem SeeAlike.insert (h : SeeAlike w restrict start root seen seen') (name : String) :
    SeeAlike w restrict start root (seen.insert name) (seen'.insert name) := by
  intro x file hx hfile
  rw [Bool.eq_iff_iff, NameSet.contains_insert, NameSet.contains_insert, h x file hx hfile]

theorem contains_insert_of_fails (ho : ∃ u, outcome w restrict src base = .error u) (hx : Loads w restrict x file) :
    (seen.insert (resolvePath w.cwd src base).text).contains x.text = seen.contains x.text := by
  rw [Bool.eq_iff_iff, NameSet.contains_insert, or_iff_right]
  intro he
  obtain rfl : x = resolvePath w.cwd src base := congrArg Path.mk he
  exact not_loads_of_fails ho ⟨file, hx⟩

/-- A reference that leads to no file makes no difference to what is loaded. -/
theorem Visits.of_fails (h : Visits w restrict seen (r :: pending) visits) (hr : Fails w restrict r) :
    ∃ seen₁ visits₁, Visits w restrict seen₁ pending visits₁ ∧ loaded visits = loaded visits₁ ∧
      ∀ x file, Loads w restrict x file → seen₁.contains x.text = seen.contains x.text := by
  cases h with
  | skip _ h => exact ⟨seen, visits, h, rfl, fun _ _ _ => rfl⟩
  | visit hsrc _ h =>
    obtain ⟨u, hu⟩ := hr _ hsrc
    rw [hu, found, List.append_nil] at h
    exact ⟨_, _, h, loaded_cons_error hu, fun x file hx => contains_insert_of_fails ⟨u, hu⟩ hx⟩

/-- A reference that leads to a file loads it unless that was done before. -/
theorem Visits.of_loads (h : Visits w restrict seen (r :: pending) visits) (hsrc : r.reference.src = some src)
    (ho : outcome w restrict src r.base = .ok file) :
    (seen.contains (resolvePath w.cwd src r.base).text = true ∧ Visits w restrict seen pending visits) ∨
    seen.contains (resolvePath w.cwd src r.base).text = false ∧ ∃ visits₁, loaded visits = file :: loaded visits₁ ∧
      Visits w restrict (seen.insert (resolvePath w.cwd src r.base).text) (pending ++ found (.ok file)) visits₁ := by
  cases h with
  | skip hs h => exact .inl ⟨hs src hsrc, h⟩
  | visit hsrc' hnew h =>
    cases hsrc.symm.trans hsrc'
    rw [ho] at h
    exact .inr ⟨hnew, _, loaded_cons_ok ho, h⟩

/-- Walks over alike references load the same files in the same order. -/
theorem Visits.loaded_eq (h : Visits w restrict seen pending visits) (h' : Visits w restrict seen' pending' visits')
    (halike : List.Forall₂ (AreAlike w restrict) pending pending') (hpending : ∀ r ∈ pending', IsFollowed w restrict start root r)
    (hseen : SeeAlike w restrict start root seen seen') : loaded visits = loaded visits' := by
  induction h generalizing seen' pending' visits' with
  | done =>
    cases halike
    cases h'
    rfl
  | @skip seen r rest visits hs _ ih =>
    cases halike with
    | @cons _ r' _ rest' hr hrest =>
    obtain ⟨hr', hrest'⟩ := List.forall_mem_cons.mp hpending
    rcases hr.cases with ⟨-, hfails⟩ | ⟨src, file, hsrc, hsrc', hpath, ho, ho'⟩
    · obtain ⟨seen₁, visits₁, h', hloaded, hsame⟩ := h'.of_fails hfails
      rw [hloaded]
      exact ih h' hrest hrest' fun x file hx hfile => by rw [hsame x file hfile, hseen x file hx hfile]
    · have hsame := hseen _ file (hr' src hsrc') (loads_resolvePath.mpr ho')
      rcases h'.of_loads hsrc' ho' with ⟨-, h'⟩ | ⟨hnew, -⟩
      · exact ih h' hrest hrest' hseen
      · rw [← hpath, hs src hsrc, hpath, hnew] at hsame
        cases hsame
  | @visit seen r src rest visits hsrc hnew _ ih =>
    cases halike with
    | @cons _ r' _ rest' hr hrest =>
    obtain ⟨hr', hrest'⟩ := List.forall_mem_cons.mp hpending
    rcases hr.cases with ⟨hfails, hfails'⟩ | ⟨src', file, hsrc₁, hsrc', hpath, ho, ho'⟩
    · obtain ⟨seen₁, visits₁, h', hloaded, hsame⟩ := h'.of_fails hfails'
      obtain ⟨u, hu⟩ := hfails src hsrc
      rw [loaded_cons_error hu, hloaded]
      rw [hu, found, List.append_nil] at ih
      refine ih h' hrest hrest' fun x file hx hfile => ?_
      rw [contains_insert_of_fails ⟨u, hu⟩ hfile, hsame x file hfile, hseen x file hx hfile]
    · cases hsrc.symm.trans hsrc₁
      have hsame := hseen _ file (hr' src hsrc') (loads_resolvePath.mpr ho')
      rcases h'.of_loads hsrc' ho' with ⟨hold, -⟩ | ⟨-, visits₁, hloaded, h'⟩
      · rw [← hpath, hnew, hpath, hold] at hsame
        cases hsame
      · rw [loaded_cons_ok ho, hloaded]
        rw [ho] at ih
        rw [← hpath] at h'
        refine congrArg _ (ih h' (List.rel_append hrest (List.forall₂_same.mpr fun r _ => .refl r)) ?_ (hseen.insert _))
        refine List.forall_mem_append.mpr ⟨hrest', ?_⟩
        rw [← ho']
        exact hr'.found hsrc'

/-- Walks over references that name the same paths are the same. -/
theorem Visits.congr (h : Visits w restrict seen pending visits) (hp : List.Forall₂ (fun r r' => r.reference = r'.reference ∧
    r.isLocal = r'.isLocal ∧ ∀ src, r.reference.src = some src → resolvePath w.cwd src r.base = resolvePath w.cwd src r'.base)
      pending pending') : Visits w restrict seen pending' visits := by
  induction h generalizing pending' with
  | done =>
    cases hp
    exact .done
  | @skip seen r rest visits hs _ ih =>
    cases hp with
    | @cons _ r' _ rest' hr hrest =>
    obtain ⟨hreference, -, hpath⟩ := hr
    refine .skip (fun src hsrc => ?_) (ih hrest)
    rw [← hreference] at hsrc
    rw [← hpath src hsrc]
    exact hs src hsrc
  | @visit seen r src rest visits hsrc hnew _ ih =>
    cases hp with
    | @cons _ r' _ rest' hr hrest =>
    obtain ⟨hreference, hlocal, hpath⟩ := hr
    have ho : outcome w restrict src r'.base = outcome w restrict src r.base := Resolver.outcome_congr (hpath src hsrc).symm
    rw [hpath src hsrc] at hnew ih
    rw [hreference, hlocal]
    exact .step (hreference ▸ hsrc) hnew ho (ih (List.rel_append hrest (List.forall₂_same.mpr fun _ _ => ⟨rfl, rfl, fun _ _ => rfl⟩)))

/-! ## Two paths at which a walk starts -/

/-- Does every `src` name the same path in both files, or no file in both? -/
def StartAlike (w : World) (restrict : Option Path) (start start' : Path) : Prop :=
  ∀ src, resolvePath w.cwd src (some start) = resolvePath w.cwd src (some start') ∨
    (∃ u, outcome w restrict src (some start) = .error u) ∧ ∃ u, outcome w restrict src (some start') = .error u

theorem StartAlike.symm (h : StartAlike w restrict start start') : StartAlike w restrict start' start :=
  fun src => (h src).imp Eq.symm And.symm

theorem StartAlike.areAlike (h : StartAlike w restrict start start') (references : List Reference) : List.Forall₂ (AreAlike w restrict)
    (references.map (⟨·, some start, true⟩)) (references.map (⟨·, some start', true⟩)) := by
  rw [List.forall₂_map_left_iff, List.forall₂_map_right_iff]
  exact List.forall₂_same.mpr fun r _ => ⟨rfl, fun src _ => h src⟩

/-- What is followed from one of the two is followed from the other, but for paths that lead to no file. -/
theorem Follows.of_startAlike (h : StartAlike w restrict start start') (hx : Follows w restrict start root x) :
    Follows w restrict start' root x ∨ (¬ ∃ file, Loads w restrict x file) ∧
      ∃ y, Follows w restrict start' root y ∧ ¬ ∃ file, Loads w restrict y file := by
  induction hx with
  | @own r src hr hsrc =>
    rcases h src with hpath | ⟨hfails, hfails'⟩
    · exact .inl (hpath ▸ .own hr hsrc)
    · exact .inr ⟨not_loads_of_fails hfails, _, .own hr hsrc, not_loads_of_fails hfails'⟩
  | onward _ hfile hr hsrc ih =>
    rcases ih with hx | ⟨hnone, -⟩
    · exact .inl (.onward hx hfile hr hsrc)
    · exact absurd ⟨_, hfile⟩ hnone

theorem follows_iff_of_loads (h : StartAlike w restrict start start') (hx : Loads w restrict x file) :
    Follows w restrict start root x ↔ Follows w restrict start' root x :=
  ⟨fun hf => (hf.of_startAlike h).resolve_right fun hn => hn.1 ⟨file, hx⟩,
    fun hf => (hf.of_startAlike h.symm).resolve_right fun hn => hn.1 ⟨file, hx⟩⟩

/-- All paths that are followed from one of the two lead to files when all from the other do. -/
theorem StartAlike.forall_loads (h : StartAlike w restrict start start')
    (hall : ∀ x, Follows w restrict start root x → ∃ file, Loads w restrict x file) :
    ∀ x, Follows w restrict start' root x → ∃ file, Loads w restrict x file := by
  intro x hx
  rcases hx.of_startAlike h.symm with hx | ⟨-, y, hy, hnone⟩
  · exact hall x hx
  · exact absurd (hall y hy) hnone

end Closure

end MarkdownTemplates
