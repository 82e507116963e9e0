import MarkdownTemplates.Document.Load
import MarkdownTemplates.Proofs.Analysis

/-!
# The files of a closure

A file imports those that a `src` in it names. The walk from a file visits the files to which imports lead, each once, and the
definitions that it brings are those in these files.
-/

namespace MarkdownTemplates

open Relation (ReflTransGen TransGen)
open Resolver (outcome resolvePath)

variable {w : World} {restrict : Option Path} {p q q' : Path} {document : Document} {file : ResolvedFile}

namespace World

/-- Does a `src` in the file `p` name the file `q`? -/
def Imports (w : World) (restrict : Option Path) (p q : Path) : Prop :=
  ∃ document, w.document p = .ok document ∧ ∃ r ∈ Reference.all document.root, ∃ src, r.src = some src ∧
    ∃ file, outcome w restrict src (some p) = .ok file ∧ file.path = q

/-- The definitions in the file. -/
def sites (w : World) (p : Path) : List Site :=
  match w.document p with
  | .ok document => Site.all (some p) document.root
  | .error _ => []

/-- Does the file, or one to which imports lead from it, define `x`? -/
def Brings (w : World) (restrict : Option Path) (p : Path) (x : String) : Prop :=
  ∃ q, ReflTransGen (w.Imports restrict) p q ∧ ∃ s ∈ w.sites q, s.id? = some x

theorem document_eq_ok : w.document p = .ok document ↔
    ∃ text, w.files.readText (w.cwd.join p) = .ok text ∧ document = .parse text.toList := by
  unfold World.document
  cases w.files.readText (w.cwd.join p) with
  | error e => simp
  | ok text => simp [eq_comm]

theorem sites_eq (h : w.document p = .ok document) : w.sites p = Site.all (some p) document.root := by
  unfold sites
  rw [h]

theorem file_of_mem_sites {s : Site} (hs : s ∈ w.sites p) : s.file = some p := by
  unfold sites at hs
  split at hs
  · obtain ⟨n, -, rfl⟩ := List.mem_map.mp hs
    rfl
  · exact absurd hs List.not_mem_nil

/-- The files that a `src` in the file `p` names. -/
def importsOf (w : World) (restrict : Option Path) (p : Path) : List Path :=
  match w.document p with
  | .ok document => (Reference.all document.root).filterMap fun r =>
      r.src.bind fun src => (outcome w restrict src (some p)).toOption.map (·.path)
  | .error _ => []

theorem mem_importsOf : q ∈ w.importsOf restrict p ↔ w.Imports restrict p q := by
  rw [Imports]
  unfold importsOf
  cases w.document p with
  | error e => simp
  | ok document =>
    simp only [List.mem_filterMap, Option.bind_eq_some_iff, Option.map_eq_some_iff, Except.ok.injEq, exists_eq_left']
    refine exists_congr fun r => and_congr_right fun _ => exists_congr fun src => and_congr_right fun _ => exists_congr fun file => ?_
    cases outcome w restrict src (some p) <;> simp [Except.toOption]

instance : DecidableRel (w.Imports restrict) := fun _ _ => decidable_of_iff _ mem_importsOf

end World

namespace Resolver

theorem document_of_outcome {src : String} {base : Option Path} (h : outcome w restrict src base = .ok file) :
    w.document file.path = .ok file.document :=
  World.document_eq_ok.mpr (outcome_eq_ok h).2

theorem attempted_of_outcome {src : String} {base : Option Path} {u : Unresolved} (h : outcome w restrict src base = .error u) :
    u.attempted = resolvePath w.cwd src base := by
  simp only [outcome, resolve, Dict.get?_empty] at h
  split_ifs at h
  · cases ht : w.files.readText (w.cwd.join (resolvePath w.cwd src base)) with
    | ok text => simp [ht] at h
    | error e =>
      simp only [ht, Except.error.injEq] at h
      subst h
      cases e <;> rfl
  · cases h
    rfl

/-- What a `src` leads to depends on the path that it names only. -/
theorem outcome_congr {src src' : String} {base base' : Option Path}
    (h : resolvePath w.cwd src base = resolvePath w.cwd src' base') :
    outcome w restrict src base = outcome w restrict src' base' := by
  simp only [outcome, resolve, h]

end Resolver

namespace Visit

variable {v : Visit}

/-- The path to which a visit leads, whether there is a document or not. -/
def path (v : Visit) : Path :=
  match v.outcome with
  | .ok file => file.path
  | .error u => u.attempted

theorem path_eq {src : String} {base : Option Path} (h : v.outcome = Resolver.outcome w restrict src base) :
    v.path = resolvePath w.cwd src base := by
  unfold path
  rw [h]
  cases ho : Resolver.outcome w restrict src base with
  | ok file => exact (Resolver.outcome_eq_ok ho).1
  | error u => exact Resolver.attempted_of_outcome ho

/-- The path of a visit that follows a pending reference. -/
theorem path_follow (r : PendingReference) (src : String) :
    path ⟨r.reference, r.isLocal, Resolver.outcome w restrict src r.base⟩ = resolvePath w.cwd src r.base :=
  path_eq rfl

theorem sublist_files (visits : List Visit) : (visits.flatMap files).Sublist (visits.map path) := by
  induction visits with
  | nil => exact .slnil
  | cons v visits ih =>
    rw [List.flatMap_cons, List.map_cons, files, path]
    cases v.outcome with
    | ok file => exact ih.cons_cons _
    | error u => exact ih.cons _

end Visit

namespace Closure

variable {seen : NameSet} {pending : List PendingReference} {visits : List Visit} {v : Visit}

/-- Does the pending reference stand in a file to which imports lead from `p`? -/
def Stands (w : World) (restrict : Option Path) (p : Path) (r : PendingReference) : Prop :=
  ∃ q document, r.base = some q ∧ ReflTransGen (w.Imports restrict) p q ∧ w.document q = .ok document ∧
    r.reference ∈ Reference.all document.root

/-- So do the references in the file that it names. -/
theorem Stands.of_found {r r' : PendingReference} {src : String} (h : Stands w restrict p r) (hsrc : r.reference.src = some src)
    (hr' : r' ∈ found (outcome w restrict src r.base)) : Stands w restrict p r' := by
  obtain ⟨q, document, hbase, hq, hd, hm⟩ := h
  obtain ⟨file, ho, reference, hreference, rfl⟩ := mem_found.mp hr'
  have himports : w.Imports restrict q file.path := ⟨document, hd, r.reference, hm, src, hsrc, file, hbase ▸ ho, rfl⟩
  exact ⟨file.path, file.document, rfl, hq.tail himports, Resolver.document_of_outcome ho, hreference⟩

/-- Every visit follows a reference in a file to which imports lead. -/
theorem Visits.exists_reference (h : Visits w restrict seen pending visits) (hp : ∀ r ∈ pending, Stands w restrict p r) :
    ∀ v ∈ visits, ∃ q document src, ReflTransGen (w.Imports restrict) p q ∧ w.document q = .ok document ∧
      v.reference ∈ Reference.all document.root ∧ v.reference.src = some src ∧ v.outcome = outcome w restrict src (some q) := by
  intro v hv
  obtain ⟨r, src, ⟨q, document, hbase, hq, hd, hm⟩, hsrc, rfl⟩ :=
    h.follows hp (fun _ _ hr hsrc _ _ hr' => hr.of_found hsrc hr') v hv
  exact ⟨q, document, src, hq, hd, hm, hsrc, by rw [hbase]⟩

/-- The path that a pending reference names has been seen or is visited. -/
theorem Visits.visited_of_pending (h : Visits w restrict seen pending visits) {r : PendingReference} {src : String}
    (hr : r ∈ pending) (hsrc : r.reference.src = some src) :
    seen.contains (resolvePath w.cwd src r.base).text = true ∨ ∃ v ∈ visits, v.outcome = outcome w restrict src r.base := by
  induction h with
  | done => simp at hr
  | skip hs _ ih =>
    rcases List.mem_cons.mp hr with rfl | hr
    · exact .inl (hs src hsrc)
    · exact ih hr
  | @visit seen r' src' rest visits hsrc' _ _ ih =>
    rcases List.mem_cons.mp hr with rfl | hr
    · cases hsrc.symm.trans hsrc'
      exact .inr ⟨_, List.mem_cons_self, rfl⟩
    · rcases ih (List.mem_append_left _ hr) with hseen | ⟨v, hv, hvo⟩
      · rcases NameSet.contains_insert.mp hseen with he | hseen
        · exact .inr ⟨_, List.mem_cons_self, Resolver.outcome_congr (congrArg Path.mk he).symm⟩
        · exact .inl hseen
      · exact .inr ⟨v, List.mem_cons_of_mem _ hv, hvo⟩

/-- The path that a reference in a visited file names has been seen or is visited. -/
theorem Visits.visited_of_visited (h : Visits w restrict seen pending visits) {f : ResolvedFile} (hv : v ∈ visits)
    (hf : v.outcome = .ok f) {r : Reference} {src : String} (hr : r ∈ Reference.all f.document.root) (hsrc : r.src = some src) :
    seen.contains (resolvePath w.cwd src (some f.path)).text = true ∨
      ∃ v ∈ visits, v.outcome = outcome w restrict src (some f.path) := by
  induction h with
  | done => simp at hv
  | skip _ _ ih => exact ih hv
  | @visit seen r' src' rest visits hsrc' hnew hrest ih =>
    have hlater : (seen.insert (resolvePath w.cwd src' r'.base).text).contains (resolvePath w.cwd src (some f.path)).text = true ∨
        ∃ v ∈ visits, v.outcome = outcome w restrict src (some f.path) := by
      rcases List.mem_cons.mp hv with rfl | hv
      · -- The references of the file that is visited first are pending afterwards.
        have hfound : ⟨r, some f.path, false⟩ ∈ found (outcome w restrict src' r'.base) := mem_found.mpr ⟨f, hf, r, hr, rfl⟩
        exact hrest.visited_of_pending (r := ⟨r, some f.path, false⟩) (List.mem_append_right _ hfound) hsrc
      · exact ih hv
    rcases hlater with hseen | ⟨v', hv', hvo⟩
    · rcases NameSet.contains_insert.mp hseen with he | hseen
      · exact .inr ⟨_, List.mem_cons_self, Resolver.outcome_congr (congrArg Path.mk he).symm⟩
      · exact .inl hseen
    · exact .inr ⟨v', List.mem_cons_of_mem _ hv', hvo⟩

/-- No path is visited twice, and none that has been seen. -/
theorem Visits.nodup_paths (h : Visits w restrict seen pending visits) :
    (visits.map Visit.path).Nodup ∧ ∀ q ∈ visits.map Visit.path, seen.contains q.text = false := by
  induction h with
  | done => simp
  | skip _ _ ih => exact ih
  | @visit seen r src rest visits _ hnew _ ih =>
    obtain ⟨hnodup, hfresh⟩ := ih
    have hold : ∀ q ∈ visits.map Visit.path, seen.contains q.text = false ∧ q ≠ resolvePath w.cwd src r.base := by
      intro q hq
      have hq := hfresh q hq
      rw [← Bool.not_eq_true, NameSet.contains_insert, not_or, Bool.not_eq_true] at hq
      exact ⟨hq.2, fun he => hq.1 (congrArg Path.text he)⟩
    rw [List.map_cons, Visit.path_follow, List.nodup_cons, List.forall_mem_cons]
    exact ⟨⟨fun hm => (hold _ hm).2 rfl, hnodup⟩, hnew, fun q hq => (hold q hq).1⟩

/-! ## The walk from a file -/

namespace VisitsOf

/-- The path at which the walk starts is noted in its normal form. -/
theorem contains_start : (NameSet.ofList ((some p).map (·.normalize.text)).toList).contains q.text = true ↔ q = p.normalize := by
  rw [NameSet.contains_ofList, Option.map_some, Option.toList_some, List.mem_singleton]
  exact ⟨congrArg Path.mk, congrArg Path.text⟩

theorem contains_start_iff (hp : p.normalize = p) :
    (NameSet.ofList ((some p).map fun p => p.normalize.text).toList).contains q.text = true ↔ q = p := by
  rw [contains_start, hp]

theorem exists_reference (h : VisitsOf w restrict (some p) document.root visits) (hd : w.document p = .ok document) :
    ∀ v ∈ visits, ∃ q document src, ReflTransGen (w.Imports restrict) p q ∧ w.document q = .ok document ∧
      v.reference ∈ Reference.all document.root ∧ v.reference.src = some src ∧ v.outcome = outcome w restrict src (some q) := by
  refine Visits.exists_reference h fun r hr => ?_
  obtain ⟨reference, hm, rfl⟩ := List.mem_map.mp hr
  exact ⟨p, document, rfl, .refl, hd, hm⟩

theorem document_eq (h : VisitsOf w restrict (some p) document.root visits) (hd : w.document p = .ok document) {v : Visit}
    (hv : v ∈ visits) (hf : v.outcome = .ok file) : w.document file.path = .ok file.document := by
  obtain ⟨_, _, _, _, _, _, _, hvo⟩ := h.exists_reference hd v hv
  exact Resolver.document_of_outcome (hvo.symm.trans hf)

theorem mem_files : q ∈ visits.flatMap Visit.files ↔ ∃ v ∈ visits, ∃ file, v.outcome = .ok file ∧ file.path = q := by
  rw [List.mem_flatMap]
  refine exists_congr fun v => and_congr_right fun _ => ?_
  rw [Visit.files]
  cases v.outcome <;> simp [eq_comm]

/-- Imports lead to every file that is visited. -/
theorem reflTransGen_of_mem (h : VisitsOf w restrict (some p) document.root visits) (hd : w.document p = .ok document)
    (hq : q ∈ p :: visits.flatMap Visit.files) : ReflTransGen (w.Imports restrict) p q := by
  rcases List.mem_cons.mp hq with rfl | hq
  · exact .refl
  · obtain ⟨v, hv, file, hf, rfl⟩ := mem_files.mp hq
    obtain ⟨q, document', src, hq, hd', hm, hsrc, ho⟩ := h.exists_reference hd v hv
    exact hq.tail ⟨document', hd', v.reference, hm, src, hsrc, file, ho.symm.trans hf, rfl⟩

/-- Every file to which imports lead is visited, but for that in which the walk starts. -/
theorem mem_of_reflTransGen (h : VisitsOf w restrict (some p) document.root visits) (hd : w.document p = .ok document)
    (hp : p.normalize = p) (hq : ReflTransGen (w.Imports restrict) p q) : q ∈ p :: visits.flatMap Visit.files := by
  induction hq with
  | refl => exact List.mem_cons_self
  | @tail q q' _ himports ih =>
    obtain ⟨document', hd', r, hr, src, hsrc, file, ho, rfl⟩ := himports
    have hnext : (NameSet.ofList ((some p).map fun p => p.normalize.text).toList).contains
        (resolvePath w.cwd src (some q)).text = true ∨ ∃ v ∈ visits, v.outcome = outcome w restrict src (some q) := by
      rcases List.mem_cons.mp ih with rfl | hq
      · cases hd.symm.trans hd'
        exact Visits.visited_of_pending (r := ⟨r, some q, true⟩) h (List.mem_map.mpr ⟨r, hr, rfl⟩) hsrc
      · obtain ⟨v, hv, f, hf, rfl⟩ := mem_files.mp hq
        cases (h.document_eq hd hv hf).symm.trans hd'
        exact Visits.visited_of_visited h hv hf hr hsrc
    rcases hnext with hseen | ⟨v, hv, hvo⟩
    · rw [(Resolver.outcome_eq_ok ho).1, (contains_start_iff hp).mp hseen]
      exact List.mem_cons_self
    · exact List.mem_cons_of_mem _ (mem_files.mpr ⟨v, hv, file, hvo.trans ho, rfl⟩)

/-- No path is visited twice, and that of the document is not visited. -/
theorem nodup_paths {root : Node} (h : VisitsOf w restrict (some p) root visits) (hp : p.normalize = p) :
    (p :: visits.map Visit.path).Nodup := by
  obtain ⟨hnodup, hfresh⟩ := Visits.nodup_paths h
  refine List.nodup_cons.mpr ⟨fun hm => ?_, hnodup⟩
  exact Bool.false_ne_true ((hfresh p hm).symm.trans ((contains_start_iff hp).mpr rfl))

theorem nodup_files (h : VisitsOf w restrict (some p) document.root visits) (hp : p.normalize = p) :
    (p :: visits.flatMap Visit.files).Nodup :=
  ((Visit.sublist_files visits).cons_cons p).nodup (h.nodup_paths hp)

/-- The definitions that a walk brings are those in the files that it visits. -/
theorem ofVisits_eq (h : VisitsOf w restrict (some p) document.root visits) (hd : w.document p = .ok document) :
    Site.ofVisits (some p) document.root visits = (p :: visits.flatMap Visit.files).flatMap w.sites := by
  have hsites : ∀ v ∈ visits, v.sites = v.files.flatMap w.sites := by
    intro v hv
    rw [Visit.sites, Visit.files]
    cases hf : v.outcome with
    | error u => rfl
    | ok file => rw [List.flatMap_singleton, World.sites_eq (h.document_eq hd hv hf)]
  rw [Site.ofVisits, List.flatMap_cons, World.sites_eq hd, List.flatMap_assoc]
  exact congrArg _ (List.flatMap_congr hsites)

end VisitsOf

end Closure

end MarkdownTemplates
