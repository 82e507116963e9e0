import MarkdownTemplates.Closure
import MarkdownTemplates.Proofs.FileTree.Counting

/-!
# The visits of a walk

The visits that a walk makes depend on the files only, and not on what is done with them, on the documents that the resolver keeps
or on the fuel. A relation lists them, and every walk folds its step over them.
-/

namespace MarkdownTemplates

namespace Resolver

variable {w : World} {r : Resolver} {src : String} {base : Option Path}

/-- Is every document that is kept the one in its file? -/
def IsFaithful (w : World) (r : Resolver) : Prop :=
  ∀ key d, r.memo.get? key = some d → ∃ text, w.files.readText (w.cwd.join ⟨key⟩) = .ok text ∧ d = .parse text.toList

theorem isFaithful_of_memo (h : r.memo = ∅) : r.IsFaithful w := by
  intro key d hd
  simp [h] at hd

/-- What `src` leads to when no document is kept. -/
def outcome (w : World) (restrict : Option Path) (src : String) (base : Option Path) : Except Unresolved ResolvedFile :=
  (resolve w { restrict } src base).1

theorem exists_normalize_resolvePath (cwd : Path) (src : String) (base : Option Path) :
    ∃ p : Path, resolvePath cwd src base = p.normalize := by
  rw [resolvePath]
  split_ifs
  · exact ⟨_, rfl⟩
  · rw [Path.absolute]
    split_ifs
    · exact ⟨⟨""⟩, rfl⟩
    · exact ⟨_, rfl⟩

theorem outcome_eq_ok {restrict : Option Path} {file : ResolvedFile} (h : outcome w restrict src base = .ok file) :
    file.path = resolvePath w.cwd src base ∧
      ∃ text, w.files.readText (w.cwd.join file.path) = .ok text ∧ file.document = .parse text.toList := by
  simp only [outcome, resolve, Dict.get?_empty] at h
  split_ifs at h
  cases ht : w.files.readText (w.cwd.join (resolvePath w.cwd src base)) with
  | error e => simp [ht] at h
  | ok text =>
    simp only [ht, Except.ok.injEq] at h
    subst h
    exact ⟨rfl, text, ht, rfl⟩

/-- Without a directory to stay in, the file decides. -/
theorem outcome_none (w : World) (src : String) (base : Option Path) : outcome w none src base =
    match w.files.readText (w.cwd.join (resolvePath w.cwd src base)) with
    | .ok text => .ok ⟨resolvePath w.cwd src base, .parse text.toList⟩
    | .error e => .error (.ofFileError (resolvePath w.cwd src base) e) := by
  simp only [outcome, resolve, allows, Dict.get?_empty, not_true, if_false]
  cases w.files.readText (w.cwd.join (resolvePath w.cwd src base)) <;> rfl

theorem restrict_resolve : (r.resolve w src base).2.restrict = r.restrict := by
  simp only [resolve]
  split_ifs
  · cases r.memo.get? (resolvePath w.cwd src base).text with
    | some d => rfl
    | none => cases w.files.readText (w.cwd.join (resolvePath w.cwd src base)) <;> rfl
  · rfl

/-- The documents that a resolver keeps make no difference, and it keeps none but those that it has read. -/
theorem IsFaithful.resolve (h : r.IsFaithful w) :
    (r.resolve w src base).1 = outcome w r.restrict src base ∧ (r.resolve w src base).2.IsFaithful w := by
  simp only [outcome, Resolver.resolve, Dict.get?_empty]
  have hallows : (Resolver.mk r.restrict ∅).allows w.cwd = r.allows w.cwd := rfl
  rw [hallows]
  split_ifs
  rotate_left
  · exact ⟨rfl, h⟩
  · cases hm : r.memo.get? (resolvePath w.cwd src base).text with
    | some d =>
      obtain ⟨text, ht, rfl⟩ := h _ d hm
      have ht : w.files.readText (w.cwd.join (resolvePath w.cwd src base)) = .ok text := ht
      simp only [ht]
      exact ⟨trivial, h⟩
    | none =>
      cases ht : w.files.readText (w.cwd.join (resolvePath w.cwd src base)) with
      | error e => exact ⟨rfl, h⟩
      | ok text =>
        refine ⟨rfl, fun key d hd => ?_⟩
        rw [Dict.get?_insert] at hd
        split_ifs at hd with hk
        · subst hk
          exact ⟨text, ht, (Option.some.inj hd).symm⟩
        · exact h key d hd

end Resolver

namespace Closure

open Resolver (outcome resolvePath)

variable {w : World} {restrict : Option Path} {seen : NameSet} {pending : List PendingReference} {visits visits' : List Visit}

/-- The references that come with what was found. -/
def found : Except Unresolved ResolvedFile → List PendingReference
  | .ok file => (Reference.all file.document.root).map (⟨·, some file.path, false⟩)
  | .error _ => []

theorem mem_found {o : Except Unresolved ResolvedFile} {r : PendingReference} : r ∈ found o ↔
    ∃ file, o = .ok file ∧ ∃ reference ∈ Reference.all file.document.root, r = ⟨reference, some file.path, false⟩ := by
  cases o with
  | error u => simp [found]
  | ok file => simp [found, eq_comm]

/-- The visits to which the pending references lead, each in its turn, when the paths of `seen` are not visited again. -/
inductive Visits (w : World) (restrict : Option Path) : NameSet → List PendingReference → List Visit → Prop
  | done {seen : NameSet} : Visits w restrict seen [] []
  | skip {seen : NameSet} {p : PendingReference} {rest : List PendingReference} {visits : List Visit} :
      (∀ src, p.reference.src = some src → seen.contains (resolvePath w.cwd src p.base).text = true) →
      Visits w restrict seen rest visits → Visits w restrict seen (p :: rest) visits
  | visit {seen : NameSet} {p : PendingReference} {src : String} {rest : List PendingReference} {visits : List Visit} :
      p.reference.src = some src → seen.contains (resolvePath w.cwd src p.base).text = false →
      Visits w restrict (seen.insert (resolvePath w.cwd src p.base).text) (rest ++ found (outcome w restrict src p.base)) visits →
      Visits w restrict seen (p :: rest) (⟨p.reference, p.isLocal, outcome w restrict src p.base⟩ :: visits)

/-- A visit with the outcome at hand. -/
theorem Visits.step {p : PendingReference} {src : String} {rest : List PendingReference}
    {o : Except Unresolved ResolvedFile} (hsrc : p.reference.src = some src)
    (hnew : seen.contains (resolvePath w.cwd src p.base).text = false) (ho : outcome w restrict src p.base = o)
    (h : Visits w restrict (seen.insert (resolvePath w.cwd src p.base).text) (rest ++ found o) visits) :
    Visits w restrict seen (p :: rest) (⟨p.reference, p.isLocal, o⟩ :: visits) := by
  subst ho
  exact .visit hsrc hnew h

theorem Visits.unique (h : Visits w restrict seen pending visits) (h' : Visits w restrict seen pending visits') :
    visits = visits' := by
  induction h generalizing visits' with
  | done => cases h'; rfl
  | skip hs _ ih =>
    cases h' with
    | skip _ h' => exact ih h'
    | visit hsrc hnew => simp [hs _ hsrc] at hnew
  | visit hsrc hnew _ ih =>
    cases h' with
    | skip hs => simp [hs _ hsrc] at hnew
    | visit hsrc' _ h' =>
      cases hsrc.symm.trans hsrc'
      rw [ih h']

/-- A property of the pending references, which those that are found have too, holds of all references that are followed. -/
theorem Visits.follows {P : PendingReference → Prop} (h : Visits w restrict seen pending visits) (hp : ∀ r ∈ pending, P r)
    (hfound : ∀ r src, P r → r.reference.src = some src → seen.contains (resolvePath w.cwd src r.base).text = false →
      ∀ r' ∈ found (outcome w restrict src r.base), P r') :
    ∀ v ∈ visits, ∃ r src, P r ∧ r.reference.src = some src ∧ v = ⟨r.reference, r.isLocal, outcome w restrict src r.base⟩ := by
  induction h with
  | done => simp
  | skip _ _ ih => exact ih (List.forall_mem_cons.mp hp).2 hfound
  | @visit seen r src rest visits hsrc hnew _ ih =>
    obtain ⟨hr, hrest⟩ := List.forall_mem_cons.mp hp
    refine List.forall_mem_cons.mpr ⟨⟨r, src, hr, hsrc, rfl⟩, ih (fun r' hr' => ?_) fun r' src' hP hsrc' hnew' => ?_⟩
    · rcases List.mem_append.mp hr' with hr' | hr'
      · exact hrest r' hr'
      · exact hfound r src hr hsrc hnew r' hr'
    · refine hfound r' src' hP hsrc' (Bool.not_eq_true _ ▸ fun hs => ?_)
      exact Bool.false_ne_true (hnew'.symm.trans (NameSet.contains_insert.mpr (.inr hs)))

/-! ## The number of visits -/

/-- The paths that lead to files and are not seen. -/
def unseen (w : World) (seen : NameSet) : List Path := (w.files.filePaths w.cwd).filter fun p => !seen.contains p.text

theorem mem_unseen {p : Path} : p ∈ unseen w seen ↔ p ∈ w.files.filePaths w.cwd ∧ ¬ seen.contains p.text = true := by
  simp [unseen]

theorem unseen_insert (w : World) (seen : NameSet) (name : String) : (unseen w (seen.insert name)).Sublist (unseen w seen) := by
  refine List.monotone_filter_right _ fun p hp => ?_
  rw [Bool.not_eq_true', ← Bool.not_eq_true] at hp ⊢
  exact fun hs => hp (NameSet.contains_insert.mpr (.inr hs))

/-- A path that is not seen and leads to a file is seen after the visit. -/
theorem length_unseen_lt {src : String} {base : Option Path} {file : ResolvedFile}
    (hnew : seen.contains (resolvePath w.cwd src base).text = false) (h : outcome w restrict src base = .ok file) :
    (unseen w (seen.insert (resolvePath w.cwd src base).text)).length < (unseen w seen).length := by
  obtain ⟨hpath, text, ht, -⟩ := Resolver.outcome_eq_ok h
  obtain ⟨q, hq⟩ := Resolver.exists_normalize_resolvePath w.cwd src base
  obtain ⟨b, hb, -⟩ := FileTree.readText_eq_ok.mp ht
  rw [hpath, hq] at hb
  have hm : resolvePath w.cwd src base ∈ unseen w seen :=
    mem_unseen.mpr ⟨hq ▸ FileTree.mem_filePaths hb, by simpa using hnew⟩
  have hsub := unseen_insert w seen (resolvePath w.cwd src base).text
  refine lt_of_le_of_ne hsub.length_le fun he => ?_
  rw [← hsub.eq_of_length he] at hm
  exact (mem_unseen.mp hm).2 (NameSet.contains_insert.mpr (.inl rfl))

/-- A successful visit reads a file whose path is not seen, so there are no more such visits than such paths. -/
theorem Visits.countP_le (h : Visits w restrict seen pending visits) :
    visits.countP (·.outcome.toOption.isSome) ≤ (unseen w seen).length := by
  induction h with
  | done => simp
  | skip _ _ ih => exact ih
  | @visit seen p src rest visits _ hnew _ ih =>
    rw [List.countP_cons]
    cases ho : outcome w restrict src p.base with
    | error u =>
      have hle := (unseen_insert w seen (resolvePath w.cwd src p.base).text).length_le
      simpa [Except.toOption] using ih.trans hle
    | ok file =>
      have hlt := length_unseen_lt hnew ho
      simp only [Except.toOption, Option.isSome_some, if_true]
      exact Nat.succ_le_of_lt (ih.trans_lt hlt)

theorem exists_visits_of_le {k : Nat} (hk : (unseen w seen).length ≤ k) (pending : List PendingReference) :
    ∃ visits, Visits w restrict seen pending visits := by
  -- A visit that fails adds no reference, and one that succeeds leaves fewer paths unseen, for any number of new references.
  induction k using Nat.strong_induction_on generalizing seen pending with
  | _ k ihk =>
  induction pending generalizing seen with
  | nil => exact ⟨[], .done⟩
  | cons p rest ih =>
    by_cases hskip : ∀ src, p.reference.src = some src → seen.contains (resolvePath w.cwd src p.base).text = true
    · obtain ⟨visits, hv⟩ := ih hk
      exact ⟨visits, .skip hskip hv⟩
    · push Not at hskip
      obtain ⟨src, hsrc, hnew⟩ := hskip
      have hnew : seen.contains (resolvePath w.cwd src p.base).text = false := by simpa using hnew
      obtain ⟨visits, hv⟩ : ∃ visits, Visits w restrict (seen.insert (resolvePath w.cwd src p.base).text)
          (rest ++ found (outcome w restrict src p.base)) visits := by
        cases ho : outcome w restrict src p.base with
        | error u =>
          rw [found, List.append_nil]
          exact ih ((unseen_insert w seen _).length_le.trans hk)
        | ok file => exact ihk _ ((length_unseen_lt hnew ho).trans_le hk) le_rfl _
      exact ⟨_, .visit hsrc hnew hv⟩

/-! ## Walks -/

variable {σ ε : Type} {step : σ → Visit → Except ε σ} {fuel : Nat} {r : Resolver} {s : σ}

theorem walk_skip {p : PendingReference} {rest : List PendingReference}
    (h : ∀ src, p.reference.src = some src → seen.contains (resolvePath w.cwd src p.base).text = true) :
    walk w step fuel ⟨r, seen⟩ s (p :: rest) = walk w step fuel ⟨r, seen⟩ s rest := by
  rw [walk]
  cases hsrc : p.reference.src with
  | none => rfl
  | some src => simp [h src hsrc]

/-- With enough fuel, a walk folds its step over the visits. -/
theorem Visits.walk_eq (h : Visits w restrict seen pending visits) (hf : r.IsFaithful w) (hr : r.restrict = restrict)
    (hn : visits.countP (·.outcome.toOption.isSome) ≤ fuel) :
    (walk w step fuel ⟨r, seen⟩ s pending).1 = visits.foldlM step s := by
  induction h generalizing r s fuel with
  | done => rw [walk]; rfl
  | skip hs _ ih => rw [walk_skip hs, ih hf hr hn]
  | @visit seen p src rest visits hsrc hnew _ ih =>
    subst hr
    obtain ⟨hres, hf'⟩ : (r.resolve w src p.base).1 = outcome w r.restrict src p.base ∧
        (r.resolve w src p.base).2.IsFaithful w := hf.resolve
    have hr' : (r.resolve w src p.base).2.restrict = r.restrict := Resolver.restrict_resolve
    have hnext : ∀ s fuel, visits.countP (·.outcome.toOption.isSome) ≤ fuel →
        (walk w step fuel ⟨(r.resolve w src p.base).2, seen.insert (resolvePath w.cwd src p.base).text⟩ s
          (rest ++ found (outcome w r.restrict src p.base))).1 = visits.foldlM step s := fun _ _ => ih hf' hr'
    rw [List.countP_cons] at hn
    rw [List.foldlM_cons, walk]
    cases hstep : step s ⟨p.reference, p.isLocal, outcome w r.restrict src p.base⟩ with
    | error e => simp [hsrc, hnew, hres, hstep, bind, Except.bind]
    | ok s' =>
      cases ho : outcome w r.restrict src p.base with
      | error u =>
        rw [ho] at hstep hn hnext
        have hnext := hnext s' fuel (by simpa [Except.toOption] using hn)
        rw [found, List.append_nil] at hnext
        simp [hsrc, hnew, hres, ho, hstep, bind, Except.bind, hnext]
      | ok file =>
        rw [ho] at hstep hn hnext
        -- Only this case takes fuel, and the visit counts for it.
        obtain ⟨fuel, rfl⟩ : ∃ k, fuel = k + 1 := ⟨fuel - 1, by simp [Except.toOption] at hn; omega⟩
        have hnext := hnext s' fuel (by simpa [Except.toOption] using hn)
        rw [found] at hnext
        simp [hsrc, hnew, hres, ho, hstep, bind, Except.bind, hnext]

/-- The visits in the closure of a document, which stands in `file`. -/
def VisitsOf (w : World) (restrict : Option Path) (file : Option Path) (root : Node) (visits : List Visit) : Prop :=
  Visits w restrict (.ofList (file.map (·.normalize.text)).toList) ((Reference.all root).map (⟨·, file, true⟩)) visits

theorem exists_visitsOf (w : World) (restrict file : Option Path) (root : Node) :
    ∃ visits, VisitsOf w restrict file root visits :=
  exists_visits_of_le le_rfl _

/-- The fuel is enough, so a run folds its step over the visits. -/
theorem VisitsOf.run_eq {file : Option Path} {root : Node} (h : VisitsOf w r.restrict file root visits) (hf : r.IsFaithful w) :
    (run w r file root step s).1 = visits.foldlM step s := by
  refine h.walk_eq hf rfl (h.countP_le.trans ?_)
  calc (unseen w _).length ≤ (w.files.filePaths w.cwd).length := List.length_filter_le _ _
    _ ≤ w.files.pathBound := w.files.length_filePaths_le w.cwd
    _ ≤ w.files.pathBound + r.memo.size := Nat.le_add_right _ _

end Closure

end MarkdownTemplates
