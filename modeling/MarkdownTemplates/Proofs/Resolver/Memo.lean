import MarkdownTemplates.Proofs.Path.Normal
import MarkdownTemplates.Proofs.Resolver.Sandbox

/-!
# What a resolver remembers

A resolver remembers what it first reads from a file, until it is told to forget it. Whatever is asked in between, and whatever
becomes of the files, it answers with that document and does not read the file again. What cannot be resolved is not remembered.
-/

namespace MarkdownTemplates

namespace Resolver

variable {w : World} {r : Resolver} {src : String} {base restrict : Option Path} {p q : Path} {d : Document} {file : ResolvedFile}
  {u : Unresolved} {calls before later : List Call} {c : Call}

/-! ## One call -/

/-- What a resolver answers when it is asked for the file `p`, and what becomes of the resolver. -/
inductive Answers (w : World) (r : Resolver) (p : Path) : Except Unresolved ResolvedFile × Resolver → Prop
  | denied : r.allows w.cwd p = false → Answers w r p (.error (.outside p (r.restrict.getD ⟨""⟩)), r)
  | remembered {d : Document} : r.allows w.cwd p = true → r.memo.get? p.text = some d → Answers w r p (.ok ⟨p, d⟩, r)
  | failed {e : FileError} : r.allows w.cwd p = true → r.memo.get? p.text = none →
      w.files.readText (w.cwd.join p) = .error e → Answers w r p (.error (.ofFileError p e), r)
  | read {text : String} : r.allows w.cwd p = true → r.memo.get? p.text = none →
      w.files.readText (w.cwd.join p) = .ok text →
      Answers w r p (.ok ⟨p, .parse text.toList⟩, { r with memo := r.memo.insert p.text (.parse text.toList) })

theorem answers_resolve (w : World) (r : Resolver) (src : String) (base : Option Path) :
    Answers w r (resolvePath w.cwd src base) (r.resolve w src base) := by
  rw [resolve]
  cases ha : r.allows w.cwd (resolvePath w.cwd src base) with
  | false => exact .denied ha
  | true =>
    cases hm : r.memo.get? (resolvePath w.cwd src base).text with
    | some d => simpa [ha, hm] using Answers.remembered ha hm
    | none =>
      cases ht : w.files.readText (w.cwd.join (resolvePath w.cwd src base)) with
      | error e => simpa [ha, hm, ht] using Answers.failed ha hm ht
      | ok text => simpa [ha, hm, ht] using Answers.read ha hm ht

theorem resolve_eq_ok (h : (r.resolve w src base).1 = .ok file) :
    file.path = resolvePath w.cwd src base ∧ (r.resolve w src base).2.memo.get? file.path.text = some file.document := by
  rcases hr : r.resolve w src base with ⟨answer, r'⟩
  have ha := answers_resolve w r src base
  rw [hr] at h ha
  obtain rfl : answer = .ok file := h
  cases ha with
  | remembered _ hm => exact ⟨rfl, hm⟩
  | read => exact ⟨rfl, Dict.get?_insert_self ..⟩

/-- What a call adds to what is remembered, it has just read for its answer. -/
theorem exists_of_get?_memo_resolve (hnew : r.memo.get? q.text = none)
    (h : (r.resolve w src base).2.memo.get? q.text = some d) :
    (r.resolve w src base).1 = .ok ⟨q, d⟩ ∧ ∃ text, w.files.readText (w.cwd.join q) = .ok text ∧ d = .parse text.toList := by
  rcases hr : r.resolve w src base with ⟨answer, r'⟩
  have ha := answers_resolve w r src base
  rw [hr] at h ha
  cases ha with
  | denied => simp [hnew] at h
  | remembered => simp [hnew] at h
  | failed => simp [hnew] at h
  | read _ _ ht =>
    rw [Dict.get?_insert] at h
    split_ifs at h with hq
    · obtain rfl : q = resolvePath w.cwd src base := congrArg Path.mk hq
      obtain rfl := Option.some.inj h
      exact ⟨rfl, _, ht, rfl⟩
    · simp [hnew] at h

theorem get?_memo_resolve (h : r.memo.get? q.text = some d) : (r.resolve w src base).2.memo.get? q.text = some d := by
  rcases hr : r.resolve w src base with ⟨answer, r'⟩
  have ha := answers_resolve w r src base
  rw [hr] at ha
  cases ha with
  | denied => exact h
  | remembered => exact h
  | failed => exact h
  | read _ hm _ =>
    refine (Dict.get?_insert ..).trans ?_
    rw [if_neg (fun hq => by simp [← hq, h] at hm)]
    exact h

theorem resolve_of_error (h : (r.resolve w src base).1 = .error u) : (r.resolve w src base).2 = r := by
  rcases hr : r.resolve w src base with ⟨answer, r'⟩
  have ha := answers_resolve w r src base
  rw [hr] at h ha
  obtain rfl : answer = .error u := h
  cases ha <;> rfl

theorem resolve_of_get?_eq_none (h : r.memo.get? (resolvePath w.cwd src base).text = none) :
    (r.resolve w src base).1 = outcome w r.restrict src base := by
  have hallows : (Resolver.mk r.restrict ∅).allows w.cwd = r.allows w.cwd := rfl
  simp only [outcome, resolve, h, hallows, Dict.get?_empty]
  split_ifs
  · cases w.files.readText (w.cwd.join (resolvePath w.cwd src base)) <;> rfl
  · rfl

theorem resolve_of_get?_eq_some (h : r.memo.get? (resolvePath w.cwd src base).text = some d) (files : FileTree) :
    (r.resolve { w with files } src base).1 = (r.resolve w src base).1 := by
  simp only [resolve, h]

/-! ## Many calls -/

/-- The resolver after calls, when it starts without a document. -/
def after (restrict : Option Path) (calls : List Call) : Resolver := calls.foldl Call.run { restrict }

theorem after_concat (restrict : Option Path) (calls : List Call) (c : Call) :
    after restrict (calls ++ [c]) = c.run (after restrict calls) := List.foldl_concat ..

namespace Call

def Forgets (p : Path) : Call → Prop
  | .resolve _ _ _ => False
  | .invalidate q => q.normalize = p
  | .clear => True

def Resolves (r : Resolver) (p : Path) (d : Document) : Call → Prop
  | .resolve w src base => (r.resolve w src base).1 = .ok ⟨p, d⟩
  | .invalidate _ => False
  | .clear => False

/-- Does a resolver read the file `p` for its answer, so that the answer would be another one if the files were? -/
def Reads (r : Resolver) (p : Path) : Call → Prop
  | .resolve w src base => (∃ d, (r.resolve w src base).1 = .ok ⟨p, d⟩) ∧
      ∃ files, (r.resolve { w with files } src base).1 ≠ (r.resolve w src base).1
  | .invalidate _ => False
  | .clear => False

theorem restrict_run (r : Resolver) (c : Call) : (c.run r).restrict = r.restrict := by
  cases c with
  | resolve w src base => exact restrict_resolve
  | invalidate p => rfl
  | clear => rfl

theorem get?_memo_run_of_forgets (h : c.Forgets q) : (c.run r).memo.get? q.text = none := by
  cases c with
  | resolve w src base => cases h
  | invalidate p =>
    obtain rfl : p.normalize = q := h
    exact (Dict.get?_erase ..).trans (if_pos rfl)
  | clear => rfl

theorem get?_memo_run_of_some (h : ¬ c.Forgets q) (hd : r.memo.get? q.text = some d) : (c.run r).memo.get? q.text = some d := by
  cases c with
  | resolve w src base => exact get?_memo_resolve hd
  | invalidate p =>
    have hne : q.text ≠ p.normalize.text := fun he => h (congrArg Path.mk he.symm)
    exact (Dict.get?_erase ..).trans (by rw [if_neg hne, hd])
  | clear => exact absurd trivial h

/-- A call adds to what is remembered only the document with which it is answered, and which it reads. -/
theorem exists_of_get?_memo_run (hnew : r.memo.get? q.text = none) (h : (c.run r).memo.get? q.text = some d) :
    c.Resolves r q d ∧ ∃ w src base text, c = .resolve w src base ∧ w.files.readText (w.cwd.join q) = .ok text ∧
      d = .parse text.toList := by
  cases c with
  | resolve w src base =>
    obtain ⟨hr, text, ht, hd⟩ := exists_of_get?_memo_resolve hnew h
    exact ⟨hr, w, src, base, text, rfl, ht, hd⟩
  | invalidate p =>
    have hget := (Dict.get?_erase ..).symm.trans h
    split_ifs at hget
    rw [hnew] at hget
    cases hget
  | clear => cases h

theorem Resolves.get?_memo_run (h : c.Resolves r q d) : (c.run r).memo.get? q.text = some d := by
  cases c with
  | resolve w src base => exact (resolve_eq_ok h).2
  | invalidate p => cases h
  | clear => cases h

/-- A call reads the file with which it is answered exactly when nothing is remembered of it. -/
theorem reads_iff : c.Reads r q ↔ (∃ d, c.Resolves r q d) ∧ r.memo.get? q.text = none := by
  cases c with
  | resolve w src base =>
    refine and_congr_right fun ⟨d, hd⟩ => ?_
    obtain rfl : q = resolvePath w.cwd src base := (resolve_eq_ok hd).1
    constructor
    · rintro ⟨files, hne⟩
      rw [Option.eq_none_iff_forall_ne_some]
      exact fun d' hd' => hne (resolve_of_get?_eq_some hd' files)
    · -- Without any file, there is no answer.
      refine fun hnew => ⟨{}, fun he => ?_⟩
      have hempty : outcome { w with files := {} } r.restrict src base = .ok ⟨_, d⟩ :=
        (resolve_of_get?_eq_none (w := { w with files := {} }) hnew).symm.trans (he.trans hd)
      obtain ⟨-, text, ht, -⟩ := outcome_eq_ok hempty
      obtain ⟨bytes, hbytes, -⟩ := FileTree.readText_eq_ok.mp ht
      obtain ⟨place, modified, -, hp⟩ := FileTree.readBytes_eq_ok.mp hbytes
      rw [FileTree.lookup?, Dict.get?_empty] at hp
      split_ifs at hp
      cases hp
  | invalidate p => exact ⟨False.elim, fun h => h.1.elim fun _ => id⟩
  | clear => exact ⟨False.elim, fun h => h.1.elim fun _ => id⟩

end Call

theorem restrict_after (restrict : Option Path) (calls : List Call) : (after restrict calls).restrict = restrict := by
  induction calls using List.reverseRecOn with
  | nil => rfl
  | append_singleton calls c ih => rw [after_concat, Call.restrict_run, ih]

/-- Was `p` resolved by one of the calls, and not forgotten since? -/
def IsKept (restrict : Option Path) (calls : List Call) (p : Path) : Prop :=
  ∃ before c later, calls = before ++ c :: later ∧ (∃ d, c.Resolves (after restrict before) p d) ∧ ∀ c ∈ later, ¬ c.Forgets p

theorem isKept_concat : IsKept restrict (calls ++ [c]) p ↔
    (∃ d, c.Resolves (after restrict calls) p d) ∨ IsKept restrict calls p ∧ ¬ c.Forgets p := by
  constructor
  · rintro ⟨before, c', later, hsplit, hd, hlater⟩
    rcases List.eq_nil_or_concat later with rfl | ⟨later, c'', rfl⟩
    · obtain ⟨rfl, hc⟩ := List.append_inj' hsplit rfl
      obtain rfl := List.singleton_inj.mp hc
      exact .inl hd
    · obtain ⟨rfl, hc⟩ := List.append_inj' (hsplit.trans (by simp : _ = (before ++ c' :: later) ++ [c''])) rfl
      obtain rfl := List.singleton_inj.mp hc
      exact .inr ⟨⟨before, c', later, rfl, hd, fun c hc => hlater c (by simp [hc])⟩, hlater c (by simp)⟩
  · rintro (hd | ⟨⟨before, c', later, rfl, hd, hlater⟩, hc⟩)
    · exact ⟨calls, c, [], rfl, hd, by simp⟩
    · refine ⟨before, c', later ++ [c], by simp, hd, fun c'' hm => ?_⟩
      rcases List.mem_append.mp hm with hm | hm
      · exact hlater c'' hm
      · exact List.mem_singleton.mp hm ▸ hc

/-- Do the calls split at the first one that resolves `p` since `p` was last forgotten? -/
structure IsFirstSince (restrict : Option Path) (calls : List Call) (p : Path) (before : List Call) (c : Call)
    (later : List Call) : Prop where
  split : calls = before ++ c :: later
  resolves : ∃ d, c.Resolves (after restrict before) p d
  kept : ∀ c ∈ later, ¬ c.Forgets p
  first : ¬ IsKept restrict before p

/-- A resolver remembers exactly what is kept. -/
theorem isKept_iff : IsKept restrict calls p ↔ ∃ d, (after restrict calls).memo.get? p.text = some d := by
  induction calls using List.reverseRecOn with
  | nil => simp [IsKept, after]
  | append_singleton calls c ih =>
    rw [isKept_concat, ih, after_concat]
    constructor
    · rintro (⟨d, hd⟩ | ⟨⟨d, hd⟩, hc⟩)
      · exact ⟨d, hd.get?_memo_run⟩
      · exact ⟨d, Call.get?_memo_run_of_some hc hd⟩
    · rintro ⟨d, hd⟩
      have hc : ¬ c.Forgets p := fun hc => by simp [Call.get?_memo_run_of_forgets hc] at hd
      cases hold : (after restrict calls).memo.get? p.text with
      | some d' => exact .inr ⟨⟨d', rfl⟩, hc⟩
      | none => exact .inl ⟨d, (Call.exists_of_get?_memo_run hold hd).1⟩

/-- What is remembered of a file is what the first call that resolved it found there. -/
theorem exists_isFirstSince (h : (after restrict calls).memo.get? p.text = some d) :
    ∃ before w src base later text, IsFirstSince restrict calls p before (.resolve w src base) later ∧
      w.files.readText (w.cwd.join p) = .ok text ∧ d = .parse text.toList := by
  induction calls using List.reverseRecOn with
  | nil => simp [after] at h
  | append_singleton calls c ih =>
    rw [after_concat] at h
    have hc : ¬ c.Forgets p := fun hc => by simp [Call.get?_memo_run_of_forgets hc] at h
    cases hold : (after restrict calls).memo.get? p.text with
    | some d' =>
      obtain rfl : d' = d := Option.some.inj ((Call.get?_memo_run_of_some hc hold).symm.trans h)
      obtain ⟨before, w, src, base, later, text, hfirst, ht⟩ := ih hold
      refine ⟨before, w, src, base, later ++ [c], text,
        ⟨by simp [hfirst.split], hfirst.resolves, fun c' hm => ?_, hfirst.first⟩, ht⟩
      rcases List.mem_append.mp hm with hm | hm
      · exact hfirst.kept c' hm
      · exact List.mem_singleton.mp hm ▸ hc
    | none =>
      obtain ⟨hd, w, src, base, text, rfl, ht⟩ := Call.exists_of_get?_memo_run hold h
      have hnew : ¬ IsKept restrict calls p := by simp [isKept_iff, hold]
      exact ⟨calls, w, src, base, [], text, ⟨rfl, ⟨d, hd⟩, by simp, hnew⟩, ht⟩

theorem get?_memo_eq_none_iff : (after restrict calls).memo.get? p.text = none ↔ ¬ IsKept restrict calls p := by
  rw [isKept_iff, Option.eq_none_iff_forall_ne_some, not_exists]

theorem IsKept.exists_normalize (h : IsKept restrict calls p) : ∃ q : Path, p = q.normalize := by
  obtain ⟨before, c, later, -, ⟨d, hd⟩, -⟩ := h
  cases c with
  | resolve w src base =>
    obtain ⟨q, hq⟩ := exists_normalize_resolvePath w.cwd src base
    exact ⟨q, (resolve_eq_ok hd).1.trans hq⟩
  | invalidate p => cases hd
  | clear => cases hd

theorem mem_cachedPaths_iff {r : Resolver} : p ∈ r.cachedPaths ↔ ∃ d, r.memo.get? p.text = some d := by
  rw [cachedPaths, List.mem_mergeSort, List.mem_map]
  constructor
  · rintro ⟨key, hkey, rfl⟩
    exact Dict.contains_iff.mp (Dict.mem_keys.mp hkey)
  · intro h
    exact ⟨p.text, Dict.mem_keys.mpr (Dict.contains_iff.mpr h), rfl⟩

theorem mem_cachedPaths : p ∈ (after restrict calls).cachedPaths ↔ IsKept restrict calls p := by
  rw [mem_cachedPaths_iff, isKept_iff]

theorem pairwise_cachedPaths (restrict : Option Path) (calls : List Call) :
    (after restrict calls).cachedPaths.Pairwise fun p q => p.before q = true := by
  have hkept : ∀ p ∈ (after restrict calls).memo.keys.map Path.mk, ∃ q : Path, p = q.normalize :=
    fun p hp => (mem_cachedPaths.mp (List.mem_mergeSort.mpr hp)).exists_normalize
  refine Path.pairwise_before_mergeSort ?_ fun p hp q hq he => ?_
  · exact (after restrict calls).memo.nodup_keys.map fun _ _ he => congrArg Path.text he
  · obtain ⟨p', rfl⟩ := hkept p hp
    obtain ⟨q', rfl⟩ := hkept q hq
    exact Path.normalize_eq_of_positions he

/-- Does a resolver answer, after any calls, with what it read first? -/
structure RemembersFirstReads (restrict : Option Path) (calls : List Call) : Prop where
  /-- A file is resolved to the document that the first call for it found since it was forgotten, perhaps this very call. -/
  resolved : ∀ w src base file, ((after restrict calls).resolve w src base).1 = .ok file →
    file.path = resolvePath w.cwd src base ∧ ∃ before w₀ src₀ base₀ later text,
      IsFirstSince restrict (calls ++ [.resolve w src base]) file.path before (.resolve w₀ src₀ base₀) later ∧
        w₀.files.readText (w₀.cwd.join file.path) = .ok text ∧ file.document = .parse text.toList
  /-- What cannot be resolved leaves no trace. -/
  failed : ∀ w src base u, ((after restrict calls).resolve w src base).1 = .error u →
    ((after restrict calls).resolve w src base).2 = after restrict calls
  /-- A file that is not kept is resolved as by a resolver without documents. -/
  retried : ∀ w src base, ¬ IsKept restrict calls (resolvePath w.cwd src base) →
    ((after restrict calls).resolve w src base).1 = outcome w restrict src base
  /-- The files that are kept are listed in the order of their paths. -/
  sorted : (after restrict calls).cachedPaths.Pairwise fun p q => p.before q = true
  mem_cachedPaths : ∀ p, p ∈ (after restrict calls).cachedPaths ↔ IsKept restrict calls p
  /-- A file that was resolved is not read again before it is forgotten. -/
  read_once : ∀ p before c between c' later, calls = before ++ c :: (between ++ c' :: later) →
    (∃ d, c.Resolves (after restrict before) p d) → c'.Reads (after restrict (before ++ c :: between)) p →
    ∃ c ∈ between, c.Forgets p
  /-- To be forgotten, a file is named by the path to which it was resolved. -/
  invalidated : ∀ cwd src base p, (Call.invalidate (resolvePath cwd src base)).Forgets p ↔ resolvePath cwd src base = p

/-- From the start on, a resolver answers with what it read first. -/
theorem remembersFirstReads (restrict : Option Path) (calls : List Call) : RemembersFirstReads restrict calls where
  resolved w src base file h := by
    have hmemo := (resolve_eq_ok h).2
    have hafter : after restrict (calls ++ [.resolve w src base]) = ((after restrict calls).resolve w src base).2 :=
      after_concat ..
    rw [← hafter] at hmemo
    exact ⟨(resolve_eq_ok h).1, exists_isFirstSince hmemo⟩
  failed w src base u := resolve_of_error
  retried w src base h := by
    have hnone := resolve_of_get?_eq_none (get?_memo_eq_none_iff.mpr h)
    rwa [restrict_after] at hnone
  sorted := pairwise_cachedPaths restrict calls
  mem_cachedPaths _ := mem_cachedPaths
  read_once p before c between c' later _ hc hc' := by
    have hnone := get?_memo_eq_none_iff.mp (Call.reads_iff.mp hc').2
    by_contra hkept
    exact hnone ⟨before, c, between, rfl, hc, fun c hm hf => hkept ⟨c, hm, hf⟩⟩
  invalidated cwd src base p := by
    obtain ⟨q, hq⟩ := exists_normalize_resolvePath cwd src base
    rw [Call.Forgets, hq, Path.normalize_normalize]

end Resolver

end MarkdownTemplates
