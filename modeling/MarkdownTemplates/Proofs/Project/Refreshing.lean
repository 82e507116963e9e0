import MarkdownTemplates.Proofs.Dict
import MarkdownTemplates.Proofs.Metadata
import MarkdownTemplates.Project.Refresh

/-!
# What a refresh leaves

What a refresh keeps under a key depends only on the first file that it looks at under that key and on what was known before.
-/

namespace MarkdownTemplates

namespace Refresh

variable {files : FileTree} {areAll : Bool} {r : Refresh} {c : String × Path} {l candidates : List (String × Path)}
  {known : Dict FileMetadata} {k : String} {p : Path} {e : FileFailure}

/-! ## Removing -/

theorem get?_remove (r : Refresh) (key k : String) :
    (r.remove key).files.get? k = if k = key then none else r.files.get? k := by
  unfold remove
  cases h : r.files.get? key with
  | none =>
    split_ifs with hk
    · rw [hk, h]
    · rfl
  | some m => exact Dict.get?_erase _ _ _

theorem get?_foldl_remove (keys : List String) (r : Refresh) (k : String) :
    (keys.foldl remove r).files.get? k = if k ∈ keys then none else r.files.get? k := by
  induction keys generalizing r with
  | nil => simp
  | cons key keys ih =>
    rw [List.foldl_cons, ih, get?_remove]
    by_cases h : k ∈ keys
    · simp [h]
    · by_cases hk : k = key <;> simp [h, hk]

/-! ## Looking at files -/

/-- What is known about a file after a look at it, when `old` was known before. -/
def looked (files : FileTree) (c : String × Path) (old : Option FileMetadata) : Option FileMetadata :=
  match FileMetadata.read files c.1 c.2 with
  | .error _ => old
  | .ok m =>
    match old with
    | none => some m
    | some old => some (if old.hash = m.hash then old.withFingerprint m.size m.modified else m)

theorem looked_of_error (h : FileMetadata.read files c.1 c.2 = .error e) (old : Option FileMetadata) : looked files c old = old := by
  rw [looked, h]

theorem get?_put (r : Refresh) (key : String) (m : FileMetadata) (k : String) :
    (r.put key m).files.get? k = if k = key then
      some (match r.files.get? key with
        | none => m
        | some old => if old.hash = m.hash then old.withFingerprint m.size m.modified else m)
      else r.files.get? k := by
  unfold put
  cases r.files.get? key with
  | none => exact Dict.get?_insert _ _ _ _
  | some old =>
    dsimp only
    by_cases h : old.hash = m.hash
    · rw [if_pos h, if_pos h]
      exact Dict.get?_insert _ _ _ _
    · rw [if_neg h, if_neg h]
      exact Dict.get?_insert _ _ _ _

theorem get?_check (r : Refresh) (c : String × Path) (k : String) :
    (check files r c).files.get? k = if k = c.1 then looked files c (r.files.get? k) else r.files.get? k := by
  unfold check looked
  cases FileMetadata.read files c.1 c.2 with
  | error e => simp
  | ok m =>
    dsimp only
    rw [get?_put]
    split_ifs with hk
    · rw [hk]
      cases r.files.get? c.1 <;> rfl
    · rfl

theorem get?_foldl_check_of_notMem (h : k ∉ l.map Prod.fst) (r : Refresh) :
    (l.foldl (check files) r).files.get? k = r.files.get? k := by
  induction l generalizing r with
  | nil => rfl
  | cons c l ih =>
    rw [List.map_cons, List.mem_cons, not_or] at h
    rw [List.foldl_cons, ih h.2, get?_check, if_neg h.1]

theorem get?_foldl_check (hn : (l.map Prod.fst).Nodup) (h : c ∈ l) (r : Refresh) :
    (l.foldl (check files) r).files.get? c.1 = looked files c (r.files.get? c.1) := by
  induction l generalizing r with
  | nil => cases h
  | cons d l ih =>
    rw [List.map_cons, List.nodup_cons] at hn
    rw [List.foldl_cons]
    rcases List.mem_cons.mp h with rfl | h
    · rw [get?_foldl_check_of_notMem hn.1, get?_check, if_pos rfl]
    · have hne : c.1 ≠ d.1 := fun hcd => hn.1 (hcd ▸ List.mem_map_of_mem h)
      rw [ih hn.2 h, get?_check, if_neg hne]

/-! ## Files that cannot be read -/

theorem errors_foldl_remove (keys : List String) (r : Refresh) : (keys.foldl remove r).errors = r.errors := by
  induction keys generalizing r with
  | nil => rfl
  | cons key keys ih =>
    rw [List.foldl_cons, ih, remove]
    cases r.files.get? key <;> rfl

theorem errors_put (r : Refresh) (key : String) (m : FileMetadata) : (r.put key m).errors = r.errors := by
  unfold put
  cases r.files.get? key with
  | none => rfl
  | some old =>
    dsimp only
    split_ifs <;> rfl

theorem mem_errors_check : e ∈ (check files r c).errors ↔ e ∈ r.errors ∨ FileMetadata.read files c.1 c.2 = .error e := by
  unfold check
  cases FileMetadata.read files c.1 c.2 with
  | error e' => simp [eq_comm]
  | ok m => simp [errors_put]

theorem mem_errors_foldl_check :
    e ∈ (l.foldl (check files) r).errors ↔ e ∈ r.errors ∨ ∃ c ∈ l, FileMetadata.read files c.1 c.2 = .error e := by
  induction l generalizing r with
  | nil => simp
  | cons c l ih => rw [List.foldl_cons, ih, mem_errors_check, List.exists_mem_cons_iff, or_assoc]

/-! ## Candidates -/

theorem nodup_firstOfKeys (l : List (String × Path)) : ((firstOfKeys l).map Prod.fst).Nodup := by
  induction l with
  | nil => exact List.nodup_nil
  | cons c l ih =>
    rw [firstOfKeys, List.map_cons, List.nodup_cons]
    refine ⟨fun h => ?_, ?_⟩
    · obtain ⟨d, hd, he⟩ := List.mem_map.mp h
      simpa [he] using (List.mem_filter.mp hd).2
    · exact ih.sublist (List.Sublist.map _ List.filter_sublist)

theorem mem_of_mem_firstOfKeys (h : c ∈ firstOfKeys l) : c ∈ l := by
  induction l with
  | nil => exact h
  | cons d l ih =>
    rw [firstOfKeys] at h
    rcases List.mem_cons.mp h with rfl | h
    · exact List.mem_cons_self
    · exact List.mem_cons_of_mem _ (ih (List.mem_filter.mp h).1)

theorem exists_mem_firstOfKeys (h : c ∈ l) : ∃ p, (c.1, p) ∈ firstOfKeys l := by
  induction l with
  | nil => cases h
  | cons d l ih =>
    rw [firstOfKeys]
    by_cases hk : c.1 = d.1
    · exact ⟨d.2, by simp [hk]⟩
    · obtain ⟨p, hp⟩ := ih ((List.mem_cons.mp h).resolve_left fun hcd => hk (by rw [hcd]))
      exact ⟨p, List.mem_cons_of_mem _ (List.mem_filter.mpr ⟨hp, by simpa using hk⟩)⟩

/-! ## The whole refresh -/

theorem eq_of_mem (h : (l.map Prod.fst).Nodup) {q : Path} (hp : (k, p) ∈ l) (hq : (k, q) ∈ l) : p = q :=
  congrArg Prod.snd (List.inj_on_of_nodup_map h hp hq rfl)

/-- What is known before files are looked at: nothing about those that are gone, and nothing about those that are no candidates
when these are all files. -/
def remaining (files : FileTree) (areAll : Bool) (candidates : List (String × Path)) (known : Dict FileMetadata) : Refresh :=
  let absent := (firstOfKeys candidates).filter fun c => !files.contains c.2
  let r : Refresh := (absent.map Prod.fst).foldl remove { files := known }
  let keys := NameSet.ofList ((firstOfKeys candidates).map Prod.fst)
  (if areAll then r.files.keys.filter fun key => !keys.contains key else []).foldl remove r

theorem run_eq (files : FileTree) (areAll : Bool) (candidates : List (String × Path)) (known : Dict FileMetadata) :
    run files areAll candidates known =
      ((firstOfKeys candidates).filter fun c => files.contains c.2).foldl (check files)
        (remaining files areAll candidates known) := by
  simp only [run, List.partition_eq_filter_filter]
  rfl

theorem get?_remaining_of_mem (h : (k, p) ∈ firstOfKeys candidates) :
    (remaining files areAll candidates known).files.get? k = if files.contains p then known.get? k else none := by
  have hs : ∀ keys : List String, k ∉ (if areAll then keys.filter fun key =>
      !(NameSet.ofList ((firstOfKeys candidates).map Prod.fst)).contains key else []) := by
    intro keys hk
    have hc := NameSet.contains_ofList.mpr (List.mem_map_of_mem (f := Prod.fst) h)
    split at hk
    · simpa [hc] using (List.mem_filter.mp hk).2
    · cases hk
  rw [remaining, get?_foldl_remove, if_neg (hs _), get?_foldl_remove]
  by_cases hp : files.contains p
  · rw [if_pos hp, if_neg]
    intro hk
    obtain ⟨⟨k', q⟩, hq, rfl⟩ := List.mem_map.mp hk
    obtain ⟨hq, hg⟩ := List.mem_filter.mp hq
    rw [eq_of_mem (nodup_firstOfKeys candidates) hq h, hp] at hg
    cases hg
  · rw [if_neg hp, if_pos]
    exact List.mem_map.mpr ⟨(k, p), List.mem_filter.mpr ⟨h, by simpa using hp⟩, rfl⟩

/-- Nothing is known about a file that is gone; otherwise the file has been looked at. -/
theorem get?_run_of_mem (h : (k, p) ∈ firstOfKeys candidates) :
    (run files areAll candidates known).files.get? k =
      if files.contains p then looked files (k, p) (known.get? k) else none := by
  rw [run_eq]
  by_cases hp : files.contains p
  · have hn : (((firstOfKeys candidates).filter fun c => files.contains c.2).map Prod.fst).Nodup :=
      (nodup_firstOfKeys candidates).sublist (List.Sublist.map _ List.filter_sublist)
    rw [get?_foldl_check hn (List.mem_filter.mpr ⟨h, hp⟩), get?_remaining_of_mem h, if_pos hp, if_pos hp]
  · rw [get?_foldl_check_of_notMem, get?_remaining_of_mem h, if_neg hp, if_neg hp]
    intro hk
    obtain ⟨⟨k', q⟩, hq, rfl⟩ := List.mem_map.mp hk
    obtain ⟨hq, hg⟩ := List.mem_filter.mp hq
    exact hp (by rw [eq_of_mem (nodup_firstOfKeys candidates) h hq]; exact hg)

/-- What is known about other files is kept, unless the candidates are all files. -/
theorem get?_run_of_notMem (h : k ∉ candidates.map Prod.fst) :
    (run files areAll candidates known).files.get? k = if areAll then none else known.get? k := by
  have hf : k ∉ (firstOfKeys candidates).map Prod.fst := by
    intro hk
    obtain ⟨c, hc, rfl⟩ := List.mem_map.mp hk
    exact h (List.mem_map_of_mem (mem_of_mem_firstOfKeys hc))
  have hs : ∀ f : String × Path → Bool, k ∉ ((firstOfKeys candidates).filter f).map Prod.fst :=
    fun f hk => hf (List.Sublist.mem hk (List.Sublist.map _ List.filter_sublist))
  have hr : ∀ f : String × Path → Bool, ((((firstOfKeys candidates).filter f).map Prod.fst).foldl remove
      { files := known }).files.get? k = known.get? k := fun f => by rw [get?_foldl_remove, if_neg (hs f)]
  rw [run_eq, get?_foldl_check_of_notMem (hs _), remaining, get?_foldl_remove, hr]
  cases areAll with
  | false => simp
  | true =>
    cases hk : known.get? k with
    | none => simp
    | some m =>
      have hc : (NameSet.ofList ((firstOfKeys candidates).map Prod.fst)).contains k = false := by
        rw [Bool.eq_false_iff]
        exact fun h => hf (NameSet.contains_ofList.mp h)
      rw [if_pos rfl, if_pos rfl, if_pos]
      refine List.mem_filter.mpr ⟨Dict.mem_keys.mpr (Dict.contains_iff.mpr ⟨m, ?_⟩), by simp [hc]⟩
      rw [hr, hk]

/-! ## Induction on a refresh -/

section Induction

variable {P : Refresh → Prop} (named : Refresh → List String)

/-- What is kept by every step that comes to a key for the first time is kept by steps that come to no key twice. -/
theorem foldl_fresh {α : Type} {step : Refresh → α → Refresh} (keyOf : α → String)
    (hstep : ∀ r a, P r → keyOf a ∉ named r → P (step r a)) (hnamed : ∀ r a, named (step r a) ⊆ keyOf a :: named r) {l : List α}
    (hn : (l.map keyOf).Nodup) (h : P r) (hl : ∀ a ∈ l, keyOf a ∉ named r) :
    P (l.foldl step r) ∧ named (l.foldl step r) ⊆ l.map keyOf ++ named r := by
  induction l generalizing r with
  | nil => exact ⟨h, List.Subset.refl _⟩
  | cons a l ih =>
    rw [List.map_cons, List.nodup_cons] at hn
    rw [List.forall_mem_cons] at hl
    have hfresh : ∀ b ∈ l, keyOf b ∉ named (step r a) := by
      intro b hb hm
      rcases List.mem_cons.mp (hnamed r a hm) with he | hm
      · exact hn.1 (he ▸ List.mem_map_of_mem hb)
      · exact hl.2 b hb hm
    obtain ⟨hkept, hsub⟩ := ih hn.2 (hstep r a h hl.1) hfresh
    refine ⟨hkept, fun k hk => ?_⟩
    rw [List.map_cons, List.cons_append, List.mem_cons, List.mem_append]
    rcases List.mem_append.mp (hsub hk) with hk | hk
    · exact .inr (.inl hk)
    · exact (List.mem_cons.mp (hnamed r a hk)).imp_right .inr

/-- A refresh comes to no key twice: it keeps what its steps keep when they come to a key for the first time. -/
theorem run_induction (hstart : P { files := known }) (hnone : named { files := known } = [])
    (hremove : ∀ r key, P r → key ∉ named r → P (r.remove key)) (hremoved : ∀ r key, named (r.remove key) ⊆ key :: named r)
    (hcheck : ∀ r c, P r → c.1 ∉ named r → P (check files r c)) (hchecked : ∀ r c, named (check files r c) ⊆ c.1 :: named r) :
    P (run files areAll candidates known) := by
  set first := firstOfKeys candidates with hfirst
  have hnodup : ∀ f, ((first.filter f).map Prod.fst).Nodup :=
    fun f => (nodup_firstOfKeys candidates).sublist (List.Sublist.map _ List.filter_sublist)
  -- Files that are gone are removed first.
  set r₀ : Refresh := ((first.filter fun c => !files.contains c.2).map Prod.fst).foldl Refresh.remove { files := known } with hr₀
  obtain ⟨habsent, hnamed⟩ : P r₀ ∧ named r₀ ⊆ (first.filter fun c => !files.contains c.2).map Prod.fst := by
    have h := foldl_fresh named id hremove hremoved (by simpa using hnodup fun c => !files.contains c.2) hstart (by simp [hnone])
    simpa [hnone] using h
  -- Then those are removed that are no candidates.
  have hstale : ∀ k ∈ (if areAll then r₀.files.keys.filter fun key => !(NameSet.ofList (first.map Prod.fst)).contains key
      else []), k ∉ first.map Prod.fst := by
    intro k hk hm
    split at hk
    · simpa [NameSet.contains_ofList.mpr hm] using (List.mem_filter.mp hk).2
    · cases hk
  obtain ⟨hremaining, hnamed'⟩ := foldl_fresh named id hremove hremoved
    (l := if areAll then r₀.files.keys.filter fun key => !(NameSet.ofList (first.map Prod.fst)).contains key else [])
    (by
      rw [List.map_id]
      split
      · exact r₀.files.nodup_keys.filter _
      · exact List.nodup_nil)
    habsent
    (fun k hk hm => hstale k hk (List.Sublist.mem (hnamed hm) (List.Sublist.map _ List.filter_sublist)))
  -- Last come the files that are there.
  rw [run_eq]
  refine (foldl_fresh named Prod.fst hcheck hchecked (hnodup fun c => files.contains c.2) hremaining fun c hc hm => ?_).1
  obtain ⟨hc, hthere⟩ := List.mem_filter.mp hc
  rcases List.mem_append.mp (hnamed' hm) with hm | hm
  · exact hstale c.1 (by simpa using hm) (List.mem_map_of_mem hc)
  · obtain ⟨d, hd, hk⟩ := List.mem_map.mp (hnamed hm)
    obtain ⟨hd, habsent⟩ := List.mem_filter.mp hd
    rw [List.inj_on_of_nodup_map (nodup_firstOfKeys candidates) hd hc hk] at habsent
    simp [hthere] at habsent

end Induction

/-- The errors of a refresh are those of the files that are there and cannot be read. -/
theorem mem_errors_run : e ∈ (run files areAll candidates known).errors ↔
    ∃ c ∈ firstOfKeys candidates, files.contains c.2 = true ∧ FileMetadata.read files c.1 c.2 = .error e := by
  have hnone : (remaining files areAll candidates known).errors = [] := by
    rw [remaining, errors_foldl_remove, errors_foldl_remove]
  rw [run_eq, mem_errors_foldl_check, hnone]
  simp [and_assoc]

theorem exists_read_of_run (h : (run files areAll candidates known).errors = []) (hc : c ∈ firstOfKeys candidates)
    (hp : files.contains c.2 = true) : ∃ m, FileMetadata.read files c.1 c.2 = .ok m := by
  cases hr : FileMetadata.read files c.1 c.2 with
  | error e =>
    have he : e ∈ (run files areAll candidates known).errors := mem_errors_run.mpr ⟨c, hc, hp, hr⟩
    rw [h] at he
    cases he
  | ok m => exact ⟨m, rfl⟩

end Refresh

end MarkdownTemplates
