import MarkdownTemplates.Proofs.Project.Run

/-!
# Invariants of runs

What holds of every snapshot that a scan makes, and is kept by refreshes, holds of all snapshots of a run, those in memory and those
in the file. The other operations only take over snapshots that are there.
-/

namespace MarkdownTemplates

variable {root : Path} {moments past : List Moment} {m : Moment} {now : Nat} {s : Snapshot} {assumed : List Moment → Prop}
  {P : List Moment → Snapshot → Prop} {Q : Snapshot → Prop}

/-- A property of snapshots, which may speak of the moments of the run so far and rest on what is assumed of them. -/
structure IsInvariant (root : Path) (assumed : List Moment → Prop) (P : List Moment → Snapshot → Prop) : Prop where
  assumed_of_subset : ∀ {moments moments'}, moments ⊆ moments' → assumed moments' → assumed moments
  mono : ∀ {moments moments' s}, moments ⊆ moments' → P moments s → P moments' s
  scan : ∀ {moments a now s}, a ∈ moments → (a.project root).scan now a.state.files = .ok s → P moments s
  refresh : ∀ {moments a now areAll candidates s}, assumed moments → a ∈ moments → (∀ q ∈ candidates, a.LooksAt root q) →
    P moments s → P moments (s.withFiles now ((a.project root).lookAt areAll candidates a.state.files s).files)

/-! ## Operations -/

namespace Moment

/-- A snapshot that is read from the file has the property. -/
theorem Keeps.persisted (h : m.Keeps root Q) (hp : (m.project root).persisted m.state.files = .ok (some s)) : Q s := by
  obtain ⟨text, ht, hs⟩ := Project.persisted_eq_some.mp hp
  obtain ⟨s₀, hs₀, rfl⟩ := h.stored text ht
  rwa [Snapshot.eq_of_decode?_encode hs]

theorem rebuild_memory (hi : IsInvariant root assumed P) (hs : m.Keeps root (P moments)) (hm : m ∈ moments)
    (h : (m.after ((m.project root).rebuild now m.state)).state.snapshot = some s) : P moments s := by
  rcases hr : (m.project root).rebuild now m.state with ⟨e | s', state⟩
  · simp only [after, hr, Project.snapshot_of_rebuild_error hr] at h
    exact hs.memory s h
  · obtain ⟨hscan, -, hmem⟩ := Project.rebuild_eq_ok hr
    simp only [after, hr, hmem, Option.some.injEq] at h
    exact hi.scan hm (h ▸ hscan)

theorem rebuild_stores {text : String} (hf : (m.after ((m.project root).rebuild now m.state)).isFinished = true)
    (ht : (m.after ((m.project root).rebuild now m.state)).Stores root text) :
    ∃ s, (m.after ((m.project root).rebuild now m.state)).state.snapshot = some s ∧ text = s.encode := by
  rcases hr : (m.project root).rebuild now m.state with ⟨e | s', state⟩
  · simp [after, hr, Except.toBool] at hf
  · obtain ⟨-, hsave, hmem⟩ := Project.rebuild_eq_ok hr
    rw [hr] at ht
    exact ⟨s', hmem, Project.eq_of_readText_save hsave ht⟩

theorem obtain_memory {checkFiles : Bool} (hi : IsInvariant root assumed P) (hs : m.Keeps root (P moments)) (hm : m ∈ moments)
    (h : (m.after ((m.project root).obtain now checkFiles m.state)).state.snapshot = some s) : P moments s := by
  rcases Project.obtain_cases (m.project root) now checkFiles m.state with ⟨s', -, ho⟩ | ⟨s', -, hl, ho⟩ | ⟨-, -, ho⟩
  · rw [ho] at h
    exact hs.memory s h
  · rw [ho] at h
    cases h
    exact hs.persisted (Project.persisted_of_load? hl).1
  · rw [ho] at h
    exact rebuild_memory hi hs hm h

theorem obtain_stores {checkFiles : Bool} {text : String}
    (hf : (m.after ((m.project root).obtain now checkFiles m.state)).isFinished = true)
    (ht : (m.after ((m.project root).obtain now checkFiles m.state)).Stores root text) : m.Stores root text ∨
      ∃ s, (m.after ((m.project root).obtain now checkFiles m.state)).state.snapshot = some s ∧ text = s.encode := by
  rcases Project.obtain_cases (m.project root) now checkFiles m.state with ⟨s', -, ho⟩ | ⟨s', -, -, ho⟩ | ⟨-, -, ho⟩
  · rw [ho] at ht
    exact .inl ht
  · rw [ho] at ht
    exact .inl ht
  · rw [ho] at hf ht ⊢
    exact .inr (rebuild_stores hf ht)

theorem between_looksAt {targets : Option (List Path)} {candidates : List Path}
    (hc : (m.project root).candidates targets (m.between root now targets).state.files = .ok candidates) :
    ∀ q ∈ candidates, (m.between root now targets).LooksAt root q := by
  intro q hq
  cases targets with
  | none => exact .inr ⟨candidates, hc, hq⟩
  | some targets =>
    cases hc
    exact .inl hq

theorem refresh_memory {targets : Option (List Path)} (hi : IsInvariant root assumed P) (hc : assumed moments)
    (hs : (m.between root now targets).Keeps root (P moments)) (hm : m.between root now targets ∈ moments)
    (h : (m.after ((m.project root).refresh now targets m.state)).state.snapshot = some s) : P moments s := by
  rcases hr : (m.project root).refresh now targets m.state with ⟨r, state'⟩
  rw [hr] at h
  have hmid : ∀ {r mid}, (m.project root).obtain now false m.state = (r, mid) →
      (m.between root now targets).state = mid := fun ho => congrArg Prod.snd ho
  rcases Project.snapshot_of_refresh hr h with ⟨e, ho⟩ | ⟨s₀, mid, candidates, ho, hcand, rfl⟩
  · exact hs.memory s (by rw [hmid ho]; exact h)
  · have hs₀ := hs.memory s₀ (by rw [hmid ho]; exact Project.snapshot_of_obtain ho)
    rw [← hmid ho] at hcand ⊢
    exact hi.refresh hc hm (between_looksAt hcand) hs₀

theorem refresh_stores {targets : Option (List Path)} {text : String}
    (hf : (m.after ((m.project root).refresh now targets m.state)).isFinished = true)
    (ht : (m.after ((m.project root).refresh now targets m.state)).Stores root text) :
    ∃ s, (m.after ((m.project root).refresh now targets m.state)).state.snapshot = some s ∧ text = s.encode := by
  obtain ⟨s, hmem, hsave⟩ := Project.exists_saved m root now targets hf
  exact ⟨s, hmem, Project.eq_of_readText_save hsave ht⟩

theorem clear_stores {text : String} (ht : (m.after ((m.project root).clear m.state)).Stores root text) :
    m.Stores root text := by
  rcases Project.clear_cases (m.project root) m.state with ⟨files, hr, hc⟩ | ⟨r, hc⟩
  · rw [hc] at ht
    exact FileTree.readText_mono (FileTree.lookup?_of_remove hr) ht
  · rw [hc] at ht
    exact ht

theorem clear_memory : (m.after ((m.project root).clear m.state)).state.snapshot = none := by
  rcases Project.clear_cases (m.project root) m.state with ⟨files, -, hc⟩ | ⟨r, hc⟩
  · rw [hc]
    rfl
  · rw [hc]
    rfl

end Moment

/-! ## Runs -/

namespace IsInvariant

/-- A moment is as it should be when its snapshot in memory is, and when the text in the file is an old one or that of the
snapshot. -/
theorem cons (hi : IsInvariant root assumed P) (hpast : ∀ a ∈ past, a.Keeps root (P past))
    (hw : OnlyManagersWrite root (m :: past)) (hm : ∀ s, m.state.snapshot = some s → P past s)
    (ht : m.isFinished = true → ∀ text, m.Stores root text →
      (∃ a ∈ past, a.Stores root text) ∨ ∃ s, m.state.snapshot = some s ∧ text = s.encode) :
    ∀ a ∈ m :: past, a.Keeps root (P (m :: past)) := by
  have hsub : past ⊆ m :: past := List.subset_cons_self m past
  have hold : ∀ text, (∃ a ∈ past, a.Stores root text) → ∃ s, P (m :: past) s ∧ text = s.encode := by
    rintro text ⟨a, ha, ht⟩
    obtain ⟨s, hs, rfl⟩ := (hpast a ha).stored text ht
    exact ⟨s, hi.mono hsub hs, rfl⟩
  intro a ha
  rcases List.mem_cons.mp ha with rfl | ha
  · refine ⟨fun s hs => hi.mono hsub (hm s hs), fun text htext => ?_⟩
    cases hf : a.isFinished with
    | false => exact hold text (hw.1 hf text htext)
    | true =>
      rcases ht hf text htext with h | ⟨s, hs, rfl⟩
      · exact hold text h
      · exact ⟨s, hi.mono hsub (hm s hs), rfl⟩
  · exact (hpast a ha).imp fun s => hi.mono hsub

theorem between {targets : Option (List Path)} (hi : IsInvariant root assumed P)
    (hpast : ∀ a ∈ m :: past, a.Keeps root (P (m :: past)))
    (hw : OnlyManagersWrite root (m.between root now targets :: m :: past)) :
    ∀ a ∈ m.between root now targets :: m :: past, a.Keeps root (P (m.between root now targets :: m :: past)) := by
  refine hi.cons hpast hw (fun s hs => ?_) fun hf text ht => ?_
  · exact Moment.obtain_memory hi (hpast m List.mem_cons_self) List.mem_cons_self hs
  · exact (Moment.obtain_stores hf ht).imp_left fun ht => ⟨m, List.mem_cons_self, ht⟩

/-- In a run in which only managers write the snapshot, all snapshots have the property. -/
theorem keeps (hi : IsInvariant root assumed P) (h : Run root moments) (hw : OnlyManagersWrite root moments)
    (hc : assumed moments) : ∀ a ∈ moments, a.Keeps root (P moments) := by
  induction h with
  | start options files =>
    refine hi.cons (by simp) hw (fun s hs => ?_) fun hf => ?_
    · cases hs
    · cases hf
  | @edit m past files _ ih =>
    have hpast := ih hw.2 (hi.assumed_of_subset (List.subset_cons_self _ _) hc)
    -- The memory stays as it was, and no manager has finished its work.
    refine hi.cons hpast hw (fun s hs => (hpast m List.mem_cons_self).memory s hs) fun hf => ?_
    cases hf
  | manager options _ ih =>
    refine hi.cons (ih hw.2 (hi.assumed_of_subset (List.subset_cons_self _ _) hc)) hw (fun s hs => ?_) fun hf => ?_
    · cases hs
    · cases hf
  | @get m past now _ ih =>
    have hpast := ih hw.2 (hi.assumed_of_subset (List.subset_cons_self _ _) hc)
    refine hi.cons hpast hw (fun s hs => ?_) fun hf text ht => ?_
    · exact Moment.obtain_memory hi (hpast m List.mem_cons_self) List.mem_cons_self hs
    · exact (Moment.obtain_stores hf ht).imp_left fun ht => ⟨m, List.mem_cons_self, ht⟩
  | @rebuild m past now _ ih =>
    have hpast := ih hw.2 (hi.assumed_of_subset (List.subset_cons_self _ _) hc)
    refine hi.cons hpast hw (fun s hs => ?_) fun hf text ht => .inr (Moment.rebuild_stores hf ht)
    exact Moment.rebuild_memory hi (hpast m List.mem_cons_self) List.mem_cons_self hs
  | @refresh m past now targets _ ih =>
    have hc' := hi.assumed_of_subset (List.subset_cons_self _ _) hc
    have hpast := ih hw.2.2 (hi.assumed_of_subset (List.subset_cons_self _ _) hc')
    -- A refresh makes two moments: it may have to build its snapshot before it looks at files.
    have hbetween := hi.between hpast hw.2
    refine hi.cons hbetween hw (fun s hs => ?_) fun hf text ht => .inr (Moment.refresh_stores hf ht)
    exact Moment.refresh_memory hi hc' (hbetween _ List.mem_cons_self) List.mem_cons_self hs
  | @clear m past _ ih =>
    refine hi.cons (ih hw.2 (hi.assumed_of_subset (List.subset_cons_self _ _) hc)) hw (fun s hs => ?_) fun _ text ht => ?_
    · rw [Moment.clear_memory] at hs
      cases hs
    · exact .inl ⟨m, List.mem_cons_self, Moment.clear_stores ht⟩

/-- The snapshot with which a refresh starts has the property. -/
theorem obtain {checkFiles : Bool} {state : ProjectState} (hi : IsInvariant root assumed P) (h : Run root (m :: past))
    (hw : OnlyManagersWrite root (m :: past)) (hc : assumed (m :: past))
    (ho : (m.project root).obtain now checkFiles m.state = (.ok s, state)) : P (m :: past) s := by
  have hmemory : (m.after ((m.project root).obtain now checkFiles m.state)).state.snapshot = some s := by
    rw [ho]
    exact Project.snapshot_of_obtain ho
  exact Moment.obtain_memory hi (hi.keeps h hw hc m List.mem_cons_self) List.mem_cons_self hmemory

end IsInvariant

end MarkdownTemplates
