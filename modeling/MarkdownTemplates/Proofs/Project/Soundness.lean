import MarkdownTemplates.Proofs.Project.Invariant

/-!
# Snapshots say what was read

All snapshots of a run are sound: each entry is what a manager read at some moment of the run. This is what a refresh relies on
when it keeps the metadata of a file whose digest has not changed.
-/

namespace MarkdownTemplates

open FileMetadata (own)

variable {root : Path} {moments past : List Moment} {m a : Moment} {now : Nat} {s s' : Snapshot} {k : String} {q : Path}
  {old : Option FileMetadata} {new : FileMetadata}

theorem Recorded.of_own {m m' : FileMetadata} (h : Recorded root moments k m) (ho : m.own = m'.own) :
    Recorded root moments k m' := by
  obtain ⟨a, ha, q, hq, hk, hr⟩ := h
  exact ⟨a, ha, q, hq, hk, ho ▸ hr⟩

namespace Snapshot.IsSound

theorem withFiles {files : Dict FileMetadata} (h : ∀ k m, files.get? k = some m → Recorded root moments k m) :
    (s.withFiles now files).IsSound root moments := by
  refine ⟨isDerived_withFiles s now files, fun k m hm => ?_⟩
  obtain ⟨m', hm', ho⟩ := exists_of_get?_withFiles hm
  exact (h k m' hm').of_own ho

theorem scan (ha : a ∈ moments) (h : (a.project root).scan now a.state.files = .ok s) : s.IsSound root moments := by
  obtain ⟨found, hd, rfl⟩ := Project.scan_eq_ok.mp h
  refine withFiles fun k m hm => ?_
  obtain ⟨q, hq, hk, hr⟩ := Project.exists_read_of_scanned hm
  exact ⟨a, ha, q, .inr ⟨found, hd, hq⟩, hk, (FileMetadata.own_of_read hr).symm ▸ hr⟩

end Snapshot.IsSound

/-! ## Looking at files -/

/-- What is recorded about a file that can be read becomes what is read, whether its content is known or not. -/
theorem own_looked (hc : CollisionFree root moments) (ha : a ∈ moments) (hq : a.LooksAt root q)
    (ho : ∀ o, old = some o → Recorded root moments k o) (hr : FileMetadata.read a.state.files k q = .ok new) :
    (Refresh.looked a.state.files (k, q) old).map own = some new := by
  rw [Refresh.looked, hr]
  cases old with
  | none => exact congrArg some (FileMetadata.own_of_read hr)
  | some o =>
    dsimp only
    split_ifs with hh
    · obtain ⟨b, hb, q', hq', -, hr'⟩ := ho o rfl
      obtain ⟨i, c, -, ht, rfl⟩ := FileMetadata.read_eq_ok.mp hr
      obtain ⟨j, d, -, ht', hown⟩ := FileMetadata.read_eq_ok.mp hr'
      have hho : o.hash = contentHash d := (congrArg FileMetadata.hash hown).symm.trans (FileMetadata.ofContent_eq k d _ _).2.1
      obtain ⟨-, hhn, hsize, hmodified⟩ := FileMetadata.ofContent_eq k c i.size i.modified
      have hcd : d = c := hc b hb a ha q' q d c hq' hq ht' ht (hho.symm.trans (hh.trans hhn))
      subst hcd
      have hfp : (o.withFingerprint i.size i.modified).own = o.own.withFingerprint i.size i.modified := rfl
      rw [hsize, hmodified, Option.map_some, hfp, ← hown, FileMetadata.ofContent_withFingerprint]
    · exact congrArg some (FileMetadata.own_of_read hr)

theorem Recorded.looked (hc : CollisionFree root moments) (ha : a ∈ moments) (hq : a.LooksAt root q) (hk : Path.key root q = k)
    (ho : ∀ o, old = some o → Recorded root moments k o) (hl : Refresh.looked a.state.files (k, q) old = some new) :
    Recorded root moments k new := by
  cases hr : FileMetadata.read a.state.files k q with
  | error e =>
    rw [Refresh.looked, hr] at hl
    exact ho new hl
  | ok m =>
    have hown := own_looked hc ha hq ho hr
    rw [hl, Option.map_some, Option.some.injEq] at hown
    exact ⟨a, ha, q, hq, hk, hown ▸ hr⟩

/-- A refresh of a sound snapshot gives a sound one. -/
theorem Snapshot.IsSound.refresh {areAll : Bool} {candidates : List Path} (hc : CollisionFree root moments) (ha : a ∈ moments)
    (hq : ∀ q ∈ candidates, a.LooksAt root q) (hs : s.IsSound root moments) :
    (s.withFiles now ((a.project root).lookAt areAll candidates a.state.files s).files).IsSound root moments := by
  refine withFiles fun k m hm => ?_
  rcases Project.lookAt_cases hm with hm | ⟨q, hmem, hk, hl⟩
  · exact hs.recorded k m hm
  · exact Recorded.looked hc ha (hq q hmem) hk (hs.recorded k) hl

theorem Snapshot.IsSound.isInvariant (root : Path) :
    IsInvariant root (CollisionFree root) fun moments s => s.IsSound root moments where
  assumed_of_subset hs hc := hc.mono hs
  mono hs h := h.mono hs
  scan ha h := .scan ha h
  refresh hc ha hq h := h.refresh hc ha hq

/-- In a run in which only managers write the snapshot and no digests collide, all snapshots are sound. -/
theorem Run.isSound (h : Run root moments) (hw : OnlyManagersWrite root moments) (hc : CollisionFree root moments) :
    ∀ a ∈ moments, a.Keeps root fun s => s.IsSound root moments :=
  (Snapshot.IsSound.isInvariant root).keeps h hw hc

end MarkdownTemplates
