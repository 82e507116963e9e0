import MarkdownTemplates.Proofs.Path.Climbing
import MarkdownTemplates.Proofs.Resolver.Memo

/-!
# What a resolver is told to forget

A resolver keeps documents under absolute paths. It forgets one under the normal form of the path that it is told, without a look at
the current directory. So it forgets a file that is told by an absolute path, in any spelling, and forgets nothing when it is told a
relative one.
-/

namespace MarkdownTemplates

namespace Resolver

open MarkdownTemplates.Path (isAbsolute_normalize)

variable {w : World} {r : Resolver} {src : String} {restrict : Option Path} {cwd p q : Path} {calls : List Call}

/-! ## The paths of documents -/

/-- Whatever is kept, is kept under an absolute path. -/
theorem IsKept.isAbsolute (hcalls : ∀ w src base, Call.resolve w src base ∈ calls → w.cwd.isAbsolute = true)
    (h : IsKept restrict calls p) : p.isAbsolute = true := by
  obtain ⟨d, hd⟩ := isKept_iff.mp h
  obtain ⟨before, w, src, base, later, text, hfirst, ht⟩ := exists_isFirstSince hd
  obtain ⟨d', hd'⟩ := hfirst.resolves
  have hp : p = resolvePath w.cwd src base := (resolve_eq_ok hd').1
  have hcwd : w.cwd.isAbsolute = true := hcalls w src base (by simp [hfirst.split])
  rcases isAnchored_resolvePath hcwd src base with hdot | ⟨q, hq, hn⟩
  · rw [hp, hdot] at ht
    exact absurd ht.1 (FileTree.readText_join_current_ne_ok _ _)
  · rw [hp, hn, isAbsolute_normalize, hq]

theorem isAbsolute_resolvePath (hcwd : cwd.isAbsolute = true) (src : String) : (resolvePath cwd src none).isAbsolute = true := by
  rw [resolvePath]
  split_ifs with h
  · rw [isAbsolute_normalize, h]
  · have hjoin : (cwd.join ⟨src⟩).isAbsolute = true := Path.isAbsolute_join hcwd _
    have htext : ¬ (cwd.join ⟨src⟩).text.isEmpty = true := by simp [Path.text_ne_empty_of_isAbsolute hjoin]
    rw [Option.bind_none, Option.getD_none, Path.absolute, if_neg htext, isAbsolute_normalize]
    exact Path.isAbsolute_join hcwd _

/-- A path is resolved to its normal form exactly when it is absolute. -/
theorem resolvePath_eq_normalize_iff (hcwd : cwd.isAbsolute = true) :
    resolvePath cwd src none = (⟨src⟩ : Path).normalize ↔ (⟨src⟩ : Path).isAbsolute = true := by
  constructor
  · intro h
    rw [← isAbsolute_normalize, ← h, isAbsolute_resolvePath hcwd]
  · exact fun h => if_pos h

/-! ## Forgetting -/

theorem invalidate_of_get?_eq_none (h : r.memo.get? p.normalize.text = none) : r.invalidate p = r := by
  have hmemo : r.memo.erase p.normalize.text = r.memo := by
    refine Dict.ext_get? fun k => ?_
    rw [Dict.get?_erase]
    split_ifs with hk
    · rw [hk, h]
    · rfl
  rw [invalidate, hmemo]

/-- Nothing is forgotten by a relative path. -/
theorem invalidate_of_relative (hcalls : ∀ w src base, Call.resolve w src base ∈ calls → w.cwd.isAbsolute = true)
    (hp : p.isAbsolute = false) : (after restrict calls).invalidate p = after restrict calls := by
  refine invalidate_of_get?_eq_none (get?_memo_eq_none_iff.mpr fun hkept => ?_)
  rw [← isAbsolute_normalize, hkept.isAbsolute hcalls] at hp
  cases hp

theorem get?_memo_invalidate (r : Resolver) (p q : Path) :
    (r.invalidate p).memo.get? q.text = if q = p.normalize then none else r.memo.get? q.text := by
  have htext : q.text = p.normalize.text ↔ q = p.normalize := ⟨fun h => congrArg Path.mk h, congrArg Path.text⟩
  rw [invalidate, Dict.get?_erase]
  simp only [htext]

/-- A file that is told to be forgotten is forgotten exactly when it is told by an absolute path or was not kept, and no other one is.
If the path is absolute, the file is read anew when it is next resolved by this path. If it is relative, the resolver stays as it is,
and goes on to answer with what it has read. -/
theorem invalidate_reaches_iff (restrict : Option Path) (calls : List Call) (w : World) (src : String)
    (hcalls : ∀ w src base, Call.resolve w src base ∈ calls → w.cwd.isAbsolute = true) (hcwd : w.cwd.isAbsolute = true) :
    let r := after restrict calls
    let r' := r.invalidate ⟨src⟩
    let p := resolvePath w.cwd src none
    (p ∉ r'.cachedPaths ↔ (⟨src⟩ : Path).isAbsolute = true ∨ p ∉ r.cachedPaths) ∧
    (∀ q, q ≠ p → r'.memo.get? q.text = r.memo.get? q.text ∧ (q ∈ r'.cachedPaths ↔ q ∈ r.cachedPaths)) ∧
    ((⟨src⟩ : Path).isAbsolute = true → (r'.resolve w src none).1 = outcome w restrict src none) ∧
    ((⟨src⟩ : Path).isAbsolute = false → r' = r) := by
  intro r r' p
  cases hsrc : (⟨src⟩ : Path).isAbsolute with
  | true =>
    have hp : p = (⟨src⟩ : Path).normalize := (resolvePath_eq_normalize_iff hcwd).mpr hsrc
    have hnone : r'.memo.get? p.text = none := by rw [get?_memo_invalidate, if_pos hp]
    have hother : ∀ q, q ≠ p → r'.memo.get? q.text = r.memo.get? q.text := by
      intro q hq
      rw [get?_memo_invalidate, if_neg (hp ▸ hq)]
    refine ⟨by simp [mem_cachedPaths_iff, hnone], fun q hq => ⟨hother q hq, ?_⟩, fun _ => ?_, fun h => by cases h⟩
    · rw [mem_cachedPaths_iff, mem_cachedPaths_iff, hother q hq]
    · have hrestrict : r'.restrict = restrict := restrict_after restrict calls
      rw [resolve_of_get?_eq_none hnone, hrestrict]
  | false =>
    have hr : r' = r := invalidate_of_relative hcalls hsrc
    simp [hr]

/-! ### A file that is told by both kinds of paths -/

/-- The resolver that was asked for a file by a relative path. -/
def docsResolver : Resolver := after none [.resolve docsWorld "docs/b.md" none]

theorem isAbsolute_docs (w : World) (src : String) (base : Option Path)
    (h : Call.resolve w src base ∈ [Call.resolve docsWorld "docs/b.md" none]) : w.cwd.isAbsolute = true := by
  obtain ⟨rfl, -⟩ := Call.resolve.inj (List.mem_singleton.mp h)
  decide

theorem mem_cachedPaths_docs : ⟨"/docs/b.md"⟩ ∈ docsResolver.cachedPaths := by
  rw [mem_cachedPaths_iff, ← Option.isSome_iff_exists]
  decide +kernel

theorem invalidate_reaches_iff_docs : ⟨"/docs/b.md"⟩ ∈ docsResolver.cachedPaths ∧
    ⟨"/docs/b.md"⟩ ∉ (docsResolver.invalidate ⟨"/docs/./x/../b.md"⟩).cachedPaths ∧
    docsResolver.invalidate ⟨"docs/b.md"⟩ = docsResolver := by
  have hcwd : docsWorld.cwd.isAbsolute = true := by decide
  have hpath : resolvePath docsWorld.cwd "/docs/./x/../b.md" none = ⟨"/docs/b.md"⟩ := by decide +kernel
  have habsolute := invalidate_reaches_iff none _ docsWorld "/docs/./x/../b.md" isAbsolute_docs hcwd
  have hrelative := invalidate_reaches_iff none _ docsWorld "docs/b.md" isAbsolute_docs hcwd
  rw [hpath] at habsolute
  exact ⟨mem_cachedPaths_docs, habsolute.1.mpr (.inl (by decide)), hrelative.2.2.2 (by decide)⟩

/-- A file that is told by the path by which it was resolved may be kept all the same. -/
theorem not_invalidate_reaches : ¬ ∀ (restrict : Option Path) (calls : List Call) (w : World) (src : String),
    (∀ w src base, Call.resolve w src base ∈ calls → w.cwd.isAbsolute = true) → w.cwd.isAbsolute = true →
      resolvePath w.cwd src none ∉ ((after restrict calls).invalidate ⟨src⟩).cachedPaths := by
  intro h
  have hpath : resolvePath docsWorld.cwd "docs/b.md" none = ⟨"/docs/b.md"⟩ := by decide +kernel
  have hforgets := h none _ docsWorld "docs/b.md" isAbsolute_docs (by decide)
  rw [hpath, invalidate_of_relative isAbsolute_docs (by decide)] at hforgets
  exact hforgets mem_cachedPaths_docs

end Resolver

end MarkdownTemplates
