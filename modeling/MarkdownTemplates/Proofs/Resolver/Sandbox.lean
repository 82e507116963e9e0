import MarkdownTemplates.Proofs.Closure
import MarkdownTemplates.Proofs.Path.Lexical

/-!
# Resolvers kept inside a directory

Whatever is asked of a resolver that is kept inside a directory, it answers with files in there only, and the documents that it
keeps were read from in there. Where a path leads is read off its text, and links are not followed.
-/

namespace MarkdownTemplates

namespace Path

variable {cwd p q : Path}

/-- Does the text of a path start at the root, or else say nothing but the directory where relative paths start? -/
def IsAnchored (p : Path) : Prop := p = ⟨"."⟩ ∨ ∃ q : Path, q.isAbsolute = true ∧ p = q.normalize

theorem isAnchored_absolute (hcwd : cwd.isAbsolute = true) (p : Path) : (p.absolute cwd).IsAnchored := by
  rw [absolute]
  split_ifs
  · exact .inl rfl
  · exact .inr ⟨_, isAbsolute_join hcwd p, rfl⟩

theorem lexicalPlace_absolute (hcwd : cwd.isAbsolute = true) (p : Path) :
    lexicalPlace cwd (p.absolute cwd) = lexicalPlace cwd p := by
  rw [absolute]
  split_ifs with he
  · have hp : p = ⟨""⟩ := congrArg Path.mk (String.isEmpty_iff.mp he)
    subst hp
    have hempty : (⟨""⟩ : Path).parts = [] := by decide
    have hdot : (⟨"."⟩ : Path).parts = [.current] := by decide
    simp [lexicalPlace, hempty, hdot, goAlong]
  · rw [lexicalPlace_normalize (isAbsolute_join hcwd p), lexicalPlace_join hcwd]

theorem exists_parts_normalize_eq_root_cons (h : p.isAbsolute = true) : ∃ ps, p.normalize.parts = .root :: ps := by
  obtain ⟨base, hb, hparts⟩ := exists_parts_normalize h p
  simp only [rootedBases, List.mem_cons, List.not_mem_nil, or_false] at hb
  rcases hb with rfl | rfl <;> exact ⟨_, hparts⟩

theorem IsAnchored.lexicalPlace_suffix (hp : p.IsAnchored) (hq : q.IsAnchored) (h : p.isBelow q = true) :
    lexicalPlace cwd q <:+ lexicalPlace cwd p := by
  have hdot : (⟨"."⟩ : Path).parts = [.current] := by decide
  rcases hp with rfl | ⟨p, hp, rfl⟩ <;> rcases hq with rfl | ⟨q, hq, rfl⟩
  · exact List.suffix_refl _
  · obtain ⟨ps, hparts⟩ := exists_parts_normalize_eq_root_cons hq
    simp [isBelow_iff, hparts, hdot, List.cons_prefix_cons] at h
  · obtain ⟨ps, hparts⟩ := exists_parts_normalize_eq_root_cons hp
    simp [isBelow_iff, hparts, hdot, List.cons_prefix_cons] at h
  · rw [lexicalPlace_normalize hp, lexicalPlace_normalize hq]
    exact lexicalPlace_suffix_of_isBelow hp hq h

end Path

namespace Resolver

open MarkdownTemplates.Path (IsAnchored lexicalPlace)

variable {w : World} {r : Resolver} {src : String} {base : Option Path} {b : Path} {calls : List Call} {cwd p : Path}

theorem isAnchored_resolvePath (hcwd : cwd.isAbsolute = true) (src : String) (base : Option Path) :
    (resolvePath cwd src base).IsAnchored := by
  rw [resolvePath]
  split_ifs with habsolute
  · exact .inr ⟨_, habsolute, rfl⟩
  · exact Path.isAnchored_absolute hcwd _

theorem lexicalPlace_suffix_of_allows (hcwd : cwd.isAbsolute = true) (hb : r.restrict = some b) (hp : p.IsAnchored)
    (h : r.allows cwd p = true) : lexicalPlace cwd b <:+ lexicalPlace cwd p := by
  simp only [allows, hb] at h
  rw [← Path.lexicalPlace_absolute hcwd b]
  exact hp.lexicalPlace_suffix (Path.isAnchored_absolute hcwd b) h

/-- What may be asked of a resolver. -/
inductive Call where
  | resolve (w : World) (src : String) (base : Option Path)
  | invalidate (p : Path)
  | clear

/-- The resolver after a call. -/
def Call.run (r : Resolver) : Call → Resolver
  | .resolve w src base => (r.resolve w src base).2
  | .invalidate p => r.invalidate p
  | .clear => r.clear

/-- Was the document read for one of the calls, from a file inside the directory `b`? -/
def IsReadInside (b : Path) (calls : List Call) (key : String) (d : Document) : Prop :=
  ∃ w src base text, Call.resolve w src base ∈ calls ∧ w.files.readText (w.cwd.join ⟨key⟩) = .ok text ∧
    d = .parse text.toList ∧ lexicalPlace w.cwd b <:+ lexicalPlace w.cwd ⟨key⟩

theorem IsReadInside.append {key : String} {d : Document} (h : IsReadInside b calls key d) (call : Call) :
    IsReadInside b (calls ++ [call]) key d := by
  obtain ⟨w, src, base, text, hm, h⟩ := h
  exact ⟨w, src, base, text, List.mem_append_left _ hm, h⟩

/-- What a resolver that is kept inside the directory `b` is after `calls`. -/
structure IsSandboxed (b : Path) (calls : List Call) (r : Resolver) : Prop where
  restrict : r.restrict = some b
  memo : ∀ key d, r.memo.get? key = some d → IsReadInside b calls key d

/-- What is resolved lies inside the directory. -/
theorem path_of_resolve (hcwd : w.cwd.isAbsolute = true) (hb : r.restrict = some b) {file : ResolvedFile}
    (h : (r.resolve w src base).1 = .ok file) : lexicalPlace w.cwd b <:+ lexicalPlace w.cwd file.path := by
  simp only [resolve] at h
  split_ifs at h with ha
  have hin := lexicalPlace_suffix_of_allows hcwd hb (isAnchored_resolvePath hcwd src base) ha
  cases hm : r.memo.get? (resolvePath w.cwd src base).text with
  | some d =>
    simp only [hm, Except.ok.injEq] at h
    rwa [← h]
  | none =>
    cases ht : w.files.readText (w.cwd.join (resolvePath w.cwd src base)) with
    | error e => simp [hm, ht] at h
    | ok text =>
      simp only [hm, ht, Except.ok.injEq] at h
      rwa [← h]

theorem IsSandboxed.resolve (h : IsSandboxed b calls r) (hcwd : w.cwd.isAbsolute = true) :
    IsSandboxed b (calls ++ [.resolve w src base]) (r.resolve w src base).2 := by
  have hkept : IsSandboxed b (calls ++ [.resolve w src base]) r :=
    ⟨h.restrict, fun key d hd => (h.memo key d hd).append _⟩
  simp only [Resolver.resolve]
  split_ifs with ha
  · have hin := lexicalPlace_suffix_of_allows hcwd h.restrict (isAnchored_resolvePath hcwd src base) ha
    cases hm : r.memo.get? (resolvePath w.cwd src base).text with
    | some d => exact hkept
    | none =>
      cases ht : w.files.readText (w.cwd.join (resolvePath w.cwd src base)) with
      | error e => exact hkept
      | ok text =>
        refine ⟨h.restrict, fun key d hd => ?_⟩
        rw [Dict.get?_insert] at hd
        split_ifs at hd with hk
        · subst hk
          exact ⟨w, src, base, text, by simp, ht, (Option.some.inj hd).symm, hin⟩
        · exact hkept.memo key d hd
  · exact hkept

theorem IsSandboxed.run (h : IsSandboxed b calls r) {call : Call}
    (hcwd : ∀ w src base, call = .resolve w src base → w.cwd.isAbsolute = true) :
    IsSandboxed b (calls ++ [call]) (call.run r) := by
  cases call with
  | resolve w src base => exact h.resolve (hcwd w src base rfl)
  | invalidate p =>
    refine ⟨h.restrict, fun key d hd => ?_⟩
    simp only [Call.run, invalidate, Dict.get?_erase] at hd
    split_ifs at hd
    exact (h.memo key d hd).append _
  | clear =>
    refine ⟨h.restrict, fun key d hd => ?_⟩
    simp [Call.run, Resolver.clear] at hd

theorem isSandboxed_foldl (b : Path) (hcwd : ∀ w src base, Call.resolve w src base ∈ calls → w.cwd.isAbsolute = true) :
    IsSandboxed b calls (calls.foldl Call.run { restrict := some b }) := by
  induction calls using List.reverseRecOn with
  | nil => exact ⟨rfl, fun key d hd => by simp at hd⟩
  | append_singleton calls call ih =>
    rw [List.foldl_append]
    refine (ih fun w src base hm => hcwd w src base (List.mem_append_left _ hm)).run fun w src base hc => ?_
    exact hcwd w src base (by simp [hc])

/-- After any calls, a resolver that is kept inside a directory resolves nothing outside of it, and keeps no document from
outside of it. -/
theorem stays_inside (b : Path) (calls : List Call) (w : World) (src : String) (base : Option Path)
    (hcalls : ∀ w src base, Call.resolve w src base ∈ calls → w.cwd.isAbsolute = true) (hcwd : w.cwd.isAbsolute = true) :
    let r := calls.foldl Call.run { restrict := some b }
    (∀ file, (r.resolve w src base).1 = .ok file → lexicalPlace w.cwd b <:+ lexicalPlace w.cwd file.path) ∧
      ∀ key d, (r.resolve w src base).2.memo.get? key = some d →
        IsReadInside b (calls ++ [.resolve w src base]) key d := by
  have hr := isSandboxed_foldl b hcalls
  exact ⟨fun file => path_of_resolve hcwd hr.restrict, (hr.resolve hcwd).memo⟩

/-- A directory with one file, which is empty. -/
def docsWorld : World := { files := ⟨Dict.ofList [("/docs", .directory), ("/docs/b.md", .file "".toUTF8 0)]⟩ }

theorem stays_inside_docs :
    let r := [Call.resolve docsWorld "docs/b.md" none].foldl Call.run { restrict := some ⟨"docs"⟩ }
    r.memo.contains "/docs/b.md" = true ∧
      ∃ file, (r.resolve docsWorld "docs/x/../b.md" none).1 = .ok file ∧
        lexicalPlace docsWorld.cwd ⟨"docs"⟩ <:+ lexicalPlace docsWorld.cwd file.path := by
  have hcwd : docsWorld.cwd.isAbsolute = true := by decide
  have hread : docsWorld.files.readText (docsWorld.cwd.join ⟨"/docs/b.md"⟩) = .ok "" := by decide +kernel
  have hplain : resolvePath docsWorld.cwd "docs/b.md" none = ⟨"/docs/b.md"⟩ := by decide +kernel
  have hdotted : resolvePath docsWorld.cwd "docs/x/../b.md" none = ⟨"/docs/b.md"⟩ := by decide +kernel
  have hallows : ∀ memo, allows docsWorld.cwd { restrict := some ⟨"docs"⟩, memo } ⟨"/docs/b.md"⟩ = true := by
    intro memo
    have hbelow : (⟨"/docs/b.md"⟩ : Path).isBelow ((⟨"docs"⟩ : Path).absolute docsWorld.cwd) = true := by decide +kernel
    exact hbelow
  have hrun : [Call.resolve docsWorld "docs/b.md" none].foldl Call.run { restrict := some ⟨"docs"⟩ } =
      { restrict := some ⟨"docs"⟩, memo := (∅ : Dict Document).insert "/docs/b.md" (.parse []) } := by
    simp [Call.run, resolve, hplain, hread, hallows]
  have hresolve : ([Call.resolve docsWorld "docs/b.md" none].foldl Call.run { restrict := some ⟨"docs"⟩ }).resolve
      docsWorld "docs/x/../b.md" none = (.ok ⟨⟨"/docs/b.md"⟩, .parse []⟩,
        { restrict := some ⟨"docs"⟩, memo := (∅ : Dict Document).insert "/docs/b.md" (.parse []) }) := by
    simp [hrun, resolve, hdotted, hallows]
  have hcalls : ∀ w src base, Call.resolve w src base ∈ [Call.resolve docsWorld "docs/b.md" none] →
      w.cwd.isAbsolute = true := by
    intro w src base hm
    obtain ⟨rfl, -⟩ := Call.resolve.inj (List.mem_singleton.mp hm)
    exact hcwd
  refine ⟨by simp [hrun, Dict.contains], _, congrArg Prod.fst hresolve, ?_⟩
  exact (stays_inside ⟨"docs"⟩ _ docsWorld "docs/x/../b.md" none hcalls hcwd).1 _ (congrArg Prod.fst hresolve)

end Resolver

end MarkdownTemplates
