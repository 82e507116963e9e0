import MarkdownTemplates.Proofs.CommandLine.Completeness

/-!
# Which definitions are substituted

A template is generated from the definitions of the needed files and their closures. Of several definitions of an id, the one to
which the first needed file leads is substituted: the recorded one, when its file is needed and no earlier file leads to another.
-/

namespace MarkdownTemplates

open Relation (ReflTransGen TransGen)

/-- Is `d` a definition of `x` in the file `p`? -/
def World.Defines (w : World) (p : Path) (x : String) (d : TemplateDefinition) : Prop :=
  ∃ site ∈ w.sites p, site.id? = some x ∧ d = site.definition x

theorem World.Defines.file_eq {w : World} {p : Path} {x : String} {d : TemplateDefinition} (h : w.Defines p x d) :
    d.file = some p := by
  obtain ⟨site, hs, -, rfl⟩ := h
  exact World.file_of_mem_sites hs

/-- An id is expanded when the references in its definition lead to definitions without references. -/
theorem Definitions.exists_expand_of_uses {ds : Definitions} {limit : Nat} {x : String} (hx : ds.contains x = true)
    (hl : 1 ≤ limit) (hy : ∀ y, ds.Uses x y → ∃ d, ds.get? y = some d ∧ ∀ n ∈ d.content, n.isReference = false) :
    ∃ e, ds.expand limit x = .ok e := by
  refine exists_expand_iff.mpr (fits_iff.mpr ⟨Nat.zero_le _, hx, fun y huses => ?_⟩)
  obtain ⟨d, hd, hnone⟩ := hy y huses
  refine fits_iff.mpr ⟨hl, Dict.contains_iff.mpr ⟨d, hd⟩, ?_⟩
  rintro z ⟨d', hd', n, hn, hz⟩
  obtain rfl := Option.some.inj (hd.symm.trans hd')
  simp [Node.RefersTo, hnone n hn] at hz

namespace Snapshot.Describes

variable {snapshot : Snapshot} {w : World} {root : Path} {restrict : Option Path} {x t key : String} {c : CachedTemplate}

theorem isSome_find?_definitions (h : snapshot.Describes w root) {m : FileMetadata} (hm : snapshot.files.get? key = some m) :
    (m.definitions.find? (·.id = x)).isSome = true ↔ ∃ d, w.Defines (root.join ⟨key⟩) x d := by
  rw [h.find?_definitions hm, Option.isSome_map, Site.isSome_first?, List.mem_filterMap]
  exact ⟨fun ⟨site, hs, hid⟩ => ⟨_, site, hs, hid, rfl⟩, fun ⟨_, site, hs, hid, _⟩ => ⟨site, hs, hid⟩⟩

/-- Of the files that define an id, the first one in the order of the keys is recorded. -/
theorem file_le (h : snapshot.Describes w root) (hc : snapshot.templates.get? x = some c) {m : FileMetadata}
    (hm : snapshot.files.get? key = some m) {d : TemplateDefinition} (hd : w.Defines (root.join ⟨key⟩) x d) : c.file ≤ key := by
  obtain ⟨first, m₁, hm₁, hmem, hleast⟩ := h.isDerived.exists_first hc
  obtain ⟨_, _, _, -, hdefs, -⟩ := h.exists_content hm₁
  have hfile : c.file = first := FileMetadata.file_of_mem_ofContent (hdefs ▸ hmem)
  obtain ⟨c', hfind⟩ := Option.isSome_iff_exists.mp ((h.isSome_find?_definitions hm).mpr ⟨d, hd⟩)
  have hid : c'.id = x := by simpa using List.find?_some hfind
  exact hfile ▸ hleast key m hm ⟨c', List.mem_of_find?_eq_some hfind, hid⟩

/-- In a project without errors, all that imports lead to is recorded when every `src` names a file of the snapshot. -/
theorem defines_recorded (h : snapshot.Describes w root) (hclean : snapshot.IsClean) (hneeds : snapshot.Needs t key)
    (hsrc : snapshot.Resolves w restrict root (root.join ⟨key⟩)) {q : Path}
    (hq : ReflTransGen (w.Imports restrict) (root.join ⟨key⟩) q) {d : TemplateDefinition} (hd : w.Defines q x d)
    (hc : snapshot.templates.get? x = some c) : w.Defines (root.join ⟨c.file⟩) x d := by
  obtain ⟨site, hs, hid, rfl⟩ := hd
  obtain ⟨c', hc', rfl⟩ := h.exists_recorded_of_imports hclean hneeds hsrc hq hs hid
  cases hc.symm.trans hc'
  exact ⟨site, hs, hid, rfl⟩

end Snapshot.Describes

namespace Session

variable {s : Session} {snapshot : Snapshot} {w : World} {r : Resolver} {root : Path} {ds : Definitions}
  {a : GenerateArguments} {keys : List String} {lists : List (List Site)} {t x key : String} {site : Site}
  {restrict : Option Path}

/-- The definition in the first of the files that lead to one is the first of all. -/
theorem first?_flatten (hsorted : keys.Pairwise (· < ·))
    (hlists : List.Forall₂ (fun key sites => Closure.Gives w restrict (root.join ⟨key⟩) sites) keys lists) (hkey : key ∈ keys)
    (hs : site ∈ w.sites (root.join ⟨key⟩)) (hid : site.id? = some x)
    (hearlier : ∀ k ∈ keys, k < key → ¬ w.Brings restrict (root.join ⟨k⟩) x) :
    Site.first? lists.flatten x = some site := by
  induction hlists with
  | nil => simp at hkey
  | @cons k sites keys lists hgives hrest ih =>
    rw [List.pairwise_cons] at hsorted
    rw [List.flatten_cons, Site.first?_append]
    rcases List.mem_cons.mp hkey with rfl | hlater
    · rw [hgives.areDistinct.first?_eq (hgives.mem_of_mem hs) hid, Option.some_or]
    · have hnone : Site.first? sites x = none := by
        refine Option.not_isSome_iff_eq_none.mp fun hsome => ?_
        obtain ⟨site', hs', hid'⟩ := List.mem_filterMap.mp (Site.isSome_first?.mp hsome)
        obtain ⟨q, hq, hs'⟩ := hgives.exists_file hs'
        exact hearlier k List.mem_cons_self (hsorted.1 key hlater) ⟨q, hq, site', hs', hid'⟩
      rw [hnone, Option.none_or]
      exact ih hsorted.2 hlater fun k' hk' => hearlier k' (List.mem_cons_of_mem k hk')

/-- What a needed file defines is collected, unless a needed file before it leads to another definition. -/
theorem get?_of_collectFiles (hf : r.IsFaithful w)
    (h : collectFiles w r ∅ ((keysFor snapshot t).map fun key => root.join ⟨key⟩) = .ok ds) (hneeds : snapshot.Needs t key)
    (hs : site ∈ w.sites (root.join ⟨key⟩)) (hid : site.id? = some x)
    (hearlier : ∀ k, snapshot.Needs t k → k < key → ¬ w.Brings r.restrict (root.join ⟨k⟩) x) :
    ds.get? x = some (site.definition x) := by
  obtain ⟨lists, hlists, hget⟩ := (collectFiles_eq_ok hf).mp h
  rw [List.forall₂_map_left_iff] at hlists
  have hfirst : Site.first? lists.flatten x = some site := first?_flatten (pairwise_keysFor snapshot t) hlists
    (mem_keysFor.mpr hneeds) hs hid fun k hk => hearlier k (mem_keysFor.mp hk)
  rw [hget, Dict.get?_empty, Option.none_or, hfirst, Option.map_some]

/-! ## The command -/

theorem expansion_eq_ok {markdown : String} (hfile : a.file = none) : (s.expansion a).1 = .ok markdown ↔
    ∃ ds e, (s.cachedDefinitions a.template).1 = .ok ds ∧ ds.expand s.config.maxDepth a.template = .ok e ∧
      markdown = String.ofList (Node.toMarkdown e.nodes) := by
  rw [expansion, hfile]
  simp only [except_bind_eq_ok, except_mapError_eq_ok]
  constructor
  · rintro ⟨ds, hds, e, he, hm⟩
    exact ⟨ds, e, hds, he, (Except.ok.inj hm).symm⟩
  · rintro ⟨ds, e, hds, he, rfl⟩
    exact ⟨ds, hds, e, he, rfl⟩

/-- The command succeeds only when the template is expanded. -/
theorem exists_expansion_of_generate {status : ExitStatus} (h : (s.generate a).1.ending = .ok status) :
    ∃ markdown, (s.expansion a).1 = .ok markdown := by
  rw [generate] at h
  split at h
  · simp [Outcome.fail] at h
  · cases hm : (s.expansion a).1 with
    | ok markdown => exact ⟨markdown, rfl⟩
    | error e => simp [hm, Outcome.fail] at h

theorem generate_eq_print {markdown : String} (hm : (s.expansion a).1 = .ok markdown) (hout : a.output = none) :
    (s.generate a).1 = .print markdown := by
  simp [generate, isBlocked, hout, hm]

/-- The command substitutes definitions that stand where imports lead from the needed files. It is the recorded one when its file
is needed and no needed file before it leads to another, and always in a project without errors whose `src`s name its files. -/
theorem generate_substitutes_recorded {status : ExitStatus} (hfile : a.file = none)
    (h : (s.generate a).1.ending = .ok status) :
    ∃ snapshot state ds e, s.project.get s.now { files := s.world.files } = (.ok snapshot, state) ∧
      (s.cachedDefinitions a.template).1 = .ok ds ∧ ds.expand s.config.maxDepth a.template = .ok e ∧
      ds.IsSubstitution a.template e.nodes ∧ (s.expansion a).1 = .ok (String.ofList (Node.toMarkdown e.nodes)) ∧
      ∀ x, e.used.contains x = true → ∃ d, ds.get? x = some d ∧
        (∃ key, snapshot.Needs a.template key ∧ ∃ q,
          ReflTransGen ((s.worldAt state).Imports s.resolver.restrict) (s.root.join ⟨key⟩) q ∧ (s.worldAt state).Defines q x d) ∧
        ∀ c, snapshot.templates.get? x = some c →
          (snapshot.Needs a.template c.file → (∃ d', (s.worldAt state).Defines (s.root.join ⟨c.file⟩) x d') →
            (∀ key, snapshot.Needs a.template key → key < c.file →
              ¬ (s.worldAt state).Brings s.resolver.restrict (s.root.join ⟨key⟩) x) →
            (s.worldAt state).Defines (s.root.join ⟨c.file⟩) x d) ∧
          (snapshot.Describes (s.worldAt state) s.root → snapshot.IsClean →
            (∀ key, snapshot.Needs a.template key →
              snapshot.Resolves (s.worldAt state) s.resolver.restrict s.root (s.root.join ⟨key⟩)) →
            (s.worldAt state).Defines (s.root.join ⟨c.file⟩) x d) ∧
          (snapshot.Describes (s.worldAt state) s.root → ∀ key m, snapshot.files.get? key = some m →
            (∃ d', (s.worldAt state).Defines (s.root.join ⟨key⟩) x d') → c.file ≤ key) := by
  obtain ⟨markdown, hm⟩ := exists_expansion_of_generate h
  obtain ⟨ds, e, hds, he, rfl⟩ := (expansion_eq_ok hfile).mp hm
  obtain ⟨snapshot, state, hget, -, hcollect⟩ := cachedDefinitions_eq_ok.mp hds
  have hf : s.resolver.IsFaithful (s.worldAt state) := Resolver.isFaithful_of_memo rfl
  refine ⟨snapshot, state, ds, e, hget, hds, he, (Definitions.idExpanded_of_expand he).nodes, hm, fun x hx => ?_⟩
  obtain ⟨d, hd⟩ := Dict.contains_iff.mp (Definitions.contains_of_contains_used he hx)
  obtain ⟨key, hneeds, q, hq, site, hs, hid, hdef⟩ := exists_site_of_collectFiles hf hcollect hd
  have hdefines : (s.worldAt state).Defines q x d := ⟨site, hs, hid, hdef⟩
  refine ⟨d, hd, ⟨key, hneeds, q, hq, hdefines⟩, fun c hc => ⟨fun hrecorded hthere hearlier => ?_, fun hw hclean hsrc => ?_,
    fun hw key m hm hthere => ?_⟩⟩
  · obtain ⟨_, first, hfirst, hidfirst, -⟩ := hthere
    have hget := get?_of_collectFiles hf hcollect hrecorded hfirst hidfirst hearlier
    exact ⟨first, hfirst, hidfirst, Option.some.inj (hd.symm.trans hget)⟩
  · exact hw.defines_recorded hclean hneeds (hsrc key hneeds) hq hdefines hc
  · obtain ⟨d', hd'⟩ := hthere
    exact hw.file_le hc hm hd'

/-! ### Two files that define the same id -/

/-- The id `x` is defined twice. The template `t` names the second file, `u` names none. -/
def doubledTexts : List (String × String) :=
  [("a.md", ":::template\x7bid=\"x\"\x7d\n:::\n"),
    ("b.md", ":::template\x7bid=\"t\"\x7d\n::template\x7bid=\"x\" src=\"c.md\"\x7d\n:::\n" ++
      ":::template\x7bid=\"u\"\x7d\n::template\x7bid=\"x\"\x7d\n:::\n"),
    ("c.md", ":::template\x7bid=\"x\"\x7d\n:::\n")]

/-- What is computed about this project. -/
@[mk_iff] structure DoubledChecks : Prop where
  isFew : IsFew doubledTexts
  templates : (fewSnapshot doubledTexts).templates.entries.map (fun e => (e.1, e.2.file, e.2.dependencies)) =
    [("t", "b.md", []), ("u", "b.md", ["x"]), ("x", "a.md", [])]
  keys : (fewSnapshot doubledTexts).files.keys = ["a.md", "b.md", "c.md"]
  paths : Path.join ⟨"/p"⟩ ⟨"a.md"⟩ = ⟨"/p/a.md"⟩ ∧ Path.join ⟨"/p"⟩ ⟨"b.md"⟩ = ⟨"/p/b.md"⟩
  normal : Path.normalize ⟨"/p/a.md"⟩ = ⟨"/p/a.md"⟩ ∧ Path.normalize ⟨"/p/b.md"⟩ = ⟨"/p/b.md"⟩
  resolves : ∀ key ∈ (fewSnapshot doubledTexts).files.keys,
    (fewSnapshot doubledTexts).resolvesIn (fewWorld doubledTexts) none ⟨"/p"⟩ (Path.join ⟨"/p"⟩ ⟨key⟩) = true
  imports : (fewWorld doubledTexts).importsOf none ⟨"/p/a.md"⟩ = [] ∧
    (fewWorld doubledTexts).importsOf none ⟨"/p/b.md"⟩ = [⟨"/p/c.md"⟩] ∧ (fewWorld doubledTexts).importsOf none ⟨"/p/c.md"⟩ = []
  distinct : ∀ p ∈ [⟨"/p/a.md"⟩, ⟨"/p/b.md"⟩, ⟨"/p/c.md"⟩], AreDistinct ((fewWorld doubledTexts).sites p)
  ids : ((fewWorld doubledTexts).sites ⟨"/p/a.md"⟩).filterMap Site.id? = ["x"] ∧
    ((fewWorld doubledTexts).sites ⟨"/p/b.md"⟩).filterMap Site.id? = ["t", "u"] ∧
    ((fewWorld doubledTexts).sites ⟨"/p/c.md"⟩).filterMap Site.id? = ["x"]
  refers : ∀ site ∈ (fewWorld doubledTexts).sites ⟨"/p/b.md"⟩,
    site.node.children.map (fun n => (n.isReference, n.attribute? "id")) = [(true, some "x")]
  ends : ∀ p ∈ [⟨"/p/a.md"⟩, ⟨"/p/c.md"⟩], ∀ site ∈ (fewWorld doubledTexts).sites p, site.node.children = []

theorem doubledChecks : DoubledChecks := by
  rw [doubledChecks_iff, isFew_iff]
  decide +kernel

/-- Imports lead from the file of the templates to the second definition only. -/
theorem files_doubled {p q : Path} (hp : p = ⟨"/p/a.md"⟩ ∨ p = ⟨"/p/b.md"⟩)
    (hq : ReflTransGen ((fewWorld doubledTexts).Imports none) p q) : q = p ∨ p = ⟨"/p/b.md"⟩ ∧ q = ⟨"/p/c.md"⟩ := by
  induction hq with
  | refl => exact .inl rfl
  | tail _ himports ih =>
    have hmem := World.mem_importsOf.mpr himports
    rcases ih with rfl | ⟨rfl, rfl⟩
    · rcases hp with rfl | rfl
      · simp [doubledChecks.imports.1] at hmem
      · rw [doubledChecks.imports.2.1, List.mem_singleton] at hmem
        exact .inr ⟨rfl, hmem⟩
    · simp [doubledChecks.imports.2.2] at hmem

theorem exists_gives_doubled {key : String} (hkey : key = "a.md" ∨ key = "b.md") :
    ∃ sites, Closure.Gives (fewWorld doubledTexts) none (Path.join ⟨"/p"⟩ ⟨key⟩) sites := by
  have hc := doubledChecks
  have hcontains : (fewSnapshot doubledTexts).files.contains key = true := by
    rw [← Dict.mem_keys, hc.keys]
    rcases hkey with rfl | rfl <;> simp
  obtain ⟨m, hm⟩ := Dict.contains_iff.mp hcontains
  obtain ⟨_, _, _, hd, -⟩ := hc.isFew.describes.exists_content hm
  have hsrc := Snapshot.resolves_of_resolvesIn hc.resolves ⟨key, hcontains, rfl⟩
  obtain ⟨p, hpath, hp, hnormal⟩ : ∃ p, Path.join ⟨"/p"⟩ ⟨key⟩ = p ∧ (p = ⟨"/p/a.md"⟩ ∨ p = ⟨"/p/b.md"⟩) ∧ p.normalize = p := by
    rcases hkey with rfl | rfl
    · exact ⟨_, hc.paths.1, .inl rfl, hc.normal.1⟩
    · exact ⟨_, hc.paths.2, .inr rfl, hc.normal.2⟩
  rw [hpath] at hsrc ⊢
  refine Closure.exists_gives (hpath ▸ hd) hnormal (fun q hq document hdq reference hr src hs => ?_) (fun q hq => ?_)
    fun q q' hq hq' x hx hx' => ?_
  · obtain ⟨file, ho, -⟩ := hsrc q hq document hdq reference hr src hs
    exact ⟨file, ho⟩
  · refine hc.distinct q ?_
    rcases files_doubled hp hq with rfl | ⟨-, rfl⟩
    · rcases hp with rfl | rfl <;> simp
    · simp
  · rcases files_doubled hp hq with rfl | ⟨hb, rfl⟩ <;> rcases files_doubled hp hq' with rfl | ⟨hb', rfl⟩
    · rfl
    · rw [hb', hc.ids.2.1] at hx
      rw [hc.ids.2.2] at hx'
      simp_all
    · rw [hc.ids.2.2] at hx
      rw [hb, hc.ids.2.1] at hx'
      simp_all
    · rfl

theorem hasEdge_doubled {x y : String} (h : (fewSnapshot doubledTexts).dependencies.HasEdge x y) : x = "u" ∧ y = "x" := by
  obtain ⟨c, hc, hy⟩ := doubledChecks.isFew.describes.isDerived.hasEdge_iff.mp h
  have hm := (mem_templates_map doubledChecks.templates).mpr ⟨c, hc, rfl, rfl⟩
  simp only [List.mem_cons, Prod.mk.injEq, List.not_mem_nil, or_false] at hm
  rcases hm with ⟨-, -, hd⟩ | ⟨hx, -, hd⟩ | ⟨-, -, hd⟩
  · simp [hd] at hy
  · exact ⟨hx, by simpa [hd] using hy⟩
  · simp [hd] at hy

/-- The template without `src` needs the file of the first definition. -/
theorem needs_doubled {t key : String} (ht : t = "t" ∨ t = "u") (h : (fewSnapshot doubledTexts).Needs t key) :
    key = "b.md" ∨ t = "u" ∧ key = "a.md" := by
  obtain ⟨y, c, hy, hc, rfl⟩ := h
  have hm := (mem_templates_map doubledChecks.templates).mpr ⟨c, hc, rfl, rfl⟩
  simp only [List.mem_cons, Prod.mk.injEq, List.not_mem_nil, or_false] at hm
  rcases hm with ⟨-, hfile, -⟩ | ⟨-, hfile, -⟩ | ⟨rfl, hfile, -⟩
  · exact .inl hfile
  · exact .inl hfile
  · rcases ReflTransGen.cases_tail hy with heq | ⟨z, hz, hlast⟩
    · rcases ht with rfl | rfl <;> exact absurd heq (by decide)
    · obtain ⟨rfl, -⟩ := hasEdge_doubled hlast
      rcases ReflTransGen.cases_tail hz with heq | ⟨_, _, hlast'⟩
      · exact .inr ⟨heq.symm, hfile⟩
      · exact absurd (hasEdge_doubled hlast').2 (by decide)

theorem get?_doubled {t file : String} (h : (t, file) ∈ [("t", "b.md"), ("u", "b.md"), ("x", "a.md")]) :
    ∃ c, (fewSnapshot doubledTexts).templates.get? t = some c ∧ c.file = file := by
  obtain ⟨c, hc, hfile, -⟩ : ∃ c, (fewSnapshot doubledTexts).templates.get? t = some c ∧ c.file = file ∧
      c.dependencies = if t = "u" then ["x"] else [] := by
    refine (mem_templates_map doubledChecks.templates).mp ?_
    simp only [List.mem_cons, Prod.mk.injEq, List.not_mem_nil, or_false] at h
    rcases h with ⟨rfl, rfl⟩ | ⟨rfl, rfl⟩ | ⟨rfl, rfl⟩ <;> decide
  exact ⟨c, hc, hfile⟩

variable {ds : Definitions} {t x y : String} {d : TemplateDefinition}

/-- What the definitions in the files refer to. -/
theorem refers_doubled {p : Path} {site : Site} (hp : p = ⟨"/p/a.md"⟩ ∨ p = ⟨"/p/b.md"⟩ ∨ p = ⟨"/p/c.md"⟩)
    (hs : site ∈ (fewWorld doubledTexts).sites p) (hid : site.id? = some x) :
    x = "x" ∧ site.node.children = [] ∨ p = ⟨"/p/b.md"⟩ ∧ (x = "t" ∨ x = "u") ∧
      site.node.children.map (fun n => (n.isReference, n.attribute? "id")) = [(true, some "x")] := by
  have hmem : x ∈ ((fewWorld doubledTexts).sites p).filterMap Site.id? := List.mem_filterMap.mpr ⟨site, hs, hid⟩
  rcases hp with rfl | rfl | rfl
  · rw [doubledChecks.ids.1, List.mem_singleton] at hmem
    exact .inl ⟨hmem, doubledChecks.ends _ (by simp) site hs⟩
  · rw [doubledChecks.ids.2.1] at hmem
    exact .inr ⟨rfl, by simpa using hmem, doubledChecks.refers site hs⟩
  · rw [doubledChecks.ids.2.2, List.mem_singleton] at hmem
    exact .inl ⟨hmem, doubledChecks.ends _ (by simp) site hs⟩

theorem exists_collect_doubled (ht : t = "t" ∨ t = "u") : ∃ ds, collectFiles (fewWorld doubledTexts) (few doubledTexts).resolver ∅
    ((keysFor (fewSnapshot doubledTexts) t).map fun key => Path.join ⟨"/p"⟩ ⟨key⟩) = .ok ds := by
  rw [exists_collectFiles_iff (Resolver.isFaithful_of_memo rfl), List.forall_mem_map]
  intro key hkey
  refine exists_gives_doubled ?_
  rcases needs_doubled ht (mem_keysFor.mp hkey) with rfl | ⟨-, rfl⟩
  · exact .inr rfl
  · exact .inl rfl

theorem content_doubled (ht : t = "t" ∨ t = "u") (hcollect : collectFiles (fewWorld doubledTexts) (few doubledTexts).resolver ∅
    ((keysFor (fewSnapshot doubledTexts) t).map fun key => Path.join ⟨"/p"⟩ ⟨key⟩) = .ok ds) (hd : ds.get? x = some d) :
    x = "x" ∧ d.content = [] ∨ (x = "t" ∨ x = "u") ∧
      d.content.map (fun n => (n.isReference, n.attribute? "id")) = [(true, some "x")] := by
  obtain ⟨key, hneeds, q, hq, site, hs, hid, rfl⟩ := exists_site_of_collectFiles (Resolver.isFaithful_of_memo rfl) hcollect hd
  have hfile : q = ⟨"/p/a.md"⟩ ∨ q = ⟨"/p/b.md"⟩ ∨ q = ⟨"/p/c.md"⟩ := by
    rcases needs_doubled ht hneeds with rfl | ⟨-, rfl⟩
    · rw [doubledChecks.paths.2] at hq
      exact (files_doubled (.inr rfl) hq).elim (fun hb => .inr (.inl hb)) fun hc => .inr (.inr hc.2)
    · rw [doubledChecks.paths.1] at hq
      exact (files_doubled (.inl rfl) hq).elim .inl fun hc => .inr (.inr hc.2)
  exact (refers_doubled hfile hs hid).imp_right And.right

/-- Both templates are expanded, and both use the id that is defined twice. -/
theorem exists_expand_doubled (ht : t = "t" ∨ t = "u") : ∃ ds e, ((few doubledTexts).cachedDefinitions t).1 = .ok ds ∧
    ds.expand 64 t = .ok e ∧ e.used.contains "x" = true := by
  have hc := doubledChecks
  have hf : (few doubledTexts).resolver.IsFaithful (fewWorld doubledTexts) := Resolver.isFaithful_of_memo rfl
  obtain ⟨c, hrecorded, hfile⟩ : ∃ c, (fewSnapshot doubledTexts).templates.get? t = some c ∧ c.file = "b.md" :=
    get?_doubled (by rcases ht with rfl | rfl <;> simp)
  obtain ⟨ds, hcollect⟩ := exists_collect_doubled ht
  have hcontains : ∀ y, (fewWorld doubledTexts).Brings none ⟨"/p/b.md"⟩ y → ds.contains y = true := by
    intro y hbrings
    rw [← hc.paths.2] at hbrings
    exact contains_of_collectFiles hf hcollect ⟨t, c, .refl, hrecorded, hfile⟩ (hc.paths.2 ▸ hc.normal.2) hbrings
  have hown : ds.contains t = true := by
    have hmem : t ∈ ((fewWorld doubledTexts).sites ⟨"/p/b.md"⟩).filterMap Site.id? := by
      rw [hc.ids.2.1]
      simpa using ht
    obtain ⟨site, hs, hid⟩ := List.mem_filterMap.mp hmem
    exact hcontains t ⟨_, .refl, site, hs, hid⟩
  have hother : ds.contains "x" = true := by
    have hmem : "x" ∈ ((fewWorld doubledTexts).sites ⟨"/p/c.md"⟩).filterMap Site.id? := by
      rw [hc.ids.2.2]
      exact List.mem_singleton.mpr rfl
    obtain ⟨site, hs, hid⟩ := List.mem_filterMap.mp hmem
    refine hcontains "x" ⟨_, .single (World.mem_importsOf.mp ?_), site, hs, hid⟩
    rw [hc.imports.2.1]
    exact List.mem_singleton.mpr rfl
  obtain ⟨d, hd⟩ := Dict.contains_iff.mp hown
  obtain ⟨d', hd'⟩ := Dict.contains_iff.mp hother
  have hcontent : d.content.map (fun n => (n.isReference, n.attribute? "id")) = [(true, some "x")] := by
    rcases content_doubled ht hcollect hd with ⟨rfl, -⟩ | ⟨-, hcontent⟩
    · rcases ht with hx | hx <;> exact absurd hx (by decide)
    · exact hcontent
  have hend : d'.content = [] := by
    rcases content_doubled ht hcollect hd' with ⟨-, hend⟩ | ⟨hx | hx, -⟩
    · exact hend
    · exact absurd hx (by decide)
    · exact absurd hx (by decide)
  have hrefers : ∀ n ∈ d.content, (n.isReference, n.attribute? "id") = (true, some "x") := by
    intro n hn
    exact List.mem_singleton.mp (hcontent ▸ List.mem_map_of_mem hn)
  obtain ⟨e, he⟩ : ∃ e, ds.expand 64 t = .ok e := by
    refine Definitions.exists_expand_of_uses hown (by decide) fun y huses => ?_
    obtain ⟨d'', hd'', n, hn, hy⟩ := huses
    cases hd.symm.trans hd''
    have hid := (congrArg Prod.snd (hrefers n hn)).symm.trans hy.2
    cases hid
    exact ⟨d', hd', by simp [hend]⟩
  refine ⟨ds, e, cachedDefinitions_eq_ok.mpr ⟨_, _, hc.isFew.get_eq, Dict.contains_iff.mpr ⟨c, hrecorded⟩, hcollect⟩, he, ?_⟩
  refine (Definitions.contains_used_iff he).mpr (.single ⟨d, hd, ?_⟩)
  obtain ⟨n, hn, hx⟩ := List.mem_map.mp (hcontent ▸ List.mem_singleton.mpr rfl)
  exact ⟨n, hn, congrArg Prod.fst hx, congrArg Prod.snd hx⟩

/-- The template that names the second file has the definition in it. -/
theorem file_doubled (h : ((few doubledTexts).cachedDefinitions "t").1 = .ok ds) (hd : ds.get? "x" = some d) :
    d.file = some ⟨"/p/c.md"⟩ := by
  obtain ⟨snapshot, state, hget, -, hcollect⟩ := cachedDefinitions_eq_ok.mp h
  cases doubledChecks.isFew.get_eq.symm.trans hget
  obtain ⟨key, hneeds, q, hq, site, hs, hid, hdef⟩ := exists_site_of_collectFiles (Resolver.isFaithful_of_memo rfl) hcollect hd
  have hkey : key = "b.md" := by
    rcases needs_doubled (.inl rfl) hneeds with hkey | ⟨ht, -⟩
    · exact hkey
    · exact absurd ht (by decide)
  have hq' := doubledChecks.paths.2 ▸ hkey ▸ hq
  rcases files_doubled (.inr rfl) hq' with rfl | ⟨-, rfl⟩
  · have hmem : "x" ∈ ((fewWorld doubledTexts).sites ⟨"/p/b.md"⟩).filterMap Site.id? := List.mem_filterMap.mpr ⟨site, hs, hid⟩
    simp [doubledChecks.ids.2.1] at hmem
  · exact World.Defines.file_eq ⟨site, hs, hid, hdef⟩

theorem generate_doubled (ht : t = "t" ∨ t = "u") : ((few doubledTexts).generate { template := t }).1.ending = .ok .success := by
  obtain ⟨ds, e, hds, he, -⟩ := exists_expand_doubled ht
  have hm := (expansion_eq_ok (s := few doubledTexts) (a := { template := t }) rfl).mpr ⟨ds, e, hds, he, rfl⟩
  rw [generate_eq_print hm rfl]
  rfl

/-- The template that names no file has the first definition. -/
theorem generate_substitutes_recorded_doubled :
    ((few doubledTexts).generate { template := "u" }).1.ending = .ok .success ∧
      ∃ ds d, ((few doubledTexts).cachedDefinitions "u").1 = .ok ds ∧ ds.get? "x" = some d ∧
        (fewWorld doubledTexts).Defines ⟨"/p/a.md"⟩ "x" d := by
  have hc := doubledChecks
  have hends := generate_doubled (.inr rfl)
  refine ⟨hends, ?_⟩
  obtain ⟨snapshot, state, ds, e, hget, hds, he, -, -, hused⟩ := generate_substitutes_recorded (a := { template := "u" }) rfl hends
  cases hc.isFew.get_eq.symm.trans hget
  obtain ⟨ds', e', hds', he', hx⟩ := exists_expand_doubled (.inr rfl)
  cases hds.symm.trans hds'
  cases he.symm.trans he'
  obtain ⟨d, hd, -, hrecorded⟩ := hused "x" hx
  obtain ⟨c, hcached, hfile⟩ := get?_doubled (show ("x", "a.md") ∈ _ by simp)
  obtain ⟨cu, hcu, -, hdeps⟩ := (mem_templates_map hc.templates).mp (show ("u", "b.md", ["x"]) ∈ _ by simp)
  have hedge : (fewSnapshot doubledTexts).dependencies.HasEdge "u" "x" :=
    hc.isFew.describes.isDerived.hasEdge_iff.mpr ⟨cu, hcu, by simp [hdeps]⟩
  have hthere : ∃ d', (fewWorld doubledTexts).Defines ⟨"/p/a.md"⟩ "x" d' := by
    have hmem : "x" ∈ ((fewWorld doubledTexts).sites ⟨"/p/a.md"⟩).filterMap Site.id? := by
      rw [hc.ids.1]
      exact List.mem_singleton.mpr rfl
    obtain ⟨site, hs, hid⟩ := List.mem_filterMap.mp hmem
    exact ⟨_, site, hs, hid, rfl⟩
  have hpath : (few doubledTexts).root.join ⟨c.file⟩ = ⟨"/p/a.md"⟩ := hfile ▸ hc.paths.1
  have hfirst := (hrecorded c hcached).1
  rw [hpath] at hfirst
  refine ⟨ds, d, hds, hd, hfirst ⟨"x", c, .single hedge, hcached, rfl⟩ hthere fun key hneeds hlt => ?_⟩
  rw [hfile] at hlt
  rcases needs_doubled (.inr rfl) hneeds with rfl | ⟨-, rfl⟩ <;> exact absurd hlt (by decide)

/-- A reference that names a file need not lead to the recorded definition. -/
theorem not_generate_substitutes_recorded :
    ¬ ∀ (s : Session) (a : GenerateArguments) (status : ExitStatus) (snapshot : Snapshot) (state : ProjectState)
        (ds : Definitions) (e : Expansion) (x : String) (c : CachedTemplate) (d : TemplateDefinition),
      a.file = none → (s.generate a).1.ending = .ok status →
      s.project.get s.now { files := s.world.files } = (.ok snapshot, state) →
      (s.cachedDefinitions a.template).1 = .ok ds → ds.expand s.config.maxDepth a.template = .ok e →
      e.used.contains x = true → snapshot.templates.get? x = some c → ds.get? x = some d →
      (s.worldAt state).Defines (s.root.join ⟨c.file⟩) x d := by
  intro hall
  have hc := doubledChecks
  obtain ⟨ds, e, hds, he, hx⟩ := exists_expand_doubled (.inl rfl)
  obtain ⟨c, hcached, hfile⟩ := get?_doubled (show ("x", "a.md") ∈ _ by simp)
  obtain ⟨d, hd⟩ := Dict.contains_iff.mp (Definitions.contains_of_contains_used he hx)
  have hfirst := hall (few doubledTexts) { template := "t" } .success _ _ ds e "x" c d rfl
    (generate_doubled (.inl rfl)) hc.isFew.get_eq hds he hx hcached hd
  have hpath : (few doubledTexts).root.join ⟨c.file⟩ = ⟨"/p/a.md"⟩ := hfile ▸ hc.paths.1
  rw [hpath] at hfirst
  exact absurd (hfirst.file_eq.symm.trans (file_doubled hds hd)) (by decide)

end Session

end MarkdownTemplates
