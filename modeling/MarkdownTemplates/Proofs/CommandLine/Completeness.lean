import MarkdownTemplates.Proofs.CommandLine.CollectedFiles
import MarkdownTemplates.Proofs.Snapshot.Description

/-!
# What a template needs is loaded

The files from which definitions are loaded are those of the transitive dependencies, which are references without `src`, and
those to which imports lead from there, which are references with `src`. An expansion follows both in any order. When a definition is
reached through a reference with `src`, its own references without one are not followed to other files, and an id may be missing.
-/

namespace MarkdownTemplates

open Relation (ReflTransGen TransGen)

namespace Snapshot

/-- Is this the path of a file of the snapshot? -/
def Tracks (s : Snapshot) (root p : Path) : Prop := ∃ key, s.files.contains key = true ∧ root.join ⟨key⟩ = p

/-- Does every `src` in the file, and in those to which imports lead from it, name a file of the snapshot? -/
def Resolves (s : Snapshot) (w : World) (restrict : Option Path) (root p : Path) : Prop :=
  ∀ q, ReflTransGen (w.Imports restrict) p q → ∀ document, w.document q = .ok document →
    ∀ r ∈ Reference.all document.root, ∀ src, r.src = some src →
      ∃ file, Resolver.outcome w restrict src (some q) = .ok file ∧ s.Tracks root file.path

/-- Imports do not lead out of the snapshot when every `src` on the way names one of its files. -/
theorem Resolves.tracks {s : Snapshot} {w : World} {restrict : Option Path} {root p q : Path}
    (h : s.Resolves w restrict root p) (hp : s.Tracks root p) (hq : ReflTransGen (w.Imports restrict) p q) : s.Tracks root q := by
  cases hq with
  | refl => exact hp
  | @tail q q' hq himports =>
    obtain ⟨document, hd, reference, hr, src, hs, file, ho, rfl⟩ := himports
    obtain ⟨file', ho', htracks⟩ := h q hq document hd reference hr src hs
    cases ho.symm.trans ho'
    exact htracks

/-- Is the node a reference to `y` among the direct members of the recorded definition of `x`? -/
def RefersBy (s : Snapshot) (w : World) (root : Path) (x : String) (n : Node) (y : String) : Prop :=
  ∃ c, s.templates.get? x = some c ∧ ∃ site ∈ w.sites (root.join ⟨c.file⟩), site.id? = some x ∧ n ∈ site.node.children ∧
    n.RefersTo y

/-- Has the recorded definition of `x` a reference to `y` among the direct members of its content, with or without `src`? -/
def Uses (s : Snapshot) (w : World) (root : Path) (x y : String) : Prop := ∃ n, s.RefersBy w root x n y

/-- Do imports lead to a definition of `y` from the file in which `x` is recorded? -/
def Leads (s : Snapshot) (w : World) (restrict : Option Path) (root : Path) (x y : String) : Prop :=
  ∃ c, s.templates.get? x = some c ∧ w.Brings restrict (root.join ⟨c.file⟩) y

/-- The references among the direct members of the recorded definition of `x`. -/
def references (s : Snapshot) (w : World) (root : Path) (x : String) : List Node :=
  match s.templates.get? x with
  | none => []
  | some c => ((w.sites (root.join ⟨c.file⟩)).filter (·.id? = some x)).flatMap (·.node.children.filter (·.isReference))

theorem refersBy_iff {s : Snapshot} {w : World} {root : Path} {x y : String} {n : Node} :
    s.RefersBy w root x n y ↔ n ∈ s.references w root x ∧ n.attribute? "id" = some y := by
  rw [RefersBy]
  unfold references
  cases s.templates.get? x with
  | none => simp
  | some c =>
    simp only [Option.some.injEq, ↓existsAndEq, true_and, List.mem_flatMap, List.mem_filter, decide_eq_true_eq, Node.RefersTo]
    constructor
    · rintro ⟨site, hs, hid, hn, href, hy⟩
      exact ⟨⟨site, ⟨hs, hid⟩, hn, href⟩, hy⟩
    · rintro ⟨⟨site, ⟨hs, hid⟩, hn, href⟩, hy⟩
      exact ⟨site, hs, hid, hn, href, hy⟩

/-- Does every `src` in the file name a file of the snapshot? -/
def resolvesIn (s : Snapshot) (w : World) (restrict : Option Path) (root p : Path) : Bool :=
  match w.document p with
  | .error _ => true
  | .ok document => (Reference.all document.root).all fun r => r.src.all fun src =>
      match Resolver.outcome w restrict src (some p) with
      | .ok file => s.files.keys.any fun key => root.join ⟨key⟩ = file.path
      | .error _ => false

theorem exists_of_resolvesIn {s : Snapshot} {w : World} {restrict : Option Path} {root p : Path}
    (h : s.resolvesIn w restrict root p = true) {document : Document} (hd : w.document p = .ok document) {r : Reference}
    (hr : r ∈ Reference.all document.root) {src : String} (hsrc : r.src = some src) :
    ∃ file, Resolver.outcome w restrict src (some p) = .ok file ∧ s.Tracks root file.path := by
  unfold resolvesIn at h
  rw [hd] at h
  have h := List.all_eq_true.mp h r hr
  rw [hsrc, Option.all_some] at h
  cases ho : Resolver.outcome w restrict src (some p) with
  | error u => simp [ho] at h
  | ok file =>
    rw [ho] at h
    obtain ⟨key, hkey, hpath⟩ := List.any_eq_true.mp h
    exact ⟨file, rfl, key, Dict.mem_keys.mp hkey, by simpa using hpath⟩

/-- Imports never lead out of a snapshot in whose files every `src` names one of them. -/
theorem resolves_of_resolvesIn {s : Snapshot} {w : World} {restrict : Option Path} {root p : Path}
    (h : ∀ key ∈ s.files.keys, s.resolvesIn w restrict root (root.join ⟨key⟩) = true) (hp : s.Tracks root p) :
    s.Resolves w restrict root p := by
  have hall : ∀ q, ReflTransGen (w.Imports restrict) p q → s.Tracks root q := by
    intro q hq
    induction hq with
    | refl => exact hp
    | tail _ himports ih =>
      obtain ⟨document, hd, r, hr, src, hsrc, file, ho, rfl⟩ := himports
      obtain ⟨key, hkey, rfl⟩ := ih
      obtain ⟨file', ho', htracks⟩ := exists_of_resolvesIn (h key (Dict.mem_keys.mpr hkey)) hd hr hsrc
      cases ho.symm.trans ho'
      exact htracks
  intro q hq document hd r hr src hsrc
  obtain ⟨key, hkey, rfl⟩ := hall q hq
  exact exists_of_resolvesIn (h key (Dict.mem_keys.mpr hkey)) hd hr hsrc

end Snapshot

namespace Snapshot.Describes

variable {snapshot : Snapshot} {w : World} {r : Resolver} {restrict : Option Path} {root p : Path} {t key x y : String}
  {limit : Nat}

theorem tracks_of_needs (h : snapshot.Describes w root) (hneeds : snapshot.Needs t key) : ∃ m, snapshot.files.get? key = some m := by
  obtain ⟨x, c, -, hx, rfl⟩ := hneeds
  obtain ⟨m, hm, -⟩ := h.exists_site hx
  exact ⟨m, hm⟩

/-- Imports lead from a needed file to files of the snapshot only, when every `src` on the way names one. -/
theorem exists_metadata_of_imports (h : snapshot.Describes w root) (hneeds : snapshot.Needs t key)
    (hsrc : snapshot.Resolves w restrict root (root.join ⟨key⟩)) {q : Path}
    (hq : ReflTransGen (w.Imports restrict) (root.join ⟨key⟩) q) :
    ∃ key' m, snapshot.files.get? key' = some m ∧ root.join ⟨key'⟩ = q := by
  obtain ⟨m, hm⟩ := h.tracks_of_needs hneeds
  obtain ⟨key', hkey', rfl⟩ := hsrc.tracks ⟨key, Dict.contains_iff.mpr ⟨m, hm⟩, rfl⟩ hq
  obtain ⟨m', hm'⟩ := Dict.contains_iff.mp hkey'
  exact ⟨key', m', hm', rfl⟩

/-- What is defined where imports lead from a needed file is recorded there. -/
theorem exists_recorded_of_imports (h : snapshot.Describes w root) (hc : snapshot.IsClean) (hneeds : snapshot.Needs t key)
    (hsrc : snapshot.Resolves w restrict root (root.join ⟨key⟩)) {q : Path}
    (hq : ReflTransGen (w.Imports restrict) (root.join ⟨key⟩) q) {site : Site} (hs : site ∈ w.sites q) (hid : site.id? = some x) :
    ∃ c, snapshot.templates.get? x = some c ∧ root.join ⟨c.file⟩ = q := by
  obtain ⟨key', m, hm, rfl⟩ := h.exists_metadata_of_imports hneeds hsrc hq
  obtain ⟨c, hcached, rfl, -⟩ := h.get?_templates_of_mem hc hm hs hid
  exact ⟨c, hcached, rfl⟩

/-- The closure of a needed file can be collected when every `src` in it names a file of the snapshot. -/
theorem exists_gives (h : snapshot.Describes w root) (hc : snapshot.IsClean) (hneeds : snapshot.Needs t key)
    (hnormal : (root.join ⟨key⟩).normalize = root.join ⟨key⟩)
    (hsrc : snapshot.Resolves w restrict root (root.join ⟨key⟩)) :
    ∃ sites, Closure.Gives w restrict (root.join ⟨key⟩) sites := by
  obtain ⟨m, hm⟩ := h.tracks_of_needs hneeds
  obtain ⟨text, _, _, hd, -⟩ := h.exists_content hm
  refine Closure.exists_gives hd hnormal (fun q hq document hdq reference hr src hs => ?_) (fun q hq => ?_)
    fun q q' hq hq' x hx hx' => ?_
  · obtain ⟨file, ho, -⟩ := hsrc q hq document hdq reference hr src hs
    exact ⟨file, ho⟩
  · obtain ⟨key', m', hm', rfl⟩ := h.exists_metadata_of_imports hneeds hsrc hq
    exact h.areDistinct_sites hc hm'
  · obtain ⟨site, hs, hid⟩ := List.mem_filterMap.mp hx
    obtain ⟨site', hs', hid'⟩ := List.mem_filterMap.mp hx'
    obtain ⟨c, hcached, rfl⟩ := h.exists_recorded_of_imports hc hneeds hsrc hq hs hid
    obtain ⟨c', hcached', rfl⟩ := h.exists_recorded_of_imports hc hneeds hsrc hq' hs' hid'
    cases hcached.symm.trans hcached'
    rfl

/-- What is collected are recorded definitions, when every `src` in the closures names a file of the snapshot. -/
theorem exists_recorded_of_collectFiles (h : snapshot.Describes w root) (hc : snapshot.IsClean) (hf : r.IsFaithful w)
    (hsrc : ∀ key, snapshot.Needs t key → snapshot.Resolves w r.restrict root (root.join ⟨key⟩)) {ds : Definitions}
    (hcollect : Session.collectFiles w r ∅ ((Session.keysFor snapshot t).map fun key => root.join ⟨key⟩) = .ok ds)
    {d : TemplateDefinition} (hd : ds.get? x = some d) :
    ∃ c, snapshot.templates.get? x = some c ∧ ∃ site ∈ w.sites (root.join ⟨c.file⟩), site.id? = some x ∧ d = site.definition x := by
  obtain ⟨key, hneeds, q, hq, site, hs, hid, rfl⟩ := Session.exists_site_of_collectFiles hf hcollect hd
  obtain ⟨c, hcached, rfl⟩ := h.exists_recorded_of_imports hc hneeds (hsrc key hneeds) hq hs hid
  exact ⟨c, hcached, site, hs, hid, rfl⟩

/-- A collected definition has the references of the recorded one. -/
theorem uses_iff_of_collectFiles (h : snapshot.Describes w root) (hc : snapshot.IsClean) (hf : r.IsFaithful w)
    (hsrc : ∀ key, snapshot.Needs t key → snapshot.Resolves w r.restrict root (root.join ⟨key⟩)) {ds : Definitions}
    (hcollect : Session.collectFiles w r ∅ ((Session.keysFor snapshot t).map fun key => root.join ⟨key⟩) = .ok ds) :
    ds.Uses x y ↔ ds.contains x = true ∧ snapshot.Uses w root x y := by
  constructor
  · rintro ⟨d, hd, n, hn, hy⟩
    obtain ⟨c, hcached, site, hs, hid, rfl⟩ := h.exists_recorded_of_collectFiles hc hf hsrc hcollect hd
    exact ⟨Dict.contains_iff.mpr ⟨_, hd⟩, n, c, hcached, site, hs, hid, hn, hy⟩
  · rintro ⟨hx, n, c, hcached, site, hs, hid, hn, hy⟩
    obtain ⟨d, hd⟩ := Dict.contains_iff.mp hx
    obtain ⟨c', hcached', site', hs', hid', rfl⟩ := h.exists_recorded_of_collectFiles hc hf hsrc hcollect hd
    cases hcached.symm.trans hcached'
    obtain ⟨m, hm, -⟩ := h.exists_site hcached
    have hdistinct := h.areDistinct_sites hc hm
    cases (hdistinct.first?_eq hs hid).symm.trans (hdistinct.first?_eq hs' hid')
    exact ⟨_, hd, n, hn, hy⟩

/-- A template can be expanded exactly when each id to which references lead is defined where imports lead from a needed file. -/
theorem exists_expand_iff_brings (h : snapshot.Describes w root) (hc : snapshot.IsClean) (hf : r.IsFaithful w)
    (hnormal : ∀ key, snapshot.Needs t key → (root.join ⟨key⟩).normalize = root.join ⟨key⟩)
    (hsrc : ∀ key, snapshot.Needs t key → snapshot.Resolves w r.restrict root (root.join ⟨key⟩))
    (hdepth : ∀ path, (t :: path).IsChain (snapshot.Uses w root) → path.length ≤ limit) {ds : Definitions}
    (hcollect : Session.collectFiles w r ∅ ((Session.keysFor snapshot t).map fun key => root.join ⟨key⟩) = .ok ds) :
    (∃ e, ds.expand limit t = .ok e) ↔ ∀ y, ReflTransGen (snapshot.Uses w root) t y →
      ∃ key, snapshot.Needs t key ∧ w.Brings r.restrict (root.join ⟨key⟩) y := by
  have huses : ∀ {x y}, ds.Uses x y ↔ ds.contains x = true ∧ snapshot.Uses w root x y :=
    h.uses_iff_of_collectFiles hc hf hsrc hcollect
  have hcontains : ∀ y, ds.contains y = true ↔ ∃ key, snapshot.Needs t key ∧ w.Brings r.restrict (root.join ⟨key⟩) y := by
    refine fun y => ⟨fun hy => ?_, fun ⟨key, hneeds, hbrings⟩ =>
      Session.contains_of_collectFiles hf hcollect hneeds (hnormal key hneeds) hbrings⟩
    obtain ⟨d, hd⟩ := Dict.contains_iff.mp hy
    obtain ⟨key, hneeds, q, hq, site, hs, hid, -⟩ := Session.exists_site_of_collectFiles hf hcollect hd
    exact ⟨key, hneeds, q, hq, site, hs, hid⟩
  rw [Definitions.exists_expand_iff]
  constructor
  · intro hfits y hy
    have hreach : ReflTransGen ds.Uses t y := by
      induction hy with
      | refl => exact .refl
      | tail _ hused ih => exact ih.tail (huses.mpr ⟨hfits.1 _ ih, hused⟩)
    exact (hcontains y).mp (hfits.1 y hreach)
  · intro hbrings
    have hmono : ∀ x y, ds.Uses x y → snapshot.Uses w root x y := fun _ _ hu => (huses.mp hu).2
    refine ⟨fun y hy => (hcontains y).mpr (hbrings y (ReflTransGen.mono hmono _ _ hy)), fun path hpath => ?_⟩
    simpa using hdepth path (hpath.imp fun {x y} => hmono x y)

/-- What each reference leads to on its own covers all that an expansion follows. An id that is reached is a transitive dependency, or it
is recorded where imports lead from a needed file. -/
theorem brings_of_references (h : snapshot.Describes w root) (hc : snapshot.IsClean)
    (hsrc : ∀ key, snapshot.Needs t key → snapshot.Resolves w restrict root (root.join ⟨key⟩))
    (hkeys : ∀ y, ReflTransGen (snapshot.Uses w root) t y → snapshot.templates.contains y = true)
    (hrefers : ∀ x n y, ReflTransGen (snapshot.Uses w root) t x → snapshot.RefersBy w root x n y →
      ReflTransGen snapshot.dependencies.HasEdge t x ∧ n.attribute? "src" = none ∨ snapshot.Leads w restrict root x y)
    (hy : ReflTransGen (snapshot.Uses w root) t y) :
    ∃ key, snapshot.Needs t key ∧ w.Brings restrict (root.join ⟨key⟩) y := by
  have hreached : ReflTransGen snapshot.dependencies.HasEdge t y ∨ ∃ c, snapshot.templates.get? y = some c ∧
      ∃ key, snapshot.Needs t key ∧ ReflTransGen (w.Imports restrict) (root.join ⟨key⟩) (root.join ⟨c.file⟩) := by
    induction hy with
    | refl => exact .inl .refl
    | @tail x y hx hused ih =>
      obtain ⟨n, hn⟩ := hused
      rcases hrefers x n y hx hn with ⟨hdepends, hplain⟩ | ⟨c, hcached, q, hq, site, hs, hid⟩
      · obtain ⟨c, hcached, site, hs, hid, hmem, hy⟩ := hn
        exact .inl (hdepends.tail (h.hasEdge_of_refersTo hc hcached hs hid hmem hy hplain))
      · -- The file of `x` is needed, or imports lead there from a needed one, and they go on to the definition of `y`.
        obtain ⟨key, hneeds, himports⟩ : ∃ key, snapshot.Needs t key ∧
            ReflTransGen (w.Imports restrict) (root.join ⟨key⟩) (root.join ⟨c.file⟩) := by
          rcases ih with hdepends | ⟨c', hcached', hneeded⟩
          · exact ⟨c.file, ⟨x, c, hdepends, hcached, rfl⟩, .refl⟩
          · cases hcached.symm.trans hcached'
            exact hneeded
        obtain ⟨c', hcached', rfl⟩ := h.exists_recorded_of_imports hc hneeds (hsrc key hneeds) (himports.trans hq) hs hid
        exact .inr ⟨c', hcached', key, hneeds, himports.trans hq⟩
  obtain ⟨c, hcached⟩ := Dict.contains_iff.mp (hkeys y hy)
  obtain ⟨-, -, site, hs, hid⟩ := h.exists_site hcached
  rcases hreached with hdepends | ⟨c', hcached', key, hneeds, himports⟩
  · exact ⟨c.file, ⟨y, c, hdepends, hcached, rfl⟩, _, .refl, site, hs, hid⟩
  · cases hcached.symm.trans hcached'
    exact ⟨key, hneeds, _, himports, site, hs, hid⟩

end Snapshot.Describes

namespace Session

/-- The definitions for a template are loaded when every `src` in the files of its closures names a file of the snapshot and all ids
to which references lead are recorded. The expansion then succeeds exactly when each of the ids is defined where imports lead from a
needed file. So it does when each reference on its own either stands without `src` in a transitive dependency, or names an id that is
defined where imports lead from the file of the reference. -/
theorem cachedDefinitions_complete {s : Session} {t : String} {snapshot : Snapshot} {state : ProjectState}
    (hget : s.project.get s.now { files := s.world.files } = (.ok snapshot, state))
    (hdescribes : snapshot.Describes (s.worldAt state) s.root) (hclean : snapshot.IsClean)
    (hnormal : ∀ key, snapshot.Needs t key → (s.root.join ⟨key⟩).normalize = s.root.join ⟨key⟩)
    (hsrc : ∀ key, snapshot.Needs t key →
      snapshot.Resolves (s.worldAt state) s.resolver.restrict s.root (s.root.join ⟨key⟩))
    (hkeys : ∀ y, ReflTransGen (snapshot.Uses (s.worldAt state) s.root) t y →
      snapshot.templates.contains y = true)
    (hdepth : ∀ path, (t :: path).IsChain (snapshot.Uses (s.worldAt state) s.root) →
      path.length ≤ s.config.maxDepth) :
    ∃ ds, (s.cachedDefinitions t).1 = .ok ds ∧
      ((∃ e, ds.expand s.config.maxDepth t = .ok e) ↔
        ∀ y, ReflTransGen (snapshot.Uses (s.worldAt state) s.root) t y →
          ∃ key, snapshot.Needs t key ∧ (s.worldAt state).Brings s.resolver.restrict (s.root.join ⟨key⟩) y) ∧
      ((∀ x n y, ReflTransGen (snapshot.Uses (s.worldAt state) s.root) t x → snapshot.RefersBy (s.worldAt state) s.root x n y →
          ReflTransGen snapshot.dependencies.HasEdge t x ∧ n.attribute? "src" = none ∨
            snapshot.Leads (s.worldAt state) s.resolver.restrict s.root x y) →
        ∃ e, ds.expand s.config.maxDepth t = .ok e) := by
  have hf : s.resolver.IsFaithful (s.worldAt state) := Resolver.isFaithful_of_memo rfl
  obtain ⟨ds, hcollect⟩ : ∃ ds, collectFiles (s.worldAt state) s.resolver ∅
      ((keysFor snapshot t).map fun key => s.root.join ⟨key⟩) = .ok ds := by
    rw [exists_collectFiles_iff hf, List.forall_mem_map]
    intro key hkey
    have hneeds := mem_keysFor.mp hkey
    exact hdescribes.exists_gives hclean hneeds (hnormal key hneeds) (hsrc key hneeds)
  have hiff := hdescribes.exists_expand_iff_brings hclean hf hnormal hsrc hdepth hcollect
  exact ⟨ds, cachedDefinitions_eq_ok.mpr ⟨snapshot, state, hget, hkeys t .refl, hcollect⟩, hiff, fun hrefers =>
    hiff.mpr fun y hy => hdescribes.brings_of_references hclean hsrc hkeys hrefers hy⟩

/-! ### Projects with a few files -/

/-- Files with the given texts, in the order of their names. -/
def fewFiles (texts : List (String × String)) : FileTree :=
  ⟨.ofList (("/p", .directory) :: texts.map fun e => ("/p/" ++ e.1, .file e.2.toUTF8 5))⟩

/-- A session in a new project with these files. -/
def few (texts : List (String × String)) : Session where
  arguments := {}
  world := { files := fewFiles texts, cwd := ⟨"/p"⟩ }
  now := 7
  style := ⟨false⟩
  root := ⟨"/p"⟩
  config := {}

def fewPaths (texts : List (String × String)) : List Path := texts.map fun e => ⟨"/p/" ++ e.1⟩

/-- The snapshot that is made of these files. -/
def fewSnapshot (texts : List (String × String)) : Snapshot :=
  .ofFiles ⟨"/p"⟩ 7 (Project.scanned ⟨"/p"⟩ (fewFiles texts) (fewPaths texts))

/-- The project when the snapshot is written. -/
def fewState (texts : List (String × String)) : ProjectState where
  files := ((few texts).project.save 7 (fewSnapshot texts) (fewFiles texts)).2
  snapshot := some (fewSnapshot texts)

/-- What is computed about such a project. -/
@[mk_iff] structure IsFew (texts : List (String × String)) : Prop where
  loads : ((few texts).project.load? 7 true (fewFiles texts)).isNone = true
  search : (Discovery.search { files := fewFiles texts, cwd := ⟨"/p"⟩ }
    ⟨(few texts).project.cacheDir, IgnoreList.load (fewFiles texts) ⟨"/p"⟩ (Path.join ⟨"/p"⟩ ⟨"/p"⟩), ⟨⟨"/p"⟩, []⟩⟩
    (Discovery.directories (fewFiles texts)) [] [⟨"/p"⟩]).toOption = some (fewPaths texts)
  sorted : (fewPaths texts).Pairwise fun p q => (!q.before p) = true
  saves : ((few texts).project.save 7 (fewSnapshot texts) (fewFiles texts)).1.toOption = some ()
  back : ∀ q ∈ fewPaths texts, Path.join ⟨"/p"⟩ ⟨Path.key ⟨"/p"⟩ q⟩ = q
  same : ∀ q ∈ fewPaths texts, ((fewState texts).files.readText (Path.join ⟨"/p"⟩ q)).toOption.isSome = true ∧
    ((fewState texts).files.readText (Path.join ⟨"/p"⟩ q)).toOption = ((fewFiles texts).readText q).toOption

namespace IsFew

variable {texts : List (String × String)}

theorem discover_eq (h : IsFew texts) : (few texts).project.discover (fewFiles texts) = .ok (fewPaths texts) :=
  Discovery.run_of_search rfl (eq_ok_of_toOption h.search) h.sorted

theorem scan_eq (h : IsFew texts) : (few texts).project.scan 7 (fewFiles texts) = .ok (fewSnapshot texts) :=
  Project.scan_eq_ok.mpr ⟨fewPaths texts, h.discover_eq, rfl⟩

theorem get_eq (h : IsFew texts) :
    (few texts).project.get (few texts).now { files := (few texts).world.files } = (.ok (fewSnapshot texts), fewState texts) := by
  have hload : (few texts).project.load? 7 true (fewFiles texts) = none := Option.isNone_iff_eq_none.mp h.loads
  have hfiles : ((few texts).project.save 7 (fewSnapshot texts) (fewFiles texts)).2 = (fewState texts).files := by
    rw [fewState]
  have hsave := Prod.fst_eq_iff.mp (eq_ok_of_toOption h.saves)
  rw [hfiles] at hsave
  have hstate : fewState texts = ⟨(fewState texts).files, some (fewSnapshot texts)⟩ := by rw [fewState]
  rw [hstate]
  exact Project.get_of_scan hload h.scan_eq hsave

theorem describes (h : IsFew texts) : (fewSnapshot texts).Describes ((few texts).worldAt (fewState texts)) (few texts).root := by
  refine Snapshot.describes_of_scan (p := (few texts).project) h.scan_eq fun found hd q hq => ⟨?_, ?_⟩
  · cases h.discover_eq.symm.trans hd
    exact h.back q hq
  · cases h.discover_eq.symm.trans hd
    obtain ⟨hsome, hsame⟩ := h.same q hq
    obtain ⟨text, ht⟩ := Option.isSome_iff_exists.mp hsome
    have hfew := hsame.symm.trans ht
    have ht := eq_ok_of_toOption ht
    have hfew := eq_ok_of_toOption hfew
    rw [hfew, ← ht, worldAt, few]

end IsFew

abbrev fewWorld (texts : List (String × String)) : World := (few texts).worldAt (fewState texts)

/-- What is computed about such a project when all is well in it and references lead to later ids. -/
@[mk_iff] structure IsOrdered (texts : List (String × String)) : Prop where
  isFew : IsFew texts
  clean : ∀ e ∈ (fewSnapshot texts).files.entries, e.2.errors = []
  normal : ∀ key ∈ (fewSnapshot texts).files.keys, (Path.join ⟨"/p"⟩ ⟨key⟩).normalize = Path.join ⟨"/p"⟩ ⟨key⟩
  resolves : ∀ key ∈ (fewSnapshot texts).files.keys,
    (fewSnapshot texts).resolvesIn (fewWorld texts) none ⟨"/p"⟩ (Path.join ⟨"/p"⟩ ⟨key⟩) = true
  later : ∀ x ∈ (fewSnapshot texts).templates.keys, ∀ n ∈ (fewSnapshot texts).references (fewWorld texts) ⟨"/p"⟩ x,
    ∀ y ∈ n.attribute? "id", y ∈ (fewSnapshot texts).templates.keys ∧ x < y
  size : (fewSnapshot texts).templates.keys.length ≤ defaultMaxDepth

namespace IsOrdered

variable {texts : List (String × String)} {t x y key : String}

theorem isClean (h : IsOrdered texts) : (fewSnapshot texts).IsClean :=
  fun key m hm => h.clean (key, m) (Dict.mem_entries.mpr hm)

theorem mem_keys_of_needs (h : IsOrdered texts) (hneeds : (fewSnapshot texts).Needs t key) :
    key ∈ (fewSnapshot texts).files.keys := by
  obtain ⟨m, hm⟩ := h.isFew.describes.tracks_of_needs hneeds
  exact Dict.mem_keys.mpr (Dict.contains_iff.mpr ⟨m, hm⟩)

theorem normal_of_needs (h : IsOrdered texts) (hneeds : (fewSnapshot texts).Needs t key) :
    (Path.join ⟨"/p"⟩ ⟨key⟩).normalize = Path.join ⟨"/p"⟩ ⟨key⟩ :=
  h.normal key (h.mem_keys_of_needs hneeds)

theorem resolves_of_needs (h : IsOrdered texts) (hneeds : (fewSnapshot texts).Needs t key) :
    (fewSnapshot texts).Resolves (fewWorld texts) none ⟨"/p"⟩ (Path.join ⟨"/p"⟩ ⟨key⟩) :=
  Snapshot.resolves_of_resolvesIn h.resolves ⟨key, Dict.mem_keys.mp (h.mem_keys_of_needs hneeds), rfl⟩

theorem uses (h : IsOrdered texts) (hu : (fewSnapshot texts).Uses (fewWorld texts) ⟨"/p"⟩ x y) :
    y ∈ (fewSnapshot texts).templates.keys ∧ x < y := by
  obtain ⟨n, hn⟩ := hu
  obtain ⟨c, hc, -⟩ := id hn
  obtain ⟨hmem, hid⟩ := Snapshot.refersBy_iff.mp hn
  exact h.later x (Dict.mem_keys.mpr (Dict.contains_iff.mpr ⟨c, hc⟩)) n hmem y hid

theorem contains (h : IsOrdered texts) (ht : (fewSnapshot texts).templates.contains t = true)
    (hy : ReflTransGen ((fewSnapshot texts).Uses (fewWorld texts) ⟨"/p"⟩) t y) :
    (fewSnapshot texts).templates.contains y = true := by
  cases hy with
  | refl => exact ht
  | tail _ hu => exact Dict.mem_keys.mp (h.uses hu).1

theorem not_transGen (h : IsOrdered texts) : ¬ TransGen ((fewSnapshot texts).Uses (fewWorld texts) ⟨"/p"⟩) y y := by
  intro hcycle
  have hlt : TransGen (· < ·) y y := TransGen.mono (fun _ _ hu => (h.uses hu).2) _ _ hcycle
  rw [Relation.transGen_eq_self] at hlt
  exact lt_irrefl y hlt

theorem subset_keys_of_isChain (h : IsOrdered texts) {path : List String}
    (hpath : (t :: path).IsChain ((fewSnapshot texts).Uses (fewWorld texts) ⟨"/p"⟩)) :
    path ⊆ (fewSnapshot texts).templates.keys := by
  induction path generalizing t with
  | nil => simp
  | cons y path ih =>
    obtain ⟨hu, hrest⟩ := List.isChain_cons_cons.mp hpath
    exact List.cons_subset.mpr ⟨(h.uses hu).1, ih hrest⟩

/-- The ids of a chain are different templates. -/
theorem length_le (h : IsOrdered texts) {path : List String}
    (hpath : (t :: path).IsChain ((fewSnapshot texts).Uses (fewWorld texts) ⟨"/p"⟩)) : path.length ≤ defaultMaxDepth := by
  have hlt : (t :: path).Pairwise (· < ·) := (hpath.imp fun _ _ hu => (h.uses hu).2).pairwise
  have hdistinct : path.Nodup := (List.pairwise_cons.mp hlt).2.imp ne_of_lt
  exact (hdistinct.subperm (h.subset_keys_of_isChain hpath)).length_le.trans h.size

end IsOrdered

/-- A template with a reference without `src` and one with it, which leads to a definition with a reference of its own. -/
def linkedTexts : List (String × String) :=
  [("a.md", ":::template\x7bid=\"x\"\x7d\n:::\n"),
    ("b.md", ":::template\x7bid=\"t\"\x7d\n::template\x7bid=\"x\"\x7d\n::template\x7bid=\"y\" src=\"c.md\"\x7d\n:::\n"),
    ("c.md", ":::template\x7bid=\"y\"\x7d\n::template\x7bid=\"z\"\x7d\n:::\n:::template\x7bid=\"z\"\x7d\n:::\n")]

/-- What is computed about this project. -/
@[mk_iff] structure LinkedChecks : Prop where
  isOrdered : IsOrdered linkedTexts
  templates : (fewSnapshot linkedTexts).templates.entries.map (fun e => (e.1, e.2.file, e.2.dependencies)) =
    [("t", "b.md", ["x"]), ("x", "a.md", []), ("y", "c.md", ["z"]), ("z", "c.md", [])]
  refers : ∀ x ∈ (fewSnapshot linkedTexts).templates.keys,
    ∀ n ∈ (fewSnapshot linkedTexts).references (fewWorld linkedTexts) ⟨"/p"⟩ x,
      x = "t" ∧ n.attribute? "src" = none ∨ (x, n.attribute? "id") ∈ [("t", some "y"), ("y", some "z")]
  imports : (fewWorld linkedTexts).Imports none (Path.join ⟨"/p"⟩ ⟨"b.md"⟩) (Path.join ⟨"/p"⟩ ⟨"c.md"⟩)
  defines : ∀ y ∈ ["y", "z"], ∃ site ∈ (fewWorld linkedTexts).sites (Path.join ⟨"/p"⟩ ⟨"c.md"⟩), site.id? = some y

theorem linkedChecks : LinkedChecks := by
  -- All is decided at once, so that the kernel evaluates the snapshot only once.
  rw [linkedChecks_iff, isOrdered_iff, isFew_iff]
  decide +kernel

theorem get?_linked {x file : String} {dependencies : List String}
    (h : (x, file, dependencies) ∈ [("t", "b.md", ["x"]), ("x", "a.md", []), ("y", "c.md", ["z"]), ("z", "c.md", [])]) :
    ∃ c, (fewSnapshot linkedTexts).templates.get? x = some c ∧ c.file = file := by
  obtain ⟨c, hc, hfile, -⟩ := (mem_templates_map linkedChecks.templates).mp h
  exact ⟨c, hc, hfile⟩

/-- An import leads to the definition that is named with `src`, and the other stands in the same file. -/
theorem leads_linked {x y : String} (h : (x, some y) ∈ [("t", some "y"), ("y", some "z")]) :
    (fewSnapshot linkedTexts).Leads (fewWorld linkedTexts) none ⟨"/p"⟩ x y := by
  simp only [List.mem_cons, Prod.mk.injEq, Option.some.injEq, List.not_mem_nil, or_false] at h
  rcases h with ⟨rfl, rfl⟩ | ⟨rfl, rfl⟩
  · obtain ⟨c, hc, hfile⟩ := get?_linked List.mem_cons_self
    obtain ⟨site, hs, hid⟩ := linkedChecks.defines "y" (by simp)
    exact ⟨c, hc, _, .single (hfile ▸ linkedChecks.imports), site, hs, hid⟩
  · obtain ⟨c, hc, hfile⟩ := get?_linked (show ("y", "c.md", ["z"]) ∈ _ by simp)
    obtain ⟨site, hs, hid⟩ := linkedChecks.defines "z" (by simp)
    exact ⟨c, hc, _, .refl, site, hfile ▸ hs, hid⟩

/-- Each reference stands without `src` in the template itself, or leads to a definition. -/
theorem refersBy_linked {x y : String} {n : Node} (h : (fewSnapshot linkedTexts).RefersBy (fewWorld linkedTexts) ⟨"/p"⟩ x n y) :
    x = "t" ∧ n.attribute? "src" = none ∨ (fewSnapshot linkedTexts).Leads (fewWorld linkedTexts) none ⟨"/p"⟩ x y := by
  obtain ⟨c, hc, -⟩ := id h
  obtain ⟨hn, hid⟩ := Snapshot.refersBy_iff.mp h
  refine (linkedChecks.refers x (Dict.mem_keys.mpr (Dict.contains_iff.mpr ⟨c, hc⟩)) n hn).imp_right fun hmem => ?_
  exact leads_linked (hid ▸ hmem)

theorem cachedDefinitions_complete_linked :
    ∃ ds e, ((few linkedTexts).cachedDefinitions "t").1 = .ok ds ∧ ds.expand defaultMaxDepth "t" = .ok e := by
  obtain ⟨c, hc, -⟩ := get?_linked List.mem_cons_self
  have h := linkedChecks.isOrdered
  obtain ⟨ds, hds, -, hexpand⟩ := cachedDefinitions_complete h.isFew.get_eq h.isFew.describes h.isClean
    (fun _ => h.normal_of_needs) (fun _ => h.resolves_of_needs) (fun y => h.contains (Dict.contains_iff.mpr ⟨c, hc⟩))
    fun path => h.length_le
  obtain ⟨e, he⟩ := hexpand fun x n y _ hrefers => (refersBy_linked hrefers).imp_left fun ⟨hx, hplain⟩ => ⟨hx ▸ .refl, hplain⟩
  exact ⟨ds, e, hds, he⟩

/-- A reference names a file, and the definition there has a reference to another without naming a file. -/
def chainTexts : List (String × String) :=
  [("a.md", ":::template\x7bid=\"t\"\x7d\n::template\x7bid=\"y\" src=\"b.md\"\x7d\n:::\n"),
    ("b.md", ":::template\x7bid=\"y\"\x7d\n::template\x7bid=\"z\"\x7d\n:::\n"), ("c.md", ":::template\x7bid=\"z\"\x7d\n:::\n")]

/-- What is computed about this project. -/
@[mk_iff] structure ChainChecks : Prop where
  isOrdered : IsOrdered chainTexts
  templates : (fewSnapshot chainTexts).templates.entries.map (fun e => (e.1, e.2.file, e.2.dependencies)) =
    [("t", "a.md", []), ("y", "b.md", ["z"]), ("z", "c.md", [])]
  refers : ∀ e ∈ [("t", some "y"), ("y", some "z")],
    ∃ n ∈ (fewSnapshot chainTexts).references (fewWorld chainTexts) ⟨"/p"⟩ e.1, n.attribute? "id" = e.2
  imports : (fewWorld chainTexts).importsOf none (Path.join ⟨"/p"⟩ ⟨"a.md"⟩) = [⟨"/p/b.md"⟩] ∧
    (fewWorld chainTexts).importsOf none ⟨"/p/b.md"⟩ = []
  ids : ((fewWorld chainTexts).sites (Path.join ⟨"/p"⟩ ⟨"a.md"⟩)).map Site.id? = [some "t"] ∧
    ((fewWorld chainTexts).sites ⟨"/p/b.md"⟩).map Site.id? = [some "y"]

theorem chainChecks : ChainChecks := by
  rw [chainChecks_iff, isOrdered_iff, isFew_iff]
  decide +kernel

theorem get?_chain {x : String} {c : CachedTemplate} (h : (fewSnapshot chainTexts).templates.get? x = some c) :
    (x, c.file, c.dependencies) ∈ [("t", "a.md", []), ("y", "b.md", ["z"]), ("z", "c.md", [])] :=
  (mem_templates_map chainChecks.templates).mpr ⟨c, h, rfl, rfl⟩

/-- The template has no transitive dependencies, so its own file is the only needed one. -/
theorem needs_chain {key : String} (h : (fewSnapshot chainTexts).Needs "t" key) : key = "a.md" := by
  obtain ⟨x, c, hx, hc, rfl⟩ := h
  have hself : x = "t" := by
    rcases ReflTransGen.cases_head hx with rfl | ⟨z, hz, -⟩
    · rfl
    · obtain ⟨c', hc', hmem⟩ := chainChecks.isOrdered.isFew.describes.isDerived.hasEdge_iff.mp hz
      have hrecorded : c'.file = "a.md" ∧ c'.dependencies = [] := by simpa using get?_chain hc'
      simp [hrecorded.2] at hmem
  subst hself
  have hrecorded : c.file = "a.md" ∧ c.dependencies = [] := by simpa using get?_chain hc
  exact hrecorded.1

/-- Imports lead from there to one further file. -/
theorem files_chain {q : Path} (hq : ReflTransGen ((fewWorld chainTexts).Imports none) (Path.join ⟨"/p"⟩ ⟨"a.md"⟩) q) :
    q = Path.join ⟨"/p"⟩ ⟨"a.md"⟩ ∨ q = ⟨"/p/b.md"⟩ := by
  induction hq with
  | refl => exact .inl rfl
  | tail _ himports ih =>
    have hmem := World.mem_importsOf.mpr himports
    rcases ih with rfl | rfl
    · rw [chainChecks.imports.1, List.mem_singleton] at hmem
      exact .inr hmem
    · simp [chainChecks.imports.2] at hmem

theorem not_brings_chain : ¬ (fewWorld chainTexts).Brings none (Path.join ⟨"/p"⟩ ⟨"a.md"⟩) "z" := by
  rintro ⟨q, hq, site, hs, hid⟩
  have hids := List.mem_map_of_mem (f := Site.id?) hs
  rcases files_chain hq with rfl | rfl
  · simp [chainChecks.ids.1, hid] at hids
  · simp [chainChecks.ids.2, hid] at hids

theorem uses_chain : (fewSnapshot chainTexts).Uses (fewWorld chainTexts) ⟨"/p"⟩ "t" "y" ∧
    (fewSnapshot chainTexts).Uses (fewWorld chainTexts) ⟨"/p"⟩ "y" "z" := by
  obtain ⟨n, hn, hid⟩ := chainChecks.refers ("t", some "y") (by simp)
  obtain ⟨m, hm, hid'⟩ := chainChecks.refers ("y", some "z") (by simp)
  exact ⟨⟨n, Snapshot.refersBy_iff.mpr ⟨hn, hid⟩⟩, m, Snapshot.refersBy_iff.mpr ⟨hm, hid'⟩⟩

/-- It is not enough that every `src` names a file of the snapshot and every id to which references lead is recorded. From a definition
that is named with `src` no references without one are followed. -/
theorem not_cachedDefinitions_complete :
    ¬ ∀ (s : Session) (t : String) (snapshot : Snapshot) (state : ProjectState),
      s.project.get s.now { files := s.world.files } = (.ok snapshot, state) →
      snapshot.Describes (s.worldAt state) s.root → snapshot.IsClean →
      (∀ key, snapshot.Needs t key → (s.root.join ⟨key⟩).normalize = s.root.join ⟨key⟩) →
      (∀ p, snapshot.Tracks s.root p → snapshot.Resolves (s.worldAt state) s.resolver.restrict s.root p) →
      (∀ y, ReflTransGen (snapshot.Uses (s.worldAt state) s.root) t y → snapshot.templates.contains y = true) →
      (∀ y, ReflTransGen (snapshot.Uses (s.worldAt state) s.root) t y →
        ¬ TransGen (snapshot.Uses (s.worldAt state) s.root) y y) →
      (∀ path, (t :: path).IsChain (snapshot.Uses (s.worldAt state) s.root) → path.length ≤ s.config.maxDepth) →
      ∃ ds e, (s.cachedDefinitions t).1 = .ok ds ∧ ds.expand s.config.maxDepth t = .ok e := by
  intro hall
  have h := chainChecks.isOrdered
  have ht : (fewSnapshot chainTexts).templates.contains "t" = true := by
    obtain ⟨c, hc, -⟩ := (mem_templates_map chainChecks.templates).mp List.mem_cons_self
    exact Dict.contains_iff.mpr ⟨c, hc⟩
  obtain ⟨ds, e, hds, he⟩ := hall (few chainTexts) "t" _ _ h.isFew.get_eq h.isFew.describes h.isClean (fun _ => h.normal_of_needs)
    (fun _ hp => Snapshot.resolves_of_resolvesIn h.resolves hp) (fun _ => h.contains ht) (fun _ _ => h.not_transGen)
    fun _ => h.length_le
  obtain ⟨snapshot, state, hget, -, hcollect⟩ := cachedDefinitions_eq_ok.mp hds
  cases h.isFew.get_eq.symm.trans hget
  have hf : (few chainTexts).resolver.IsFaithful (fewWorld chainTexts) := Resolver.isFaithful_of_memo rfl
  have hiff := h.isFew.describes.exists_expand_iff_brings h.isClean hf (fun _ => h.normal_of_needs) (fun _ => h.resolves_of_needs)
    (fun _ => h.length_le) hcollect
  -- References lead to `z`, and no import leads to its file.
  obtain ⟨key, hneeds, hbrings⟩ := hiff.mp ⟨e, he⟩ "z" (.tail (.single uses_chain.1) uses_chain.2)
  cases needs_chain hneeds
  exact not_brings_chain hbrings

end Session

end MarkdownTemplates
