import MarkdownTemplates.CommandLine.Generate
import MarkdownTemplates.Proofs.Closure.Imports
import MarkdownTemplates.Proofs.Graph.Reachable

/-!
# Definitions from several files

The definitions of several files and their closures are collected one file after the other. This succeeds when each closure can be
collected on its own, and of the definitions of an id the first one counts.
-/

namespace MarkdownTemplates

open Relation (ReflTransGen TransGen)

theorem except_mapError_eq_ok {ε ε' α : Type} {x : Except ε α} {f : ε → ε'} {a : α} : x.mapError f = .ok a ↔ x = .ok a := by
  cases x <;> simp [Except.mapError]

theorem exists_left_of_forall₂ {α β : Type} {R : α → β → Prop} {l : List α} {m : List β} (h : List.Forall₂ R l m) {b : β}
    (hb : b ∈ m) : ∃ a ∈ l, R a b := by
  induction h with
  | nil => simp at hb
  | @cons a _ l _ hab _ ih =>
    rcases List.mem_cons.mp hb with rfl | hb
    · exact ⟨a, List.mem_cons_self, hab⟩
    · obtain ⟨a', ha', hr⟩ := ih hb
      exact ⟨a', List.mem_cons_of_mem a ha', hr⟩

/-! ## The resolver after a walk -/

namespace Resolver

variable {w : World} {r r' : Resolver} {src : String} {base : Option Path} {o : Except Unresolved ResolvedFile}

theorem IsFaithful.next (h : r.IsFaithful w) (hr : r.resolve w src base = (o, r')) :
    r'.IsFaithful w ∧ r'.restrict = r.restrict := by
  have hf : (r.resolve w src base).2.IsFaithful w := h.resolve.2
  have hrestrict : (r.resolve w src base).2.restrict = r.restrict := restrict_resolve
  rw [hr] at hf hrestrict
  exact ⟨hf, hrestrict⟩

end Resolver

namespace Closure

variable {σ ε : Type} {w : World} {step : σ → Visit → Except ε σ} {fuel : Nat} {k : Walk} {s : σ}
  {pending : List PendingReference}

theorem resolver_walk (hf : k.resolver.IsFaithful w) :
    (walk w step fuel k s pending).2.IsFaithful w ∧ (walk w step fuel k s pending).2.restrict = k.resolver.restrict := by
  fun_induction walk with
  | case1 => exact ⟨hf, rfl⟩
  | case2 _ _ _ _ _ _ ih => exact ih hf
  | case3 _ _ _ _ _ _ _ _ _ ih => exact ih hf
  | case4 _ _ _ _ _ _ _ _ _ _ _ hr => exact hf.next hr
  | case5 _ _ _ _ _ _ _ _ _ _ _ _ _ hr _ ih =>
    obtain ⟨hf', hr'⟩ := hf.next hr
    exact (ih hf').imp_right fun he => he.trans hr'
  | case6 _ _ _ _ _ _ _ _ _ _ _ hr => exact hf.next hr
  | case7 _ _ _ _ _ _ _ _ _ _ _ _ _ _ hr _ ih =>
    obtain ⟨hf', hr'⟩ := hf.next hr
    exact (ih hf').imp_right fun he => he.trans hr'

/-- Can the closure of the file be collected, and are these its definitions? -/
def Gives (w : World) (restrict : Option Path) (p : Path) (sites : List Site) : Prop :=
  ∃ document visits, w.document p = .ok document ∧ VisitsOf w restrict (some p) document.root visits ∧
    (∀ v ∈ visits, v.IsResolved) ∧ sites = Site.ofVisits (some p) document.root visits ∧ AreDistinct sites

/-- The closure of a file can be collected when every `src` in it can be resolved and all its definitions have ids of their own. -/
theorem exists_gives {restrict : Option Path} {p : Path} {document : Document} (hd : w.document p = .ok document)
    (hp : p.normalize = p)
    (hsrc : ∀ q, ReflTransGen (w.Imports restrict) p q → ∀ document, w.document q = .ok document →
      ∀ r ∈ Reference.all document.root, ∀ src, r.src = some src → ∃ file, Resolver.outcome w restrict src (some q) = .ok file)
    (hself : ∀ q, ReflTransGen (w.Imports restrict) p q → AreDistinct (w.sites q))
    (hapart : ∀ q q', ReflTransGen (w.Imports restrict) p q → ReflTransGen (w.Imports restrict) p q' →
      ∀ x ∈ (w.sites q).filterMap Site.id?, x ∈ (w.sites q').filterMap Site.id? → q = q') :
    ∃ sites, Gives w restrict p sites := by
  obtain ⟨visits, hv⟩ := exists_visitsOf w restrict (some p) document.root
  have hreach : ∀ q ∈ p :: visits.flatMap Visit.files, ReflTransGen (w.Imports restrict) p q :=
    fun q hq => hv.reflTransGen_of_mem hd hq
  have hdistinct : AreDistinct ((p :: visits.flatMap Visit.files).flatMap w.sites) :=
    (areDistinct_flatMap (hv.nodup_files hp)).mpr
      ⟨fun q hq => hself q (hreach q hq), fun q hq q' hq' => hapart q q' (hreach q hq) (hreach q' hq')⟩
  rw [← hv.ofVisits_eq hd] at hdistinct
  refine ⟨_, document, visits, hd, hv, fun v hvm => ?_, rfl, hdistinct⟩
  obtain ⟨q, document', src, hq, hdq, hr, hsr, ho⟩ := hv.exists_reference hd v hvm
  obtain ⟨file, hfile⟩ := hsrc q hq document' hdq v.reference hr src hsr
  exact ⟨file, ho.trans hfile⟩

namespace Gives

variable {restrict : Option Path} {p q : Path} {sites : List Site} {site : Site}

theorem areDistinct (h : Gives w restrict p sites) : AreDistinct sites := by
  obtain ⟨_, _, _, _, _, _, hdistinct⟩ := h
  exact hdistinct

theorem exists_file (h : Gives w restrict p sites) (hs : site ∈ sites) :
    ∃ q, ReflTransGen (w.Imports restrict) p q ∧ site ∈ w.sites q := by
  obtain ⟨document, visits, hd, hv, -, rfl, -⟩ := h
  rw [hv.ofVisits_eq hd] at hs
  obtain ⟨q, hq, hs⟩ := List.mem_flatMap.mp hs
  exact ⟨q, hv.reflTransGen_of_mem hd hq, hs⟩

theorem mem_of_mem (h : Gives w restrict p sites) (hs : site ∈ w.sites p) : site ∈ sites := by
  obtain ⟨document, visits, hd, hv, -, rfl, -⟩ := h
  rw [hv.ofVisits_eq hd]
  exact List.mem_flatMap.mpr ⟨p, List.mem_cons_self, hs⟩

theorem mem_of_reflTransGen (h : Gives w restrict p sites) (hp : p.normalize = p)
    (hq : ReflTransGen (w.Imports restrict) p q) (hs : site ∈ w.sites q) : site ∈ sites := by
  obtain ⟨document, visits, hd, hv, -, rfl, -⟩ := h
  rw [hv.ofVisits_eq hd]
  exact List.mem_flatMap.mpr ⟨q, hv.mem_of_reflTransGen hd hp hq, hs⟩

end Gives

end Closure

namespace TemplateDefinition

variable {w : World} {r : Resolver}

theorem resolver_collectAll (file : Option Path) (root : Node) (hf : r.IsFaithful w) :
    (collectAll w r file root).2.IsFaithful w ∧ (collectAll w r file root).2.restrict = r.restrict := by
  rw [collectAll]
  cases collect file root with
  | error e => exact ⟨hf, rfl⟩
  | ok definitions => exact Closure.resolver_walk hf

end TemplateDefinition

/-! ## Files in their order -/

namespace Session

variable {w : World} {r : Resolver} {ds ds' more : Definitions} {p : Path} {paths : List Path} {id : String}

/-- Definitions that are there are kept. -/
theorem get?_addMissing (ds more : Definitions) (id : String) :
    (addMissing ds more).get? id = (ds.get? id).or (more.get? id) := by
  have hfold : ∀ (l : List (String × TemplateDefinition)) (all : Definitions),
      (l.foldl (fun all e => if all.contains e.1 then all else all.insert e.1 e.2) all).get? id =
        (all.get? id).or (l.lookup id) := by
    intro l
    induction l with
    | nil => simp
    | cons e l ih =>
      intro all
      obtain ⟨k, d⟩ := e
      rw [List.foldl_cons, ih, Dict.lookup_cons_eq_ite]
      by_cases hk : id = k
      · subst hk
        cases hg : all.get? id with
        | none => simp [Dict.contains, hg]
        | some d' => simp [Dict.contains, hg]
      · cases hg : all.get? k with
        | none => simp [Dict.contains, hg, Dict.get?_insert, hk]
        | some d' => simp [Dict.contains, hg, hk]
  exact hfold more.entries ds

theorem collectFiles_cons_eq_ok : collectFiles w r ds (p :: paths) = .ok ds' ↔
    ∃ document found, w.document p = .ok document ∧ (TemplateDefinition.collectAll w r (some p) document.root).1 = .ok found ∧
      collectFiles w (TemplateDefinition.collectAll w r (some p) document.root).2 (addMissing ds found) paths = .ok ds' := by
  rw [collectFiles, except_bind_eq_ok]
  refine exists_congr fun document => ?_
  simp only [except_bind_eq_ok, except_mapError_eq_ok]
  exact ⟨fun ⟨hd, found, h⟩ => ⟨found, hd, h⟩, fun ⟨found, hd, h⟩ => ⟨hd, found, h⟩⟩

/-- What is collected when each of the closures can be: the first definition of an id counts. -/
theorem collectFiles_eq_ok (hf : r.IsFaithful w) : collectFiles w r ds paths = .ok ds' ↔
    ∃ lists, List.Forall₂ (Closure.Gives w r.restrict) paths lists ∧
      ∀ id, ds'.get? id = (ds.get? id).or ((Site.first? lists.flatten id).map (Site.definition id)) := by
  induction paths generalizing r ds with
  | nil =>
    rw [collectFiles]
    constructor
    · rintro ⟨⟩
      exact ⟨[], .nil, by simp [Site.first?]⟩
    · rintro ⟨lists, hl, hget⟩
      cases hl
      exact congrArg _ (Dict.ext_get? fun id => by simpa [Site.first?] using (hget id).symm)
  | cons p paths ih =>
    have hnext : ∀ {sites found lists}, IsCollection sites found → ((∀ id, ds'.get? id =
        ((addMissing ds found).get? id).or ((Site.first? lists.flatten id).map (Site.definition id))) ↔
        ∀ id, ds'.get? id = (ds.get? id).or ((Site.first? (sites :: lists).flatten id).map (Site.definition id))) := by
      intro sites found lists hcol
      refine forall_congr' fun id => ?_
      rw [get?_addMissing, hcol.get?_eq, List.flatten_cons, Site.first?_append, Option.or_assoc]
      cases Site.first? sites id <;> rfl
    rw [collectFiles_cons_eq_ok]
    constructor
    · rintro ⟨document, found, hd, hfound, h⟩
      obtain ⟨hf', hr'⟩ := TemplateDefinition.resolver_collectAll (some p) document.root hf
      obtain ⟨lists, hl, hget⟩ := (ih hf').mp h
      obtain ⟨visits, hv⟩ := Closure.exists_visitsOf w r.restrict (some p) document.root
      obtain ⟨hok, hcol⟩ := (TemplateDefinition.collectAll_eq_ok hv hf).mp hfound
      exact ⟨_ :: lists, .cons ⟨document, visits, hd, hv, hok, rfl, hcol.distinct⟩ (hr' ▸ hl), (hnext hcol).mp hget⟩
    · rintro ⟨lists, hl, hget⟩
      cases hl with
      | @cons _ sites _ lists hgives hl =>
        obtain ⟨document, visits, hd, hv, hok, rfl, hdistinct⟩ := hgives
        obtain ⟨hf', hr'⟩ := TemplateDefinition.resolver_collectAll (some p) document.root hf
        obtain ⟨found, hcol⟩ := hdistinct.exists_isCollection
        have hfound := (TemplateDefinition.collectAll_eq_ok hv hf).mpr ⟨hok, hcol⟩
        exact ⟨document, found, hd, hfound, (ih hf').mpr ⟨lists, hr' ▸ hl, (hnext hcol).mpr hget⟩⟩

/-- There are definitions that have the first one of each id. -/
theorem exists_firsts (sites : List Site) :
    ∃ ds : Definitions, ∀ id, ds.get? id = (Site.first? sites id).map (Site.definition id) := by
  refine ⟨Dict.ofList (sites.filterMap fun s => s.id?.map fun id => (id, s.definition id)).reverse, fun id => ?_⟩
  rw [Dict.get?_ofList, List.reverse_reverse, lookup_filterMap_definition]

/-- Files are collected exactly when each of their closures can be. -/
theorem exists_collectFiles_iff (hf : r.IsFaithful w) :
    (∃ ds, collectFiles w r ∅ paths = .ok ds) ↔ ∀ p ∈ paths, ∃ sites, Closure.Gives w r.restrict p sites := by
  constructor
  · rintro ⟨ds, h⟩ p hp
    obtain ⟨lists, hlists, -⟩ := (collectFiles_eq_ok hf).mp h
    obtain ⟨sites, -, hgives⟩ := exists_left_of_forall₂ hlists.flip hp
    exact ⟨sites, hgives⟩
  · intro hgives
    choose! sites hgives using hgives
    obtain ⟨ds, hget⟩ := exists_firsts (paths.map sites).flatten
    refine ⟨ds, (collectFiles_eq_ok hf).mpr ⟨paths.map sites, ?_, fun x => ?_⟩⟩
    · rw [List.forall₂_map_right_iff, List.forall₂_same]
      exact hgives
    · rw [hget, Dict.get?_empty, Option.none_or]

/-! ## The files that a template needs -/

end Session

/-- Is the file recorded for the template or for one of its transitive dependencies? -/
def Snapshot.Needs (snapshot : Snapshot) (id key : String) : Prop :=
  ∃ y c, ReflTransGen snapshot.dependencies.HasEdge id y ∧ snapshot.templates.get? y = some c ∧ c.file = key

namespace Session

variable {s : Session} {snapshot : Snapshot} {ds : Definitions} {id key : String}

theorem mem_keysFor : key ∈ keysFor snapshot id ↔ snapshot.Needs id key := by
  have hneeded : ∀ y, y ∈ id :: (snapshot.dependencies.transitiveDependencies [id]).toList ↔
      ReflTransGen snapshot.dependencies.HasEdge id y := by
    intro y
    rw [List.mem_cons, NameSet.mem_toList, DependencyGraph.contains_transitiveDependencies,
      Relation.reflTransGen_iff_eq_or_transGen]
    simp
  rw [keysFor, NameSet.mem_toList, NameSet.contains_ofList, List.mem_filterMap]
  simp only [hneeded, Snapshot.Needs, Option.map_eq_some_iff]
  constructor
  · rintro ⟨y, hy, c, hc, hkey⟩
    exact ⟨y, c, hy, hc, hkey⟩
  · rintro ⟨y, c, hy, hc, hkey⟩
    exact ⟨y, hy, c, hc, hkey⟩

/-- The files are looked at in the order of their keys. -/
theorem pairwise_keysFor (snapshot : Snapshot) (id : String) : (keysFor snapshot id).Pairwise (· < ·) :=
  List.pairwise_map.mpr (Dict.ordered _)

/-- The files as they are when the snapshot is there. -/
def worldAt (s : Session) (state : ProjectState) : World := { s.world with files := state.files }

/-- What the definitions for a template are collected from. -/
theorem cachedDefinitions_eq_ok : (s.cachedDefinitions id).1 = .ok ds ↔
    ∃ snapshot state, s.project.get s.now { files := s.world.files } = (.ok snapshot, state) ∧
      snapshot.templates.contains id = true ∧
      collectFiles (s.worldAt state) s.resolver ∅ ((keysFor snapshot id).map fun key => s.root.join ⟨key⟩) = .ok ds := by
  rcases hget : s.project.get s.now { files := s.world.files } with ⟨e | snapshot, state⟩
  · simp [cachedDefinitions, hget, Except.mapError, bind, Except.bind]
  · have hsnapshot : (s.cachedDefinitions id).1 = if !snapshot.templates.contains id then
          .error (.other .templateNotFound ("template \"" ++ id ++ "\" is not defined in any project file"))
        else (collectFiles (s.worldAt state) s.resolver ∅
          ((keysFor snapshot id).map fun key => s.root.join ⟨key⟩)).mapError .failure := by
      rw [cachedDefinitions, hget]
      rfl
    rw [hsnapshot]
    cases hc : snapshot.templates.contains id with
    | false => simp [hc]
    | true => simp [hc, except_mapError_eq_ok]

/-- Whatever is collected for a template stands in a file to which imports lead from a needed one. -/
theorem exists_site_of_collectFiles {w : World} {r : Resolver} {root : Path} {x : String} {d : TemplateDefinition}
    (hf : r.IsFaithful w)
    (h : collectFiles w r ∅ ((keysFor snapshot id).map fun key => root.join ⟨key⟩) = .ok ds) (hd : ds.get? x = some d) :
    ∃ key, snapshot.Needs id key ∧ ∃ q, ReflTransGen (w.Imports r.restrict) (root.join ⟨key⟩) q ∧
      ∃ site ∈ w.sites q, site.id? = some x ∧ d = site.definition x := by
  obtain ⟨lists, hlists, hget⟩ := (collectFiles_eq_ok hf).mp h
  rw [hget, Dict.get?_empty, Option.none_or, Option.map_eq_some_iff] at hd
  obtain ⟨site, hfirst, rfl⟩ := hd
  obtain ⟨hmem, hid⟩ := Site.of_first?_eq_some hfirst
  obtain ⟨sites, hsites, hmem⟩ := List.mem_flatten.mp hmem
  obtain ⟨p, hp, hgives⟩ := exists_left_of_forall₂ hlists hsites
  obtain ⟨key, hkey, rfl⟩ := List.mem_map.mp hp
  obtain ⟨q, hq, hs⟩ := hgives.exists_file hmem
  exact ⟨key, mem_keysFor.mp hkey, q, hq, site, hs, hid, rfl⟩

/-- Every id to whose definition a needed file leads is collected. -/
theorem contains_of_collectFiles {w : World} {r : Resolver} {root : Path} {x : String} (hf : r.IsFaithful w)
    (h : collectFiles w r ∅ ((keysFor snapshot id).map fun key => root.join ⟨key⟩) = .ok ds) (hneeds : snapshot.Needs id key)
    (hnormal : (root.join ⟨key⟩).normalize = root.join ⟨key⟩) (hbrings : w.Brings r.restrict (root.join ⟨key⟩) x) :
    ds.contains x = true := by
  obtain ⟨lists, hlists, hget⟩ := (collectFiles_eq_ok hf).mp h
  obtain ⟨sites, hsites, hgives⟩ : ∃ sites ∈ lists, Closure.Gives w r.restrict (root.join ⟨key⟩) sites :=
    exists_left_of_forall₂ hlists.flip (List.mem_map_of_mem (mem_keysFor.mpr hneeds))
  obtain ⟨q, hq, site, hs, hid⟩ := hbrings
  have hmem : site ∈ lists.flatten := List.mem_flatten.mpr ⟨sites, hsites, hgives.mem_of_reflTransGen hnormal hq hs⟩
  rw [Dict.contains, hget, Dict.get?_empty, Option.none_or, Option.isSome_map, Site.isSome_first?]
  exact List.mem_filterMap.mpr ⟨site, hmem, hid⟩

end Session

end MarkdownTemplates
