import MarkdownTemplates.Proofs.Lint.Clean
import MarkdownTemplates.Proofs.Template.Acyclic
import MarkdownTemplates.Proofs.Template.Reference

/-!
# Expanding documents without findings

The default rules do not look at definitions without an id, at the references of other files or at the `src` edges between
templates. In a document without findings these alone decide which templates expand.
-/

namespace MarkdownTemplates

open Relation (ReflTransGen TransGen)

/-- Expand a template of a document, which stands in `file`, with the definitions in its closure. -/
def TemplateDefinition.expandIn (w : World) (r : Resolver) (file : Option Path) (root : Node) (limit : Nat) (id : String) :
    Except Problem Expansion :=
  (collectAll w r file root).1 >>= fun ds => ds.expand limit id

theorem Reference.ofNode?_eq_some {n : Node} {y : String} :
    (∃ ref, ofNode? n = some ref ∧ ref.id = y) ↔ n.RefersTo y := by
  rw [ofNode?, Node.RefersTo]
  cases n.isReference <;> cases n.attribute? "id" <;> simp

namespace Definitions

variable {ds : Definitions} {sites : List Site} {x y z : String} {file : Option Path} {root : Node} {visits : List Visit}

/-- Does the content of `x` have a reference to `y` with a `src` among its direct members? -/
def UsesFile (ds : Definitions) (x y : String) : Prop :=
  ∃ d, ds.get? x = some d ∧ ∃ n ∈ d.content, n.RefersTo y ∧ (n.attribute? "src").isSome = true

theorem UsesFile.uses (h : ds.UsesFile x y) : ds.Uses x y := by
  obtain ⟨d, hd, n, hn, hy, -⟩ := h
  exact ⟨d, hd, n, hn, hy⟩

theorem uses_iff_site (h : IsCollection sites ds) :
    ds.Uses x y ↔ ∃ s, Site.first? sites x = some s ∧ ∃ n ∈ s.node.children, n.RefersTo y := by
  rw [Uses, h.get?_eq]
  cases Site.first? sites x <;> simp [Site.definition, TemplateDefinition.ofNode]

/-- A reference among the direct members has a `src` or is a dependency. -/
theorem usesFile_or_depends (h : IsCollection sites ds) (hu : ds.Uses x y) : ds.UsesFile x y ∨ Site.Depends sites x y := by
  obtain ⟨s, hs, n, hn, hy⟩ := (uses_iff_site h).mp hu
  cases hsrc : n.attribute? "src" with
  | some src => exact .inl ⟨s.definition x, by rw [h.get?_eq, hs]; rfl, n, hn, hy, by simp [hsrc]⟩
  | none => exact .inr ⟨s, hs, Node.mem_dependencies.mpr ⟨n, Node.mem_preorderList_of_mem hn, hy, hsrc⟩⟩

theorem transGen_depends_or_usesFile (h : IsCollection sites ds) (hu : TransGen ds.Uses x y) :
    TransGen (Site.Depends sites) x y ∨ ∃ z z', ReflTransGen ds.Uses x z ∧ ds.UsesFile z z' ∧ ReflTransGen ds.Uses z' y := by
  induction hu with
  | single hu =>
    rcases usesFile_or_depends h hu with hfile | hdep
    · exact .inr ⟨_, _, .refl, hfile, .refl⟩
    · exact .inl (.single hdep)
  | tail hu huse ih =>
    rcases usesFile_or_depends h huse with hfile | hdep
    · exact .inr ⟨_, _, hu.to_reflTransGen, hfile, .refl⟩
    · rcases ih with ih | ⟨z, z', hz, hfile, hz'⟩
      · exact .inl (ih.tail hdep)
      · exact .inr ⟨z, z', hz, hfile, hz'.tail huse⟩

/-- Where no definition depends on itself, only a reference with `src` can lead back to the definition in which it stands. -/
theorem isAcyclicFrom_iff (h : IsCollection sites ds) (hd : ∀ x, ¬ TransGen (Site.Depends sites) x x) :
    ds.IsAcyclicFrom x ↔ ∀ z y, ReflTransGen ds.Uses x z → ds.UsesFile z y → ¬ ReflTransGen ds.Uses y z := by
  constructor
  · intro ha z y hz hfile hback
    exact ha z hz (TransGen.head' hfile.uses hback)
  · intro hno v hv hcycle
    rcases transGen_depends_or_usesFile h hcycle with hdep | ⟨z, y, hz, hfile, hback⟩
    · exact hd v hdep
    · exact hno z y (hv.trans hz) hfile (hback.trans hz)

/-- The references of the document have definitions, so only those in other files may have none. -/
theorem isClosedFrom_iff (h : IsCollection (Site.ofVisits file root visits) ds)
    (hr : ∀ ref ∈ Reference.all root, ds.contains ref.id = true) (hx : ds.contains x = true) :
    ds.IsClosedFrom x ↔ ∀ z y, ReflTransGen ds.Uses x z → z ∉ (Site.all file root).filterMap Site.id? → ds.Uses z y →
      ds.contains y = true := by
  constructor
  · intro hc z y hz _ hu
    exact hc y (hz.tail hu)
  · intro hother y hy
    rcases ReflTransGen.cases_tail hy with rfl | ⟨z, hz, hu⟩
    · exact hx
    by_cases hdoc : z ∈ (Site.all file root).filterMap Site.id?
    · -- The document comes first in its closure, so the definition of `z` that counts is one of its own.
      obtain ⟨s, hs⟩ := Option.isSome_iff_exists.mp (Site.isSome_first?.mpr hdoc)
      obtain ⟨s', hs', n, hn, hrefers⟩ := (uses_iff_site h).mp hu
      rw [Site.ofVisits, Site.first?_append, hs] at hs'
      obtain rfl := Option.some.inj hs'
      obtain ⟨m, hm, rfl⟩ := List.mem_map.mp (Site.of_first?_eq_some hs).1
      obtain ⟨ref, href, rfl⟩ := Reference.ofNode?_eq_some.mpr hrefers
      exact hr ref (List.mem_filterMap.mpr ⟨n, Node.mem_preorder_of_mem_children root (List.mem_filter.mp hm).1 hn, href⟩)
    · exact hother z y hz hdoc hu

end Definitions

namespace Site

variable {sites : List Site}

/-- The ids of the definitions with the ids to which their direct members refer. -/
def links (sites : List Site) : List (Option String × String) :=
  sites.flatMap fun s => s.node.children.filterMap fun n => (Reference.ofNode? n).map fun ref => (s.id?, ref.id)

/-- Are the ids distinct, does every reference of the document have a definition, and do the definitions depend on nothing that is
defined? -/
def LooksClean (root : Node) (sites : List Site) : Prop :=
  (sites.filterMap id?).Nodup ∧ (∀ ref ∈ Reference.all root, ref.id ∈ sites.filterMap id?) ∧
    ∀ s ∈ sites, ∀ y ∈ s.node.dependencies, y ∉ sites.filterMap id?

instance (root : Node) (sites : List Site) : Decidable (LooksClean root sites) :=
  inferInstanceAs (Decidable (_ ∧ _ ∧ _))

theorem LooksClean.not_transGen {root : Node} (h : LooksClean root sites) (x : String) : ¬ TransGen (Depends sites) x x := by
  intro hx
  obtain ⟨y, ⟨s, hs, -⟩, -⟩ := TransGen.head'_iff.mp hx
  obtain ⟨z, -, s', hs', hdep⟩ := TransGen.tail'_iff.mp hx
  refine h.2.2 s' (of_first?_eq_some hs').1 x hdep ?_
  rw [← isSome_first?, hs]
  rfl

end Site

namespace Definitions

theorem uses_iff_mem_links {ds : Definitions} {sites : List Site} {x y : String} (h : IsCollection sites ds) :
    ds.Uses x y ↔ (some x, y) ∈ Site.links sites := by
  rw [uses_iff_site h, Site.links, List.mem_flatMap]
  constructor
  · rintro ⟨s, hs, n, hn, hy⟩
    obtain ⟨hm, hid⟩ := Site.of_first?_eq_some hs
    obtain ⟨ref, href, rfl⟩ := Reference.ofNode?_eq_some.mpr hy
    exact ⟨s, hm, List.mem_filterMap.mpr ⟨n, hn, by simp [href, hid]⟩⟩
  · rintro ⟨s, hm, hlink⟩
    obtain ⟨n, hn, hlink⟩ := List.mem_filterMap.mp hlink
    obtain ⟨ref, href, he⟩ := Option.map_eq_some_iff.mp hlink
    obtain ⟨hid, rfl⟩ := Prod.mk.inj he
    exact ⟨s, h.distinct.first?_eq hm hid, n, hn, Reference.ofNode?_eq_some.mp ⟨ref, href, rfl⟩⟩

end Definitions

theorem Linter.findings_eq_nil_of_looksClean {w : World} {file : Option Path} {root : Node} {visits : List Visit}
    (hv : Closure.VisitsOf w none file root visits) (hlocal : ∀ v ∈ visits, v.isLocal = true → v.IsResolved)
    (h : Site.LooksClean root (Site.ofVisits file root visits)) : (Linter.run {} w {} file root).1.findings = [] := by
  have hf : Resolver.IsFaithful w {} := Resolver.isFaithful_of_memo rfl
  exact (Linter.findings_eq_nil hf).mpr ((Analysis.isClean_run_iff hv hf).mpr ⟨h.1, h.2.1, hlocal, h.not_transGen⟩)

namespace TemplateDefinition

variable {w : World} {r r' : Resolver} {file : Option Path} {root : Node} {limit : Nat} {x : String} {ds : Definitions}
  {e : Expansion}

theorem expandIn_eq_ok : expandIn w r file root limit x = .ok e ↔
    ∃ ds, (collectAll w r file root).1 = .ok ds ∧ ds.expand limit x = .ok e := by
  rw [expandIn, except_bind_eq_ok]

/-- In a document without findings, a template of the document expands exactly when all definitions in the closure have ids, the
files that other files refer to have documents, and, of the templates to which it leads, those in other files refer to defined
ones only, and none refers through `src` to one that leads back to it. -/
theorem clean_expands_iff (hf : r.IsFaithful w) (hf' : r'.IsFaithful w) (hr : r'.restrict = r.restrict)
    (hclean : (Linter.run {} w r file root).1.findings = []) (hx : x ∈ (Site.all file root).filterMap Site.id?)
    (hl : (Analysis.run w r file root).1.definitions.size ≤ limit) :
    ∃ visits, Closure.VisitsOf w r.restrict file root visits ∧
      ((∃ e, expandIn w r' file root limit x = .ok e) ↔
        (∀ s ∈ Site.ofVisits file root visits, s.id?.isSome = true) ∧
        (∀ v ∈ visits, v.isLocal = false → v.IsResolved) ∧
        ∀ ds, (collectAll w r' file root).1 = .ok ds →
          (∀ z y, ReflTransGen ds.Uses x z → z ∉ (Site.all file root).filterMap Site.id? → ds.Uses z y →
            ds.contains y = true) ∧
          ∀ z y, ReflTransGen ds.Uses x z → ds.UsesFile z y → ¬ ReflTransGen ds.Uses y z) := by
  obtain ⟨visits, hv⟩ := Closure.exists_visitsOf w r.restrict file root
  have hv' : Closure.VisitsOf w r'.restrict file root visits := hr ▸ hv
  obtain ⟨hdistinct, hrefs, hlocal, hacyclic⟩ := (Analysis.isClean_run_iff hv hf).mp ((Linter.findings_eq_nil hf).mp hclean)
  have hexpand : ∀ ds, (collectAll w r' file root).1 = .ok ds → ((∃ e, ds.expand limit x = .ok e) ↔
      (∀ z y, ReflTransGen ds.Uses x z → z ∉ (Site.all file root).filterMap Site.id? → ds.Uses z y → ds.contains y = true) ∧
      ∀ z y, ReflTransGen ds.Uses x z → ds.UsesFile z y → ¬ ReflTransGen ds.Uses y z) := by
    intro ds hds
    have hcol := ((collectAll_eq_ok hv' hf').mp hds).2
    have hsize : ds.size ≤ limit := by
      refine (Dict.size_le_size fun id hid => ?_).trans hl
      rwa [Dict.contains, Analysis.get?_definitions_run hv hf, Option.isSome_map, Site.isSome_first?, ← hcol.contains_iff]
    have hcontains : ds.contains x = true := by
      rw [hcol.contains_iff, Site.ofVisits, List.filterMap_append]
      exact List.mem_append_left _ hx
    rw [Definitions.exists_expand_of_size_le hsize, Definitions.isAcyclicFrom_iff hcol hacyclic,
      Definitions.isClosedFrom_iff hcol (fun ref href => hcol.contains_iff.mpr (hrefs ref href)) hcontains]
  refine ⟨visits, hv, ?_⟩
  constructor
  · rintro ⟨e, he⟩
    obtain ⟨ds, hds, hed⟩ := expandIn_eq_ok.mp he
    obtain ⟨hok, hcol⟩ := (collectAll_eq_ok hv' hf').mp hds
    refine ⟨hcol.distinct.1, fun v hv _ => hok v hv, fun ds' hds' => ?_⟩
    obtain rfl : ds = ds' := Except.ok.inj (hds.symm.trans hds')
    exact (hexpand ds hds).mp ⟨e, hed⟩
  · rintro ⟨hnamed, hother, hds⟩
    have hok : ∀ v ∈ visits, v.IsResolved := by
      intro v hv
      cases hl : v.isLocal with
      | true => exact hlocal v hv hl
      | false => exact hother v hv hl
    obtain ⟨ds, hcol⟩ := AreDistinct.exists_isCollection ⟨hnamed, hdistinct⟩
    have hcollected := (collectAll_eq_ok hv' hf').mpr ⟨hok, hcol⟩
    obtain ⟨e, he⟩ := (hexpand ds hcollected).mpr (hds ds hcollected)
    exact ⟨e, expandIn_eq_ok.mpr ⟨ds, hcollected, he⟩⟩

end TemplateDefinition

/-- The file of the document has a template without references, and nothing leads back to `a`. -/
theorem clean_expands_iff_linked :
    ∃ e, TemplateDefinition.expandIn (fileWorld linkedSource) {} none linkedDocument.root 2 "a" = .ok e := by
  have hf : Resolver.IsFaithful (fileWorld linkedSource) {} := Resolver.isFaithful_of_memo rfl
  have hclean : (Linter.run {} (fileWorld linkedSource) {} none linkedDocument.root).1.findings = [] :=
    Linter.findings_eq_nil_of_looksClean visitsOf_linked (by simp [Visit.IsResolved, fileVisit]) (by decide +kernel)
  have hsize : (Analysis.run (fileWorld linkedSource) {} none linkedDocument.root).1.definitions.size ≤ 2 := by
    have hids : (Site.ofVisits none linkedDocument.root [fileVisit linkedReference linkedSource]).filterMap Site.id? =
        ["a", "b"] := by decide +kernel
    rw [← Dict.length_keys]
    refine (List.Nodup.length_le_of_subset (Dict.nodup_keys _) fun id hid => ?_ : _ ≤ ["a", "b"].length)
    rwa [Dict.mem_keys, Dict.contains, Analysis.get?_definitions_run visitsOf_linked hf, Option.isSome_map, Site.isSome_first?,
      hids] at hid
  have ha : "a" ∈ (Site.all none linkedDocument.root).filterMap Site.id? := by decide +kernel
  obtain ⟨visits, hv, hiff⟩ := TemplateDefinition.clean_expands_iff hf hf rfl hclean ha hsize
  obtain rfl := hv.unique visitsOf_linked
  refine hiff.mpr ⟨areDistinct_linked.1, by simp [fileVisit], fun ds hds => ?_⟩
  have hcol := ((TemplateDefinition.collectAll_eq_ok visitsOf_linked hf).mp hds).2
  have hlinks : Site.links (Site.ofVisits none linkedDocument.root [fileVisit linkedReference linkedSource]) =
      [(some "a", "b")] := by decide +kernel
  have huses : ∀ z y, ds.Uses z y → z = "a" ∧ y = "b" := by
    intro z y hu
    rw [Definitions.uses_iff_mem_links hcol, hlinks] at hu
    simpa using hu
  refine ⟨fun z y _ hz hu => ?_, fun z y _ hfile hback => ?_⟩
  · obtain ⟨rfl, -⟩ := huses z y hu
    exact absurd ha hz
  · obtain ⟨rfl, rfl⟩ := huses z y hfile.uses
    rcases ReflTransGen.cases_head hback with h | ⟨c, hu, -⟩
    · simp at h
    · have hne := (huses "b" c hu).1
      simp at hne

/-! ### Documents without findings that do not expand -/

/-- Is there no finding in the document, although its template `a` does not expand, whatever the limit is? -/
def FailsClean (w : World) (root : Node) : Prop :=
  (Linter.run {} w {} none root).1.findings = [] ∧ "a" ∈ (Site.all none root).filterMap Site.id? ∧
    ∀ limit e, TemplateDefinition.expandIn w {} none root limit "a" ≠ .ok e

theorem FailsClean.of_collectAll {w : World} {root : Node} {visits : List Visit} (hv : Closure.VisitsOf w none none root visits)
    (hlocal : ∀ v ∈ visits, v.isLocal = true → v.IsResolved) (h : Site.LooksClean root (Site.ofVisits none root visits))
    (ha : "a" ∈ (Site.all none root).filterMap Site.id?)
    (hfails : ∀ ds, (∀ v ∈ visits, v.IsResolved) → IsCollection (Site.ofVisits none root visits) ds →
      ∀ limit, ¬ ds.Fits limit 0 "a") : FailsClean w root := by
  refine ⟨Linter.findings_eq_nil_of_looksClean hv hlocal h, ha, fun limit e he => ?_⟩
  obtain ⟨ds, hds, he⟩ := TemplateDefinition.expandIn_eq_ok.mp he
  obtain ⟨hok, hcol⟩ := (TemplateDefinition.collectAll_eq_ok hv (Resolver.isFaithful_of_memo rfl)).mp hds
  exact hfails ds hok hcol limit (Definitions.exists_expand_iff.mp ⟨e, he⟩)

/-- A definition without an id. -/
def unnamedDocument : Document :=
  .parse ":::template\n:::\n:::template\x7bid=\"a\"\x7d\n:::\n".toList

theorem failsClean_unnamed : FailsClean {} unnamedDocument.root := by
  have hnone : Reference.all unnamedDocument.root = [] := by decide +kernel
  have hv : Closure.VisitsOf {} none none unnamedDocument.root [] := by
    rw [Closure.VisitsOf, hnone]
    exact .done
  have hnamed : ¬ AreDistinct (Site.ofVisits none unnamedDocument.root []) := by decide +kernel
  exact .of_collectAll hv (by simp) (by decide +kernel) (by decide +kernel) fun ds _ hcol => absurd hcol.distinct hnamed

/-- A template `b` in a file with a reference to another file. -/
def unreadableSource : String := ":::template\x7bid=\"b\"\x7d\n:::\n::template\x7bid=\"c\" src=\"c.md\"\x7d\n"

theorem failsClean_unreadable : FailsClean (fileWorld unreadableSource) linkedDocument.root := by
  have hrefs : Reference.all (Document.parse unreadableSource.toList).root = [⟨"c", some "c.md", some 3, some 1⟩] := by
    decide +kernel
  have hpath : Resolver.resolvePath (fileWorld unreadableSource).cwd "c.md" (some ⟨"/b.md"⟩) = ⟨"/c.md"⟩ := by decide +kernel
  have hread : (fileWorld unreadableSource).files.readText ((fileWorld unreadableSource).cwd.join ⟨"/c.md"⟩) =
      .error .noEntry := by decide +kernel
  have hv : Closure.VisitsOf (fileWorld unreadableSource) none none linkedDocument.root
      [fileVisit linkedReference unreadableSource,
        ⟨⟨"c", some "c.md", some 3, some 1⟩, false, .error (.ofFileError ⟨"/c.md"⟩ .noEntry)⟩] := by
    refine visitsOf_fileWorld (by decide +kernel) (by decide +kernel) rfl ?_
    rw [hrefs]
    exact .step rfl (by decide +kernel) (by rw [Resolver.outcome_none, hpath, hread]) .done
  refine .of_collectAll hv ?_ (by decide +kernel) (by decide +kernel) fun ds hok => ?_
  · simp [Visit.IsResolved, fileVisit]
  · obtain ⟨f, hf⟩ := hok _ (List.mem_cons_of_mem _ List.mem_cons_self)
    cases hf

/-- A template `b` in a file with a reference to a template that is not defined. -/
def undefinedSource : String := ":::template\x7bid=\"b\"\x7d\n::template\x7bid=\"c\"\x7d\n:::\n"

theorem failsClean_undefined : FailsClean (fileWorld undefinedSource) linkedDocument.root := by
  have hrefs : (Reference.all (Document.parse undefinedSource.toList).root) = [⟨"c", none, some 2, some 1⟩] := by decide +kernel
  have hv : Closure.VisitsOf (fileWorld undefinedSource) none none linkedDocument.root
      [fileVisit linkedReference undefinedSource] := by
    refine visitsOf_fileWorld (by decide +kernel) (by decide +kernel) rfl ?_
    rw [hrefs]
    exact .skip (by simp) .done
  refine .of_collectAll hv ?_ (by decide +kernel) (by decide +kernel) fun ds _ hcol limit hfits => ?_
  · simp [Visit.IsResolved, fileVisit]
  · have hab : ds.Uses "a" "b" := (Definitions.uses_iff_mem_links hcol).mpr (by decide +kernel)
    have hbc : ds.Uses "b" "c" := (Definitions.uses_iff_mem_links hcol).mpr (by decide +kernel)
    have hc := hcol.contains_iff.mp (hfits.isClosedFrom "c" (.tail (.single hab) hbc))
    revert hc
    decide +kernel

/-- A template `a` that refers to itself through a file. -/
def circularDocument : Document :=
  .parse ":::template\x7bid=\"a\"\x7d\n::template\x7bid=\"a\" src=\"b.md\"\x7d\n:::\n".toList

theorem failsClean_circular : FailsClean (fileWorld "") circularDocument.root := by
  have hrefs : Reference.all circularDocument.root = [⟨"a", some "b.md", some 2, some 1⟩] := by decide +kernel
  have hnone : Reference.all (Document.parse "".toList).root = [] := by decide +kernel
  have hv : Closure.VisitsOf (fileWorld "") none none circularDocument.root
      [fileVisit ⟨"a", some "b.md", some 2, some 1⟩ ""] := by
    refine visitsOf_fileWorld (by decide +kernel) hrefs rfl ?_
    rw [hnone]
    exact .done
  refine .of_collectAll hv ?_ (by decide +kernel) (by decide +kernel) fun ds _ hcol limit hfits => ?_
  · simp [Visit.IsResolved, fileVisit]
  · have haa : ds.Uses "a" "a" := (Definitions.uses_iff_mem_links hcol).mpr (by decide +kernel)
    exact hfits.not_transGen (.single haa)

/-- Of the things at which the rules do not look, each alone keeps a template from expanding. -/
theorem not_clean_expands :
    (¬ ∀ (w : World) (file : Option Path) (root : Node) (limit : Nat) (x : String),
      (Linter.run {} w {} file root).1.findings = [] → x ∈ (Site.all file root).filterMap Site.id? →
      (Analysis.run w {} file root).1.definitions.size ≤ limit →
      ∃ e, TemplateDefinition.expandIn w {} file root limit x = .ok e) ∧
    FailsClean {} unnamedDocument.root ∧ FailsClean (fileWorld unreadableSource) linkedDocument.root ∧
    FailsClean (fileWorld undefinedSource) linkedDocument.root ∧ FailsClean (fileWorld "") circularDocument.root := by
  refine ⟨fun h => ?_, failsClean_unnamed, failsClean_unreadable, failsClean_undefined, failsClean_circular⟩
  obtain ⟨hclean, ha, hfails⟩ := failsClean_undefined
  obtain ⟨e, he⟩ := h (fileWorld undefinedSource) none linkedDocument.root _ "a" hclean ha le_rfl
  exact hfails _ e he

end MarkdownTemplates
