import MarkdownTemplates.Proofs.Dict
import MarkdownTemplates.Template.Definition

/-!
# Collections of definitions

Definitions are collected from the places that define them. A collection exists when every place names an id and no two places
name the same one, and the places then determine it.
-/

namespace MarkdownTemplates

/-- A node that defines a template, and the file in which it stands. -/
structure Site where
  file : Option Path
  node : Node

namespace Site

def id? (s : Site) : Option String := s.node.attribute? "id"

def definition (id : String) (s : Site) : TemplateDefinition := .ofNode id s.file s.node

/-- The definitions in a document, in document order. -/
def all (file : Option Path) (root : Node) : List Site := (root.preorder.filter Node.isDefinition).map (⟨file, ·⟩)

/-- The first site that defines `id`. -/
def first? (sites : List Site) (id : String) : Option Site := sites.find? (·.id? = some id)

variable {sites : List Site} {id : String} {s : Site}

theorem of_first?_eq_some (h : first? sites id = some s) : s ∈ sites ∧ s.id? = some id :=
  ⟨List.mem_of_find?_eq_some h, by simpa using List.find?_some h⟩

theorem isSome_first? : (first? sites id).isSome = true ↔ id ∈ sites.filterMap id? := by
  simp [first?, List.find?_isSome, List.mem_filterMap]

theorem first?_append (more : List Site) : first? (sites ++ more) id = (first? sites id).or (first? more id) :=
  List.find?_append

end Site

/-- Does every site name an id, and no two the same one? -/
def AreDistinct (sites : List Site) : Prop := (∀ s ∈ sites, s.id?.isSome = true) ∧ (sites.filterMap Site.id?).Nodup

instance (sites : List Site) : Decidable (AreDistinct sites) := inferInstanceAs (Decidable (_ ∧ _))

theorem areDistinct_append {sites more : List Site} : AreDistinct (sites ++ more) ↔
    AreDistinct sites ∧ AreDistinct more ∧ ∀ id ∈ more.filterMap Site.id?, id ∉ sites.filterMap Site.id? := by
  rw [AreDistinct, List.forall_mem_append, List.filterMap_append, List.nodup_append]
  constructor
  · rintro ⟨⟨ha, hb⟩, hna, hnb, hne⟩
    exact ⟨⟨ha, hna⟩, ⟨hb, hnb⟩, fun id hm hs => hne id hs id hm rfl⟩
  · rintro ⟨⟨ha, hna⟩, ⟨hb, hnb⟩, hne⟩
    exact ⟨⟨ha, hb⟩, hna, hnb, fun id hs id' hm he => hne id' hm (he ▸ hs)⟩

/-- Different groups of sites are distinct together when each is distinct and no two have a common id. -/
theorem areDistinct_flatMap {α : Type} {l : List α} {sites : α → List Site} (hl : l.Nodup) :
    AreDistinct (l.flatMap sites) ↔ (∀ a ∈ l, AreDistinct (sites a)) ∧
      ∀ a ∈ l, ∀ b ∈ l, ∀ x ∈ (sites a).filterMap Site.id?, x ∈ (sites b).filterMap Site.id? → a = b := by
  induction l with
  | nil => exact ⟨fun _ => by simp, fun _ => ⟨by simp, by simp⟩⟩
  | cons a l ih =>
    rw [List.nodup_cons] at hl
    have hids : ∀ x, x ∈ (l.flatMap sites).filterMap Site.id? ↔ ∃ b ∈ l, x ∈ (sites b).filterMap Site.id? := by
      intro x
      simp only [List.filterMap_flatMap, List.mem_flatMap]
    simp only [List.flatMap_cons, areDistinct_append, ih hl.2, hids, List.forall_mem_cons]
    constructor
    · rintro ⟨ha, ⟨hself, hapart⟩, hnew⟩
      refine ⟨⟨ha, hself⟩, ⟨fun _ _ _ => trivial, fun b hb x hx hxb => ?_⟩, fun b hb => ⟨fun x hx hxa => ?_, hapart b hb⟩⟩
      · exact absurd hx (hnew x ⟨b, hb, hxb⟩)
      · exact absurd hxa (hnew x ⟨b, hb, hx⟩)
    · rintro ⟨⟨ha, hself⟩, ⟨-, hfirst⟩, hrest⟩
      refine ⟨ha, ⟨hself, fun b hb => (hrest b hb).2⟩, ?_⟩
      rintro x ⟨b, hb, hxb⟩ hx
      exact hl.1 (hfirst b hb x hx hxb ▸ hb)

theorem AreDistinct.first?_eq {sites : List Site} (h : AreDistinct sites) {s : Site} {id : String} (hs : s ∈ sites)
    (hid : s.id? = some id) : Site.first? sites id = some s := by
  obtain ⟨before, after, rfl⟩ := List.append_of_mem hs
  obtain ⟨-, -, hnew⟩ := areDistinct_append.mp h
  have hbefore : Site.first? before id = none := by
    rw [← Option.not_isSome_iff_eq_none, Site.isSome_first?]
    exact hnew id (by simp [hid])
  rw [Site.first?_append, hbefore, Option.none_or, Site.first?, List.find?_cons_of_pos (by simpa using hid)]

/-- Are these the definitions at the sites? -/
structure IsCollection (sites : List Site) (ds : Definitions) : Prop where
  distinct : AreDistinct sites
  get?_eq : ∀ id, ds.get? id = (Site.first? sites id).map (Site.definition id)

namespace IsCollection

variable {sites more : List Site} {ds ds' incoming : Definitions} {id : String}

theorem unique (h : IsCollection sites ds) (h' : IsCollection sites ds') : ds = ds' :=
  Dict.ext_get? fun id => by rw [h.get?_eq, h'.get?_eq]

theorem contains_iff (h : IsCollection sites ds) : ds.contains id = true ↔ id ∈ sites.filterMap Site.id? := by
  rw [Dict.contains, h.get?_eq, Option.isSome_map, Site.isSome_first?]

theorem exists_of_get? (h : IsCollection sites ds) {d : TemplateDefinition} (hd : ds.get? id = some d) :
    ∃ s ∈ sites, s.id? = some id ∧ d = s.definition id := by
  rw [h.get?_eq] at hd
  obtain ⟨s, hs, rfl⟩ := Option.map_eq_some_iff.mp hd
  obtain ⟨hm, hid⟩ := Site.of_first?_eq_some hs
  exact ⟨s, hm, hid, rfl⟩

theorem get?_eq_some (h : IsCollection sites ds) {d : TemplateDefinition} :
    ds.get? id = some d ↔ ∃ s ∈ sites, s.id? = some id ∧ d = s.definition id := by
  constructor
  · exact h.exists_of_get?
  · rintro ⟨s, hs, hid, rfl⟩
    rw [h.get?_eq, h.distinct.first?_eq hs hid]
    rfl

/-- Collections without a common id are a collection together. -/
theorem append_iff (h : IsCollection sites ds) (hi : IsCollection more incoming) :
    IsCollection (sites ++ more) ds' ↔
      (∀ id, incoming.contains id = true → ds.contains id = false) ∧ ∀ id, ds'.get? id = (ds.get? id).or (incoming.get? id) := by
  have hget : ∀ id, (Site.first? (sites ++ more) id).map (Site.definition id) = (ds.get? id).or (incoming.get? id) := by
    intro id
    rw [Site.first?_append, h.get?_eq, hi.get?_eq]
    cases Site.first? sites id <;> rfl
  have hfresh : (∀ id, incoming.contains id = true → ds.contains id = false) ↔
      ∀ id ∈ more.filterMap Site.id?, id ∉ sites.filterMap Site.id? := by
    refine forall_congr' fun id => ?_
    rw [hi.contains_iff, ← Bool.not_eq_true, h.contains_iff]
  rw [hfresh]
  constructor
  · intro h'
    exact ⟨(areDistinct_append.mp h'.distinct).2.2, fun id => by rw [h'.get?_eq, hget]⟩
  · rintro ⟨hne, hd⟩
    exact ⟨areDistinct_append.mpr ⟨h.distinct, hi.distinct, hne⟩, fun id => by rw [hd, hget]⟩

end IsCollection

theorem lookup_filterMap_definition (sites : List Site) (id : String) :
    (sites.filterMap fun s => s.id?.map fun id => (id, s.definition id)).lookup id =
      (Site.first? sites id).map (Site.definition id) := by
  induction sites with
  | nil => rfl
  | cons s sites ih =>
    rw [Site.first?] at ih
    rw [List.filterMap_cons, Site.first?, List.find?_cons]
    cases hs : s.id? with
    | none => simpa using ih
    | some k =>
      rw [Option.map_some, Dict.lookup_cons_eq_ite]
      by_cases hk : id = k
      · simp [hk]
      · simpa [hk, Ne.symm hk] using ih

/-- Distinct sites have a collection. -/
theorem AreDistinct.exists_isCollection {sites : List Site} (h : AreDistinct sites) : ∃ ds, IsCollection sites ds := by
  refine ⟨Dict.ofList (sites.filterMap fun s => s.id?.map fun id => (id, s.definition id)).reverse, h, fun id => ?_⟩
  rw [Dict.get?_ofList, List.reverse_reverse, lookup_filterMap_definition]

namespace TemplateDefinition

variable {sites more : List Site} {ds ds' incoming : Definitions} {file : Option Path} {root n : Node}

theorem addNode_eq_ok : addNode file ds n = .ok ds' ↔
    ∃ id, n.attribute? "id" = some id ∧ ds.contains id = false ∧ ds' = ds.insert id (ofNode id file n) := by
  rw [addNode]
  cases n.attribute? "id" with
  | none => simp
  | some id =>
    cases hf : ds.get? id with
    | some first => simp [Dict.contains, hf]
    | none => simp [Dict.contains, hf, eq_comm (a := ds')]

/-- Nodes are collected exactly when they have distinct ids. -/
theorem foldlM_addNode_eq_ok {nodes : List Node} :
    nodes.foldlM (addNode file) ∅ = .ok ds ↔ IsCollection (nodes.map (⟨file, ·⟩)) ds := by
  have hfirst : ∀ id, (Site.first? (nodes.map (⟨file, ·⟩)) id).map (Site.definition id) =
      (nodes.find? fun n => n.attribute? "id" = some id).map (ofNode id file) := by
    intro id
    rw [Site.first?, List.find?_map, Option.map_map]
    rfl
  have hids : (nodes.map (⟨file, ·⟩)).filterMap Site.id? = nodes.filterMap (·.attribute? "id") := by
    rw [List.filterMap_map]
    rfl
  have hnamed : (∀ s ∈ nodes.map (Site.mk file), s.id?.isSome = true) ↔ ∀ n ∈ nodes, (n.attribute? "id").isSome = true := by
    rw [List.forall_mem_map]
    rfl
  rw [Dict.foldlM_eq_ok (fun id n => ofNode id file n) fun _ _ _ => addNode_eq_ok]
  constructor
  · rintro ⟨hn, hd, -, hget⟩
    exact ⟨⟨hnamed.mpr hn, hids ▸ hd⟩, fun id => by rw [hget, hfirst]; rfl⟩
  · rintro ⟨⟨hn, hd⟩, hget⟩
    exact ⟨hnamed.mp hn, hids ▸ hd, fun _ _ => rfl, fun id => by rw [hget, hfirst]; rfl⟩

/-- A document is collected exactly when its definitions have distinct ids. -/
theorem collect_eq_ok : collect file root = .ok ds ↔ IsCollection (Site.all file root) ds := foldlM_addNode_eq_ok

/-- Definitions are merged exactly when they have no common id. -/
theorem merge_eq_ok (h : IsCollection sites ds) (hi : IsCollection more incoming) :
    merge ds incoming = .ok ds' ↔ IsCollection (sites ++ more) ds' := by
  have hkeys : incoming.entries.filterMap (fun e => some e.1) = incoming.keys := congrFun List.filterMap_eq_map' _
  have hmerge : merge ds incoming = .ok ds' ↔ (∀ e ∈ incoming.entries, (some e.1).isSome = true) ∧ incoming.keys.Nodup ∧
      (∀ id ∈ incoming.keys, ds.contains id = false) ∧
      ∀ id, ds'.get? id = (ds.get? id).or ((incoming.entries.find? fun e => some e.1 = some id).map Prod.snd) := by
    rw [← hkeys, merge]
    refine Dict.foldlM_eq_ok (fun _ (e : String × TemplateDefinition) => e.2) fun ds e ds' => ?_
    cases hf : ds.get? e.1 with
    | some first => simp [Dict.contains, hf]
    | none => simp [Dict.contains, hf, eq_comm (a := ds')]
  rw [h.append_iff hi, hmerge]
  constructor
  · rintro ⟨-, -, hfresh, hget⟩
    exact ⟨fun id hid => hfresh id (Dict.mem_keys.mpr hid), fun id => by rw [hget, Dict.find?_entries]⟩
  · rintro ⟨hfresh, hget⟩
    exact ⟨fun _ _ => rfl, incoming.nodup_keys, fun id hid => hfresh id (Dict.mem_keys.mp hid),
      fun id => by rw [hget, Dict.find?_entries]⟩

end TemplateDefinition

end MarkdownTemplates
