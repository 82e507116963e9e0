import MarkdownTemplates.Config
import MarkdownTemplates.Proofs.Toml

/-!
# Unknown settings

A configuration with a setting that its section does not have is refused. Only the table of a rule is not looked through: what it says
under another key than its own is not heeded, and the rule is set as if it were not there.
-/

namespace MarkdownTemplates

variable {α β ε : Type}

theorem except_map_eq_ok {x : Except ε α} {f : α → β} {b : β} : x.map f = .ok b ↔ ∃ a, x = .ok a ∧ f a = b := by
  cases x <;> simp [Except.map]

theorem forall₂_of_mapM_eq_some {f : α → Option β} {l : List α} {m : List β} (h : l.mapM f = some m) :
    List.Forall₂ (fun a b => f a = some b) l m := by
  induction l generalizing m with
  | nil => simp_all
  | cons a l ih =>
    rw [List.mapM_cons] at h
    obtain ⟨b, hb, h⟩ := Option.bind_eq_some_iff.mp h
    obtain ⟨m', hm', h⟩ := Option.bind_eq_some_iff.mp h
    exact Option.some.inj h ▸ .cons hb (ih hm')

theorem forall₂_of_mapM_eq_ok {f : α → Except ε β} {l : List α} {m : List β} (h : l.mapM f = .ok m) :
    List.Forall₂ (fun a b => f a = .ok b) l m := by
  induction l generalizing m with
  | nil =>
    obtain rfl : [] = m := Except.ok.inj h
    exact .nil
  | cons a l ih =>
    rw [List.mapM_cons] at h
    obtain ⟨b, hb, h⟩ := except_bind_eq_ok.mp h
    obtain ⟨m', hm', h⟩ := except_bind_eq_ok.mp h
    exact Except.ok.inj h ▸ .cons hb (ih hm')

namespace Dict

variable {R : α → β → Prop} {l : List (String × α)} {m : List (String × β)}

theorem map_fst_of_forall₂ (h : List.Forall₂ (fun a b => b.1 = a.1 ∧ R a.2 b.2) l m) : m.map Prod.fst = l.map Prod.fst := by
  induction h with
  | nil => rfl
  | cons hab _ ih => rw [List.map_cons, List.map_cons, hab.1, ih]

theorem rel_lookup_of_forall₂ (h : List.Forall₂ (fun a b => b.1 = a.1 ∧ R a.2 b.2) l m) (k : String) :
    Option.Rel R (l.lookup k) (m.lookup k) := by
  induction h with
  | nil => exact .none
  | @cons a b l m hab _ ih =>
    obtain ⟨ka, va⟩ := a
    obtain ⟨kb, vb⟩ := b
    obtain ⟨rfl, hR⟩ := hab
    rw [lookup_cons_eq_ite, lookup_cons_eq_ite]
    split_ifs
    · exact .some hR
    · exact ih

/-- When each entry of a list gives one with the same key, what is found under a key belongs to what it was made of. -/
theorem rel_get?_ofList (hl : (l.map Prod.fst).Nodup) (h : List.Forall₂ (fun a b => b.1 = a.1 ∧ R a.2 b.2) l m) (k : String) :
    Option.Rel R (l.lookup k) ((ofList m).get? k) := by
  rw [get?_ofList_of_nodup (map_fst_of_forall₂ h ▸ hl)]
  exact rel_lookup_of_forall₂ h k

end Dict

namespace TomlTable

variable {t : TomlTable} {key k : String} {f : TomlValue → TomlValue}

/-- Change the value of one entry. -/
def mapAt (key : String) (f : TomlValue → TomlValue) (t : TomlTable) : TomlTable :=
  t.map fun e => (e.1, if e.1 = key then f e.2 else e.2)

theorem lookup_mapAt (t : TomlTable) (key k : String) (f : TomlValue → TomlValue) :
    (t.mapAt key f).lookup k = if k = key then (t.lookup k).map f else t.lookup k := by
  induction t with
  | nil => simp [mapAt]
  | cons e t ih =>
    obtain ⟨k', v⟩ := e
    rw [mapAt, List.map_cons, ← mapAt, Dict.lookup_cons_eq_ite, Dict.lookup_cons_eq_ite, ih]
    by_cases hk : k = k'
    · subst hk
      split_ifs <;> simp
    · simp [hk]

theorem setting?_mapAt {read : TomlValue → Option α} (hf : ∀ v, read (f v) = read v) (a : α) :
    (t.mapAt key f).setting? key read a = t.setting? key read a := by
  rw [setting?, setting?, lookup_mapAt, if_pos rfl]
  cases t.lookup key with
  | none => rfl
  | some v => exact hf v

theorem setting?_mapAt_of_ne {read : TomlValue → Option α} (h : k ≠ key) (a : α) :
    (t.mapAt key f).setting? k read a = t.setting? k read a := by
  rw [setting?, setting?, lookup_mapAt, if_neg h]

theorem asSection?_mapAt {names : List String} {origin : TableOrigin} :
    (TomlValue.table origin (t.mapAt key f)).asSection? names = ((TomlValue.table origin t).asSection? names).map (mapAt key f) := by
  have hnames : (t.mapAt key f).all (fun e => names.contains e.1) = t.all fun e => names.contains e.1 := by
    rw [mapAt, List.all_map]
    rfl
  rw [TomlValue.asSection?, TomlValue.asSection?, hnames]
  split_ifs <;> rfl

end TomlTable

namespace Config

/-- The tables that make up a configuration. -/
inductive Level where
  | top
  | lint
  | rule
  | cache
  | resolver
  | expansion
  deriving DecidableEq

def Level.keys : Level → List String
  | top => ["exclude", "lint", "cache", "resolver", "expansion"]
  | lint => ["rules"]
  | rule => ["enabled", "severity"]
  | cache => ["dir", "max_age_secs", "max_concurrency", "enabled"]
  | resolver => ["restrict_to_root"]
  | expansion => ["max_depth"]

/-- The table of the rules in a document. It is also the first item of an array in the place of the section around it. -/
inductive HasRules (t : TomlTable) : TomlTable → Prop
  | table {origin origin' : TableOrigin} {lint rules : TomlTable} (hlint : ("lint", .table origin lint) ∈ t)
      (hrules : ("rules", .table origin' rules) ∈ lint) : HasRules t rules
  | array {origin : TableOrigin} {rules : TomlTable} {rest : List TomlValue}
      (hlint : ("lint", .array (.table origin rules :: rest)) ∈ t) : HasRules t rules
  | tables {origin : TableOrigin} {rules : TomlTable} {rest : List TomlValue}
      (hlint : ("lint", .tables (.table origin rules :: rest)) ∈ t) : HasRules t rules

/-- Where a table stands in a document. -/
inductive StandsAt (t : TomlTable) : Level → TomlTable → Prop
  | top : StandsAt t .top t
  | lint {origin : TableOrigin} {s : TomlTable} (h : ("lint", .table origin s) ∈ t) : StandsAt t .lint s
  | rule {origin : TableOrigin} {rules s : TomlTable} {id : String} (hrules : HasRules t rules) (h : (id, .table origin s) ∈ rules) :
      StandsAt t .rule s
  | cache {origin : TableOrigin} {s : TomlTable} (h : ("cache", .table origin s) ∈ t) : StandsAt t .cache s
  | resolver {origin : TableOrigin} {s : TomlTable} (h : ("resolver", .table origin s) ∈ t) : StandsAt t .resolver s
  | expansion {origin : TableOrigin} {s : TomlTable} (h : ("expansion", .table origin s) ∈ t) : StandsAt t .expansion s

/-- Is a rule set as its table says? What the table does not say is standard. -/
structure TakesOver (s : TomlTable) (r : RuleConfig) : Prop where
  enabled : ∀ v, ("enabled", v) ∈ s → v = .bool r.enabled
  enabled_standard : "enabled" ∉ s.map Prod.fst → r.enabled = true
  severity : ∀ v, ("severity", v) ∈ s → ∃ name severity, v = .string name ∧ Severity.ofName? name = some severity ∧
    r.severity = some severity
  severity_standard : "severity" ∉ s.map Prod.fst → r.severity = none

/-- How a rule is set by what is written for it. A date is taken for a table that says nothing. -/
inductive Sets : TomlValue → RuleConfig → Prop
  | off : Sets (.string "off") { enabled := false }
  | word {name : String} {severity : Severity} (h : Severity.read name = .ok severity) :
      Sets (.string name) { severity := some severity }
  | table {origin : TableOrigin} {s : TomlTable} {r : RuleConfig} (h : TakesOver s r) : Sets (.table origin s) r
  | moment : Sets .moment {}

/-! ## What is heeded -/

/-- A rule without what its table says under unknown keys. -/
def heededRule : TomlValue → TomlValue
  | .table origin s => .table origin (s.filter fun e => e.1 ∈ Level.rule.keys)
  | v => v

def heededRules : TomlValue → TomlValue
  | .table origin rules => .table origin (rules.map fun e => (e.1, heededRule e.2))
  | v => v

/-- An array in the place of the section has its only setting as the first item. -/
def heededLint : TomlValue → TomlValue
  | .table origin lint => .table origin (TomlTable.mapAt "rules" heededRules lint)
  | .array items => .array ((items.take 1).map heededRules)
  | .tables items => .tables ((items.take 1).map heededRules)
  | v => v

/-- What is heeded of a document. -/
def heeded (t : TomlTable) : TomlTable := t.mapAt "lint" heededLint

variable {t : TomlTable} {c : Config}

theorem lookup_filter_keys (s : TomlTable) (names : List String) (k : String) (hk : k ∈ names) :
    (s.filter fun e => e.1 ∈ names).lookup k = s.lookup k := by
  induction s with
  | nil => rfl
  | cons e s ih =>
    obtain ⟨k', v⟩ := e
    rw [List.filter_cons, Dict.lookup_cons_eq_ite]
    by_cases h : k = k'
    · subst h
      simp [hk]
    · split_ifs
      · rw [Dict.lookup_cons_eq_ite, if_neg h, ih]
      · exact ih

theorem ofToml?_heededRule (v : TomlValue) : RuleSetting.ofToml? (heededRule v) = RuleSetting.ofToml? v := by
  cases v with
  | table origin s =>
    have henabled := lookup_filter_keys s Level.rule.keys "enabled" (by decide)
    have hseverity := lookup_filter_keys s Level.rule.keys "severity" (by decide)
    simp only [heededRule, RuleSetting.ofToml?, TomlTable.setting?, henabled, hseverity]
  | _ => rfl

theorem rulesOfToml?_heededRules (v : TomlValue) : rulesOfToml? (heededRules v) = rulesOfToml? v := by
  cases v with
  | table origin rules => simp only [heededRules, rulesOfToml?, List.mapM_map, Function.comp_def, ofToml?_heededRule]
  | _ => rfl

theorem lintOfToml?_array (items : List TomlValue) :
    lintOfToml? (.array items) = (items.head?.elim (some ∅) rulesOfToml?) := by
  cases items <;> rfl

theorem lintOfToml?_tables (items : List TomlValue) :
    lintOfToml? (.tables items) = (items.head?.elim (some ∅) rulesOfToml?) := by
  cases items <;> rfl

theorem lintOfToml?_heededLint (v : TomlValue) : lintOfToml? (heededLint v) = lintOfToml? v := by
  cases v with
  | table origin lint =>
    rw [heededLint, lintOfToml?, lintOfToml?, TomlTable.asSection?_mapAt, Option.bind_eq_bind, Option.bind_map]
    exact Option.bind_congr fun s _ => TomlTable.setting?_mapAt rulesOfToml?_heededRules ∅
  | array items => cases items <;> simp [heededLint, lintOfToml?_array, rulesOfToml?_heededRules]
  | tables items => cases items <;> simp [heededLint, lintOfToml?_tables, rulesOfToml?_heededRules]
  | _ => rfl

/-- What is not heeded has no effect. -/
theorem ofToml?_heeded (t : TomlTable) : ofToml? (heeded t) = ofToml? t := by
  rw [ofToml?, ofToml?, heeded, TomlTable.asSection?_mapAt, Option.bind_eq_bind, Option.bind_map]
  refine Option.bind_congr fun s _ => ?_
  have hother : ∀ {α : Type} {k : String} {read : TomlValue → Option α} (a : α), k ≠ "lint" →
      (s.mapAt "lint" heededLint).setting? k read a = s.setting? k read a := fun a h => TomlTable.setting?_mapAt_of_ne h a
  simp only [Function.comp_apply, TomlTable.setting?_mapAt lintOfToml?_heededLint, hother, ne_eq, String.reduceEq, not_false_eq_true]

/-! ## What is refused -/

theorem known_of_asSection? {names : List String} {origin : TableOrigin} {s s' : TomlTable}
    (h : (TomlValue.table origin s).asSection? names = some s') : s' = s ∧ ∀ e ∈ s, e.1 ∈ names := by
  rw [TomlValue.asSection?] at h
  split_ifs at h with hall
  exact ⟨(Option.some.inj h).symm, fun e he => List.contains_iff_mem.mp (List.all_eq_true.mp hall e he)⟩

/-- What is known of a document that stands for a configuration. -/
structure Yields (t : TomlTable) (c : Config) : Prop where
  known : ∀ e ∈ t, e.1 ∈ Level.top.keys
  lint : t.setting? "lint" lintOfToml? ∅ = some c.rules
  cache : t.setting? "cache" cacheOfToml? {} = some c.cache
  resolver : t.setting? "resolver" resolverOfToml? false = some c.restrictToRoot
  expansion : t.setting? "expansion" expansionOfToml? defaultMaxDepth = some c.maxDepth

theorem yields_of_ofToml? (hc : ofToml? t = some c) : Yields t c := by
  obtain ⟨s, hs, h⟩ := Option.bind_eq_some_iff.mp hc
  obtain ⟨rfl, hknown⟩ := known_of_asSection? hs
  obtain ⟨exclude, -, h⟩ := Option.bind_eq_some_iff.mp h
  obtain ⟨rules, hrules, h⟩ := Option.bind_eq_some_iff.mp h
  obtain ⟨cache, hcache, h⟩ := Option.bind_eq_some_iff.mp h
  obtain ⟨restrictToRoot, hresolver, h⟩ := Option.bind_eq_some_iff.mp h
  obtain ⟨maxDepth, hexpansion, h⟩ := Option.bind_eq_some_iff.mp h
  obtain rfl := Option.some.inj h
  exact ⟨hknown, hrules, hcache, hresolver, hexpansion⟩

/-- A section that is read has no unknown setting. -/
theorem known_of_setting? {read : TomlValue → Option α} {names : List String} {name : String} {a b : α} {origin : TableOrigin}
    {s : TomlTable} (ht : t.HasDistinctKeys) (hread : ∀ v a, read v = some a → ∃ s, v.asSection? names = some s)
    (h : t.setting? name read a = some b) (hs : (name, .table origin s) ∈ t) : ∀ e ∈ s, e.1 ∈ names := by
  rw [TomlTable.setting?, (Dict.lookup_eq_some_iff ht.nodup).mpr hs] at h
  obtain ⟨s', hs'⟩ := hread _ _ h
  exact (known_of_asSection? hs').2

/-- Only in the tables of rules a configuration has unknown settings. -/
theorem Yields.known_of_standsAt (h : Yields t c) (ht : t.HasDistinctKeys) {level : Level} {s : TomlTable} (hs : StandsAt t level s)
    (hlevel : level ≠ .rule) : ∀ e ∈ s, e.1 ∈ level.keys := by
  have hsection : ∀ {α β : Type} {x : Option α} {f : α → Option β} {b : β}, x.bind f = some b → ∃ a, x = some a :=
    fun h => (Option.bind_eq_some_iff.mp h).imp fun _ h => h.1
  cases hs with
  | top => exact h.known
  | rule => exact absurd rfl hlevel
  | lint hs => exact known_of_setting? ht (fun _ _ => hsection) h.lint hs
  | cache hs => exact known_of_setting? ht (fun _ _ => hsection) h.cache hs
  | resolver hs => exact known_of_setting? ht (fun _ _ => hsection) h.resolver hs
  | expansion hs => exact known_of_setting? ht (fun _ _ => hsection) h.expansion hs

/-! ## How rules are set -/

/-- A setting has the value in the table, and the standard value if the table has none. -/
theorem setting?_eq_some {read : TomlValue → Option α} {name : String} {a b : α} {s : TomlTable} (hs : s.HasDistinctKeys)
    (h : s.setting? name read a = some b) : (∀ v, (name, v) ∈ s → read v = some b) ∧ (name ∉ s.map Prod.fst → b = a) := by
  rw [TomlTable.setting?] at h
  split at h
  next hnone =>
    have hname := Dict.lookup_eq_none_iff.mp hnone
    exact ⟨fun v hv => absurd (List.mem_map_of_mem hv) hname, fun _ => (Option.some.inj h).symm⟩
  next w hw =>
    have hmem := (Dict.lookup_eq_some_iff hs.nodup).mp hw
    refine ⟨fun v hv => ?_, fun hname => absurd (List.mem_map_of_mem hmem) hname⟩
    obtain rfl : w = v := Option.some.inj (hw.symm.trans ((Dict.lookup_eq_some_iff hs.nodup).mpr hv))
    exact h

theorem takesOver_of_setting? {s : TomlTable} {enabled : Bool} {severity : Option Severity} (hs : s.HasDistinctKeys)
    (henabled : s.setting? "enabled" TomlValue.asBool? true = some enabled)
    (hseverity : s.setting? "severity" (fun v => (v.asString?.bind Severity.ofName?).map some) none = some severity) :
    TakesOver s { enabled, severity } := by
  obtain ⟨henabled, hstandard⟩ := setting?_eq_some hs henabled
  obtain ⟨hseverity, hnone⟩ := setting?_eq_some hs hseverity
  refine ⟨fun v hv => ?_, hstandard, fun v hv => ?_, hnone⟩
  · have hbool := henabled v hv
    cases v with
    | bool b => exact congrArg TomlValue.bool (Option.some.inj hbool)
    | _ => cases hbool
  · obtain ⟨severity', hname, hsome⟩ := Option.map_eq_some_iff.mp (hseverity v hv)
    obtain ⟨name, hstring, hname⟩ := Option.bind_eq_some_iff.mp hname
    cases v with
    | string name' =>
      obtain rfl : name' = name := Option.some.inj hstring
      exact ⟨name', severity', rfl, hname, hsome.symm⟩
    | _ => cases hstring

/-- A rule is set as it is written. -/
theorem sets_of_ofToml? {v : TomlValue} {setting : RuleSetting} {r : RuleConfig} (hv : v.HasDistinctKeys)
    (h : RuleSetting.ofToml? v = some setting) (hr : setting.ruleConfig = .ok r) : Sets v r := by
  cases v with
  | string name =>
    obtain rfl := Option.some.inj h
    rw [RuleSetting.ruleConfig] at hr
    split_ifs at hr with hoff
    · exact Except.ok.inj hr ▸ hoff ▸ .off
    · obtain ⟨severity, hseverity, rfl⟩ := except_map_eq_ok.mp hr
      exact .word hseverity
  | moment =>
    obtain rfl := Option.some.inj h
    exact Except.ok.inj hr ▸ .moment
  | table origin s =>
    obtain ⟨enabled, henabled, h⟩ := Option.bind_eq_some_iff.mp h
    obtain ⟨severity, hseverity, h⟩ := Option.bind_eq_some_iff.mp h
    obtain rfl := Option.some.inj h
    have hs := TomlTable.hasDistinctKeys_table_iff.mp hv
    exact Except.ok.inj hr ▸ .table (takesOver_of_setting? hs henabled hseverity)
  | _ => cases h

variable {rules : TomlTable} {lint : LintConfig}

theorem HasRules.hasDistinctKeys (h : HasRules t rules) (ht : t.HasDistinctKeys) : rules.HasDistinctKeys := by
  cases h with
  | table hlint hrules =>
    have hlint := TomlTable.hasDistinctKeys_table_iff.mp (ht.values _ hlint)
    exact TomlTable.hasDistinctKeys_table_iff.mp (hlint.values _ hrules)
  | array hlint =>
    have hitems := TomlValue.hasDistinctKeys_array_iff.mp (ht.values _ hlint)
    exact TomlTable.hasDistinctKeys_table_iff.mp (hitems _ List.mem_cons_self)
  | tables hlint =>
    have hitems := TomlValue.hasDistinctKeys_tables_iff.mp (ht.values _ hlint)
    exact TomlTable.hasDistinctKeys_table_iff.mp (hitems _ List.mem_cons_self)

/-- The rules of a configuration are read from the table of the rules. -/
theorem Yields.rulesOfToml?_of_hasRules (h : Yields t c) (ht : t.HasDistinctKeys) (hrules : HasRules t rules) :
    ∃ origin, rulesOfToml? (.table origin rules) = some c.rules := by
  have hread := (setting?_eq_some ht h.lint).1
  cases hrules with
  | table hlint hrules =>
    obtain ⟨s, hs, hsetting⟩ := Option.bind_eq_some_iff.mp (hread _ hlint)
    obtain ⟨rfl, -⟩ := known_of_asSection? hs
    have hlint := TomlTable.hasDistinctKeys_table_iff.mp (ht.values _ hlint)
    exact ⟨_, (setting?_eq_some hlint hsetting).1 _ hrules⟩
  | @array origin _ _ hlint =>
    have hd := hread _ hlint
    rw [lintOfToml?_array] at hd
    exact ⟨origin, hd⟩
  | @tables origin _ _ hlint =>
    have hd := hread _ hlint
    rw [lintOfToml?_tables] at hd
    exact ⟨origin, hd⟩

theorem exists_of_rulesOfToml? {v : TomlValue} {d : Dict RuleSetting} (h : rulesOfToml? v = some d) :
    ∃ origin rules, v = .table origin rules := by
  cases v with
  | table origin rules => exact ⟨origin, rules, rfl⟩
  | _ => cases h

/-- Without such a table there are no rules. -/
theorem Yields.exists_hasRules (h : Yields t c) (ht : t.HasDistinctKeys) (hc : c.rules ≠ ∅) : ∃ rules, HasRules t rules := by
  obtain ⟨hread, hnone⟩ := setting?_eq_some ht h.lint
  have hlint : "lint" ∈ t.map Prod.fst := by
    by_contra hlint
    exact hc (hnone hlint)
  obtain ⟨⟨_, v⟩, hv, rfl⟩ := List.mem_map.mp hlint
  have hd := hread v hv
  cases v with
  | table origin s =>
    obtain ⟨s', hs', hsetting⟩ := Option.bind_eq_some_iff.mp hd
    obtain ⟨rfl, -⟩ := known_of_asSection? hs'
    obtain ⟨hread, hnone⟩ := setting?_eq_some (TomlTable.hasDistinctKeys_table_iff.mp (ht.values _ hv)) hsetting
    have hrules : "rules" ∈ s'.map Prod.fst := by
      by_contra hrules
      exact hc (hnone hrules)
    obtain ⟨⟨_, w⟩, hw, rfl⟩ := List.mem_map.mp hrules
    obtain ⟨origin', rules, rfl⟩ := exists_of_rulesOfToml? (hread w hw)
    exact ⟨rules, .table hv hw⟩
  | array items =>
    rw [lintOfToml?_array] at hd
    cases items with
    | nil => exact absurd (Option.some.inj hd).symm hc
    | cons w rest =>
      obtain ⟨origin, rules, rfl⟩ := exists_of_rulesOfToml? hd
      exact ⟨rules, .array hv⟩
  | tables items =>
    rw [lintOfToml?_tables] at hd
    cases items with
    | nil => exact absurd (Option.some.inj hd).symm hc
    | cons w rest =>
      obtain ⟨origin, rules, rfl⟩ := exists_of_rulesOfToml? hd
      exact ⟨rules, .tables hv⟩
  | _ => cases hd

/-- Every entry of the table of the rules sets the rule with its key, and no other rule is set. -/
theorem rel_lintConfig {origin : TableOrigin} (hd : rules.HasDistinctKeys) (hrules : rulesOfToml? (.table origin rules) = some c.rules)
    (hlint : c.lintConfig = .ok lint) (id : String) : Option.Rel Sets (rules.lookup id) (lint.rules.get? id) := by
  obtain ⟨settings, hsettings, hc⟩ := Option.map_eq_some_iff.mp hrules
  obtain ⟨configs, hconfigs, hl⟩ := except_bind_eq_ok.mp hlint
  obtain rfl := Except.ok.inj hl
  have hread : List.Forall₂ (fun e s => s.1 = e.1 ∧ RuleSetting.ofToml? e.2 = some s.2) rules settings := by
    refine (forall₂_of_mapM_eq_some hsettings).imp fun e s h => ?_
    obtain ⟨setting, hsetting, rfl⟩ := Option.map_eq_some_iff.mp h
    exact ⟨rfl, hsetting⟩
  have hset : List.Forall₂ (fun s e => e.1 = s.1 ∧ s.2.ruleConfig = .ok e.2) c.rules.entries configs := by
    refine (forall₂_of_mapM_eq_ok hconfigs).imp fun s e h => ?_
    obtain ⟨config, hconfig, rfl⟩ := except_map_eq_ok.mp h
    exact ⟨rfl, hconfig⟩
  have hread := Dict.rel_get?_ofList (R := fun v s => RuleSetting.ofToml? v = some s) hd.nodup hread id
  have hset := Dict.rel_get?_ofList (R := fun s r => s.ruleConfig = .ok r) c.rules.nodup_keys hset id
  rw [hc, Dict.get?] at hread
  change Option.Rel Sets (rules.lookup id) ((Dict.ofList configs).get? id)
  generalize hv : rules.lookup id = v at hread ⊢
  generalize c.rules.entries.lookup id = s at hread hset
  generalize (Dict.ofList configs).get? id = r at hset ⊢
  cases hread with
  | none =>
    cases hset
    exact .none
  | some hs =>
    cases hset with
    | some hr => exact .some (sets_of_ofToml? (hd.of_lookup hv) hs hr)

theorem Yields.exists_sets {id : String} {v : TomlValue} (h : Yields t c) (ht : t.HasDistinctKeys) (hlint : c.lintConfig = .ok lint)
    (hrules : HasRules t rules) (hv : (id, v) ∈ rules) : ∃ r, lint.rules.get? id = some r ∧ Sets v r := by
  obtain ⟨origin, hread⟩ := h.rulesOfToml?_of_hasRules ht hrules
  have hd := hrules.hasDistinctKeys ht
  have hrel := rel_lintConfig hd hread hlint id
  rw [(Dict.lookup_eq_some_iff hd.nodup).mpr hv] at hrel
  cases hr : lint.rules.get? id with
  | none =>
    rw [hr] at hrel
    cases hrel
  | some r =>
    rw [hr] at hrel
    cases hrel with
    | some hsets => exact ⟨r, rfl, hsets⟩

theorem Yields.exists_mem_rules {id : String} {r : RuleConfig} (h : Yields t c) (ht : t.HasDistinctKeys)
    (hlint : c.lintConfig = .ok lint) (hr : lint.rules.get? id = some r) : ∃ rules v, HasRules t rules ∧ (id, v) ∈ rules := by
  have hc : c.rules ≠ ∅ := by
    intro hc
    rw [lintConfig, hc] at hlint
    cases hlint
    cases hr
  obtain ⟨rules, hrules⟩ := h.exists_hasRules ht hc
  obtain ⟨origin, hread⟩ := h.rulesOfToml?_of_hasRules ht hrules
  have hd := hrules.hasDistinctKeys ht
  have hrel := rel_lintConfig hd hread hlint id
  rw [hr] at hrel
  cases hv : rules.lookup id with
  | none =>
    rw [hv] at hrel
    cases hrel
  | some v => exact ⟨rules, v, hrules, (Dict.lookup_eq_some_iff hd.nodup).mp hv⟩

/-! ## Configurations as texts -/

theorem parse_of_read? {text : String} (h : Toml.read? text.toList = some t) :
    parse text = match ofToml? t with
      | none => .error (.configParse "invalid configuration")
      | some c => c.lintConfig.map fun _ => c := by
  rw [parse, h, Option.bind_some]
  cases ofToml? t with
  | none => rfl
  | some c => cases h : c.lintConfig <;> rfl

/-- A configuration with a key that its level does not have is refused, unless the table of a rule has it. In the tables of rules such
keys are not heeded: texts that differ in nothing else are taken alike. When a text is taken, each entry of the table of the rules sets
its rule, and no other rule is set. -/
theorem parse_unknown_keys (text : String) {t : TomlTable} (h : Toml.read? text.toList = some t) :
    (∀ level s key v, StandsAt t level s → (key, v) ∈ s → key ∉ level.keys → level ≠ .rule →
      ∃ message, parse text = .error (.configParse message)) ∧
    (∀ text' t', Toml.read? text'.toList = some t' → heeded t' = heeded t → parse text' = parse text) ∧
    ∀ c, parse text = .ok c → ∃ lint, c.lintConfig = .ok lint ∧
      (∀ rules id v, HasRules t rules → (id, v) ∈ rules → ∃ r, lint.rules.get? id = some r ∧ Sets v r) ∧
      ∀ id r, lint.rules.get? id = some r → ∃ rules v, HasRules t rules ∧ (id, v) ∈ rules := by
  have ht : t.HasDistinctKeys := Toml.hasDistinctKeys_of_read? h
  refine ⟨fun level s key v hs hkey hunknown hlevel => ?_, fun text' t' h' heq => ?_, fun c hc => ?_⟩
  · rw [parse_of_read? h]
    cases hc : ofToml? t with
    | none => exact ⟨_, rfl⟩
    | some c => exact absurd ((yields_of_ofToml? hc).known_of_standsAt ht hs hlevel _ hkey) hunknown
  · rw [parse_of_read? h', parse_of_read? h, ← ofToml?_heeded, heq, ofToml?_heeded]
  · rw [parse_of_read? h] at hc
    cases hyields : ofToml? t with
    | none =>
      rw [hyields] at hc
      cases hc
    | some d =>
      rw [hyields] at hc
      obtain ⟨lint, hlint, rfl⟩ := except_map_eq_ok.mp hc
      have hyields := yields_of_ofToml? hyields
      exact ⟨lint, hlint, fun rules id v => hyields.exists_sets ht hlint, fun id r => hyields.exists_mem_rules ht hlint⟩

/-! ### A misspelt setting -/

/-- A document in which a setting of a rule is misspelt. -/
def misspelt : String := "[lint.rules]\nM004 = { enabeld = false }\n"

/-- The document without that setting. -/
def unset : String := "[lint.rules]\nM004 = { }\n"

/-- A document in which a setting of the cache is cut short. -/
def shortened : String := "[cache]\nmax_age = 60\n"

theorem read?_misspelt : Toml.read? misspelt.toList =
    some [("lint", .table .implicit [("rules", .table .header [("M004", .table .inline [("enabeld", .bool false)])])])] := by
  cbv

theorem read?_unset : Toml.read? unset.toList =
    some [("lint", .table .implicit [("rules", .table .header [("M004", .table .inline [])])])] := by
  cbv

theorem read?_shortened : Toml.read? shortened.toList = some [("cache", .table .header [("max_age", .integer 60)])] := by
  cbv

theorem parse_unknown_keys_misspelt :
    parse misspelt = parse unset ∧ ∃ message, parse shortened = .error (.configParse message) := by
  have hmisspelt := parse_unknown_keys misspelt read?_misspelt
  have hshortened := parse_unknown_keys shortened read?_shortened
  refine ⟨(hmisspelt.2.1 unset _ read?_unset rfl).symm, ?_⟩
  exact hshortened.1 .cache _ "max_age" _ (.cache List.mem_cons_self) List.mem_cons_self (by decide) (by decide)

/-- A misspelt setting of a rule is not refused, although no rule has such a setting. -/
theorem not_rejects_unknown_keys : ¬ ∀ (text : String) (t : TomlTable), Toml.read? text.toList = some t →
    ∀ level s key v, StandsAt t level s → (key, v) ∈ s → key ∉ level.keys → ∃ failure, parse text = .error failure := by
  intro h
  obtain ⟨failure, hfailure⟩ := h misspelt _ read?_misspelt .rule _ "enabeld" _
    (.rule (.table List.mem_cons_self List.mem_cons_self) List.mem_cons_self) List.mem_cons_self (by decide)
  have hok : (parse misspelt).isOk = true := by decide +kernel
  rw [hfailure] at hok
  cases hok

end Config

end MarkdownTemplates
