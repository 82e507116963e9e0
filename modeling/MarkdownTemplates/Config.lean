import MarkdownTemplates.Failure
import MarkdownTemplates.Lint.Report
import MarkdownTemplates.Resolver
import MarkdownTemplates.Template.Expansion
import MarkdownTemplates.Toml.Reader

/-!
# Configuration

The settings of a project, which stand in a TOML file at its root. A setting that is left out has its default, and a section must
not have a setting that is unknown.
-/

namespace MarkdownTemplates

/-- Where the configuration of a project is looked for, first place first. -/
def configNames : List Path := [⟨"mdck.toml"⟩, ⟨".mdck.toml"⟩, ⟨".config/mdck.toml"⟩]

/-- The setting of a rule: one word, or a table. -/
inductive RuleSetting where
  | word (s : String)
  | config (c : RuleConfig)
  deriving DecidableEq, Repr

structure CacheSection where
  dir : Path := ⟨".mdck/.cache"⟩
  /-- How long a snapshot may be used, in seconds. -/
  maxAge : Nat := 86400
  maxConcurrency : Nat := 10
  enabled : Bool := true
  deriving DecidableEq, Repr

structure Config where
  /-- Patterns of files that do not belong to the project. -/
  exclude : List String := []
  rules : Dict RuleSetting := ∅
  cache : CacheSection := {}
  restrictToRoot : Bool := false
  maxDepth : Nat := defaultMaxDepth
  deriving DecidableEq

structure CacheOptions where
  /-- Where the snapshot is kept, below the root of the project. -/
  dir : Path := ⟨".mdck/.cache"⟩
  /-- How long a snapshot may be used, in milliseconds. -/
  maxAge : Nat := 86400000
  maxConcurrency : Nat := 10
  exclude : List String := []
  deriving DecidableEq, Repr

/-! ## Settings as values -/

namespace TomlValue

def asString? : TomlValue → Option String
  | string s => some s
  | _ => none

def asBool? : TomlValue → Option Bool
  | bool b => some b
  | _ => none

def asNat? : TomlValue → Option Nat
  | integer (.ofNat n) => some n
  | _ => none

def asList? {α : Type} (f : TomlValue → Option α) : TomlValue → Option (List α)
  | array items => items.mapM f
  | tables items => items.mapM f
  | _ => none

/-- The settings of a section with the given names. An array stands for a section too, whose settings come in order. -/
def asSection? (names : List String) : TomlValue → Option TomlTable
  | table _ entries => if entries.all fun e => names.contains e.1 then some entries else none
  | array items => some (names.zip items)
  | tables items => some (names.zip items)
  | _ => none

end TomlValue

/-- A setting of a section, which has a value when it is left out. -/
def TomlTable.setting? {α : Type} (t : TomlTable) (name : String) (f : TomlValue → Option α) (a : α) : Option α :=
  match t.lookup name with
  | none => some a
  | some v => f v

/-! ## Sections -/

namespace RuleSetting

def ofToml? : TomlValue → Option RuleSetting
  | .string s => some (word s)
  | .moment => some (config {})
  | .table _ entries => do
    let enabled ← TomlTable.setting? entries "enabled" TomlValue.asBool? true
    let severity ← TomlTable.setting? entries "severity" (fun v => (v.asString?.bind Severity.ofName?).map some) none
    return config { enabled, severity }
  | _ => none

/-- How a rule is set. The word `off` switches it off, and other words are severities. -/
def ruleConfig : RuleSetting → Except Failure RuleConfig
  | word s =>
    if s = "off" then .ok { enabled := false }
    else (Severity.read s).map fun severity => { severity := some severity }
  | config c => .ok c

end RuleSetting

namespace Config

def rulesOfToml? : TomlValue → Option (Dict RuleSetting)
  | .table _ entries => (entries.mapM fun e => (RuleSetting.ofToml? e.2).map fun s => (e.1, s)).map Dict.ofList
  | _ => none

def lintOfToml? (v : TomlValue) : Option (Dict RuleSetting) := do
  let t ← v.asSection? ["rules"]
  t.setting? "rules" rulesOfToml? ∅

def cacheOfToml? (v : TomlValue) : Option CacheSection := do
  let t ← v.asSection? ["dir", "max_age_secs", "max_concurrency", "enabled"]
  let standard : CacheSection := {}
  let dir ← t.setting? "dir" (fun v => v.asString?.map Path.mk) standard.dir
  let maxAge ← t.setting? "max_age_secs" TomlValue.asNat? standard.maxAge
  let maxConcurrency ← t.setting? "max_concurrency" TomlValue.asNat? standard.maxConcurrency
  let enabled ← t.setting? "enabled" TomlValue.asBool? standard.enabled
  return { dir, maxAge, maxConcurrency, enabled }

def resolverOfToml? (v : TomlValue) : Option Bool := do
  let t ← v.asSection? ["restrict_to_root"]
  t.setting? "restrict_to_root" TomlValue.asBool? false

def expansionOfToml? (v : TomlValue) : Option Nat := do
  let t ← v.asSection? ["max_depth"]
  let standard : Config := {}
  t.setting? "max_depth" TomlValue.asNat? standard.maxDepth

def ofToml? (t : TomlTable) : Option Config := do
  let t ← (TomlValue.table .header t).asSection? ["exclude", "lint", "cache", "resolver", "expansion"]
  let exclude ← t.setting? "exclude" (TomlValue.asList? TomlValue.asString?) []
  let rules ← t.setting? "lint" lintOfToml? ∅
  let cache ← t.setting? "cache" cacheOfToml? {}
  let restrictToRoot ← t.setting? "resolver" resolverOfToml? false
  let maxDepth ← t.setting? "expansion" expansionOfToml? defaultMaxDepth
  return { exclude, rules, cache, restrictToRoot, maxDepth }

/-! ## Use -/

/-- How the rules are set. The first wrong word, in the order of the rules, is a failure. -/
def lintConfig (c : Config) : Except Failure LintConfig := do
  let rules ← c.rules.entries.mapM fun e => (RuleSetting.ruleConfig e.2).map fun r => (e.1, r)
  return ⟨Dict.ofList rules⟩

def parse (text : String) : Except Failure Config := do
  match (Toml.read? text.toList).bind ofToml? with
  | none => .error (.configParse "invalid configuration")
  | some c =>
    let _ ← c.lintConfig
    return c

def cacheOptions (c : Config) : CacheOptions where
  dir := c.cache.dir
  maxAge := c.cache.maxAge * 1000
  maxConcurrency := max c.cache.maxConcurrency 1
  exclude := c.exclude

/-- The resolver for a project at `root`. -/
def resolver (c : Config) (root : Path) : Resolver := { restrict := if c.restrictToRoot then some root else none }

/-- The configuration file of the project at `root`. -/
def find? (files : FileTree) (root : Path) : Option Path := (configNames.map root.join).find? files.isFile

/-- The configuration in the file that `p` shows, which stands at `full`. -/
def loadFrom (files : FileTree) (p full : Path) : Except Failure Config := do
  parse (← (files.readText full).mapError (Failure.ofFileError p.text))

/-- The configuration of the project at `root`, if it has one. -/
def load (files : FileTree) (root : Path) : Except Failure (Option Config) :=
  match find? files root with
  | none => .ok none
  | some p => (loadFrom files p p).map some

end Config

end MarkdownTemplates
