import MarkdownTemplates.CommandLine.Usage
import MarkdownTemplates.Dict
import MarkdownTemplates.Text.Split

/-!
# Arguments of the command line

Reading the words of a command line. A value may be joined to its option or follow as the next word; in the second case it is
looked at only when the next option or operand comes, or the line ends.
-/

namespace MarkdownTemplates

open Usage

inductive OutputFormat where
  | text
  | json
  deriving DecidableEq, Repr

structure LintArguments where
  files : List String := []
  format : OutputFormat := .text
  /-- The only rules to check, if there are any. -/
  rules : List String := []
  disabledRules : List String := []
  noCache : Bool := false
  deriving DecidableEq, Repr

structure GenerateArguments where
  template : String
  /-- The file in which the template is looked up, instead of the snapshot. -/
  file : Option Path := none
  output : Option Path := none
  /-- May the output take the place of a file? -/
  force : Bool := false
  deriving DecidableEq, Repr

structure CacheArguments where
  info : Bool := false
  rebuild : Bool := false
  refresh : Bool := false
  clear : Bool := false
  deriving DecidableEq, Repr

inductive Command where
  | lint (arguments : LintArguments)
  | generate (arguments : GenerateArguments)
  | cache (arguments : CacheArguments)
  | validate (files : List String)
  deriving DecidableEq, Repr

structure Arguments where
  command : Option Command := none
  /-- The root of the project, if it is not the working directory. -/
  path : Option Path := none
  config : Option Path := none
  verbose : Bool := false
  quiet : Bool := false
  noColor : Bool := false
  deriving DecidableEq, Repr

/-- Why no command is run. -/
inductive UsageStop where
  | help
  | version
  | problem (p : UsageProblem)
  deriving DecidableEq, Repr

namespace Arguments

/-! ## Words -/

/-- The options and operands of a part of the line. -/
structure Matches where
  /-- The values of the options that were given, by their names. -/
  values : Dict (List String) := ∅
  operands : List String := []
  /-- An option that needs a value, and the value if it has come. -/
  pending : Option (CommandOption × Option String) := none

namespace Matches

def has (m : Matches) (name : String) : Bool := m.values.contains name

def list (m : Matches) (name : String) : List String := (m.values.get? name).getD []

def path? (m : Matches) (name : String) : Option Path := (m.list name).head?.map Path.mk

def awaitsValue (m : Matches) : Bool :=
  match m.pending with
  | some (_, none) => true
  | _ => false

/-- The words between the commas of a text. -/
def wordsOf (value : String) : List String := (Text.splitOn (· == ',') value.toList).map String.ofList

/-- Note an option that may be given once. -/
def recordOnce (m : Matches) (o : CommandOption) (values : List String) : Except UsageStop Matches :=
  if m.has o.name then .error (.problem (.repeatedOption o)) else .ok { m with values := m.values.insert o.name values }

/-- Note an option, with its value if it takes one. -/
def record (m : Matches) (o : CommandOption) (value : String) : Except UsageStop Matches :=
  match o.kind with
  | .help => .error .help
  | .version => .error .version
  | .switch => m.recordOnce o []
  | .list => .ok { m with values := m.values.insert o.name (m.list o.name ++ wordsOf value) }
  | .path => do
    let m ← m.recordOnce o [value]
    if value.isEmpty then .error (.problem (.missingValue o)) else .ok m
  | .word words => do
    let m ← m.recordOnce o [value]
    if words.contains value then .ok m else .error (.problem (.wrongValue o value))

/-- Note the option that waits for a value. -/
def resolve (m : Matches) : Except UsageStop Matches :=
  match m.pending with
  | none => .ok m
  | some (o, none) => .error (.problem (.missingValue o))
  | some (o, some value) => record { m with pending := none } o value

/-- Note an option to which a value is joined, or that waits for one. -/
def addOption (m : Matches) (o : CommandOption) (value : Option String) : Except UsageStop Matches := do
  let m ← m.resolve
  match value with
  | some value => m.record o value
  | none => return { m with pending := some (o, none) }

/-- Read an option with a long name, behind its two dashes. -/
def addLong (scope : Scope) (m : Matches) (s : List Char) : Except UsageStop Matches :=
  let name := String.ofList (s.takeWhile (· != '='))
  let value := if s.contains '=' then some (String.ofList ((s.dropWhile (· != '=')).drop 1)) else none
  match scope.option? name with
  | none => .error (.problem (.unknownArgument ("--" ++ name)))
  | some o =>
    if o.takesValue then m.addOption o value
    else
      match value with
      | some value => .error (.problem (.excessValue o value))
      | none => do (← m.resolve).record o ""

/-- Read options with short names, behind their dash. What follows an option that takes a value is that value. -/
def addShorts (scope : Scope) (m : Matches) : List Char → Except UsageStop Matches
  | [] => .ok m
  | c :: s =>
    match scope.shortOption? c with
    | none => .error (.problem (.unknownArgument ("-" ++ c.toString)))
    | some o =>
      if o.takesValue then
        match s with
        | [] => m.addOption o none
        | '=' :: s => m.addOption o (some (String.ofList s))
        | s => m.addOption o (some (String.ofList s))
      else do addShorts scope (← (← m.resolve).record o "") s

/-- Read an operand. Behind two dashes the name of a command is one as well. -/
def addOperand (scope : Scope) (literal : Bool) (m : Matches) (word : String) : Except UsageStop Matches :=
  let add : Except UsageStop Matches := do
    let m ← m.resolve
    return { m with operands := m.operands ++ [word] }
  match scope.operands, m.operands with
  | .many, _ => add
  | .one _, [] => add
  | _, _ =>
    let isCommand := literal && scope.commands.contains word
    .error (.problem (if scope.commands.isEmpty || isCommand then .unknownArgument word else .unknownCommand word))

/-- Read a word that is neither a command nor two dashes. -/
def addWord (scope : Scope) (m : Matches) (word : String) : Except UsageStop Matches :=
  match word.toList with
  | '-' :: '-' :: s => m.addLong scope s
  | '-' :: c :: s => m.addShorts scope (c :: s)
  | _ =>
    match m.pending with
    | some (o, none) => .ok { m with pending := some (o, some word) }
    | _ => m.addOperand scope false word

/-- Read words up to the name of a command, which comes with the words behind it. After two dashes all words are operands. -/
def read (scope : Scope) (literal : Bool) (m : Matches) :
    List String → Except UsageStop (Matches × Option (String × List String))
  | [] => .ok (m, none)
  | word :: rest =>
    if literal then do read scope true (← m.addOperand scope true word) rest
    else if ¬ m.awaitsValue ∧ scope.commands.contains word then .ok (m, some (word, rest))
    else if word = "--" then read scope true m rest
    else do read scope false (← m.addWord scope word) rest

end Matches

/-! ## Lines -/

/-- The command with a name and its options and operands. -/
def commandOf (name : String) (m : Matches) : Except UsageStop Command :=
  match name with
  | "lint" => .ok (.lint
      { files := m.operands, format := if m.list "format" = ["json"] then .json else .text, rules := m.list "rules",
        disabledRules := m.list "disable-rules", noCache := m.has "no-cache" })
  | "generate" =>
    match m.operands with
    | [] => .error (.problem (.missingOperand "TEMPLATE_ID"))
    | template :: _ => .ok (.generate
        { template, file := m.path? "file", output := m.path? "output", force := m.has "force" })
  | "cache" => .ok (.cache
      { info := m.has "info", rebuild := m.has "rebuild", refresh := m.has "refresh", clear := m.has "clear" })
  | _ => .ok (.validate m.operands)

/-- The arguments before the name of a command and behind it. Those behind it count more. -/
def ofMatches (top m : Matches) (command : Option Command) : Arguments where
  command := command
  path := m.path? "path" <|> top.path? "path"
  config := m.path? "config" <|> top.path? "config"
  verbose := top.has "verbose" || m.has "verbose"
  quiet := top.has "quiet" || m.has "quiet"
  noColor := top.has "no-color" || m.has "no-color"

/-- The words behind the command `help` name a command. -/
def helpOn : List String → UsageStop
  | [] => .help
  | [name] => if topScope.commands.contains name then .help else .problem (.unknownCommand name)
  | name :: next :: _ => .problem (.unknownCommand (if topScope.commands.contains name then next else name))

/-- Read the words of a command line, without the name of the program. -/
def parse (words : List String) : Except UsageStop Arguments := do
  match ← Matches.read topScope false {} words with
  | (top, none) =>
    let top ← top.resolve
    return ofMatches top {} none
  | (top, some (name, rest)) =>
    if name = helpCommand then .error (helpOn rest)
    else
      let (m, _) ← Matches.read (commandScope name) false {} rest
      let m ← m.resolve
      let command ← commandOf name m
      let top ← top.resolve
      return ofMatches top m (some command)

end Arguments

end MarkdownTemplates
