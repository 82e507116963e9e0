import MarkdownTemplates.Path
import MarkdownTemplates.Text.Casing

/-!
# Options of the command line

Which commands there are, which options and operands each of them takes, and what is wrong with a line that does not fit.
-/

namespace MarkdownTemplates

namespace Usage

inductive OptionKind where
  /-- An option without a value, given at most once. -/
  | switch
  | help
  | version
  /-- An option with a path, given at most once. -/
  | path
  /-- An option with one of a few words, given at most once. -/
  | word (words : List String)
  /-- An option with words between commas, given any number of times. -/
  | list
  deriving DecidableEq, Repr

structure CommandOption where
  name : String
  short : Option Char := none
  kind : OptionKind := .switch
  deriving DecidableEq, Repr

/-- The operands of a command. -/
inductive Operands where
  | none
  | one (name : String)
  | many
  deriving DecidableEq, Repr

/-- What may stand in a part of the command line. -/
structure Scope where
  commands : List String := []
  options : List CommandOption
  operands : Operands := .none

inductive UsageProblem where
  | unknownArgument (argument : String)
  | unknownCommand (name : String)
  | missingValue (option : CommandOption)
  | wrongValue (option : CommandOption) (value : String)
  | excessValue (option : CommandOption) (value : String)
  | repeatedOption (option : CommandOption)
  | missingOperand (name : String)
  deriving DecidableEq, Repr

namespace CommandOption

def takesValue (o : CommandOption) : Bool :=
  match o.kind with
  | .path => true
  | .word _ => true
  | .list => true
  | _ => false

/-- The word that stands for the value of an option. -/
def placeholder (o : CommandOption) : String :=
  String.ofList (o.name.toList.map fun c => if c = '-' then '_' else c.toUpper)

/-- The option as messages show it. -/
def text (o : CommandOption) : String :=
  "--" ++ o.name ++ if o.takesValue then " <" ++ o.placeholder ++ ">" else ""

end CommandOption

namespace UsageProblem

def withoutValue (o : CommandOption) : String := "a value is required for '" ++ o.text ++ "' but none was supplied"

def message : UsageProblem → String
  | unknownArgument a => "unexpected argument '" ++ a ++ "' found"
  | unknownCommand name => "unrecognized subcommand '" ++ name ++ "'"
  | missingValue o => withoutValue o
  | wrongValue o value =>
    if value.isEmpty then withoutValue o else "invalid value '" ++ value ++ "' for '" ++ o.text ++ "'"
  | excessValue o value => "unexpected value '" ++ value ++ "' for '" ++ o.text ++ "' found; no more were expected"
  | repeatedOption o => "the argument '" ++ o.text ++ "' cannot be used multiple times"
  | missingOperand name => "the following required arguments were not provided:\n  <" ++ name ++ ">"

end UsageProblem

/-! ## Commands -/

def helpOption : CommandOption := { name := "help", short := some 'h', kind := .help }

/-- Options that may stand before and behind the name of a command. -/
def sharedOptions : List CommandOption :=
  [{ name := "path", short := some 'p', kind := .path }, { name := "config", kind := .path },
   { name := "verbose", short := some 'v' }, { name := "quiet", short := some 'q' }, { name := "no-color" }, helpOption]

def formatWords : List String := ["text", "json"]

def helpCommand : String := "help"

/-- What may stand before the name of a command. -/
def topScope : Scope where
  commands := ["lint", "generate", "cache", "validate", helpCommand]
  options := { name := "version", short := some 'V', kind := .version } :: sharedOptions

/-- What may stand behind the name of a command. -/
def commandScope (command : String) : Scope :=
  match command with
  | "lint" =>
    { options := [{ name := "format", kind := .word formatWords }, { name := "rules", kind := .list },
        { name := "disable-rules", kind := .list }, { name := "no-cache" }] ++ sharedOptions
      operands := .many }
  | "generate" =>
    { options := [{ name := "file", kind := .path }, { name := "output", short := some 'o', kind := .path },
        { name := "force" }] ++ sharedOptions
      operands := .one "TEMPLATE_ID" }
  | "cache" =>
    { options := [{ name := "info" }, { name := "rebuild" }, { name := "refresh" }, { name := "clear" }] ++ sharedOptions }
  | _ => { options := sharedOptions, operands := .many }

namespace Scope

def option? (s : Scope) (name : String) : Option CommandOption := s.options.find? (·.name = name)

def shortOption? (s : Scope) (c : Char) : Option CommandOption := s.options.find? (·.short = some c)

end Scope

end Usage

end MarkdownTemplates
