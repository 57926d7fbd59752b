import Nuperf.Library.TextReader

set_option autoImplicit false

namespace Nuperf.Klyspec

open ByteString TextReader

inductive ArgumentKind
  | flag
  | switch
  | option
  | positional
  | variadic
  | repeatable
  | keyValue
  deriving DecidableEq

inductive ValuePolicy
  | none
  | optional
  | required
  deriving DecidableEq

structure ArgumentSpec where
  id : Bytes := []
  kind : ArgumentKind := .flag
  valuePolicy : ValuePolicy := .none
  names : List Bytes := []
  defaultValue : Option Bytes := .none
  required : Bool := false
  deriving DecidableEq

structure CommandSpec where
  name : Bytes := []
  arguments : List ArgumentSpec := []

section Registration

/-- `Registry`, with its two maps. A command stands under its own name, an alias leads to a
command that is there, and the name of a command leads to that command. -/
structure Registry where
  commands : Bytes → Option CommandSpec
  aliases : Bytes → Option Bytes
  named : ∀ name command, commands name = some command → command.name = name
  leads : ∀ alias_ name, aliases alias_ = some name → (commands name).isSome
  own : ∀ name, (commands name).isSome → aliases name = some name

namespace Registry

/-- `Registry reg;`. -/
def empty : Registry where
  commands := fun _ => none
  aliases := fun _ => none
  named := by simp
  leads := by simp
  own := by simp

variable (registry : Registry)

/-- Nothing where `register_command` returns false. -/
def registerCommand (spec : CommandSpec) : Option Registry :=
  if spec.name = [] ∨ (registry.commands spec.name).isSome then none
  else some {
    commands := Function.update registry.commands spec.name (some spec)
    aliases := Function.update registry.aliases spec.name (some spec.name)
    named := by
      intro name command found
      rw [Function.update_apply] at found
      split_ifs at found with same
      · cases found
        exact same.symm
      · exact registry.named name command found
    leads := by
      intro alias_ name found
      rw [Function.update_apply] at found ⊢
      by_cases same : name = spec.name
      · rw [if_pos same]
        exact Option.isSome_some
      rw [if_neg same]
      split_ifs at found
      · cases found
        exact absurd rfl same
      · exact registry.leads alias_ name found
    own := by
      intro name found
      rw [Function.update_apply] at found ⊢
      split_ifs at found ⊢ with same
      · rw [same]
      · exact registry.own name found }

def registerAlias (commandName alias_ : Bytes) : Option Registry :=
  if there : (registry.commands commandName).isSome then
    if taken : alias_ = [] ∨ (registry.aliases alias_).isSome then none
    else some { registry with
      aliases := Function.update registry.aliases alias_ (some commandName)
      leads := by
        intro other name found
        rw [Function.update_apply] at found
        split_ifs at found with same
        · cases found
          exact there
        · exact registry.leads other name found
      own := by
        intro name found
        have old := registry.own name found
        rw [Function.update_apply]
        split_ifs with same
        · subst same
          rw [old] at taken
          simp at taken
        · exact old }
  else none

/-- `lookup` and `find_command_mutable`. -/
def lookup (nameOrAlias : Bytes) : Option CommandSpec :=
  (registry.aliases nameOrAlias).bind registry.commands

/-- `cmd->arguments.push_back(spec)` on the command that stands under a name. -/
def pushArgument (name : Bytes) (spec : ArgumentSpec) : Registry where
  commands := Function.update registry.commands name
    ((registry.commands name).map fun command =>
      { command with arguments := command.arguments ++ [spec] })
  aliases := registry.aliases
  named := by
    intro other command found
    rw [Function.update_apply] at found
    split_ifs at found with same
    · obtain ⟨old, there, rfl⟩ := Option.map_eq_some_iff.mp found
      rw [same]
      exact registry.named name old there
    · exact registry.named other command found
  leads := by
    intro alias_ other found
    have there := registry.leads alias_ other found
    rw [Function.update_apply]
    split_ifs with same
    · rw [Option.isSome_map, ← same]
      exact there
    · exact there
  own := by
    intro other found
    apply registry.own
    rw [Function.update_apply] at found
    split_ifs at found with same
    · rw [Option.isSome_map] at found
      rw [same]
      exact found
    · exact found

/-- What `register_argument` does not put next to an argument. -/
def clashes (spec arg : ArgumentSpec) : Bool :=
  arg.id == spec.id || spec.names.any fun name => arg.names.contains name

def registerArgument (commandName : Bytes) (spec : ArgumentSpec) : Option Registry :=
  match registry.lookup commandName with
  | none => none
  | some command =>
      if spec.id = [] ∨ command.arguments.any (clashes spec) then none
      else some (registry.pushArgument command.name spec)

/-- The loops of `lookup_argument`. -/
def findArgument (arguments : List ArgumentSpec) (idOrName : Bytes) : Option ArgumentSpec :=
  arguments.find? fun arg => arg.id == idOrName || arg.names.contains idOrName

def lookupArgument (commandName idOrName : Bytes) : Option ArgumentSpec :=
  match registry.lookup commandName with
  | none => none
  | some command => findArgument command.arguments idOrName

inductive Registration
  | command (spec : CommandSpec)
  | alias_ (commandName alias_ : Bytes)
  | argument (commandName : Bytes) (spec : ArgumentSpec)

def register : Registration → Option Registry
  | .command spec => registry.registerCommand spec
  | .alias_ commandName alias_ => registry.registerAlias commandName alias_
  | .argument commandName spec => registry.registerArgument commandName spec

/-- Registrations one after another, by a caller that does not look at what they return. -/
def run (history : List Registration) : Registry :=
  history.foldl (fun current registration => (current.register registration).getD current)
    registry

end Registry

end Registration

@[ext] structure ParseResult where
  values : Bytes → Option (List Bytes) := fun _ => .none
  positionals : List Bytes := []
  diagnostics : List Bytes := []
  ok : Bool := true

section Parsing

namespace ParseResult

variable (result : ParseResult)

/-- `result.values[id].push_back(value)`. -/
def push (id value : Bytes) : ParseResult :=
  { result with
    values := Function.update result.values id (some ((result.values id).getD [] ++ [value])) }

/-- `result.ok = false` and `result.diagnostics.push_back(message)`. -/
def fail (message : Bytes) : ParseResult :=
  { result with ok := false, diagnostics := result.diagnostics ++ [message] }

def addPositional (token : Bytes) : ParseResult :=
  { result with positionals := result.positionals ++ [token] }

/-- `result.values.at(id).size()`, with 0 for what the map does not contain. -/
def count (id : Bytes) : Nat := ((result.values id).getD []).length

end ParseResult

/-- `-`, the first byte of an option. -/
def dash : UInt8 := 0x2d

/-- The long name and the inline value of a token. -/
def splitInline (token : Bytes) : Bytes × Option Bytes :=
  match readRun (· != 61) token with
  | (name, _ :: value) => (name, some value)
  | (name, []) => (name, none)

/-- An option whose value is the next argument, with the name it was given by. -/
abbrev Pending := Option (ArgumentSpec × Bytes)

variable (find : Bytes → Option ArgumentSpec)

/-- The branch of the long options. -/
def readLong (result : ParseResult) (token : Bytes) : ParseResult × Pending :=
  let (longName, inlineValue) := splitInline token
  match find longName with
  | none => (result.fail (ascii "unknown option: " ++ longName), none)
  | some arg =>
      if arg.valuePolicy = .required then
        match inlineValue with
        | some value => (result.push arg.id value, none)
        | none => (result, some (arg, longName))
      else
        match inlineValue with
        | some value => (result.push arg.id value, none)
        | none => (result.push arg.id (ascii "true"), none)

/-- The loop over `j`, on the letters that are left of the token. -/
def readShort (result : ParseResult) : Bytes → ParseResult × Pending
  | [] => (result, none)
  | letter :: rest =>
      let shortName := [dash, letter]
      match find shortName with
      | none => readShort (result.fail (ascii "unknown option: " ++ shortName)) rest
      | some arg =>
          if arg.valuePolicy = .required then
            if rest = [] then (result, some (arg, shortName))
            else (result.push arg.id rest, none)
          else readShort (result.push arg.id (ascii "true")) rest

/-- A token of more than two bytes that starts with `--`. -/
def IsLong (token : Bytes) : Prop := 2 < token.length ∧ [dash, dash] <+: token

instance (token : Bytes) : Decidable (IsLong token) :=
  inferInstanceAs (Decidable (2 < token.length ∧ [dash, dash] <+: token))

/-- A token of more than one byte that starts with `-` but not with `--`. -/
def IsShort (token : Bytes) : Prop :=
  1 < token.length ∧ token[0]? = some dash ∧ token[1]? ≠ some dash

instance (token : Bytes) : Decidable (IsShort token) :=
  inferInstanceAs (Decidable (1 < token.length ∧ token[0]? = some dash ∧ token[1]? ≠ some dash))

/-- The branches on a token before the end of the options. -/
def readToken (result : ParseResult) (token : Bytes) : ParseResult × Pending :=
  if IsLong token then readLong find result token
  else if IsShort token then readShort find result token.tail
  else (result.addPositional token, none)

/-- The loop over `i`, on `end_of_options` and the arguments that are left. -/
def readTokens : Bool → ParseResult → List Bytes → ParseResult
  | _, result, [] => result
  | true, result, token :: rest => readTokens true (result.addPositional token) rest
  | false, result, token :: rest =>
      if token = [dash, dash] then readTokens true result rest
      else
        match readToken find result token with
        | (result, none) => readTokens false result rest
        | (result, some (arg, name)) =>
            match rest with
            | [] => result.fail (ascii "missing value for option: " ++ name)
            | value :: rest => readTokens false (result.push arg.id value) rest

/-- The default value of an argument that has none. -/
def settle (result : ParseResult) (arg : ArgumentSpec) : ParseResult :=
  match result.values arg.id, arg.defaultValue with
  | none, some value => result.push arg.id value
  | _, _ => result

/-- The body of the loop over the arguments of the command. -/
def checkArgument (result : ParseResult) (arg : ArgumentSpec) : ParseResult :=
  let result :=
    if arg.required ∧ result.values arg.id = none then
      result.fail (ascii "missing required argument: " ++ arg.id)
    else result
  let result := settle result arg
  let result :=
    if arg.kind = .flag ∧ 1 < result.count arg.id then
      result.fail (ascii "flag provided multiple times: " ++ arg.id)
    else result
  if (arg.kind = .option ∨ arg.kind = .switch) ∧ arg.kind ≠ .repeatable ∧
      1 < result.count arg.id then
    result.fail (ascii "non-repeatable option provided multiple times: " ++ arg.id)
  else result

/-- The checks of the positional arguments. -/
def checkPositionals (arguments : List ArgumentSpec) (result : ParseResult) : ParseResult :=
  let expected := arguments.countP (·.kind = .positional)
  let variadic := arguments.any (·.kind = .variadic)
  let result :=
    if result.positionals.length < expected then
      result.fail (ascii "missing positional argument(s)")
    else result
  if ¬ variadic ∧ expected < result.positionals.length ∧ expected ≠ 0 then
    result.fail (ascii "unexpected extra positional argument(s)")
  else result

/-- `KlyCLIService::parse`. -/
def Registry.parse (registry : Registry) (commandName : Bytes) (argv : List Bytes) : ParseResult :=
  match registry.lookup commandName with
  | none => ({} : ParseResult).fail (ascii "unknown command")
  | some command =>
      let result := readTokens (registry.lookupArgument command.name) false {} argv
      checkPositionals command.arguments (command.arguments.foldl checkArgument result)

end Parsing

end Nuperf.Klyspec
