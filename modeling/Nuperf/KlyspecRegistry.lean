import Nuperf.Klyspec

set_option autoImplicit false

namespace Nuperf.Klyspec

open ByteString

/-- Arguments whose ids are apart, and of which no two share a name. -/
def Distinct (arguments : List ArgumentSpec) : Prop :=
  arguments.Pairwise fun earlier later =>
    earlier.id ≠ later.id ∧ ∀ name ∈ later.names, name ∉ earlier.names

theorem distinct_append (arguments : List ArgumentSpec) (spec : ArgumentSpec)
    (distinct : Distinct arguments) (fits : arguments.any (Registry.clashes spec) = false) :
    Distinct (arguments ++ [spec]) := by
  refine List.pairwise_append.mpr ⟨distinct, List.pairwise_singleton _ _, ?_⟩
  intro arg member other last
  rw [List.mem_singleton.mp last]
  have free := List.any_eq_false.mp fits arg member
  simp only [Registry.clashes, Bool.or_eq_true, beq_iff_eq, List.any_eq_true,
    List.contains_iff_mem, not_or, not_exists, not_and] at free
  exact free

namespace Registry

variable (registry : Registry)

theorem lookup_own (name : Bytes) (known : (registry.commands name).isSome = true) :
    registry.lookup name = registry.commands name := by
  rw [lookup, registry.own name known, Option.bind_some]

theorem lookup_eq_some_iff (nameOrAlias : Bytes) (command : CommandSpec) :
    registry.lookup nameOrAlias = some command ↔
      registry.aliases nameOrAlias = some command.name ∧
        registry.commands command.name = some command := by
  rw [lookup, Option.bind_eq_some_iff]
  constructor
  · rintro ⟨name, leads, found⟩
    have same := registry.named name command found
    rw [same]
    exact ⟨leads, found⟩
  · rintro ⟨leads, found⟩
    exact ⟨command.name, leads, found⟩

theorem pushArgument_commands (name : Bytes) (spec : ArgumentSpec) :
    (registry.pushArgument name spec).commands =
      Function.update registry.commands name
        ((registry.commands name).map fun command =>
          { command with arguments := command.arguments ++ [spec] }) := rfl

section Step

variable {registry} {next : Registry} {registration : Registration}

/-- What a registration can do to a registry. -/
theorem register_cases (accepted : registry.register registration = some next) :
    (∃ spec, registration = .command spec ∧ registry.commands spec.name = none ∧
      next.commands = Function.update registry.commands spec.name (some spec) ∧
      next.aliases = Function.update registry.aliases spec.name (some spec.name)) ∨
    (∃ name alias_, registration = .alias_ name alias_ ∧ registry.aliases alias_ = none ∧
      next.commands = registry.commands ∧
      next.aliases = Function.update registry.aliases alias_ (some name)) ∨
    (∃ name spec command, registration = .argument name spec ∧
      registry.lookup name = some command ∧
      command.arguments.any (clashes spec) = false ∧
      next.commands = Function.update registry.commands command.name
        (some { command with arguments := command.arguments ++ [spec] }) ∧
      next.aliases = registry.aliases) := by
  cases registration with
  | command spec =>
      left
      rw [register, registerCommand] at accepted
      split_ifs at accepted with refused
      cases accepted
      rw [not_or] at refused
      exact ⟨spec, rfl, by simpa using refused.2, rfl, rfl⟩
  | alias_ name alias_ =>
      right
      left
      rw [register, registerAlias] at accepted
      split_ifs at accepted with there refused
      cases accepted
      rw [not_or] at refused
      exact ⟨name, alias_, rfl, by simpa using refused.2, rfl, rfl⟩
  | argument name spec =>
      right
      right
      rw [register, registerArgument] at accepted
      cases found : registry.lookup name with
      | none =>
          rw [found] at accepted
          cases accepted
      | some command =>
          rw [found] at accepted
          dsimp only at accepted
          split_ifs at accepted with refused
          cases accepted
          rw [not_or] at refused
          have there := ((registry.lookup_eq_some_iff name command).mp found).2
          refine ⟨name, spec, command, rfl, found, by simpa using refused.2, ?_, rfl⟩
          rw [pushArgument_commands, there, Option.map_some]

/-- What a command is after registrations. Arguments are only put behind those it has. -/
structure Extends (earlier later : CommandSpec) : Prop where
  named : later.name = earlier.name
  arguments : earlier.arguments <+: later.arguments

theorem Extends.refl (command : CommandSpec) : Extends command command :=
  ⟨rfl, List.prefix_rfl⟩

theorem Extends.trans {first second third : CommandSpec} (front : Extends first second)
    (back : Extends second third) : Extends first third :=
  ⟨back.named.trans front.named, front.arguments.trans back.arguments⟩

theorem register_commands (accepted : registry.register registration = some next) (name : Bytes)
    (command : CommandSpec) (found : registry.commands name = some command) :
    ∃ later, next.commands name = some later ∧ Extends command later := by
  obtain ⟨spec, rfl, free, commands, -⟩ | ⟨_, _, rfl, -, commands, -⟩ |
    ⟨_, spec, old, rfl, reached, -, commands, -⟩ := register_cases accepted
  · refine ⟨command, ?_, .refl command⟩
    have apart : name ≠ spec.name := by
      rintro rfl
      rw [free] at found
      cases found
    rw [commands, Function.update_of_ne apart, found]
  · exact ⟨command, by rw [commands, found], .refl command⟩
  · by_cases same : name = old.name
    · subst same
      have there := ((registry.lookup_eq_some_iff _ old).mp reached).2
      rw [found] at there
      cases there
      refine ⟨{ command with arguments := command.arguments ++ [spec] }, ?_, rfl, ?_⟩
      · rw [commands, Function.update_self]
      · exact List.prefix_append _ _
    · refine ⟨command, ?_, .refl command⟩
      rw [commands, Function.update_of_ne same, found]

theorem register_aliases (accepted : registry.register registration = some next)
    (alias_ name : Bytes) (aliased : registry.aliases alias_ = some name) :
    next.aliases alias_ = some name ∨ next.aliases alias_ = some alias_ := by
  obtain ⟨spec, rfl, -, -, aliases⟩ | ⟨_, other, rfl, free, -, aliases⟩ |
    ⟨_, _, _, rfl, -, -, -, aliases⟩ := register_cases accepted
  · rw [aliases]
    by_cases same : alias_ = spec.name
    · right
      rw [same, Function.update_self]
    · left
      rw [Function.update_of_ne same, aliased]
  · left
    have apart : alias_ ≠ other := by
      rintro rfl
      rw [free] at aliased
      cases aliased
    rw [aliases, Function.update_of_ne apart, aliased]
  · left
    rw [aliases, aliased]

/-- Where the lookups of a registry lead in a later one. -/
structure Grows (registry later : Registry) : Prop where
  commands : ∀ name command, registry.commands name = some command →
    ∃ now, later.commands name = some now ∧ Extends command now
  aliases : ∀ alias_ name, registry.aliases alias_ = some name →
    later.aliases alias_ = some name ∨ later.aliases alias_ = some alias_

theorem register_grows (accepted : registry.register registration = some next) :
    Grows registry next :=
  ⟨register_commands accepted, register_aliases accepted⟩

theorem Grows.refl (registry : Registry) : Grows registry registry :=
  ⟨fun _ command found => ⟨command, found, .refl command⟩, fun _ _ => .inl⟩

theorem Grows.trans {later : Registry} (front : Grows registry next) (back : Grows next later) :
    Grows registry later := by
  constructor
  · intro name command found
    obtain ⟨now, there, extended⟩ := front.commands name command found
    obtain ⟨last, still, more⟩ := back.commands name now there
    exact ⟨last, still, extended.trans more⟩
  · intro alias_ name aliased
    rcases front.aliases alias_ name aliased with kept | taken
    · exact back.aliases alias_ name kept
    · exact .inr ((or_self_iff).mp (back.aliases alias_ alias_ taken))

end Step

theorem run_grows (history : List Registration) : Grows registry (registry.run history) := by
  induction history generalizing registry with
  | nil => exact .refl registry
  | cons registration rest ih =>
      refine .trans ?_ (ih ((registry.register registration).getD registry))
      cases accepted : registry.register registration with
      | none => exact .refl registry
      | some next => exact register_grows accepted

/-- A name that leads to a command leads to it after any further registrations. Only an alias
can be lost, to a later command of that name. -/
theorem lookup_run (history : List Registration) (nameOrAlias : Bytes) (command : CommandSpec)
    (found : registry.lookup nameOrAlias = some command) :
    ∃ later, (registry.run history).lookup nameOrAlias = some later ∧
      (Extends command later ∨ later.name = nameOrAlias ∧ command.name ≠ nameOrAlias) := by
  obtain ⟨leads, there⟩ := (registry.lookup_eq_some_iff nameOrAlias command).mp found
  have grows := registry.run_grows history
  obtain ⟨now, still, extended⟩ := grows.commands command.name command there
  rcases grows.aliases nameOrAlias command.name leads with kept | taken
  · refine ⟨now, ?_, .inl extended⟩
    rw [lookup, kept, Option.bind_some, still]
  · by_cases same : command.name = nameOrAlias
    · refine ⟨now, ?_, .inl extended⟩
      rw [lookup, taken, Option.bind_some, ← same, still]
    · obtain ⟨other, reached⟩ :=
        Option.isSome_iff_exists.mp ((registry.run history).leads _ _ taken)
      refine ⟨other, ?_, .inr ⟨(registry.run history).named _ _ reached, same⟩⟩
      rw [lookup, taken, Option.bind_some, reached]

/-- What an argument's id or name leads to, among the arguments of a command, it leads to after
any further registrations. -/
theorem lookupArgument_run (history : List Registration) (name idOrName : Bytes)
    (arg : ArgumentSpec) (known : (registry.commands name).isSome = true)
    (found : registry.lookupArgument name idOrName = some arg) :
    (registry.run history).lookupArgument name idOrName = some arg := by
  obtain ⟨command, there⟩ := Option.isSome_iff_exists.mp known
  have reached := registry.lookup_own name known
  have named := registry.named name command there
  rw [there] at reached
  rw [lookupArgument, reached] at found
  obtain ⟨later, still, extended | ⟨-, apart⟩⟩ := registry.lookup_run history name command reached
  · obtain ⟨more, whole⟩ := extended.arguments
    rw [lookupArgument, still]
    dsimp only at found ⊢
    rw [findArgument] at found ⊢
    rw [← whole, List.find?_append, found, Option.some_or]
  · exact absurd named apart

/-- The commands of a registry have arguments that can be told apart. -/
def Unambiguous : Prop :=
  ∀ name command, registry.commands name = some command → Distinct command.arguments

theorem register_unambiguous {next : Registry} {registration : Registration}
    (accepted : registry.register registration = some next)
    (given : ∀ spec, registration = .command spec → Distinct spec.arguments)
    (unambiguous : registry.Unambiguous) : next.Unambiguous := by
  intro name command found
  obtain ⟨spec, rfl, -, commands, -⟩ | ⟨_, _, rfl, -, commands, -⟩ |
    ⟨_, spec, old, rfl, reached, fits, commands, -⟩ := register_cases accepted
  · rw [commands, Function.update_apply] at found
    split_ifs at found
    · cases found
      exact given command rfl
    · exact unambiguous name command found
  · rw [commands] at found
    exact unambiguous name command found
  · rw [commands, Function.update_apply] at found
    split_ifs at found
    · cases found
      have there := ((registry.lookup_eq_some_iff _ old).mp reached).2
      exact distinct_append old.arguments spec (unambiguous _ old there) fits
    · exact unambiguous name command found

theorem run_unambiguous (history : List Registration)
    (given : ∀ spec, .command spec ∈ history → Distinct spec.arguments)
    (unambiguous : registry.Unambiguous) : (registry.run history).Unambiguous := by
  induction history generalizing registry with
  | nil => exact unambiguous
  | cons registration rest ih =>
      apply ih ((registry.register registration).getD registry)
      · exact fun spec member => given spec (List.mem_cons_of_mem _ member)
      · cases accepted : registry.register registration with
        | none => exact unambiguous
        | some next =>
            refine registry.register_unambiguous accepted ?_ unambiguous
            intro spec same
            exact given spec (same ▸ List.mem_cons_self)

/-- A command with one argument. -/
def buildRegistry : Registry :=
  empty.run [.command { name := ascii "build" },
    .argument (ascii "build") { id := ascii "method", names := [ascii "--method", ascii "-m"] }]

/-- An alias, and an argument that is registered under it. -/
def laterRegistrations : List Registration :=
  [.alias_ (ascii "build") (ascii "b"),
    .argument (ascii "b") { id := ascii "target", names := [ascii "-t"] }]

/-- Registrations of arguments that can be told apart are all accepted. -/
theorem run_arguments (name : Bytes) (specs : List ArgumentSpec) (command : CommandSpec)
    (found : registry.lookup name = some command) (named : ∀ spec ∈ specs, spec.id ≠ [])
    (distinct : Distinct (command.arguments ++ specs)) :
    (registry.run (specs.map (.argument name))).lookup name =
      some { command with arguments := command.arguments ++ specs } := by
  induction specs generalizing registry command with
  | nil =>
      rw [List.append_nil]
      exact found
  | cons spec rest ih =>
      obtain ⟨leads, there⟩ := (registry.lookup_eq_some_iff name command).mp found
      have fits : command.arguments.any (clashes spec) = false := by
        rw [List.any_eq_false]
        intro arg member
        obtain ⟨-, -, across⟩ := List.pairwise_append.mp distinct
        have free := across arg member spec List.mem_cons_self
        simp only [clashes, Bool.or_eq_true, beq_iff_eq, List.any_eq_true, List.contains_iff_mem,
          not_or, not_exists, not_and]
        exact free
      have accepted : registry.registerArgument name spec =
          some (registry.pushArgument command.name spec) := by
        rw [registerArgument, found]
        dsimp only
        rw [if_neg]
        rintro (nameless | clash)
        · exact named spec List.mem_cons_self nameless
        · rw [fits] at clash
          cases clash
      rw [List.append_cons] at distinct
      rw [List.append_cons, List.map_cons, run, List.foldl_cons, register, accepted,
        Option.getD_some, ← run]
      apply ih _ { command with arguments := command.arguments ++ [spec] } _
        (fun other member => named other (List.mem_cons_of_mem _ member)) distinct
      rw [lookup, pushArgument_commands, there]
      show (registry.aliases name).bind _ = _
      rw [leads, Option.bind_some, Function.update_self]
      rfl

/-- A registry with one command. -/
theorem lookup_single (name : Bytes) (specs : List ArgumentSpec) (some_ : name ≠ [])
    (named : ∀ spec ∈ specs, spec.id ≠ []) (distinct : Distinct specs) :
    (empty.run (.command { name } :: specs.map (.argument name))).lookup name =
      some { name, arguments := specs } := by
  have free : ¬ (name = [] ∨ (empty.commands name).isSome = true) :=
    fun either => either.elim some_ (fun there => by cases there)
  rw [run, List.foldl_cons, register, registerCommand, if_neg free, Option.getD_some, ← run]
  refine run_arguments _ name specs { name } ?_ named distinct
  rw [lookup_eq_some_iff]
  exact ⟨Function.update_self _ _ _, Function.update_self _ _ _⟩

theorem lookupArgument_eq (nameOrAlias : Bytes) (command : CommandSpec)
    (found : registry.lookup nameOrAlias = some command) :
    registry.lookupArgument command.name = findArgument command.arguments := by
  obtain ⟨-, there⟩ := (registry.lookup_eq_some_iff nameOrAlias command).mp found
  have reached := registry.lookup_own command.name (by rw [there, Option.isSome_some])
  funext idOrName
  rw [lookupArgument, reached, there]

end Registry

end Nuperf.Klyspec
