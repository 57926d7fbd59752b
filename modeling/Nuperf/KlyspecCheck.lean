import Nuperf.KlyspecParse

set_option autoImplicit false

namespace Nuperf.Klyspec

open ByteString

section Values

variable (result : ParseResult)

theorem valuesOf_cons (setting : Setting) (rest : List Setting) (id : Bytes) :
    valuesOf (setting :: rest) id =
      if setting.1 = id then setting.2 :: valuesOf rest id else valuesOf rest id := by
  rw [valuesOf, valuesOf, List.filter_cons]
  split_ifs with same apart
  · rfl
  · exact absurd (by simpa using same) apart
  · exact absurd (by simpa using ‹setting.1 = id›) same
  · rfl

theorem push_values (id value other : Bytes) :
    (result.push id value).values other =
      if other = id then some ((result.values id).getD [] ++ [value]) else result.values other :=
  Function.update_apply _ _ _ _

/-- The values of an id are those given for it, in their order. -/
theorem pushAll_values (settings : List Setting) (id : Bytes) :
    (result.pushAll settings).values id =
      if valuesOf settings id = [] then result.values id
      else some ((result.values id).getD [] ++ valuesOf settings id) := by
  induction settings generalizing result with
  | nil => rfl
  | cons setting rest ih =>
      rw [ParseResult.pushAll_cons, ih, push_values, valuesOf_cons]
      by_cases same : setting.1 = id
      · rw [if_pos same, if_pos same.symm, if_neg (List.cons_ne_nil _ _)]
        split_ifs with nothing
        · rw [nothing, same]
        · rw [Option.getD_some, same, List.append_assoc, List.singleton_append]
      · rw [if_neg same, if_neg (Ne.symm same)]

end Values

section Settling

variable (result : ParseResult) (arg : ArgumentSpec)

/-- What is asked of the values of an argument. -/
structure Permits (values : Bytes → Option (List Bytes)) (arg : ArgumentSpec) : Prop where
  given : arg.required = true → values arg.id ≠ none
  once : arg.kind = .flag ∨ arg.kind = .option ∨ arg.kind = .switch →
    ((values arg.id).getD []).length ≤ 1

@[simp] theorem settle_ok : (settle result arg).ok = result.ok := by
  unfold settle
  split <;> rfl

@[simp] theorem settle_positionals : (settle result arg).positionals = result.positionals := by
  unfold settle
  split <;> rfl

@[simp] theorem settle_diagnostics : (settle result arg).diagnostics = result.diagnostics := by
  unfold settle
  split <;> rfl

/-- The default stands where nothing is given. -/
theorem settle_values (id : Bytes) :
    (settle result arg).values id =
      if id = arg.id then (result.values id).or (arg.defaultValue.map ([·]))
      else result.values id := by
  unfold settle
  split
  case h_1 value missing default =>
    rw [push_values, missing, default]
    split_ifs with same
    · rw [same, missing]
      rfl
    · rfl
  case h_2 other =>
    split_ifs with same
    · subst same
      cases given : result.values arg.id with
      | some values => rfl
      | none =>
          cases default : arg.defaultValue with
          | none => rfl
          | some value => exact absurd default (other value given)
    · rfl

/-- The default changes nothing about how often an argument is given too much. -/
theorem settle_count : 1 < (settle result arg).count arg.id ↔ 1 < result.count arg.id := by
  rw [ParseResult.count, ParseResult.count, settle_values, if_pos rfl]
  cases result.values arg.id with
  | some values => rfl
  | none => cases arg.defaultValue <;> simp

theorem checkArgument_of_permits (permits : Permits result.values arg) :
    checkArgument result arg = settle result arg := by
  have given : ¬ (arg.required = true ∧ result.values arg.id = none) :=
    fun both => permits.given both.1 both.2
  have flag : ¬ (arg.kind = .flag ∧ 1 < (settle result arg).count arg.id) := by
    rintro ⟨kind, many⟩
    exact absurd (permits.once (.inl kind)) (Nat.not_le.mpr ((settle_count result arg).mp many))
  have option : ¬ ((arg.kind = .option ∨ arg.kind = .switch) ∧ arg.kind ≠ .repeatable ∧
      1 < (settle result arg).count arg.id) := by
    rintro ⟨kind, -, many⟩
    exact absurd (permits.once (.inr kind)) (Nat.not_le.mpr ((settle_count result arg).mp many))
  simp only [checkArgument, if_neg given, if_neg flag, if_neg option]

theorem checkArgument_ok (ok : (checkArgument result arg).ok = true) :
    result.ok = true ∧ Permits result.values arg := by
  unfold checkArgument at ok
  by_cases missing : arg.required = true ∧ result.values arg.id = none
  · exfalso
    simp only [if_pos missing] at ok
    split_ifs at ok <;> simp at ok
  simp only [if_neg missing] at ok
  by_cases flag : arg.kind = .flag ∧ 1 < (settle result arg).count arg.id
  · exfalso
    simp only [if_pos flag] at ok
    split_ifs at ok <;> cases ok
  simp only [if_neg flag] at ok
  split_ifs at ok with option
  · cases ok
  rw [settle_ok] at ok
  rw [settle_count] at flag option
  refine ⟨ok, fun required none_ => missing ⟨required, none_⟩, ?_⟩
  rintro (kind | kind | kind)
  · exact Nat.not_lt.mp fun many => flag ⟨kind, many⟩
  · exact Nat.not_lt.mp fun many => option ⟨.inl kind, by simp [kind], many⟩
  · exact Nat.not_lt.mp fun many => option ⟨.inr kind, by simp [kind], many⟩

end Settling

section Checks

variable (arguments : List ArgumentSpec) (result : ParseResult)

/-- The check of one argument leaves what is asked of the others. -/
theorem permits_settle (arg other : ArgumentSpec) (apart : other.id ≠ arg.id) :
    Permits (settle result other).values arg ↔ Permits result.values arg := by
  have same : (settle result other).values arg.id = result.values arg.id := by
    rw [settle_values, if_neg (Ne.symm apart)]
  constructor
  · intro permits
    exact ⟨same ▸ permits.given, same ▸ permits.once⟩
  · intro permits
    exact ⟨same.symm ▸ permits.given, same.symm ▸ permits.once⟩

theorem foldl_checkArgument (distinct : Distinct arguments)
    (permits : ∀ arg ∈ arguments, Permits result.values arg) :
    arguments.foldl checkArgument result = arguments.foldl settle result := by
  induction arguments generalizing result with
  | nil => rfl
  | cons arg rest ih =>
      obtain ⟨apart, distinct⟩ := List.pairwise_cons.mp distinct
      rw [List.foldl_cons, List.foldl_cons,
        checkArgument_of_permits result arg (permits arg List.mem_cons_self)]
      apply ih _ distinct
      intro other member
      rw [permits_settle result other arg (apart other member).1]
      exact permits other (List.mem_cons_of_mem _ member)

theorem foldl_checkArgument_ok (distinct : Distinct arguments)
    (ok : (arguments.foldl checkArgument result).ok = true) :
    result.ok = true ∧ ∀ arg ∈ arguments, Permits result.values arg := by
  induction arguments generalizing result with
  | nil => exact ⟨ok, fun arg member => absurd member List.not_mem_nil⟩
  | cons arg rest ih =>
      obtain ⟨apart, distinct⟩ := List.pairwise_cons.mp distinct
      rw [List.foldl_cons] at ok
      obtain ⟨checked, others⟩ := ih _ distinct ok
      obtain ⟨before, here⟩ := checkArgument_ok result arg checked
      rw [checkArgument_of_permits result arg here] at others
      refine ⟨before, List.forall_mem_cons.mpr ⟨here, ?_⟩⟩
      intro other member
      rw [← permits_settle result other arg (apart other member).1]
      exact others other member

/-- The default that the arguments have for an id. -/
def defaultOf (id : Bytes) : Option Bytes :=
  (arguments.find? (·.id = id)).bind (·.defaultValue)

theorem foldl_settle_values (distinct : Distinct arguments) (id : Bytes) :
    (arguments.foldl settle result).values id =
      (result.values id).or ((defaultOf arguments id).map ([·])) := by
  induction arguments generalizing result with
  | nil => rw [List.foldl_nil, defaultOf, List.find?_nil]; exact (Option.or_none).symm
  | cons arg rest ih =>
      obtain ⟨apart, distinct⟩ := List.pairwise_cons.mp distinct
      rw [List.foldl_cons, ih _ distinct, settle_values, defaultOf, defaultOf, List.find?_cons]
      by_cases same : arg.id = id
      · have nowhere : rest.find? (·.id = id) = none := by
          rw [List.find?_eq_none]
          intro other member equal
          exact (apart other member).1 (same.trans (of_decide_eq_true equal).symm)
        rw [if_pos same.symm, nowhere, decide_eq_true same]
        exact Option.or_none
      · rw [if_neg (Ne.symm same), decide_eq_false same]

theorem foldl_settle_ok : (arguments.foldl settle result).ok = result.ok := by
  induction arguments generalizing result with
  | nil => rfl
  | cons arg rest ih => rw [List.foldl_cons, ih, settle_ok]

theorem foldl_settle_positionals :
    (arguments.foldl settle result).positionals = result.positionals := by
  induction arguments generalizing result with
  | nil => rfl
  | cons arg rest ih => rw [List.foldl_cons, ih, settle_positionals]

theorem foldl_settle_diagnostics :
    (arguments.foldl settle result).diagnostics = result.diagnostics := by
  induction arguments generalizing result with
  | nil => rfl
  | cons arg rest ih => rw [List.foldl_cons, ih, settle_diagnostics]

/-- The numbers of positional arguments that fit. -/
def Fits (count : Nat) : Prop :=
  arguments.countP (·.kind = .positional) ≤ count ∧
    ((∃ arg ∈ arguments, arg.kind = .variadic) ∨
      count ≤ arguments.countP (·.kind = .positional) ∨
      arguments.countP (·.kind = .positional) = 0)

theorem checkPositionals_of_fits (fits : Fits arguments result.positionals.length) :
    checkPositionals arguments result = result := by
  obtain ⟨enough, notMore⟩ := fits
  unfold checkPositionals
  simp only [if_neg (Nat.not_lt.mpr enough)]
  rw [if_neg]
  rintro ⟨fixed, many, some_⟩
  rcases notMore with ⟨arg, member, variadic⟩ | few | none_
  · exact fixed (List.any_eq_true.mpr ⟨arg, member, decide_eq_true variadic⟩)
  · exact absurd few (Nat.not_le.mpr many)
  · exact some_ none_

theorem checkPositionals_ok (ok : (checkPositionals arguments result).ok = true) :
    result.ok = true ∧ Fits arguments result.positionals.length := by
  unfold checkPositionals at ok
  by_cases few : result.positionals.length < arguments.countP (·.kind = .positional)
  · exfalso
    simp only [if_pos few] at ok
    split_ifs at ok <;> cases ok
  simp only [if_neg few] at ok
  split_ifs at ok with more
  · cases ok
  refine ⟨ok, Nat.not_lt.mp few, ?_⟩
  by_contra other
  rw [not_or, not_or] at other
  obtain ⟨fixed, many, some_⟩ := other
  refine more ⟨?_, Nat.not_le.mp many, some_⟩
  rw [List.any_eq_true]
  rintro ⟨arg, member, variadic⟩
  exact fixed ⟨arg, member, of_decide_eq_true variadic⟩

end Checks

section Told

/-- What is refused is refused with a diagnostic, and nothing else has one. -/
def ParseResult.Told (result : ParseResult) : Prop := result.ok = result.diagnostics.isEmpty

variable {result : ParseResult} (told : result.Told)

theorem ParseResult.told_fail (message : Bytes) : (result.fail message).Told := by
  rw [Told, fail]
  simp

include told

theorem settle_told (arg : ArgumentSpec) : (settle result arg).Told := by
  rw [ParseResult.Told, settle_ok, settle_diagnostics]
  exact told

theorem readLong_told (find : Bytes → Option ArgumentSpec) (token : Bytes) :
    (readLong find result token).1.Told := by
  unfold readLong
  dsimp only
  cases find (splitInline token).1 with
  | none => exact ParseResult.told_fail _
  | some arg =>
      dsimp only
      split_ifs
      · cases (splitInline token).2 <;> exact told
      · cases (splitInline token).2 <;> exact told

theorem readShort_told (find : Bytes → Option ArgumentSpec) (letters : Bytes) :
    (readShort find result letters).1.Told := by
  induction letters generalizing result with
  | nil => exact told
  | cons letter rest ih =>
      rw [readShort]
      cases find [dash, letter] with
      | none => exact ih (ParseResult.told_fail _)
      | some arg =>
          dsimp only
          split_ifs
          · exact told
          · exact told
          · apply ih
            exact told

theorem readToken_told (find : Bytes → Option ArgumentSpec) (token : Bytes) :
    (readToken find result token).1.Told := by
  unfold readToken
  split_ifs
  · exact readLong_told told find token
  · exact readShort_told told find token.tail
  · exact told

theorem readTokens_told (find : Bytes → Option ArgumentSpec) (endOfOptions : Bool)
    (argv : List Bytes) : (readTokens find endOfOptions result argv).Told := by
  induction size : argv.length using Nat.strong_induction_on generalizing argv result endOfOptions
    with
  | _ _ shorter =>
  subst size
  cases argv with
  | nil =>
      rw [readTokens]
      exact told
  | cons token rest =>
      cases endOfOptions with
      | true =>
          have more : (result.addPositional token).Told := told
          rw [readTokens]
          exact shorter _ (by simp) more true rest rfl
      | false =>
          rw [readTokens]
          split_ifs
          · exact shorter _ (by simp) told true rest rfl
          have read := readToken_told told find token
          generalize readToken find result token = next at read
          obtain ⟨next, _ | ⟨arg, name⟩⟩ := next
          · exact shorter _ (by simp) read false rest rfl
          · cases rest with
            | nil => exact ParseResult.told_fail _
            | cons value rest =>
                have more : (next.push arg.id value).Told := read
                exact shorter _ (by simp) more false rest rfl

theorem checkArgument_told (arg : ArgumentSpec) : (checkArgument result arg).Told := by
  unfold checkArgument
  dsimp only
  split_ifs
  all_goals first
    | exact ParseResult.told_fail _
    | exact settle_told (ParseResult.told_fail _) arg
    | exact settle_told told arg

theorem checkPositionals_told (arguments : List ArgumentSpec) :
    (checkPositionals arguments result).Told := by
  unfold checkPositionals
  dsimp only
  split_ifs
  all_goals first
    | exact ParseResult.told_fail _
    | exact told

theorem foldl_checkArgument_told (arguments : List ArgumentSpec) :
    (arguments.foldl checkArgument result).Told := by
  induction arguments generalizing result with
  | nil => exact told
  | cons arg rest ih => exact ih (checkArgument_told told arg)

omit told

theorem parse_told (registry : Registry) (commandName : Bytes) (argv : List Bytes) :
    (registry.parse commandName argv).Told := by
  rw [Registry.parse]
  cases registry.lookup commandName with
  | none => exact ParseResult.told_fail _
  | some command =>
      have fresh : ({} : ParseResult).Told := rfl
      exact checkPositionals_told
        (foldl_checkArgument_told (readTokens_told fresh _ false argv) command.arguments) _

end Told

section Parse

variable (registry : Registry) (commandName : Bytes) (argv : List Bytes)

/-- What a command asks of its arguments on a command line. -/
structure Permitted (arguments : List ArgumentSpec) (settings : List Setting)
    (positionals : List Bytes) : Prop where
  required : ∀ arg ∈ arguments, arg.required = true → valuesOf settings arg.id ≠ []
  once : ∀ arg ∈ arguments, arg.kind = .flag ∨ arg.kind = .option ∨ arg.kind = .switch →
    (valuesOf settings arg.id).length ≤ 1
  fits : Fits arguments positionals.length

/-- The result for a command line: what is given for an id, else its default. -/
def answer (arguments : List ArgumentSpec) (settings : List Setting) (positionals : List Bytes) :
    ParseResult where
  values := fun id =>
    if valuesOf settings id = [] then (defaultOf arguments id).map ([·])
    else some (valuesOf settings id)
  positionals := positionals

variable {settings : List Setting} {positionals : List Bytes} (arguments : List ArgumentSpec)

theorem extend_values (id : Bytes) :
    (({} : ParseResult).extend settings positionals).values id =
      if valuesOf settings id = [] then none else some (valuesOf settings id) :=
  pushAll_values {} settings id

theorem permits_extend_iff (arg : ArgumentSpec) :
    Permits (({} : ParseResult).extend settings positionals).values arg ↔
      (arg.required = true → valuesOf settings arg.id ≠ []) ∧
        (arg.kind = .flag ∨ arg.kind = .option ∨ arg.kind = .switch →
          (valuesOf settings arg.id).length ≤ 1) := by
  constructor
  · rintro ⟨given, once⟩
    rw [extend_values] at given once
    by_cases nothing : valuesOf settings arg.id = []
    · rw [if_pos nothing] at given
      exact ⟨fun required => absurd rfl (given required), fun _ => by simp [nothing]⟩
    · rw [if_neg nothing] at once
      exact ⟨fun _ => nothing, once⟩
  · rintro ⟨given, once⟩
    constructor
    · intro required
      rw [extend_values, if_neg (given required)]
      exact Option.some_ne_none _
    · intro kind
      rw [extend_values]
      split_ifs
      · exact Nat.zero_le 1
      · exact once kind

/-- The checks let what is permitted pass, with the defaults. -/
theorem foldl_checkArgument_extend (distinct : Distinct arguments)
    (permitted : Permitted arguments settings positionals) :
    checkPositionals arguments
        (arguments.foldl checkArgument (({} : ParseResult).extend settings positionals)) =
      answer arguments settings positionals := by
  rw [foldl_checkArgument _ _ distinct]
  · rw [checkPositionals_of_fits]
    · ext1
      · funext id
        rw [foldl_settle_values _ _ distinct, extend_values, answer]
        dsimp only
        split_ifs
        · exact Option.none_or
        · exact Option.some_or
      · exact foldl_settle_positionals _ _
      · rw [foldl_settle_diagnostics]
        exact ParseResult.pushAll_diagnostics {} settings
      · rw [foldl_settle_ok]
        exact ParseResult.pushAll_ok {} settings
    · rw [foldl_settle_positionals]
      exact permitted.fits
  · intro arg member
    rw [permits_extend_iff]
    exact ⟨permitted.required arg member, permitted.once arg member⟩

variable {registry} {commandName} {command : CommandSpec}
  (found : registry.lookup commandName = some command) (distinct : Distinct command.arguments)

include found distinct

theorem parse_of_written
    (written : Written (registry.lookupArgument command.name) argv settings positionals)
    (permitted : Permitted command.arguments settings positionals) :
    registry.parse commandName argv = answer command.arguments settings positionals := by
  rw [Registry.parse, found]
  dsimp only
  rw [readTokens_of_written _ written, foldl_checkArgument_extend _ distinct permitted]

theorem written_of_parse (ok : (registry.parse commandName argv).ok = true) :
    ∃ settings positionals,
      Written (registry.lookupArgument command.name) argv settings positionals ∧
        Permitted command.arguments settings positionals := by
  rw [Registry.parse, found] at ok
  dsimp only at ok
  obtain ⟨checked, fits⟩ := checkPositionals_ok _ _ ok
  obtain ⟨read, permits⟩ := foldl_checkArgument_ok _ _ distinct checked
  obtain ⟨-, settings, positionals, written⟩ := readTokens_ok _ argv {} read
  rw [foldl_checkArgument _ _ distinct permits, foldl_settle_positionals] at fits
  rw [readTokens_of_written _ written] at fits permits
  refine ⟨settings, positionals, written, ?_, ?_, fits⟩
  · exact fun arg member => ((permits_extend_iff arg).mp (permits arg member)).1
  · exact fun arg member => ((permits_extend_iff arg).mp (permits arg member)).2

end Parse

def verboseSpec : ArgumentSpec := { id := ascii "verbose", names := [ascii "-v"] }

def outSpec : ArgumentSpec :=
  { id := ascii "out", kind := .option, valuePolicy := .required, names := [ascii "-o"] }

def clusterSpecs : List ArgumentSpec := [verboseSpec, outSpec]

def clusterHistory : List Registry.Registration :=
  .command { name := ascii "run" } :: clusterSpecs.map (.argument (ascii "run"))

def clusterSettings : List Setting :=
  [(ascii "verbose", ascii "true"), (ascii "out", ascii "file")]

end Nuperf.Klyspec
