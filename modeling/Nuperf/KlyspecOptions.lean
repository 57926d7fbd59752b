import Nuperf.KlyspecCheck

set_option autoImplicit false

namespace Nuperf.Klyspec

open ByteString

/-- The name of an option: a long one, or a dash with a letter. -/
def IsName (name : Bytes) : Prop :=
  (IsLong name ∧ 61 ∉ name) ∨ (IsShort name ∧ name.length = 2)

instance (name : Bytes) : Decidable (IsName name) :=
  inferInstanceAs (Decidable ((IsLong name ∧ 61 ∉ name) ∨ (IsShort name ∧ name.length = 2)))

/-- Arguments that are all options with a value, and go by names of which each belongs to one. -/
structure Valued (specs : List ArgumentSpec) : Prop where
  distinct : Distinct specs
  policy : ∀ spec ∈ specs, spec.valuePolicy = .required
  names : ∀ spec ∈ specs, ∀ name ∈ spec.names, IsName name
  ids : ∀ spec ∈ specs, spec.id[0]? ≠ some dash

/-- Options with their values, one after another, in any of the ways to write them, among
positional arguments. -/
inductive Line (specs : List ArgumentSpec) : List Bytes → List Setting → List Bytes → Prop
  | done : Line specs [] [] []
  | separator (positionals : List Bytes) : Line specs ([dash, dash] :: positionals) [] positionals
  | positional {token : Bytes} {rest positionals : List Bytes} {settings : List Setting}
      (plain : IsPositional token) (more : Line specs rest settings positionals) :
      Line specs (token :: rest) settings (token :: positionals)
  | separate {spec : ArgumentSpec} {name : Bytes} {rest positionals : List Bytes}
      {settings : List Setting} (listed : spec ∈ specs) (named : name ∈ spec.names)
      (value : Bytes) (more : Line specs rest settings positionals) :
      Line specs (name :: value :: rest) ((spec.id, value) :: settings) positionals
  | inline {spec : ArgumentSpec} {name : Bytes} {rest positionals : List Bytes}
      {settings : List Setting} (listed : spec ∈ specs) (named : name ∈ spec.names)
      (long : IsLong name) (value : Bytes) (more : Line specs rest settings positionals) :
      Line specs ((name ++ 61 :: value) :: rest) ((spec.id, value) :: settings) positionals
  | attached {spec : ArgumentSpec} {name value : Bytes} {rest positionals : List Bytes}
      {settings : List Setting} (listed : spec ∈ specs) (named : name ∈ spec.names)
      (short : IsShort name) (some_ : value ≠ []) (more : Line specs rest settings positionals) :
      Line specs ((name ++ value) :: rest) ((spec.id, value) :: settings) positionals

theorem Line.listed {specs : List ArgumentSpec} {argv positionals : List Bytes}
    {settings : List Setting} (line : Line specs argv settings positionals) :
    ∀ setting ∈ settings, ∃ spec ∈ specs, setting.1 = spec.id := by
  induction line with
  | done | separator => exact fun setting member => absurd member List.not_mem_nil
  | positional plain more ih => exact ih
  | separate listed named value more ih
  | inline listed named long value more ih
  | attached listed named short some_ more ih =>
      exact List.forall_mem_cons.mpr ⟨⟨_, listed, rfl⟩, ih⟩

/-- The values of C strings are C strings. -/
theorem Line.nulFree {specs : List ArgumentSpec} {argv positionals : List Bytes}
    {settings : List Setting} (line : Line specs argv settings positionals)
    (free : ∀ arg ∈ argv, NulFree arg) : ∀ setting ∈ settings, NulFree setting.2 := by
  induction line with
  | done | separator => exact fun setting member => absurd member List.not_mem_nil
  | positional plain more ih => exact ih (List.forall_mem_cons.mp free).2
  | separate listed named value more ih =>
      obtain ⟨-, value, free⟩ := by simpa only [List.forall_mem_cons] using free
      exact List.forall_mem_cons.mpr ⟨value, ih free⟩
  | inline listed named long value more ih =>
      obtain ⟨token, free⟩ := List.forall_mem_cons.mp free
      obtain ⟨-, value⟩ := (nulFree_append _ _).mp token
      exact List.forall_mem_cons.mpr ⟨fun zero => value (List.mem_cons_of_mem _ zero), ih free⟩
  | attached listed named short some_ more ih =>
      obtain ⟨token, free⟩ := List.forall_mem_cons.mp free
      exact List.forall_mem_cons.mpr ⟨((nulFree_append _ _).mp token).2, ih free⟩

section Names

variable {specs : List ArgumentSpec} (valued : Valued specs)

theorem not_isShort_of_isLong {name : Bytes} (long : IsLong name) : ¬ IsShort name := by
  obtain ⟨letter, rest, rfl⟩ := (isLong_iff name).mp long
  exact fun short => short.2.2 rfl

theorem IsName.whole {name : Bytes} (proper : IsName name) (long : IsLong name) : 61 ∉ name := by
  rcases proper with ⟨-, whole⟩ | ⟨short, -⟩
  · exact whole
  · exact absurd short (not_isShort_of_isLong long)

/-- The name of a short option is a dash with a letter. -/
theorem IsName.letter {name : Bytes} (proper : IsName name) (short : IsShort name) :
    ∃ letter, name = [dash, letter] ∧ letter ≠ dash := by
  rcases proper with ⟨long, -⟩ | ⟨-, two⟩
  · exact absurd short (not_isShort_of_isLong long)
  · obtain ⟨letter, rest, rfl, apart⟩ := (isShort_iff name).mp short
    have none_ : rest = [] := List.length_eq_zero_iff.mp (by simpa using two)
    exact ⟨letter, by rw [none_], apart⟩

theorem IsName.dashed {name : Bytes} (proper : IsName name) : name[0]? = some dash := by
  rcases proper with ⟨⟨-, rest, rfl⟩, -⟩ | ⟨short, -⟩
  · rfl
  · exact short.2.1

include valued

/-- What starts with a dash leads to the option that has it as a name. -/
theorem Valued.find_iff {name : Bytes} (dashed : name[0]? = some dash) (spec : ArgumentSpec) :
    Registry.findArgument specs name = some spec ↔ spec ∈ specs ∧ name ∈ spec.names := by
  have told (arg : ArgumentSpec) (member : arg ∈ specs) :
      (arg.id == name || arg.names.contains name) = true ↔ name ∈ arg.names := by
    simp only [Bool.or_eq_true, beq_iff_eq, List.contains_iff_mem, or_iff_right_iff_imp]
    rintro rfl
    exact absurd dashed (valued.ids arg member)
  constructor
  · intro found
    rw [Registry.findArgument] at found
    have member := List.mem_of_find?_eq_some found
    have holds := List.find?_some found
    exact ⟨member, (told spec member).mp holds⟩
  · rintro ⟨member, named⟩
    obtain ⟨before, after, rfl⟩ := List.append_of_mem member
    refine List.find?_eq_some_iff_append.mpr ⟨(told spec member).mpr named, before, after, rfl, ?_⟩
    intro other earlier
    rw [Bool.not_eq_true', ← Bool.not_eq_true, told other (List.mem_append_left _ earlier)]
    obtain ⟨-, -, across⟩ := List.pairwise_append.mp valued.distinct
    exact (across other earlier spec List.mem_cons_self).2 name named

theorem Valued.letters {letter : UInt8} {rest : Bytes} {settings : List Setting}
    {pending : Pending}
    (letters : Letters (Registry.findArgument specs) (letter :: rest) settings pending) :
    ∃ spec ∈ specs, [dash, letter] ∈ spec.names ∧
      ((rest ≠ [] ∧ settings = [(spec.id, rest)] ∧ pending = none) ∨
        (rest = [] ∧ settings = [] ∧ pending = some (spec, [dash, letter]))) := by
  cases letters with
  | flag found policy =>
      obtain ⟨member, -⟩ := (valued.find_iff rfl _).mp found
      exact absurd (valued.policy _ member) policy
  | attached found policy some_ =>
      obtain ⟨member, named⟩ := (valued.find_iff rfl _).mp found
      exact ⟨_, member, named, .inl ⟨some_, rfl, rfl⟩⟩
  | last found policy =>
      obtain ⟨member, named⟩ := (valued.find_iff rfl _).mp found
      exact ⟨_, member, named, .inr ⟨rfl, rfl, rfl⟩⟩

/-- The name in front of an inline value is the name of a long option. -/
theorem Valued.long_of_inline {name value : Bytes} {spec : ArgumentSpec}
    (long : IsLong (name ++ 61 :: value))
    (found : Registry.findArgument specs name = some spec) :
    spec ∈ specs ∧ name ∈ spec.names ∧ IsLong name := by
  obtain ⟨letter, rest, whole⟩ := (isLong_iff _).mp long
  rcases name with _ | ⟨first, _ | ⟨second, more⟩⟩
  · cases whole
  · cases whole
  · simp only [List.cons_append, List.cons.injEq] at whole
    obtain ⟨rfl, rfl, -⟩ := whole
    obtain ⟨member, named⟩ := (valued.find_iff rfl spec).mp found
    refine ⟨member, named, ?_⟩
    rcases valued.names spec member _ named with ⟨proper, -⟩ | ⟨short, -⟩
    · exact proper
    · exact absurd rfl short.2.2

theorem Valued.line_of_written {argv positionals : List Bytes} {settings : List Setting}
    (written : Written (Registry.findArgument specs) argv settings positionals) :
    Line specs argv settings positionals := by
  induction written with
  | done => exact .done
  | separator positionals => exact .separator positionals
  | positional plain more ih => exact .positional plain ih
  | token sets more ih =>
      cases sets with
      | flag long whole found policy =>
          obtain ⟨member, -⟩ := (valued.find_iff (by obtain ⟨-, _, rfl⟩ := long; rfl) _).mp found
          exact absurd (valued.policy _ member) policy
      | inline long whole found =>
          obtain ⟨member, named, proper⟩ := valued.long_of_inline long found
          exact .inline member named proper _ ih
      | short apart letters =>
          obtain ⟨spec, member, named, ⟨some_, rfl, -⟩ | ⟨-, -, nothing⟩⟩ := valued.letters letters
          · exact .attached member named ((isShort_iff _).mpr ⟨_, _, rfl, apart⟩) some_ ih
          · cases nothing
  | next sets more ih =>
      cases sets with
      | next long whole found policy =>
          obtain ⟨member, named⟩ :=
            (valued.find_iff (by obtain ⟨-, _, rfl⟩ := long; rfl) _).mp found
          exact .separate member named _ ih
      | short apart letters =>
          obtain ⟨spec, member, named, ⟨-, -, nothing⟩ | ⟨rfl, rfl, same⟩⟩ := valued.letters letters
          · cases nothing
          · cases same
            exact .separate member named _ ih

theorem Valued.written_of_line {argv positionals : List Bytes} {settings : List Setting}
    (line : Line specs argv settings positionals) :
    Written (Registry.findArgument specs) argv settings positionals := by
  induction line with
  | done => exact .done
  | separator positionals => exact .separator positionals
  | positional plain more ih => exact .positional plain ih
  | @separate spec name _ _ _ listed named value more ih =>
      have proper := valued.names spec listed name named
      have found := (valued.find_iff proper.dashed spec).mpr ⟨listed, named⟩
      have policy := valued.policy spec listed
      have sets : Token (Registry.findArgument specs) name [] (some (spec, name)) := by
        by_cases long : IsLong name
        · exact .next long (proper.whole long) found policy
        · have short := (proper.resolve_left fun both => long both.1).1
          obtain ⟨letter, rfl, apart⟩ := proper.letter short
          exact .short apart (.last found policy)
      exact .next sets ih
  | @inline spec name _ _ _ listed named long value more ih =>
      have proper := valued.names spec listed name named
      have found := (valued.find_iff proper.dashed spec).mpr ⟨listed, named⟩
      have longer : IsLong (name ++ 61 :: value) :=
        ⟨by rw [List.length_append]; exact Nat.lt_add_right _ long.1,
          long.2.trans (List.prefix_append _ _)⟩
      exact .token (.inline longer (proper.whole long) found) ih
  | @attached spec name value _ _ _ listed named short some_ more ih =>
      have proper := valued.names spec listed name named
      have found := (valued.find_iff proper.dashed spec).mpr ⟨listed, named⟩
      obtain ⟨letter, rfl, apart⟩ := proper.letter short
      exact .token (.short apart (.attached found (valued.policy spec listed) some_)) ih

/-- Arguments give one sequence of values for an id, however they are taken apart. -/
theorem Valued.line_values {argv positionals others : List Bytes} {settings taken : List Setting}
    (line : Line specs argv settings positionals) (other : Line specs argv taken others) :
    valuesOf taken = valuesOf settings := by
  have one := readTokens_of_written _ (valued.written_of_line line) {}
  have two := readTokens_of_written _ (valued.written_of_line other) {}
  rw [two] at one
  funext id
  have same := congrFun (congrArg ParseResult.values one) id
  rw [extend_values, extend_values] at same
  split_ifs at same with nothing empty
  · rw [nothing, empty]
  · exact Option.some.inj same

end Names

/-- The command line of a registry with one command, all of whose arguments are options with a
value. -/
theorem parse_single_iff (name : Bytes) (specs : List ArgumentSpec) (valued : Valued specs)
    (some_ : name ≠ []) (named : ∀ spec ∈ specs, spec.id ≠ []) (argv : List Bytes)
    (result : ParseResult) :
    (Registry.empty.run (.command { name } :: specs.map (.argument name))).parse name argv =
        result ∧
        result.ok = true ↔
      ∃ settings positionals, Line specs argv settings positionals ∧
        Permitted specs settings positionals ∧ result = answer specs settings positionals := by
  have found := Registry.lookup_single name specs some_ named valued.distinct
  have lookups := Registry.lookupArgument_eq _ name _ found
  constructor
  · rintro ⟨rfl, ok⟩
    obtain ⟨settings, positionals, written, permitted⟩ :=
      written_of_parse argv found valued.distinct ok
    refine ⟨settings, positionals, ?_, permitted,
      parse_of_written argv found valued.distinct written permitted⟩
    rw [lookups] at written
    exact valued.line_of_written written
  · rintro ⟨settings, positionals, line, permitted, rfl⟩
    refine ⟨parse_of_written argv found valued.distinct ?_ permitted, rfl⟩
    rw [lookups]
    exact valued.written_of_line line

end Nuperf.Klyspec
