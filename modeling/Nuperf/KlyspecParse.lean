import Nuperf.KlyspecRegistry

set_option autoImplicit false

namespace Nuperf.Klyspec

open ByteString TextReader

/-- An id with a value given for it. -/
abbrev Setting := Bytes × Bytes

def valuesOf (settings : List Setting) (id : Bytes) : List Bytes :=
  (settings.filter (·.1 = id)).map Prod.snd

section Grammar

variable (find : Bytes → Option ArgumentSpec)

/-- The letters behind the dash of a short token, with what they set, and with the option that
waits for the next argument. -/
inductive Letters : Bytes → List Setting → Pending → Prop
  | done : Letters [] [] none
  | flag {letter : UInt8} {rest : Bytes} {arg : ArgumentSpec} {settings : List Setting}
      {pending : Pending} (found : find [dash, letter] = some arg)
      (policy : arg.valuePolicy ≠ .required) (more : Letters rest settings pending) :
      Letters (letter :: rest) ((arg.id, ascii "true") :: settings) pending
  | attached {letter : UInt8} {value : Bytes} {arg : ArgumentSpec}
      (found : find [dash, letter] = some arg) (policy : arg.valuePolicy = .required)
      (some_ : value ≠ []) : Letters (letter :: value) [(arg.id, value)] none
  | last {letter : UInt8} {arg : ArgumentSpec} (found : find [dash, letter] = some arg)
      (policy : arg.valuePolicy = .required) : Letters [letter] [] (some (arg, [dash, letter]))

/-- A token of options. -/
inductive Token : Bytes → List Setting → Pending → Prop
  | flag {name : Bytes} {arg : ArgumentSpec} (long : IsLong name) (whole : 61 ∉ name)
      (found : find name = some arg) (policy : arg.valuePolicy ≠ .required) :
      Token name [(arg.id, ascii "true")] none
  | inline {name value : Bytes} {arg : ArgumentSpec} (long : IsLong (name ++ 61 :: value))
      (whole : 61 ∉ name) (found : find name = some arg) :
      Token (name ++ 61 :: value) [(arg.id, value)] none
  | next {name : Bytes} {arg : ArgumentSpec} (long : IsLong name) (whole : 61 ∉ name)
      (found : find name = some arg) (policy : arg.valuePolicy = .required) :
      Token name [] (some (arg, name))
  | short {letter : UInt8} {rest : Bytes} {settings : List Setting} {pending : Pending}
      (apart : letter ≠ dash) (letters : Letters find (letter :: rest) settings pending) :
      Token (dash :: letter :: rest) settings pending

/-- A token that is no option: a single dash, or one that starts with none. -/
def IsPositional (token : Bytes) : Prop := token = [dash] ∨ token[0]? ≠ some dash

/-- Arguments as they may stand on a command line, with what they set and the positional ones. -/
inductive Written : List Bytes → List Setting → List Bytes → Prop
  | done : Written [] [] []
  | separator (positionals : List Bytes) : Written ([dash, dash] :: positionals) [] positionals
  | positional {token : Bytes} {rest positionals : List Bytes} {settings : List Setting}
      (plain : IsPositional token) (more : Written rest settings positionals) :
      Written (token :: rest) settings (token :: positionals)
  | token {token : Bytes} {rest positionals : List Bytes} {now later : List Setting}
      (sets : Token find token now none) (more : Written rest later positionals) :
      Written (token :: rest) (now ++ later) positionals
  | next {token value name : Bytes} {rest positionals : List Bytes} {now later : List Setting}
      {arg : ArgumentSpec} (sets : Token find token now (some (arg, name)))
      (more : Written rest later positionals) :
      Written (token :: value :: rest) (now ++ (arg.id, value) :: later) positionals

end Grammar

namespace ParseResult

variable (result : ParseResult)

def pushAll (settings : List Setting) : ParseResult :=
  settings.foldl (fun current setting => current.push setting.1 setting.2) result

/-- A result with settings and positional arguments read behind its own. -/
def extend (settings : List Setting) (positionals : List Bytes) : ParseResult :=
  { result.pushAll settings with positionals := result.positionals ++ positionals }

@[simp] theorem fail_ok (message : Bytes) : (result.fail message).ok = false := rfl

@[simp] theorem pushAll_cons (setting : Setting) (rest : List Setting) :
    result.pushAll (setting :: rest) = (result.push setting.1 setting.2).pushAll rest := rfl

theorem pushAll_append (front back : List Setting) :
    result.pushAll (front ++ back) = (result.pushAll front).pushAll back :=
  List.foldl_append

@[simp] theorem pushAll_positionals (settings : List Setting) :
    (result.pushAll settings).positionals = result.positionals := by
  induction settings generalizing result with
  | nil => rfl
  | cons setting rest ih => exact ih (result.push setting.1 setting.2)

@[simp] theorem pushAll_ok (settings : List Setting) :
    (result.pushAll settings).ok = result.ok := by
  induction settings generalizing result with
  | nil => rfl
  | cons setting rest ih => exact ih (result.push setting.1 setting.2)

@[simp] theorem pushAll_diagnostics (settings : List Setting) :
    (result.pushAll settings).diagnostics = result.diagnostics := by
  induction settings generalizing result with
  | nil => rfl
  | cons setting rest ih => exact ih (result.push setting.1 setting.2)

theorem addPositional_pushAll (token : Bytes) (settings : List Setting) :
    (result.addPositional token).pushAll settings =
      (result.pushAll settings).addPositional token := by
  induction settings generalizing result with
  | nil => rfl
  | cons setting rest ih => exact ih (result.push setting.1 setting.2)

theorem extend_pushAll (now later : List Setting) (positionals : List Bytes) :
    (result.pushAll now).extend later positionals = result.extend (now ++ later) positionals := by
  rw [extend, extend, pushAll_append, pushAll_positionals]

theorem extend_addPositional (token : Bytes) (settings : List Setting)
    (positionals : List Bytes) :
    (result.addPositional token).extend settings positionals =
      result.extend settings (token :: positionals) := by
  rw [extend, extend, addPositional_pushAll, addPositional, addPositional]
  simp only [List.append_assoc, List.singleton_append]

end ParseResult

section Reading

variable (find : Bytes → Option ArgumentSpec)

theorem splitInline_whole (name : Bytes) (whole : 61 ∉ name) : splitInline name = (name, none) := by
  have run := readRun_append (· != 61) name [] (fun byte member => by
    simp only [bne_iff_ne, ne_eq]
    rintro rfl
    exact whole member) rfl
  rw [List.append_nil] at run
  rw [splitInline, run]

theorem splitInline_inline (name value : Bytes) (whole : 61 ∉ name) :
    splitInline (name ++ 61 :: value) = (name, some value) := by
  have run := readRun_append (· != 61) name (61 :: value) (fun byte member => by
    simp only [bne_iff_ne, ne_eq]
    rintro rfl
    exact whole member) rfl
  rw [splitInline, run]

/-- How a token comes apart, and what it was. -/
theorem splitInline_cases (token : Bytes) :
    (61 ∉ token ∧ splitInline token = (token, none)) ∨
      ∃ name value, token = name ++ 61 :: value ∧ 61 ∉ name ∧
        splitInline token = (name, some value) := by
  by_cases member : (61 : UInt8) ∈ token
  · obtain ⟨name, value, rfl, whole⟩ := List.eq_append_cons_of_mem member
    exact .inr ⟨name, value, rfl, whole, splitInline_inline name value whole⟩
  · exact .inl ⟨member, splitInline_whole token member⟩

theorem readShort_of_letters {letters : Bytes} {settings : List Setting} {pending : Pending}
    (proper : Letters find letters settings pending) (result : ParseResult) :
    readShort find result letters = (result.pushAll settings, pending) := by
  induction proper generalizing result with
  | done => rfl
  | flag found policy more ih =>
      simp only [readShort, found, if_neg policy]
      exact ih _
  | attached found policy some_ =>
      simp only [readShort, found, if_pos policy, if_neg some_]
      rfl
  | last found policy =>
      simp only [readShort, found, if_pos policy, if_true]
      rfl

theorem readShort_ok (result : ParseResult) (letters : Bytes)
    (ok : (readShort find result letters).1.ok = true) :
    result.ok = true ∧
      ∃ settings, Letters find letters settings (readShort find result letters).2 := by
  induction letters generalizing result with
  | nil => exact ⟨ok, [], .done⟩
  | cons letter rest ih =>
      rw [readShort] at ok ⊢
      cases found : find [dash, letter] with
      | none =>
          rw [found] at ok
          have before := (ih _ ok).1
          cases before
      | some arg =>
          rw [found] at ok
          dsimp only at ok ⊢
          by_cases policy : arg.valuePolicy = .required
          · rw [if_pos policy] at ok ⊢
            by_cases empty : rest = []
            · rw [if_pos empty] at ok ⊢
              subst empty
              exact ⟨ok, [], .last found policy⟩
            · rw [if_neg empty] at ok ⊢
              exact ⟨ok, _, .attached found policy empty⟩
          · rw [if_neg policy] at ok ⊢
            obtain ⟨before, settings, more⟩ := ih _ ok
            exact ⟨before, _, .flag found policy more⟩

theorem readLong_of_token {token : Bytes} {settings : List Setting} {pending : Pending}
    (proper : Token find token settings pending) (long : IsLong token) (result : ParseResult) :
    readLong find result token = (result.pushAll settings, pending) := by
  cases proper with
  | flag _ whole found policy =>
      simp only [readLong, splitInline_whole _ whole, found, if_neg policy]
      rfl
  | inline _ whole found =>
      simp only [readLong, splitInline_inline _ _ whole, found]
      exact ite_self _
  | next _ whole found policy =>
      simp only [readLong, splitInline_whole _ whole, found, if_pos policy]
      rfl
  | short apart =>
      exact absurd (List.cons_prefix_cons.mp (List.cons_prefix_cons.mp long.2).2).1.symm apart

theorem readLong_ok (result : ParseResult) (token : Bytes) (long : IsLong token)
    (ok : (readLong find result token).1.ok = true) :
    result.ok = true ∧ ∃ settings, Token find token settings (readLong find result token).2 := by
  rcases splitInline_cases token with ⟨whole, split⟩ | ⟨name, value, rfl, whole, split⟩
  · rw [readLong, split] at ok ⊢
    dsimp only at ok ⊢
    cases found : find token with
    | none =>
        rw [found] at ok
        cases ok
    | some arg =>
        rw [found] at ok
        dsimp only at ok ⊢
        by_cases policy : arg.valuePolicy = .required
        · rw [if_pos policy] at ok ⊢
          exact ⟨ok, [], .next long whole found policy⟩
        · rw [if_neg policy] at ok ⊢
          exact ⟨ok, _, .flag long whole found policy⟩
  · rw [readLong, split] at ok ⊢
    dsimp only at ok ⊢
    cases found : find name with
    | none =>
        rw [found] at ok
        cases ok
    | some arg =>
        rw [found] at ok
        simp only [ite_self] at ok ⊢
        exact ⟨ok, _, .inline long whole found⟩

theorem Token.long_or_short {token : Bytes} {settings : List Setting} {pending : Pending}
    (proper : Token find token settings pending) :
    IsLong token ∨ ∃ letter rest, token = dash :: letter :: rest ∧ letter ≠ dash ∧
      Letters find (letter :: rest) settings pending := by
  cases proper with
  | flag long | inline long | next long => exact .inl long
  | short apart letters => exact .inr ⟨_, _, rfl, apart, letters⟩

theorem isLong_iff (token : Bytes) :
    IsLong token ↔ ∃ letter rest, token = dash :: dash :: letter :: rest := by
  constructor
  · rintro ⟨more, rest, rfl⟩
    cases rest with
    | nil => exact absurd more (Nat.lt_irrefl 2)
    | cons letter rest => exact ⟨letter, rest, rfl⟩
  · rintro ⟨letter, rest, rfl⟩
    exact ⟨by simp, letter :: rest, rfl⟩

theorem isShort_iff (token : Bytes) :
    IsShort token ↔ ∃ letter rest, token = dash :: letter :: rest ∧ letter ≠ dash := by
  constructor
  · rintro ⟨more, first, second⟩
    rcases token with _ | ⟨one, _ | ⟨two, rest⟩⟩
    · exact absurd more (by decide)
    · exact absurd more (Nat.lt_irrefl 1)
    · refine ⟨two, rest, by simpa using first, by simpa using second⟩
  · rintro ⟨letter, rest, rfl, apart⟩
    exact ⟨by simp, rfl, by simpa using apart⟩

/-- The four kinds of token apart. -/
theorem isPositional_iff (token : Bytes) :
    IsPositional token ↔ token ≠ [dash, dash] ∧ ¬ IsLong token ∧ ¬ IsShort token := by
  rw [isLong_iff, isShort_iff, IsPositional]
  rcases token with _ | ⟨one, _ | ⟨two, rest⟩⟩
  · simp
  · simp [or_iff_not_imp_left]
  · by_cases first : one = dash
    · by_cases second : two = dash
      · cases rest <;> simp [first, second]
      · simp [first, second]
    · simp [first]

theorem Token.not_separator {token : Bytes} {settings : List Setting} {pending : Pending}
    (proper : Token find token settings pending) : token ≠ [dash, dash] := by
  rintro rfl
  rcases proper.long_or_short with long | ⟨letter, rest, same, apart, -⟩
  · exact absurd long.1 (by decide)
  · simp only [List.cons.injEq, true_and] at same
    exact apart same.1.symm

theorem readToken_of_token {token : Bytes} {settings : List Setting} {pending : Pending}
    (proper : Token find token settings pending) (result : ParseResult) :
    readToken find result token = (result.pushAll settings, pending) := by
  rcases proper.long_or_short with long | ⟨letter, rest, rfl, apart, letters⟩
  · rw [readToken, if_pos long]
    exact readLong_of_token find proper long result
  · have notLong : ¬ IsLong (dash :: letter :: rest) := by
      rw [isLong_iff]
      rintro ⟨_, _, same⟩
      cases same
      exact apart rfl
    rw [readToken, if_neg notLong, if_pos ((isShort_iff _).mpr ⟨letter, rest, rfl, apart⟩)]
    exact readShort_of_letters find letters result

theorem readToken_of_positional {token : Bytes} (plain : IsPositional token)
    (result : ParseResult) :
    readToken find result token = (result.addPositional token, none) := by
  obtain ⟨-, notLong, notShort⟩ := (isPositional_iff token).mp plain
  rw [readToken, if_neg notLong, if_neg notShort]

/-- A token that is accepted is one of options or a positional one. -/
theorem readToken_ok (result : ParseResult) (token : Bytes) (apart : token ≠ [dash, dash])
    (ok : (readToken find result token).1.ok = true) :
    result.ok = true ∧
      ((∃ settings, Token find token settings (readToken find result token).2) ∨
        IsPositional token ∧ (readToken find result token).2 = none) := by
  rw [isPositional_iff, readToken] at *
  split_ifs at ok ⊢ with long short
  · obtain ⟨before, settings, proper⟩ := readLong_ok find result token long ok
    exact ⟨before, .inl ⟨settings, proper⟩⟩
  · obtain ⟨letter, rest, rfl, other⟩ := (isShort_iff token).mp short
    obtain ⟨before, settings, letters⟩ := readShort_ok find result (letter :: rest) ok
    exact ⟨before, .inl ⟨settings, .short other letters⟩⟩
  · exact ⟨ok, .inr ⟨⟨apart, long, short⟩, rfl⟩⟩

theorem readTokens_end (result : ParseResult) (argv : List Bytes) :
    readTokens find true result argv = result.extend [] argv := by
  induction argv generalizing result with
  | nil => rw [readTokens, ParseResult.extend, List.append_nil]; rfl
  | cons token rest ih => rw [readTokens, ih, ParseResult.extend_addPositional]

/-- Arguments that are written properly are read as what they set. -/
theorem readTokens_of_written {argv positionals : List Bytes} {settings : List Setting}
    (written : Written find argv settings positionals) (result : ParseResult) :
    readTokens find false result argv = result.extend settings positionals := by
  induction written generalizing result with
  | done => rw [readTokens, ParseResult.extend, List.append_nil]; rfl
  | separator positionals =>
      rw [readTokens, if_pos rfl, readTokens_end]
  | positional plain more ih =>
      rw [readTokens, if_neg ((isPositional_iff _).mp plain).1, readToken_of_positional find plain]
      dsimp only
      rw [ih, ParseResult.extend_addPositional]
  | token sets more ih =>
      rw [readTokens, if_neg (sets.not_separator find), readToken_of_token find sets]
      dsimp only
      rw [ih, ParseResult.extend_pushAll]
  | next sets more ih =>
      rw [readTokens, if_neg (sets.not_separator find), readToken_of_token find sets]
      dsimp only
      rw [ih, ← ParseResult.extend_pushAll]
      rfl

/-- Arguments that are accepted are written properly. -/
theorem readTokens_ok (argv : List Bytes) (result : ParseResult)
    (ok : (readTokens find false result argv).ok = true) :
    result.ok = true ∧ ∃ settings positionals, Written find argv settings positionals := by
  -- An option may take the next argument with it, so the induction is on the length.
  induction size : argv.length using Nat.strong_induction_on generalizing argv result with
  | _ _ shorter =>
  subst size
  cases argv with
  | nil => exact ⟨ok, [], [], .done⟩
  | cons token rest =>
      rw [readTokens] at ok
      by_cases ending : token = [dash, dash]
      · rw [if_pos ending, readTokens_end] at ok
        subst ending
        exact ⟨ok, [], rest, .separator rest⟩
      rw [if_neg ending] at ok
      have accepted := readToken_ok find result token ending
      generalize readToken find result token = read at ok accepted
      obtain ⟨next, _ | ⟨arg, name⟩⟩ := read
      · dsimp only at ok
        obtain ⟨before, settings, positionals, more⟩ := shorter _ (by simp) rest next ok rfl
        obtain ⟨first, ⟨now, sets⟩ | ⟨plain, -⟩⟩ := accepted before
        · exact ⟨first, _, _, .token sets more⟩
        · exact ⟨first, _, _, .positional plain more⟩
      · cases rest with
        | nil => cases ok
        | cons value rest =>
            dsimp only at ok
            obtain ⟨before, settings, positionals, more⟩ :=
              shorter _ (by simp) rest (next.push arg.id value) ok rfl
            obtain ⟨first, ⟨now, sets⟩ | ⟨-, nothing⟩⟩ := accepted before
            · exact ⟨first, _, _, .next sets more⟩
            · cases nothing

end Reading

end Nuperf.Klyspec
