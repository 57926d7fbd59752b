import Nuperf.SerdeJson

set_option autoImplicit false

namespace Nuperf.Serdetk

open ByteString Numeral CStandard TextReader OrderedMap

section Consumption

theorem skipWs_length (text : Bytes) : (skipWs text).length ≤ text.length :=
  List.length_dropWhile_le _ _

theorem literal_length (token text rest : Bytes) (found : literal token text = some rest) :
    rest.length + token.length = text.length := by
  rw [(literal_eq_some_iff token text rest).mp found, List.length_append, Nat.add_comm]

theorem literal_byte_length (c : UInt8) (text rest : Bytes) (found : literal [c] text = some rest) :
    rest.length + 1 = text.length := literal_length [c] text rest found

theorem consume_length (expected : UInt8) (text rest : Bytes)
    (found : consume expected text = .ok rest) : rest.length < text.length := by
  unfold consume at found
  cases taken : literal [expected] text with
  | none =>
      rw [taken] at found
      cases found
  | some after =>
      rw [taken] at found
      have size := literal_byte_length _ _ _ taken
      rw [← Except.ok.inj found]
      omega

theorem ok_of_bind {α β : Type} (first : Except CxxException α) (next : α → Except CxxException β)
    (result : β) (done : (first >>= next) = .ok result) :
    ∃ value, first = .ok value ∧ next value = .ok result := by
  cases first with
  | error thrown => cases done
  | ok value => exact ⟨value, rfl, done⟩

theorem parseString_length (text decoded rest : Bytes)
    (found : parseString text = .ok (decoded, rest)) : rest.length < text.length := by
  induction text using parseString.induct generalizing decoded rest with
  | case1 => cases found
  | case2 =>
      cases found
      decide
  | case3 _ => cases found
  | case4 c notQuote notBackslash =>
      simp only [parseString, notQuote, notBackslash, ↓reduceIte, reduceCtorEq] at found
  | case5 e more =>
      rw [parseString.eq_def] at found
      cases found
      simp
  | case6 h1 h2 h3 h4 more d1 d2 d3 d4 four three two one apart ih =>
      rw [parseString.eq_def] at found
      simp only [apart, ↓reduceIte, one, two, three, four] at found
      obtain ⟨⟨later, after⟩, read, same⟩ := ok_of_bind _ _ _ found
      cases same
      have shorter := ih later after read
      simp only [List.length_cons]
      omega
  | case7 h1 h2 h3 h4 more bad apart =>
      rw [parseString.eq_def] at found
      simp only [apart, ↓reduceIte, reduceCtorEq] at found
  | case8 more short apart =>
      rw [parseString.eq_def] at found
      simp only [apart, ↓reduceIte, reduceCtorEq] at found
  | case9 e more notUnicode byte escape apart ih =>
      rw [parseString.eq_def] at found
      simp only [apart, notUnicode, ↓reduceIte, escape] at found
      obtain ⟨⟨later, after⟩, read, same⟩ := ok_of_bind _ _ _ found
      cases same
      have shorter := ih later after read
      simp only [List.length_cons]
      omega
  | case10 e more notUnicode bad apart =>
      rw [parseString.eq_def] at found
      simp only [apart, notUnicode, ↓reduceIte, bad, reduceCtorEq] at found
  | case11 c e more notQuote notBackslash ih =>
      rw [parseString.eq_def] at found
      simp only [notQuote, notBackslash, ↓reduceIte] at found
      obtain ⟨⟨later, after⟩, read, same⟩ := ok_of_bind _ _ _ found
      cases same
      have shorter := ih later after read
      simp only [List.length_cons] at shorter ⊢
      omega

theorem optional_length (accepts : UInt8 → Bool) (text : Bytes) :
    (optional accepts text).1.length + (optional accepts text).2.length = text.length := by
  cases text with
  | nil => rfl
  | cons c rest =>
      by_cases accepted : accepts c = true
      · simp only [optional, accepted, ↓reduceIte, List.length_cons, List.length_nil]
        omega
      · simp only [optional, accepted, ↓reduceIte, List.length_nil, Nat.zero_add,
          Bool.false_eq_true]

theorem someDigits_length (what : String) (text digits rest : Bytes)
    (found : someDigits what text = .ok (digits, rest)) : rest.length < text.length := by
  unfold someDigits at found
  have split := congrArg List.length (readRun_spec isDigit text).1
  rw [List.length_append] at split
  by_cases empty : (readRun isDigit text).1 = []
  · simp only [empty, ↓reduceIte, reduceCtorEq] at found
  · simp only [empty, ↓reduceIte, Except.ok.injEq, Prod.mk.injEq] at found
    have some_ := List.length_pos_iff.mpr empty
    rw [← found.2]
    omega

theorem scanWhole_length (text token rest : Bytes) (found : scanWhole text = .ok (token, rest)) :
    rest.length < text.length := by
  unfold scanWhole at found
  have split := optional_length (· == zero) text
  by_cases none : (optional (· == zero) text).1 = []
  · simp only [none, ↓reduceIte] at found
    have shorter := someDigits_length _ _ _ _ found
    omega
  · simp only [none, ↓reduceIte, Except.ok.injEq, Prod.mk.injEq] at found
    have some_ := List.length_pos_iff.mpr none
    rw [← found.2]
    omega

theorem mappedDigits_length (what : String) (write : Bytes → Bytes) (text token rest : Bytes)
    (found : (someDigits what text).map (fun read => (write read.1, read.2)) = .ok (token, rest)) :
    rest.length < text.length := by
  cases digits : someDigits what text with
  | error thrown => simp [digits, Except.map] at found
  | ok read =>
      obtain ⟨run, after⟩ := read
      have shorter := someDigits_length _ _ _ _ digits
      simp only [digits, Except.map, Except.ok.injEq, Prod.mk.injEq] at found
      rw [← found.2]
      exact shorter

theorem scanFraction_length (text token rest : Bytes)
    (found : scanFraction text = .ok (token, rest)) : rest.length ≤ text.length := by
  unfold scanFraction at found
  have split := optional_length (· == dot) text
  by_cases none : (optional (· == dot) text).1 = []
  · simp only [none, ↓reduceIte, Except.ok.injEq, Prod.mk.injEq] at found
    rw [← found.2]
    omega
  · simp only [none, ↓reduceIte] at found
    have shorter := mappedDigits_length _ ((optional (· == dot) text).1 ++ ·) _ token rest found
    omega

theorem scanExponent_length (text token rest : Bytes)
    (found : scanExponent text = .ok (token, rest)) : rest.length ≤ text.length := by
  unfold scanExponent at found
  have split := optional_length (fun c => c == 101 || c == 69) text
  by_cases none : (optional (fun c => c == 101 || c == 69) text).1 = []
  · simp only [none, ↓reduceIte, Except.ok.injEq, Prod.mk.injEq] at found
    rw [← found.2]
    omega
  · simp only [none, ↓reduceIte] at found
    have sign := optional_length (fun c => c == 43 || c == minus)
      (optional (fun c => c == 101 || c == 69) text).2
    have shorter := mappedDigits_length _ ((optional (fun c => c == 101 || c == 69) text).1 ++
      (optional (fun c => c == 43 || c == minus)
        (optional (fun c => c == 101 || c == 69) text).2).1 ++ ·) _ token rest found
    omega

theorem scanNumber_length (text token rest : Bytes) (isFloat : Bool)
    (found : scanNumber text = .ok (token, isFloat, rest)) : rest.length < text.length := by
  have size := optional_length (· == minus) text
  unfold scanNumber at found
  cases signed_ : optional (· == minus) text with
  | mk sign unsigned =>
      rw [signed_] at size
      simp only [signed_] at found
      obtain ⟨⟨whole, afterWhole⟩, wholeRead, found⟩ := ok_of_bind _ _ _ found
      obtain ⟨⟨fraction, afterFraction⟩, fractionRead, found⟩ := ok_of_bind _ _ _ found
      obtain ⟨⟨exponent, afterExponent⟩, exponentRead, found⟩ := ok_of_bind _ _ _ found
      have first := scanWhole_length _ _ _ wholeRead
      have second := scanFraction_length _ _ _ fractionRead
      have third := scanExponent_length _ _ _ exponentRead
      cases found
      dsimp only at size first second third ⊢
      omega

end Consumption

section Reading

variable (fp : Floating) (fuel : Nat)

/-- The ways in which `parse_value` returns, by the byte its text starts with and what is
behind it. -/
inductive ValueRead (c : UInt8) (more : Bytes) : Value → Bytes → Prop
  | emptyObject (rest : Bytes) (closed : literal [closeBrace] (skipWs more) = some rest) :
      ValueRead c more (.object []) rest
  | object (value : Value) (rest : Bytes)
      (read : parseMembers fp fuel [] more = .ok (value, rest)) : ValueRead c more value rest
  | emptyArray (rest : Bytes) (closed : literal [closeBracket] (skipWs more) = some rest) :
      ValueRead c more (.array []) rest
  | array (value : Value) (rest : Bytes)
      (read : parseElements fp fuel [] more = .ok (value, rest)) : ValueRead c more value rest
  | string (text rest : Bytes) (read : parseString more = .ok (text, rest)) :
      ValueRead c more (.string text) rest
  | bool (value : Bool) (rest : Bytes)
      (found : literal (ascii (if value then "true" else "false")) (c :: more) = some rest) :
      ValueRead c more (.bool value) rest
  | null (rest : Bytes) (found : literal (ascii "null") (c :: more) = some rest) :
      ValueRead c more .null rest
  | number (token : Bytes) (isFloat : Bool) (value : Value) (rest : Bytes)
      (scanned : scanNumber (c :: more) = .ok (token, isFloat, rest))
      (converted : numberValue fp token isFloat = .ok value) : ValueRead c more value rest

/-- One turn of the loop of `parse_object`, up to the value of the member. -/
inductive MemberRead (text key : Bytes) (member : Value) (after : Bytes) : Prop
  | intro (opened behindKey behindColon : Bytes)
      (quoted : literal [quote] (skipWs text) = some opened)
      (name : parseString opened = .ok (key, behindKey))
      (separated : consume colon (skipWs behindKey) = .ok behindColon)
      (read : parseValue fp fuel behindColon = .ok (member, after))

theorem parseLiteral_found (token : String) (value result : Value) (text rest : Bytes)
    (found : parseLiteral token value text = .ok (result, rest)) :
    result = value ∧ literal (ascii token) text = some rest := by
  unfold parseLiteral at found
  cases taken : literal (ascii token) text with
  | none =>
      rw [taken] at found
      cases found
  | some after =>
      rw [taken] at found
      cases found
      exact ⟨rfl, rfl⟩

theorem parseValue_read (text : Bytes) (value : Value) (rest : Bytes)
    (found : parseValue fp (fuel + 1) text = .ok (value, rest)) :
    ∃ c more, skipWs text = c :: more ∧ ValueRead fp fuel c more value rest := by
  rw [parseValue] at found
  cases shape : skipWs text with
  | nil => simp [shape] at found
  | cons c more =>
      refine ⟨c, more, rfl, ?_⟩
      simp only [shape] at found
      split_ifs at found
      · cases closed : literal [closeBrace] (skipWs more) with
        | some after =>
            simp only [closed] at found
            cases found
            exact .emptyObject _ closed
        | none =>
            simp only [closed] at found
            exact .object _ _ found
      · cases closed : literal [closeBracket] (skipWs more) with
        | some after =>
            simp only [closed] at found
            cases found
            exact .emptyArray _ closed
        | none =>
            simp only [closed] at found
            exact .array _ _ found
      · obtain ⟨⟨decoded, after⟩, read, same⟩ := ok_of_bind _ _ _ found
        cases same
        exact .string _ _ read
      · obtain ⟨rfl, taken⟩ := parseLiteral_found _ _ _ _ _ found
        exact .bool true _ taken
      · obtain ⟨rfl, taken⟩ := parseLiteral_found _ _ _ _ _ found
        exact .bool false _ taken
      · obtain ⟨rfl, taken⟩ := parseLiteral_found _ _ _ _ _ found
        exact .null _ taken
      · obtain ⟨⟨token, isFloat, after⟩, scanned, found⟩ := ok_of_bind _ _ _ found
        obtain ⟨number, converted, same⟩ := ok_of_bind _ _ _ found
        cases same
        exact .number _ _ _ _ scanned converted

/-- The loop of `parse_object` ends behind a member, or goes on with it inserted. -/
theorem parseMembers_read (obj : Fields) (text : Bytes) (value : Value) (rest : Bytes)
    (found : parseMembers fp (fuel + 1) obj text = .ok (value, rest)) :
    ∃ key member after, MemberRead fp fuel text key member after ∧
      (literal [closeBrace] (skipWs after) = some rest ∧ value = .object (insert key member obj) ∨
        ∃ next, consume comma (skipWs after) = .ok next ∧
          parseMembers fp fuel (insert key member obj) next = .ok (value, rest)) := by
  rw [parseMembers] at found
  cases quoted : literal [quote] (skipWs text) with
  | none => simp [quoted] at found
  | some opened =>
      simp only [quoted] at found
      obtain ⟨⟨key, behindKey⟩, name, found⟩ := ok_of_bind _ _ _ found
      obtain ⟨behindColon, separated, found⟩ := ok_of_bind _ _ _ found
      obtain ⟨⟨member, after⟩, read, found⟩ := ok_of_bind _ _ _ found
      refine ⟨key, member, after, ?_, ?_⟩
      · exact .intro opened behindKey behindColon quoted name separated read
      dsimp only at found
      cases closed : literal [closeBrace] (skipWs after) with
      | some behind =>
          simp only [closed] at found
          cases found
          exact Or.inl ⟨rfl, rfl⟩
      | none =>
          simp only [closed] at found
          obtain ⟨next, continued, found⟩ := ok_of_bind _ _ _ found
          exact Or.inr ⟨next, continued, found⟩

theorem parseElements_read (arr : List Value) (text : Bytes) (value : Value) (rest : Bytes)
    (found : parseElements fp (fuel + 1) arr text = .ok (value, rest)) :
    ∃ item after, parseValue fp fuel text = .ok (item, after) ∧
      (literal [closeBracket] (skipWs after) = some rest ∧ value = .array (arr ++ [item]) ∨
        ∃ next, consume comma (skipWs after) = .ok next ∧
          parseElements fp fuel (arr ++ [item]) next = .ok (value, rest)) := by
  rw [parseElements] at found
  obtain ⟨⟨item, after⟩, read, found⟩ := ok_of_bind _ _ _ found
  refine ⟨item, after, read, ?_⟩
  dsimp only at found
  cases closed : literal [closeBracket] (skipWs after) with
  | some behind =>
      simp only [closed] at found
      cases found
      exact Or.inl ⟨rfl, rfl⟩
  | none =>
      simp only [closed] at found
      obtain ⟨next, continued, found⟩ := ok_of_bind _ _ _ found
      exact Or.inr ⟨next, continued, found⟩

end Reading

section Fuel

variable (fp : Floating)

/-- What a byte starts is shorter behind it, if the parts of the parser shorten their texts. -/
theorem ValueRead.length {fuel : Nat} {c : UInt8} {more : Bytes} {value : Value} {rest : Bytes}
    (read : ValueRead fp fuel c more value rest)
    (members : ∀ obj text value rest, parseMembers fp fuel obj text = .ok (value, rest) →
      rest.length < text.length)
    (elements : ∀ arr text value rest, parseElements fp fuel arr text = .ok (value, rest) →
      rest.length < text.length) : rest.length ≤ more.length := by
  have behind := skipWs_length more
  cases read with
  | emptyObject rest closed =>
      have size := literal_byte_length _ _ _ closed
      omega
  | object value rest read =>
      have shorter := members _ _ _ _ read
      omega
  | emptyArray rest closed =>
      have size := literal_byte_length _ _ _ closed
      omega
  | array value rest read =>
      have shorter := elements _ _ _ _ read
      omega
  | string text rest read =>
      have shorter := parseString_length _ _ _ read
      omega
  | bool value rest found =>
      have size := literal_length _ _ _ found
      have positive : 1 ≤ (ascii (if value then "true" else "false")).length := by
        cases value <;> decide
      rw [List.length_cons] at size
      omega
  | null rest found =>
      have size := literal_length _ _ _ found
      have four : (ascii "null").length = 4 := rfl
      rw [List.length_cons] at size
      omega
  | number token isFloat value rest scanned converted =>
      have shorter := scanNumber_length _ _ _ _ scanned
      rw [List.length_cons] at shorter
      omega

/-- Every part of the parser that returns has consumed some of its text. -/
theorem parse_length (fuel : Nat) :
    (∀ text value rest, parseValue fp fuel text = .ok (value, rest) →
      rest.length < text.length) ∧
    (∀ obj text value rest, parseMembers fp fuel obj text = .ok (value, rest) →
      rest.length < text.length) ∧
    (∀ arr text value rest, parseElements fp fuel arr text = .ok (value, rest) →
      rest.length < text.length) := by
  induction fuel with
  | zero =>
      refine ⟨?_, ?_, ?_⟩
      · intro text value rest found
        cases found
      · intro obj text value rest found
        cases found
      · intro arr text value rest found
        cases found
  | succ fuel ih =>
      obtain ⟨valueLength, membersLength, elementsLength⟩ := ih
      refine ⟨?_, ?_, ?_⟩
      · intro text value rest found
        obtain ⟨c, more, shape, read⟩ := parseValue_read fp fuel text value rest found
        have skipped := skipWs_length text
        have behind := read.length fp membersLength elementsLength
        rw [shape, List.length_cons] at skipped
        omega
      · intro obj text value rest found
        obtain ⟨key, member, after, member_, ended⟩ :=
          parseMembers_read fp fuel obj text value rest found
        obtain ⟨opened, behindKey, behindColon, quoted, name, separated, read⟩ := member_
        have start := literal_byte_length _ _ _ quoted
        have skipped := skipWs_length text
        have first := parseString_length _ _ _ name
        have blank := skipWs_length behindKey
        have second := consume_length _ _ _ separated
        have third := valueLength _ _ _ read
        have behind := skipWs_length after
        rcases ended with ⟨closed, -⟩ | ⟨next, continued, later⟩
        · have size := literal_byte_length _ _ _ closed
          omega
        · have fourth := consume_length _ _ _ continued
          have fifth := membersLength _ _ _ _ later
          omega
      · intro arr text value rest found
        obtain ⟨item, after, read, ended⟩ := parseElements_read fp fuel arr text value rest found
        have first := valueLength _ _ _ read
        have behind := skipWs_length after
        rcases ended with ⟨closed, -⟩ | ⟨next, continued, later⟩
        · have size := literal_byte_length _ _ _ closed
          omega
        · have second := consume_length _ _ _ continued
          have third := elementsLength _ _ _ _ later
          omega

section Fuel

variable (fuel other : Nat) (text : Bytes)

/-- A value is read alike with two bounds that read all shorter texts alike. -/
theorem parseValue_alike
    (members : ∀ obj later, later.length < text.length →
      parseMembers fp fuel obj later = parseMembers fp other obj later)
    (elements : ∀ arr later, later.length < text.length →
      parseElements fp fuel arr later = parseElements fp other arr later) :
    parseValue fp (fuel + 1) text = parseValue fp (other + 1) text := by
  have skipped := skipWs_length text
  rw [parseValue, parseValue]
  cases shape : skipWs text with
  | nil => rfl
  | cons c more =>
      rw [shape, List.length_cons] at skipped
      have sameMembers := members [] more (by omega)
      have sameElements := elements [] more (by omega)
      simp only [sameMembers, sameElements]

theorem parseMembers_alike (obj : Fields)
    (values : ∀ later, later.length < text.length →
      parseValue fp fuel later = parseValue fp other later)
    (members : ∀ obj later, later.length < text.length →
      parseMembers fp fuel obj later = parseMembers fp other obj later) :
    parseMembers fp (fuel + 1) obj text = parseMembers fp (other + 1) obj text := by
  have skipped := skipWs_length text
  rw [parseMembers, parseMembers]
  cases opened : literal [quote] (skipWs text) with
  | none => rfl
  | some more =>
      have start := literal_byte_length _ _ _ opened
      dsimp only
      cases keyRead : parseString more with
      | error thrown => rfl
      | ok read =>
          obtain ⟨key, afterKey⟩ := read
          have first := parseString_length _ _ _ keyRead
          have blank := skipWs_length afterKey
          simp only [bind, Except.bind]
          cases colonRead : consume colon (skipWs afterKey) with
          | error thrown => rfl
          | ok afterColon =>
              have second := consume_length _ _ _ colonRead
              have value := values afterColon (by omega)
              simp only [value]
              cases valueRead : parseValue fp other afterColon with
              | error thrown => rfl
              | ok read =>
                  obtain ⟨member, afterValue⟩ := read
                  have third := (parse_length fp other).1 _ _ _ valueRead
                  have behind := skipWs_length afterValue
                  dsimp only
                  cases literal [closeBrace] (skipWs afterValue) with
                  | some after => rfl
                  | none =>
                      cases commaRead : consume comma (skipWs afterValue) with
                      | error thrown => rfl
                      | ok afterComma =>
                          have fourth := consume_length _ _ _ commaRead
                          exact members _ afterComma (by omega)

theorem parseElements_alike (arr : List Value)
    (value : parseValue fp fuel text = parseValue fp other text)
    (elements : ∀ arr later, later.length < text.length →
      parseElements fp fuel arr later = parseElements fp other arr later) :
    parseElements fp (fuel + 1) arr text = parseElements fp (other + 1) arr text := by
  rw [parseElements, parseElements, value]
  cases valueRead : parseValue fp other text with
  | error thrown => rfl
  | ok read =>
      obtain ⟨item, afterValue⟩ := read
      have first := (parse_length fp other).1 _ _ _ valueRead
      have behind := skipWs_length afterValue
      simp only [bind, Except.bind]
      cases literal [closeBracket] (skipWs afterValue) with
      | some after => rfl
      | none =>
          dsimp only
          cases commaRead : consume comma (skipWs afterValue) with
          | error thrown => rfl
          | ok afterComma =>
              have second := consume_length _ _ _ commaRead
              exact elements _ afterComma (by omega)

end Fuel

/-- Above twice the length of the text, the bound on the depth of calls does not matter. -/
theorem parse_fuel (fuel : Nat) :
    (∀ other text, 2 * text.length + 1 ≤ fuel → 2 * text.length + 1 ≤ other →
      parseValue fp fuel text = parseValue fp other text) ∧
    (∀ other obj text, 2 * text.length + 2 ≤ fuel → 2 * text.length + 2 ≤ other →
      parseMembers fp fuel obj text = parseMembers fp other obj text) ∧
    (∀ other arr text, 2 * text.length + 2 ≤ fuel → 2 * text.length + 2 ≤ other →
      parseElements fp fuel arr text = parseElements fp other arr text) := by
  induction fuel with
  | zero =>
      refine ⟨?_, ?_, ?_⟩
      · intro other text enough _
        omega
      · intro other obj text enough _
        omega
      · intro other arr text enough _
        omega
  | succ fuel ih =>
      obtain ⟨sameValue, sameMembers, sameElements⟩ := ih
      refine ⟨?_, ?_, ?_⟩
      · intro other text enough otherEnough
        obtain ⟨other, rfl⟩ := Nat.exists_eq_add_of_le' (show 1 ≤ other by omega)
        apply parseValue_alike
        · intro obj later shorter
          exact sameMembers other obj later (by omega) (by omega)
        · intro arr later shorter
          exact sameElements other arr later (by omega) (by omega)
      · intro other obj text enough otherEnough
        obtain ⟨other, rfl⟩ := Nat.exists_eq_add_of_le' (show 1 ≤ other by omega)
        apply parseMembers_alike
        · intro later shorter
          exact sameValue other later (by omega) (by omega)
        · intro obj later shorter
          exact sameMembers other obj later (by omega) (by omega)
      · intro other arr text enough otherEnough
        obtain ⟨other, rfl⟩ := Nat.exists_eq_add_of_le' (show 1 ≤ other by omega)
        apply parseElements_alike
        · exact sameValue other text (by omega) (by omega)
        · intro arr later shorter
          exact sameElements other arr later (by omega) (by omega)

/-- `load_string` does not depend on the bound it is modelled with. -/
theorem jsonLoadString_fuel (text : Bytes) (fuel : Nat) (enough : 2 * text.length + 1 ≤ fuel) :
    parseValue fp fuel text = parseValue fp (2 * text.length + 1) text :=
  (parse_fuel fp fuel).1 _ text enough (Nat.le_refl _)

end Fuel

section WellFormed

variable (fp : Floating)

theorem insert_wellFormed (key : Bytes) (value : Value) (fields : Fields)
    (wellFormed : value.WellFormed) (members : ∀ field ∈ fields, field.2.WellFormed) :
    ∀ field ∈ insert key value fields, field.2.WellFormed := by
  intro field inside
  rcases mem_insert key value fields field inside with rfl | earlier
  · exact wellFormed
  · exact members field earlier

theorem numberValue_wellFormed (token : Bytes) (isFloat : Bool) (value : Value)
    (converted : numberValue fp token isFloat = .ok value) : value.WellFormed := by
  unfold numberValue at converted
  cases isFloat with
  | true =>
      cases read : fp.stod token with
      | error thrown => simp [read, Except.map] at converted
      | ok bits =>
          simp only [read, ↓reduceIte, Except.map, Except.ok.injEq] at converted
          rw [← converted]
          exact .double bits
  | false =>
      simp only [Bool.false_eq_true, ↓reduceIte] at converted
      cases signed_ : literal [minus] token with
      | some digits =>
          simp only [signed_] at converted
          split_ifs at converted
          cases converted
          exact .int _
      | none =>
          simp only [signed_] at converted
          split_ifs at converted
          cases converted
          exact .uint _

theorem ValueRead.wellFormed {fuel : Nat} {c : UInt8} {more : Bytes} {value : Value}
    {rest : Bytes} (read : ValueRead fp fuel c more value rest)
    (members : ∀ obj text value rest, Sorted obj → (∀ field ∈ obj, field.2.WellFormed) →
      parseMembers fp fuel obj text = .ok (value, rest) → value.WellFormed)
    (elements : ∀ arr text value rest, (∀ item ∈ arr, item.WellFormed) →
      parseElements fp fuel arr text = .ok (value, rest) → value.WellFormed) :
    value.WellFormed := by
  cases read with
  | emptyObject rest closed =>
      exact .object [] List.Pairwise.nil fun field inside => absurd inside List.not_mem_nil
  | object value rest read =>
      exact members [] _ _ _ List.Pairwise.nil
        (fun field inside => absurd inside List.not_mem_nil) read
  | emptyArray rest closed => exact .array [] fun item inside => absurd inside List.not_mem_nil
  | array value rest read =>
      exact elements [] _ _ _ (fun item inside => absurd inside List.not_mem_nil) read
  | string text rest read => exact .string text
  | bool value rest found => exact .bool value
  | null rest found => exact .null
  | number token isFloat value rest scanned converted =>
      exact numberValue_wellFormed fp token isFloat value converted

/-- The parser fills every object as a map. -/
theorem parse_wellFormed (fuel : Nat) :
    (∀ text value rest, parseValue fp fuel text = .ok (value, rest) → value.WellFormed) ∧
    (∀ obj text value rest, Sorted obj → (∀ field ∈ obj, field.2.WellFormed) →
      parseMembers fp fuel obj text = .ok (value, rest) → value.WellFormed) ∧
    (∀ arr text value rest, (∀ item ∈ arr, item.WellFormed) →
      parseElements fp fuel arr text = .ok (value, rest) → value.WellFormed) := by
  induction fuel with
  | zero =>
      refine ⟨?_, ?_, ?_⟩
      · intro text value rest found
        cases found
      · intro obj text value rest _ _ found
        cases found
      · intro arr text value rest _ found
        cases found
  | succ fuel ih =>
      obtain ⟨ofValue, ofMembers, ofElements⟩ := ih
      refine ⟨?_, ?_, ?_⟩
      · intro text value rest found
        obtain ⟨c, more, -, read⟩ := parseValue_read fp fuel text value rest found
        exact read.wellFormed fp ofMembers ofElements
      · intro obj text value rest sorted members found
        obtain ⟨key, member, after, member_, ended⟩ :=
          parseMembers_read fp fuel obj text value rest found
        obtain ⟨_, _, _, -, -, -, read⟩ := member_
        have wellFormed := ofValue _ _ _ read
        have nextSorted := insert_sorted key member obj sorted
        have nextMembers := insert_wellFormed key member obj wellFormed members
        rcases ended with ⟨-, rfl⟩ | ⟨next, -, later⟩
        · exact .object _ nextSorted nextMembers
        · exact ofMembers _ _ _ _ nextSorted nextMembers later
      · intro arr text value rest members found
        obtain ⟨item, after, read, ended⟩ := parseElements_read fp fuel arr text value rest found
        have wellFormed := ofValue _ _ _ read
        have nextMembers : ∀ next ∈ arr ++ [item], next.WellFormed := by
          intro next inside
          rcases List.mem_append.mp inside with earlier | last
          · exact members next earlier
          · rw [List.mem_singleton.mp last]
            exact wellFormed
        rcases ended with ⟨-, rfl⟩ | ⟨next, -, later⟩
        · exact .array _ nextMembers
        · exact ofElements _ _ _ _ nextMembers later

theorem jsonLoadString_wellFormed (text : Bytes) (root : Value)
    (loaded : jsonLoadString fp text = .ok root) : root.WellFormed := by
  obtain ⟨⟨value, rest⟩, read, finished⟩ := ok_of_bind _ _ _ loaded
  have wellFormed := (parse_wellFormed fp _).1 _ _ _ read
  dsimp only at finished
  split_ifs at finished
  rw [← Except.ok.inj finished]
  exact wellFormed

end WellFormed

end Nuperf.Serdetk
