import Nuperf.SerdeJson

set_option autoImplicit false

namespace Nuperf.Serdetk

open ByteString Numeral CStandard TextReader OrderedMap

/-- The name of a member as it is written: the gap in front of it, the name, and the gap
behind its colon. -/
structure MemberName where
  gap : Bytes
  name : Bytes
  space : Bytes

/-- A JSON text as a tree: its leaves are scalars, and every bracket and item keeps the
white space in front of it. -/
inductive Layout
  | leaf (value : Value)
  | array (items : List (Bytes × Layout)) (close : Bytes)
  | object (members : List (MemberName × Layout)) (close : Bytes)

/-- The scalars that are read back as they are written. Non-negative numbers are read as
unsigned, and a floating-point number is printed to six digits. -/
def leafText : Value → Option Bytes
  | .null => some (ascii "null")
  | .bool value => some (if value then ascii "true" else ascii "false")
  | .int value => if value.toInt < 0 then some (signedDecimal value.toInt) else none
  | .uint value => some (decimal value.toNat)
  | .string text => some (emitString text)
  | _ => none

mutual

def Layout.write : Layout → Bytes
  | .leaf value => (leafText value).getD []
  | .array items close => openBracket :: (writeItems items true ++ close ++ [closeBracket])
  | .object members close => openBrace :: (writeMembers members true ++ close ++ [closeBrace])

def writeItems : List (Bytes × Layout) → Bool → Bytes
  | [], _ => []
  | (gap, item) :: rest, first => separator first ++ gap ++ item.write ++ writeItems rest false

def writeMembers : List (MemberName × Layout) → Bool → Bytes
  | [], _ => []
  | (key, value) :: rest, first =>
      separator first ++ key.gap ++ emitString key.name ++ [colon] ++ key.space ++ value.write ++
        writeMembers rest false

end

mutual

/-- The value a layout is a text of. -/
def Layout.value : Layout → Value
  | .leaf value => value
  | .array items _ => .array (itemValues items)
  | .object members _ => .object (memberValues members [])

def itemValues : List (Bytes × Layout) → List Value
  | [] => []
  | (_, item) :: rest => item.value :: itemValues rest

def memberValues : List (MemberName × Layout) → Fields → Fields
  | [], fields => fields
  | (key, value) :: rest, fields => memberValues rest (insert key.name value.value fields)

end

def Blank (gap : Bytes) : Prop := ∀ byte ∈ gap, isSpace byte = true

instance (gap : Bytes) : Decidable (Blank gap) :=
  decidable_of_iff (gap.all isSpace = true) List.all_eq_true

mutual

/-- Gaps are white space and leaves are scalars that can be read back. -/
def Layout.Proper : Layout → Prop
  | .leaf value => leafText value ≠ none
  | .array items close => ProperItems items ∧ Blank close
  | .object members close => ProperMembers members ∧ Blank close

def ProperItems : List (Bytes × Layout) → Prop
  | [] => True
  | (gap, item) :: rest => Blank gap ∧ item.Proper ∧ ProperItems rest

def ProperMembers : List (MemberName × Layout) → Prop
  | [] => True
  | (key, value) :: rest =>
      Blank key.gap ∧ Blank key.space ∧ value.Proper ∧ ProperMembers rest

end

/-- Nothing that continues a number. -/
def Stops (rest : Bytes) : Prop :=
  rest.head?.all (fun c => !isDigit c && c != dot && c != 101 && c != 69) = true

section Strings

theorem parseString_quote (rest : Bytes) : parseString (quote :: rest) = .ok ([], rest) := by
  rw [parseString.eq_def]
  cases rest <;> rfl

theorem parseString_plain (c : UInt8) (notQuote : c ≠ quote) (notBackslash : c ≠ backslash)
    (rest : Bytes) :
    parseString (c :: rest) = (parseString rest).map fun (text, rest) => (c :: text, rest) := by
  cases rest with
  | nil => simp only [parseString, notQuote, notBackslash, ↓reduceIte, Except.map]
  | cons e rest =>
      rw [parseString.eq_def]
      simp only [notQuote, notBackslash, ↓reduceIte]
      cases parseString (e :: rest) <;> rfl

theorem parseString_escaped (e byte : UInt8) (found : simpleEscape e = some byte)
    (notUnicode : e ≠ 117) (rest : Bytes) :
    parseString (backslash :: e :: rest) =
      (parseString rest).map fun (text, rest) => (byte :: text, rest) := by
  have apart : backslash ≠ quote := by decide
  rw [parseString.eq_def]
  simp only [apart, notUnicode, ↓reduceIte, found]
  cases parseString rest <;> rfl

theorem parseString_escape (c : UInt8) (rest : Bytes) :
    parseString (escape c ++ rest) =
      (parseString rest).map fun (text, rest) => (c :: text, rest) := by
  unfold escape
  split_ifs with isQuote isBackslash isNewline isReturn isTab
  · rw [isQuote]
    exact parseString_escaped quote quote (by decide) (by decide) rest
  · rw [isBackslash]
    exact parseString_escaped backslash backslash (by decide) (by decide) rest
  · rw [isNewline]
    exact parseString_escaped 110 10 (by decide) (by decide) rest
  · rw [isReturn]
    exact parseString_escaped 114 13 (by decide) (by decide) rest
  · rw [isTab]
    exact parseString_escaped 116 9 (by decide) (by decide) rest
  · exact parseString_plain c isQuote isBackslash rest

/-- A string of any bytes survives being written and read. -/
theorem parseString_emit (text rest : Bytes) :
    parseString (text.flatMap escape ++ quote :: rest) = .ok (text, rest) := by
  induction text with
  | nil => exact parseString_quote rest
  | cons c text ih =>
      rw [List.flatMap_cons, List.append_assoc, parseString_escape, ih]
      rfl

end Strings

section Numbers

theorem optional_other (accepts : UInt8 → Bool) (text : Bytes)
    (other : text.head?.all (fun c => !accepts c) = true) : optional accepts text = ([], text) := by
  cases text with
  | nil => rfl
  | cons c rest =>
      simp only [List.head?_cons, Option.all_some, Bool.not_eq_true'] at other
      simp only [optional, other, Bool.false_eq_true, ↓reduceIte]

theorem optional_cons (accepts : UInt8 → Bool) (c : UInt8) (rest : Bytes)
    (accepted : accepts c = true) : optional accepts (c :: rest) = ([c], rest) := by
  simp only [optional, accepted, ↓reduceIte]

theorem Stops.all {rest : Bytes} (stops : Stops rest) (p : UInt8 → Bool)
    (weaker : ∀ c, isDigit c = false → c ≠ dot → c ≠ 101 → c ≠ 69 → p c = true) :
    rest.head?.all p = true := by
  cases rest with
  | nil => rfl
  | cons c rest =>
      simp only [Stops, List.head?_cons, Option.all_some, Bool.and_eq_true, Bool.not_eq_true',
        bne_iff_ne, ne_eq] at stops
      exact weaker c stops.1.1.1 stops.1.1.2 stops.1.2 stops.2

/-- The digits of a number that is not zero do not start with `0`. -/
theorem decimal_head (n : Nat) (positive : n ≠ 0) : (decimal n).head? ≠ some zero := by
  intro head
  have shape : decimal n = (Nat.digits 10 n).reverse.map digitByte := by
    rw [decimal, if_neg positive]
  have nonempty : Nat.digits 10 n ≠ [] := by
    rw [ne_eq, Nat.digits_eq_nil_iff_eq_zero]
    exact positive
  rw [shape, List.head?_map, List.head?_reverse, List.getLast?_eq_some_getLast nonempty,
    Option.map_some, Option.some.injEq] at head
  have last := Nat.getLast_digit_ne_zero 10 positive
  have small := digits_small n _ (List.getLast_mem nonempty)
  have byte := congrArg UInt8.toNat head
  rw [digitByte_toNat _ small] at byte
  have value : zero.toNat = 48 := rfl
  omega

theorem isDigit_head (n : Nat) (rest : Bytes) (p : UInt8 → Bool)
    (holds : ∀ c, isDigit c = true → p c = true) : (decimal n ++ rest).head?.all p = true := by
  cases shape : decimal n with
  | nil => exact absurd shape (decimal_ne_nil n)
  | cons c digits =>
      have digit := decimal_digits n c (by rw [shape]; exact List.mem_cons_self)
      simpa using holds c digit

/-- The whole part of a canonical numeral is read to its end. -/
theorem scanWhole_decimal (n : Nat) (rest : Bytes) (stops : Stops rest) :
    scanWhole (decimal n ++ rest) = .ok (decimal n, rest) := by
  unfold scanWhole
  by_cases isZero : n = 0
  · subst isZero
    have shape : decimal 0 = [zero] := by decide
    rw [shape, List.singleton_append, optional_cons _ zero rest (by decide)]
    rfl
  · have head : (decimal n ++ rest).head?.all (fun c => !(c == zero)) = true := by
      have nonzero := decimal_head n isZero
      cases shape : decimal n with
      | nil => exact absurd shape (decimal_ne_nil n)
      | cons c digits =>
          rw [shape, List.head?_cons] at nonzero
          simpa using fun same => nonzero (congrArg some same)
    have run := readRun_append isDigit (decimal n) rest (decimal_digits n)
      (stops.all _ fun c notDigit _ _ _ => by simp [notDigit])
    rw [optional_other _ _ head]
    simp only [↓reduceIte, someDigits, run, decimal_ne_nil]

theorem scanFraction_none (rest : Bytes) (stops : Stops rest) :
    scanFraction rest = .ok ([], rest) := by
  have noPoint := optional_other (· == dot) rest
    (stops.all _ fun c _ notDot _ _ => by simpa using notDot)
  simp only [scanFraction, noPoint, ↓reduceIte]

theorem scanExponent_none (rest : Bytes) (stops : Stops rest) :
    scanExponent rest = .ok ([], rest) := by
  have noMark := optional_other (fun c => c == 101 || c == 69) rest
    (stops.all _ fun c _ _ lower upper => by simp [lower, upper])
  simp only [scanExponent, noMark, ↓reduceIte]

theorem scanNumber_unsigned (n : Nat) (rest : Bytes) (stops : Stops rest) :
    scanNumber (decimal n ++ rest) = .ok (decimal n, false, rest) := by
  have noMinus := isDigit_head n rest (fun c => !(c == minus)) (by
    intro c digit
    have apart := (isDigit_not_sign c digit).1
    simpa [minus] using apart)
  simp only [scanNumber, optional_other _ _ noMinus, scanWhole_decimal n rest stops,
    scanFraction_none rest stops, scanExponent_none rest stops, bind, Except.bind,
    List.nil_append, List.append_nil]
  rfl

theorem scanNumber_negative (n : Nat) (rest : Bytes) (stops : Stops rest) :
    scanNumber (minus :: decimal n ++ rest) = .ok (minus :: decimal n, false, rest) := by
  have sign : optional (· == minus) (minus :: (decimal n ++ rest)) = ([minus], decimal n ++ rest) :=
    optional_cons _ minus _ (by decide)
  simp only [scanNumber, List.cons_append, sign, scanWhole_decimal n rest stops,
    scanFraction_none rest stops, scanExponent_none rest stops, bind, Except.bind,
    List.nil_append, List.append_nil]
  rfl

theorem numberValue_unsigned (fp : Floating) (n : UInt64) :
    numberValue fp (decimal n.toNat) false = .ok (.uint n) := by
  have plain : literal [minus] (decimal n.toNat) = none := by
    apply literal_eq_none
    rintro ⟨rest, same⟩
    have member : minus ∈ decimal n.toNat := by
      rw [← same]
      exact List.mem_cons_self
    exact (isDigit_not_sign minus (decimal_digits n.toNat minus member)).1 rfl
  have fits : n.toNat < 2 ^ 64 := n.toNat_lt
  simp only [numberValue, Bool.false_eq_true, ↓reduceIte, plain, value_decimal, fits,
    UInt64.ofNat_toNat]

theorem numberValue_negative (fp : Floating) (n : Int64) (negative : n.toInt < 0) :
    numberValue fp (minus :: decimal n.toInt.natAbs) false = .ok (.int n) := by
  have signed_ :
      literal [minus] (minus :: decimal n.toInt.natAbs) = some (decimal n.toInt.natAbs) :=
    literal_append [minus] _
  have lower : -2 ^ 63 ≤ n.toInt := n.le_toInt
  have fits : n.toInt.natAbs ≤ 2 ^ 63 := by omega
  have magnitude : -(n.toInt.natAbs : Int) = n.toInt := by omega
  simp only [numberValue, Bool.false_eq_true, ↓reduceIte, signed_, value_decimal, fits, magnitude,
    Int64.ofInt_toInt]

end Numbers

section Gaps

theorem skipWs_append (gap text : Bytes) (blank : Blank gap) :
    skipWs (gap ++ text) = skipWs text :=
  List.dropWhile_append_of_pos blank

theorem skipWs_cons (c : UInt8) (rest : Bytes) (solid : isSpace c = false) :
    skipWs (c :: rest) = c :: rest := by
  apply List.dropWhile_cons_of_neg
  rw [solid]
  exact Bool.false_ne_true

theorem skipWs_gap (gap : Bytes) (blank : Blank gap) (c : UInt8) (rest : Bytes)
    (solid : isSpace c = false) : skipWs (gap ++ c :: rest) = c :: rest := by
  rw [skipWs_append gap _ blank, skipWs_cons c rest solid]

theorem consume_cons (c : UInt8) (rest : Bytes) : consume c (c :: rest) = .ok rest := by
  rw [consume, literal_cons]

theorem isSpace_not_stop (c : UInt8) (space : isSpace c = true) :
    (!isDigit c && c != dot && c != 101 && c != 69) = true := by
  have notDigit : isDigit c = false := by
    by_contra digit
    rw [isDigit_not_isSpace c (by simpa using digit)] at space
    cases space
  simp only [notDigit, Bool.not_false, Bool.true_and, Bool.and_eq_true, bne_iff_ne, ne_eq]
  refine ⟨⟨?_, ?_⟩, ?_⟩
  · rintro rfl
    exact absurd space (by decide)
  · rintro rfl
    exact absurd space (by decide)
  · rintro rfl
    exact absurd space (by decide)

/-- White space and a closing bracket end a number. -/
theorem stops_gap (gap : Bytes) (blank : Blank gap) (c : UInt8) (rest : Bytes)
    (stop : Stops (c :: rest)) : Stops (gap ++ c :: rest) := by
  cases gap with
  | nil => exact stop
  | cons space gap => exact isSpace_not_stop space (blank space List.mem_cons_self)

end Gaps

theorem parseLiteral_append (text : String) (value : Value) (rest : Bytes) :
    parseLiteral text value (ascii text ++ rest) = .ok (value, rest) := by
  rw [parseLiteral, literal_append]

section Leaves

variable (fp : Floating) (fuel : Nat) (gap : Bytes) (blank : Blank gap)

/-- A scalar's text starts with a byte that is neither white space nor a closing bracket. -/
theorem leafText_head (value : Value) (text : Bytes) (written : leafText value = some text) :
    ∃ c rest, text = c :: rest ∧ isSpace c = false ∧ c ≠ closeBracket := by
  cases value with
  | null =>
      cases written
      exact ⟨_, _, rfl, by decide, by decide⟩
  | bool value =>
      cases written
      cases value <;> exact ⟨_, _, rfl, by decide, by decide⟩
  | int value =>
      simp only [leafText] at written
      split_ifs at written with negative
      cases written
      exact ⟨minus, decimal value.toInt.natAbs, by rw [signedDecimal, if_pos negative]; rfl,
        by decide, by decide⟩
  | uint value =>
      cases written
      cases shape : decimal value.toNat with
      | nil => exact absurd shape (decimal_ne_nil _)
      | cons c rest =>
          have digit := decimal_digits value.toNat c (by rw [shape]; exact List.mem_cons_self)
          refine ⟨c, rest, rfl, isDigit_not_isSpace c digit, ?_⟩
          rintro rfl
          cases digit
  | string text =>
      cases written
      exact ⟨_, _, rfl, by decide, by decide⟩
  | double bits => cases written
  | binary bytes => cases written
  | object fields => cases written
  | array items => cases written

include blank in
theorem parseValue_string (text rest : Bytes) :
    parseValue fp (fuel + 1) (gap ++ (emitString text ++ rest)) = .ok (.string text, rest) := by
  have start : skipWs (gap ++ (emitString text ++ rest)) =
      quote :: (text.flatMap escape ++ quote :: rest) := by
    rw [emitString, List.cons_append, skipWs_gap gap blank quote _ (by decide),
      List.append_assoc]
    rfl
  rw [parseValue, start]
  simp only [show quote ≠ openBrace by decide, show quote ≠ openBracket by decide, ↓reduceIte,
    parseString_emit, bind, Except.bind]

include blank in
theorem parseValue_number (token rest : Bytes) (value : Value) (c : UInt8) (tail : Bytes)
    (shape : token = c :: tail) (starts : c = minus ∨ isDigit c = true)
    (scanned : scanNumber (token ++ rest) = .ok (token, false, rest))
    (converted : numberValue fp token false = .ok value) :
    parseValue fp (fuel + 1) (gap ++ (token ++ rest)) = .ok (value, rest) := by
  have solid : isSpace c = false := by
    rcases starts with rfl | digit
    · decide
    · exact isDigit_not_isSpace c digit
  have start : skipWs (gap ++ (token ++ rest)) = c :: (tail ++ rest) := by
    rw [shape, List.cons_append, skipWs_gap gap blank c _ solid]
  have other : ∀ byte, byte ≠ minus → isDigit byte = false → c ≠ byte := by
    rintro byte notMinus notDigit rfl
    rcases starts with isMinus | digit
    · exact notMinus isMinus
    · rw [notDigit] at digit
      cases digit
  rw [shape, List.cons_append] at scanned
  rw [parseValue, start]
  simp only [other openBrace (by decide) (by decide), other openBracket (by decide) (by decide),
    other quote (by decide) (by decide), other 116 (by decide) (by decide),
    other 102 (by decide) (by decide), other 110 (by decide) (by decide), starts, ↓reduceIte,
    scanned, bind, Except.bind]
  rw [← shape, converted]

include blank in
theorem parseValue_leaf (value : Value) (text rest : Bytes)
    (written : leafText value = some text) (stops : Stops rest) :
    parseValue fp (fuel + 1) (gap ++ (text ++ rest)) = .ok (value, rest) := by
  cases value with
  | null =>
      cases written
      have start : skipWs (gap ++ (ascii "null" ++ rest)) = ascii "null" ++ rest :=
        skipWs_gap gap blank 110 (ascii "ull" ++ rest) (by decide)
      rw [parseValue, start]
      exact parseLiteral_append "null" .null rest
  | bool value =>
      cases written
      cases value with
      | true =>
          have start : skipWs (gap ++ (ascii "true" ++ rest)) = ascii "true" ++ rest :=
            skipWs_gap gap blank 116 (ascii "rue" ++ rest) (by decide)
          rw [parseValue]
          simp only [↓reduceIte, start]
          exact parseLiteral_append "true" (.bool true) rest
      | false =>
          have start : skipWs (gap ++ (ascii "false" ++ rest)) = ascii "false" ++ rest :=
            skipWs_gap gap blank 102 (ascii "alse" ++ rest) (by decide)
          rw [parseValue]
          simp only [Bool.false_eq_true, ↓reduceIte, start]
          exact parseLiteral_append "false" (.bool false) rest
  | int value =>
      simp only [leafText] at written
      split_ifs at written with negative
      have shape : text = minus :: decimal value.toInt.natAbs := by
        rw [← Option.some.inj written, signedDecimal, if_pos negative]
        rfl
      subst shape
      exact parseValue_number fp fuel gap blank _ rest _ minus _ rfl (Or.inl rfl)
        (scanNumber_negative _ rest stops) (numberValue_negative fp value negative)
  | uint value =>
      cases written
      cases shape : decimal value.toNat with
      | nil => exact absurd shape (decimal_ne_nil _)
      | cons c tail =>
          have digit := decimal_digits value.toNat c (by rw [shape]; exact List.mem_cons_self)
          rw [← shape]
          exact parseValue_number fp fuel gap blank _ rest _ c tail shape (Or.inr digit)
            (scanNumber_unsigned _ rest stops) (numberValue_unsigned fp value)
  | string text =>
      cases written
      exact parseValue_string fp fuel gap blank text rest
  | double bits => cases written
  | binary bytes => cases written
  | object fields => cases written
  | array items => cases written

end Leaves

section Layouts

variable (fp : Floating)

theorem Layout.write_head (layout : Layout) (proper : layout.Proper) :
    ∃ c rest, layout.write = c :: rest ∧ isSpace c = false ∧ c ≠ closeBracket := by
  cases layout with
  | leaf value =>
      obtain ⟨text, written⟩ := Option.ne_none_iff_exists'.mp proper
      rw [Layout.write, written, Option.getD_some]
      exact leafText_head value text written
  | array items close => exact ⟨openBracket, _, rfl, by decide, by decide⟩
  | object members close => exact ⟨openBrace, _, rfl, by decide, by decide⟩

/-- The text behind an item: the next one after a comma, or the end of its container. -/
theorem stops_behind (more close : Bytes) (c : UInt8) (tail : Bytes)
    (next : more = [] ∨ more.head? = some comma) (blank : Blank close)
    (stop : Stops (c :: tail)) : Stops (more ++ (close ++ c :: tail)) := by
  cases more with
  | nil => exact stops_gap close blank c tail stop
  | cons d more =>
      have isComma : d = comma := by simpa using next
      rw [isComma]
      rfl

theorem writeItems_first (gap : Bytes) (item : Layout) (items : List (Bytes × Layout)) :
    writeItems ((gap, item) :: items) true = gap ++ (item.write ++ writeItems items false) := by
  simp only [writeItems, separator, ↓reduceIte, List.nil_append, List.append_assoc]

theorem writeItems_later (gap : Bytes) (item : Layout) (items : List (Bytes × Layout)) :
    writeItems ((gap, item) :: items) false = comma :: writeItems ((gap, item) :: items) true := by
  simp only [writeItems, separator, Bool.false_eq_true, ↓reduceIte, List.nil_append,
    List.cons_append]

theorem writeMembers_first (key : MemberName) (value : Layout)
    (members : List (MemberName × Layout)) :
    writeMembers ((key, value) :: members) true =
      key.gap ++ (emitString key.name ++ colon :: (key.space ++ (value.write ++
        writeMembers members false))) := by
  simp only [writeMembers, separator, ↓reduceIte, List.nil_append, List.append_assoc,
    List.cons_append]

theorem writeMembers_later (key : MemberName) (value : Layout)
    (members : List (MemberName × Layout)) :
    writeMembers ((key, value) :: members) false =
      comma :: writeMembers ((key, value) :: members) true := by
  simp only [writeMembers, separator, Bool.false_eq_true, ↓reduceIte, List.nil_append,
    List.cons_append]

theorem writeItems_next (items : List (Bytes × Layout)) :
    writeItems items false = [] ∨ (writeItems items false).head? = some comma := by
  cases items with
  | nil => exact Or.inl rfl
  | cons item rest => exact Or.inr rfl

theorem writeMembers_next (members : List (MemberName × Layout)) :
    writeMembers members false = [] ∨ (writeMembers members false).head? = some comma := by
  cases members with
  | nil => exact Or.inl rfl
  | cons member rest => exact Or.inr rfl

section Brackets

variable (fuel : Nat) (gap : Bytes) (blank : Blank gap)

include blank

theorem parseValue_array_empty (close rest : Bytes) (closeBlank : Blank close) :
    parseValue fp (fuel + 1) (gap ++ openBracket :: (close ++ closeBracket :: rest)) =
      .ok (.array [], rest) := by
  rw [parseValue, skipWs_gap gap blank openBracket _ (by decide)]
  simp only [show openBracket ≠ openBrace by decide, ↓reduceIte]
  rw [skipWs_gap close closeBlank closeBracket rest (by decide), literal_cons]

/-- Behind an opening bracket, a byte that is not the closing one begins the elements. -/
theorem parseValue_array_filled (itemGap : Bytes) (itemBlank : Blank itemGap) (c : UInt8)
    (tail : Bytes) (solid : isSpace c = false) (open_ : c ≠ closeBracket) :
    parseValue fp (fuel + 1) (gap ++ openBracket :: (itemGap ++ c :: tail)) =
      parseElements fp fuel [] (itemGap ++ c :: tail) := by
  have occupied : literal [closeBracket] (skipWs (itemGap ++ c :: tail)) = none := by
    rw [skipWs_gap itemGap itemBlank c _ solid]
    exact literal_cons_ne closeBracket c [] _ (Ne.symm open_)
  rw [parseValue, skipWs_gap gap blank openBracket _ (by decide)]
  simp only [show openBracket ≠ openBrace by decide, ↓reduceIte, occupied]

theorem parseValue_object_empty (close rest : Bytes) (closeBlank : Blank close) :
    parseValue fp (fuel + 1) (gap ++ openBrace :: (close ++ closeBrace :: rest)) =
      .ok (.object [], rest) := by
  rw [parseValue, skipWs_gap gap blank openBrace _ (by decide)]
  simp only [↓reduceIte]
  rw [skipWs_gap close closeBlank closeBrace rest (by decide), literal_cons]

theorem parseValue_object_filled (keyGap : Bytes) (keyBlank : Blank keyGap) (tail : Bytes) :
    parseValue fp (fuel + 1) (gap ++ openBrace :: (keyGap ++ quote :: tail)) =
      parseMembers fp fuel [] (keyGap ++ quote :: tail) := by
  have occupied : literal [closeBrace] (skipWs (keyGap ++ quote :: tail)) = none := by
    rw [skipWs_gap keyGap keyBlank quote _ (by decide)]
    exact literal_cons_ne closeBrace quote [] _ (by decide)
  rw [parseValue, skipWs_gap gap blank openBrace _ (by decide)]
  simp only [↓reduceIte, occupied]

end Brackets

section Step

variable (fuel : Nat) (text rest tail : Bytes) (value : Value)
  (found : parseValue fp fuel text = .ok (value, rest))

include found

/-- The last turn of the loop of `parse_array`. -/
theorem parseElements_last (arr : List Value) (closed : skipWs rest = closeBracket :: tail) :
    parseElements fp (fuel + 1) arr text = .ok (.array (arr ++ [value]), tail) := by
  rw [parseElements, found]
  simp only [bind, Except.bind, closed, literal_cons]

theorem parseElements_next (arr : List Value) (continued : skipWs rest = comma :: tail) :
    parseElements fp (fuel + 1) arr text = parseElements fp fuel (arr ++ [value]) tail := by
  have notClosed : literal [closeBracket] (comma :: tail) = none :=
    literal_cons_ne closeBracket comma [] tail (by decide)
  rw [parseElements, found]
  simp only [bind, Except.bind, continued, notClosed, consume_cons]

omit found in
theorem skipWs_key (gap key : Bytes) (blank : Blank gap) :
    skipWs (gap ++ (emitString key ++ colon :: text)) =
      quote :: (key.flatMap escape ++ quote :: (colon :: text)) := by
  rw [emitString, List.cons_append, skipWs_gap gap blank quote _ (by decide), List.append_assoc]
  rfl

/-- The last turn of the loop of `parse_object`. -/
theorem parseMembers_last (obj : Fields) (gap key : Bytes) (blank : Blank gap)
    (closed : skipWs rest = closeBrace :: tail) :
    parseMembers fp (fuel + 1) obj (gap ++ (emitString key ++ colon :: text)) =
      .ok (.object (insert key value obj), tail) := by
  rw [parseMembers, skipWs_key text gap key blank, literal_cons]
  simp only [parseString_emit, skipWs_cons colon text (by decide), consume_cons, found, bind,
    Except.bind, closed, literal_cons]

theorem parseMembers_next (obj : Fields) (gap key : Bytes) (blank : Blank gap)
    (continued : skipWs rest = comma :: tail) :
    parseMembers fp (fuel + 1) obj (gap ++ (emitString key ++ colon :: text)) =
      parseMembers fp fuel (insert key value obj) tail := by
  have notClosed : literal [closeBrace] (comma :: tail) = none :=
    literal_cons_ne closeBrace comma [] tail (by decide)
  rw [parseMembers, skipWs_key text gap key blank, literal_cons]
  simp only [parseString_emit, skipWs_cons colon text (by decide), consume_cons, found, bind,
    Except.bind, continued, notClosed]

end Step

mutual

/-- A text with any white space between its parts is read as the value it writes. -/
theorem parseValue_write (layout : Layout) (proper : layout.Proper) (fuel : Nat)
    (enough : layout.write.length ≤ fuel) (gap : Bytes) (blank : Blank gap) (rest : Bytes)
    (stops : Stops rest) :
    parseValue fp fuel (gap ++ (layout.write ++ rest)) = .ok (layout.value, rest) := by
  obtain ⟨c, tail, head, -, -⟩ := layout.write_head proper
  cases fuel with
  | zero =>
      rw [head] at enough
      simp at enough
  | succ fuel =>
      match layout with
      | .leaf value =>
          obtain ⟨text, written⟩ := Option.ne_none_iff_exists'.mp proper
          rw [Layout.write, Layout.value, written, Option.getD_some]
          exact parseValue_leaf fp fuel gap blank value text rest written stops
      | .array items close =>
          have shape : (Layout.array items close).write ++ rest =
              openBracket :: (writeItems items true ++ (close ++ closeBracket :: rest)) := by
            simp only [Layout.write, List.cons_append, List.append_assoc, List.nil_append]
          rw [shape]
          match items with
          | [] => exact parseValue_array_empty fp fuel gap blank close rest proper.2
          | (itemGap, item) :: items =>
              obtain ⟨gapBlank, itemProper, -⟩ := proper.1
              obtain ⟨d, after, itemHead, solid, notClose⟩ := item.write_head itemProper
              simp only [Layout.write, List.length_cons, List.length_append] at enough
              have read := parseElements_write itemGap item items proper.1 close proper.2 fuel
                (by omega) [] rest
              rw [writeItems_first, itemHead] at read ⊢
              simp only [List.append_assoc, List.cons_append] at read ⊢
              rw [parseValue_array_filled fp fuel gap blank itemGap gapBlank d _ solid notClose,
                read]
              rfl
      | .object members close =>
          have shape : (Layout.object members close).write ++ rest =
              openBrace :: (writeMembers members true ++ (close ++ closeBrace :: rest)) := by
            simp only [Layout.write, List.cons_append, List.append_assoc, List.nil_append]
          rw [shape]
          match members with
          | [] => exact parseValue_object_empty fp fuel gap blank close rest proper.2
          | (key, value) :: members =>
              simp only [Layout.write, List.length_cons, List.length_append] at enough
              have read := parseMembers_write key value members proper.1 close proper.2 fuel
                (by omega) [] rest
              rw [writeMembers_first, emitString] at read ⊢
              simp only [List.append_assoc, List.cons_append] at read ⊢
              rw [parseValue_object_filled fp fuel gap blank key.gap proper.1.1, read]
              rfl
termination_by fuel

theorem parseElements_write (gap : Bytes) (item : Layout) (items : List (Bytes × Layout))
    (proper : ProperItems ((gap, item) :: items)) (close : Bytes) (blank : Blank close) (fuel : Nat)
    (enough : (writeItems ((gap, item) :: items) true).length + 1 ≤ fuel) (arr : List Value)
    (rest : Bytes) :
    parseElements fp fuel arr
        (writeItems ((gap, item) :: items) true ++ (close ++ closeBracket :: rest)) =
      .ok (.array (arr ++ itemValues ((gap, item) :: items)), rest) := by
  obtain ⟨gapBlank, itemProper, restProper⟩ := proper
  rw [writeItems_first] at enough ⊢
  rw [List.length_append, List.length_append] at enough
  rw [List.append_assoc, List.append_assoc]
  obtain ⟨fuel, rfl⟩ := Nat.exists_eq_add_of_le' (show 1 ≤ fuel by omega)
  have first := parseValue_write item itemProper fuel (by omega) gap gapBlank
    (writeItems items false ++ (close ++ closeBracket :: rest))
    (stops_behind _ close closeBracket rest (writeItems_next items) blank rfl)
  match items with
  | [] =>
      have closed : skipWs (writeItems [] false ++ (close ++ closeBracket :: rest)) =
          closeBracket :: rest := skipWs_gap close blank closeBracket rest (by decide)
      rw [parseElements_last fp fuel _ _ rest item.value first arr closed]
      rfl
  | (nextGap, next) :: items =>
      rw [writeItems_later, List.length_cons] at enough
      rw [writeItems_later, List.cons_append] at first ⊢
      rw [parseElements_next fp fuel _ _ _ item.value first arr (skipWs_cons comma _ (by decide)),
        parseElements_write nextGap next items restProper close blank fuel (by omega) _ rest]
      simp only [itemValues, List.append_assoc, List.singleton_append]
termination_by fuel

theorem parseMembers_write (key : MemberName) (value : Layout)
    (members : List (MemberName × Layout)) (proper : ProperMembers ((key, value) :: members))
    (close : Bytes) (blank : Blank close) (fuel : Nat)
    (enough : (writeMembers ((key, value) :: members) true).length + 1 ≤ fuel) (obj : Fields)
    (rest : Bytes) :
    parseMembers fp fuel obj
        (writeMembers ((key, value) :: members) true ++ (close ++ closeBrace :: rest)) =
      .ok (.object (memberValues ((key, value) :: members) obj), rest) := by
  obtain ⟨gapBlank, spaceBlank, valueProper, restProper⟩ := proper
  rw [writeMembers_first] at enough ⊢
  simp only [List.length_append, List.length_cons] at enough
  simp only [List.append_assoc, List.cons_append]
  obtain ⟨fuel, rfl⟩ := Nat.exists_eq_add_of_le' (show 1 ≤ fuel by omega)
  have first := parseValue_write value valueProper fuel (by omega) key.space spaceBlank
    (writeMembers members false ++ (close ++ closeBrace :: rest))
    (stops_behind _ close closeBrace rest (writeMembers_next members) blank rfl)
  match members with
  | [] =>
      have closed : skipWs (writeMembers [] false ++ (close ++ closeBrace :: rest)) =
          closeBrace :: rest := skipWs_gap close blank closeBrace rest (by decide)
      rw [parseMembers_last fp fuel _ _ rest value.value first obj key.gap key.name gapBlank closed]
      rfl
  | (nextKey, next) :: members =>
      rw [writeMembers_later, List.length_cons] at enough
      rw [writeMembers_later, List.cons_append] at first ⊢
      rw [parseMembers_next fp fuel _ _ _ value.value first obj key.gap key.name gapBlank
          (skipWs_cons comma _ (by decide)),
        parseMembers_write nextKey next members restProper close blank fuel (by omega) _ rest]
      rfl
termination_by fuel

end

/-- Loading a layout's text gives its value. -/
theorem jsonLoadString_write (layout : Layout) (proper : layout.Proper) (gap trailing : Bytes)
    (blank : Blank gap) (trailingBlank : Blank trailing) :
    jsonLoadString fp (gap ++ layout.write ++ trailing) = .ok layout.value := by
  have stops : Stops trailing := by
    cases trailing with
    | nil => rfl
    | cons c rest => exact isSpace_not_stop c (trailingBlank c List.mem_cons_self)
  have ended : skipWs trailing = [] := by
    have skipped := skipWs_append trailing [] trailingBlank
    rwa [List.append_nil] at skipped
  have size : layout.write.length ≤ 2 * (gap ++ layout.write ++ trailing).length + 1 := by
    simp only [List.length_append]
    omega
  have read := parseValue_write fp layout proper _ size gap blank trailing stops
  rw [← List.append_assoc] at read
  rw [jsonLoadString, read]
  simp only [bind, Except.bind, ended, ↓reduceIte]

end Layouts

end Nuperf.Serdetk
