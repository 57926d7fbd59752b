import Nuperf.Library.Numeral

set_option autoImplicit false

/- The conversions of the C and C++ standard libraries, on a platform with
64-bit `long` and in the "C" locale. -/
namespace CStandard

open ByteString Numeral

/-- A thrown object: derived from `std::exception`, with its `what()`, or anything else. -/
inductive CxxException
  | standard (what : Bytes)
  | foreign
  deriving DecidableEq, Repr

/-- `isspace`. -/
def isSpace (byte : UInt8) : Bool := byte == 32 || (9 ≤ byte && byte ≤ 13)

/-- An optional sign: whether it is `-`, and what follows it. -/
def splitSign : Bytes → Bool × Bytes
  | [] => (false, [])
  | byte :: rest =>
      if byte = 45 then (true, rest)
      else if byte = 43 then (false, rest)
      else (false, byte :: rest)

def signed (negative : Bool) (magnitude : Nat) : Int :=
  if negative then -(magnitude : Int) else magnitude

/-- The numeral that `strtol` and `strtoul` convert in base 10: after blanks and a
sign, the longest run of digits. There is none when that run is empty. -/
def subjectNumeral (text : Bytes) : Option (Bool × Bytes) :=
  let (negative, rest) := splitSign (text.dropWhile isSpace)
  let digits := rest.takeWhile isDigit
  if digits = [] then none else some (negative, digits)

/-- The unbounded integer the leading numeral of a string denotes. -/
def leadingInteger (text : Bytes) : Option Int :=
  (subjectNumeral text).map fun (negative, digits) => signed negative (value digits)

/-- The integer a whole string denotes: an optional sign, then digits and nothing else. -/
def wholeInteger (text : Bytes) : Option Int :=
  let (negative, digits) := splitSign text
  if digits ≠ [] ∧ digits.all isDigit then some (signed negative (value digits)) else none

def longMax : Int := 2 ^ 63 - 1
def longMin : Int := -2 ^ 63
def ulongMax : Nat := 2 ^ 64 - 1

def clampLong (n : Int) : Int := max longMin (min longMax n)

/-- `strtol(text, &end, 10)`: the converted value, saturated on overflow, or none
when `end == text`. -/
def strtol (text : Bytes) : Option Int := (leadingInteger text).map clampLong

/-- `std::stoul(text)`: the magnitude must fit `unsigned long`, and a `-` negates
modulo `2 ^ 64`. -/
def stoul (text : Bytes) : Except CxxException Nat :=
  match subjectNumeral text with
  | none => .error (.standard (ascii "stoul"))
  | some (negative, digits) =>
      if ulongMax < value digits then .error (.standard (ascii "stoul"))
      else .ok (if negative then (2 ^ 64 - value digits) % 2 ^ 64 else value digits)

/-- `std::stoll(text, &idx)`: the value, and the number of bytes it is read from. -/
def stoll (text : Bytes) : Except CxxException (Int × Nat) :=
  match subjectNumeral text with
  | none => .error (.standard (ascii "stoll"))
  | some (negative, digits) =>
      let n := signed negative (value digits)
      let rest := (splitSign (text.dropWhile isSpace)).2.dropWhile isDigit
      if longMin ≤ n ∧ n ≤ longMax then .ok (n, text.length - rest.length)
      else .error (.standard (ascii "stoll"))

/-- The C string `snprintf(buf, capacity, ...)` leaves in `buf` when the format
expands to `text`. -/
def snprintf (capacity : Nat) (text : Bytes) : Bytes := cstr (text.take (capacity - 1))

theorem snprintf_fits (capacity : Nat) (text : Bytes) (fits : text.length < capacity)
    (free : NulFree text) : snprintf capacity text = text := by
  rw [snprintf, List.take_of_length_le (by omega), free.cstr]

theorem isDigit_not_isSpace (byte : UInt8) (digit : isDigit byte = true) :
    isSpace byte = false := by
  rw [isDigit_iff] at digit
  simp only [isSpace, Bool.or_eq_false_iff, beq_eq_false_iff_ne, Bool.and_eq_false_iff,
    decide_eq_false_iff_not, UInt8.le_iff_toNat_le]
  constructor
  · rintro rfl
    simp at digit
  · right
    change ¬ byte.toNat ≤ 13
    omega

theorem isDigit_not_sign (byte : UInt8) (digit : isDigit byte = true) : byte ≠ 45 ∧ byte ≠ 43 := by
  constructor <;> rintro rfl <;> cases digit

theorem splitSign_digit (byte : UInt8) (rest : Bytes) (digit : isDigit byte = true) :
    splitSign (byte :: rest) = (false, byte :: rest) := by
  obtain ⟨minus, plus⟩ := isDigit_not_sign byte digit
  simp only [splitSign, minus, plus, ↓reduceIte]

/-- A string that is nothing but a numeral has no leading blank to skip. -/
theorem dropWhile_isSpace_of_whole (text : Bytes) (digits : Bytes) (negative : Bool)
    (split : splitSign text = (negative, digits)) (nonempty : digits ≠ [])
    (all : digits.all isDigit = true) : text.dropWhile isSpace = text := by
  cases text with
  | nil => rfl
  | cons byte rest =>
      rw [List.dropWhile_cons_of_neg]
      simp only [splitSign] at split
      split at split
      · rename_i minus
        rw [minus]
        decide
      · split at split
        · rename_i plus
          rw [plus]
          decide
        · obtain ⟨-, rfl⟩ := Prod.mk.inj split
          have digit : isDigit byte = true := List.all_eq_true.mp all byte List.mem_cons_self
          rw [isDigit_not_isSpace byte digit]
          exact Bool.false_ne_true

/-- Where the whole string is a numeral, the C conversions read all of it. -/
theorem leadingInteger_of_whole (text : Bytes) (n : Int) (whole : wholeInteger text = some n) :
    leadingInteger text = some n := by
  unfold wholeInteger at whole
  cases split : splitSign text with
  | mk negative digits =>
      simp only [split] at whole
      split at whole
      · rename_i accepted
        have all : ∀ byte ∈ digits, isDigit byte = true := by
          simpa only [List.all_eq_true] using accepted.2
        have run : digits.takeWhile isDigit = digits := List.takeWhile_eq_self_iff.mpr all
        simp only [leadingInteger, subjectNumeral,
          dropWhile_isSpace_of_whole text digits negative split accepted.1 accepted.2, split, run,
          accepted.1, ↓reduceIte, Option.map_some]
        exact whole
      · cases whole

theorem wholeInteger_decimal (n : Nat) : wholeInteger (decimal n) = some (n : Int) := by
  have digits := decimal_digits n
  have nonempty := decimal_ne_nil n
  cases shape : decimal n with
  | nil => exact absurd shape nonempty
  | cons byte rest =>
      have all : (byte :: rest).all isDigit = true := by
        rw [List.all_eq_true, ← shape]
        exact digits
      have number : value (byte :: rest) = n := by rw [← shape, value_decimal]
      simp only [wholeInteger, splitSign_digit byte rest (digits byte (by simp [shape])), all,
        number, signed, ne_eq, List.cons_ne_nil, not_false_eq_true, and_self, ↓reduceIte,
        Bool.false_eq_true]

theorem clampLong_of_bounds (n : Int) (lower : longMin ≤ n) (upper : n ≤ longMax) :
    clampLong n = n := by
  simp only [clampLong, min_eq_right upper, max_eq_right lower]

theorem clampLong_pos (n : Int) : 0 < clampLong n ↔ 0 < n := by
  unfold clampLong longMin longMax
  omega

/-- `strtol` reads a whole numeral that fits `long` without change. -/
theorem strtol_of_whole (text : Bytes) (n : Int) (whole : wholeInteger text = some n)
    (lower : longMin ≤ n) (upper : n ≤ longMax) : strtol text = some n := by
  rw [strtol, leadingInteger_of_whole text n whole, Option.map_some,
    clampLong_of_bounds n lower upper]

/-- `stoul` returns exactly when there is a numeral whose magnitude fits. -/
theorem stoul_ok_iff (text : Bytes) :
    (∃ n, stoul text = .ok n) ↔ ∃ n, leadingInteger text = some n ∧ n.natAbs ≤ ulongMax := by
  unfold stoul leadingInteger
  cases subjectNumeral text with
  | none => simp
  | some found =>
      obtain ⟨negative, digits⟩ := found
      have magnitude : (signed negative (value digits)).natAbs = value digits := by
        cases negative <;> simp [signed]
      simp only [Option.map_some, Option.some.injEq, exists_eq_left', magnitude]
      split
      · rename_i large
        simp only [reduceCtorEq, exists_false, false_iff]
        omega
      · rename_i fits
        simp only [Except.ok.injEq, exists_eq', true_iff]
        omega

/-- A numeral without a `-` that fits is returned as it is. -/
theorem stoul_nonneg (text : Bytes) (n : Nat) (leading : leadingInteger text = some (n : Int))
    (fits : n ≤ ulongMax) : stoul text = .ok n := by
  unfold leadingInteger at leading
  unfold stoul
  cases found : subjectNumeral text with
  | none => simp [found] at leading
  | some numeral =>
      obtain ⟨negative, digits⟩ := numeral
      simp only [found, Option.map_some, Option.some.injEq, signed] at leading
      cases negative with
      | false =>
          simp only [Bool.false_eq_true, ↓reduceIte, Int.natCast_inj] at leading ⊢
          simp only [leading, show ¬ ulongMax < n by omega, ↓reduceIte]
      | true =>
          simp only [↓reduceIte] at leading ⊢
          have zero : value digits = 0 ∧ n = 0 := by omega
          simp [zero.1, zero.2, ulongMax]

end CStandard
