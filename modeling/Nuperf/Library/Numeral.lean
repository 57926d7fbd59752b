import Nuperf.Library.ByteString

set_option autoImplicit false

/- Decimal and hexadecimal numerals as byte strings: what a formatter writes and
what a reader makes of it. -/
namespace Numeral

open ByteString

def isDigit (byte : UInt8) : Bool := 48 ≤ byte && byte ≤ 57

def digitByte (digit : Nat) : UInt8 := UInt8.ofNat (48 + digit)

def digitValue (byte : UInt8) : Nat := byte.toNat - 48

/-- The number a run of digits denotes, most significant digit first. -/
def value (digits : Bytes) : Nat :=
  digits.foldl (fun total byte => 10 * total + digitValue byte) 0

/-- The shortest decimal numeral, as `%u`, `%zu` and `std::to_string` write it. -/
def decimal (n : Nat) : Bytes :=
  if n = 0 then [48] else (Nat.digits 10 n).reverse.map digitByte

/-- The decimal numeral of a signed number. -/
def signedDecimal (n : Int) : Bytes :=
  if n < 0 then 45 :: decimal n.natAbs else decimal n.natAbs

theorem isDigit_iff (byte : UInt8) : isDigit byte = true ↔ 48 ≤ byte.toNat ∧ byte.toNat ≤ 57 := by
  simp only [isDigit, Bool.and_eq_true, decide_eq_true_eq, UInt8.le_iff_toNat_le]
  rfl

theorem digitByte_toNat (digit : Nat) (small : digit < 10) :
    (digitByte digit).toNat = 48 + digit := by
  simp only [digitByte, UInt8.toNat_ofNat']
  omega

theorem isDigit_digitByte (digit : Nat) (small : digit < 10) :
    isDigit (digitByte digit) = true := by
  rw [isDigit_iff, digitByte_toNat digit small]
  omega

theorem digitValue_digitByte (digit : Nat) (small : digit < 10) :
    digitValue (digitByte digit) = digit := by
  simp only [digitValue, digitByte_toNat digit small, Nat.add_sub_cancel_left]

theorem isDigit_ne_zero (byte : UInt8) (digit : isDigit byte = true) : byte ≠ 0 := by
  rintro rfl
  cases digit

theorem value_snoc (digits : Bytes) (byte : UInt8) :
    value (digits ++ [byte]) = 10 * value digits + digitValue byte := by
  simp only [value, List.foldl_append, List.foldl_cons, List.foldl_nil]

theorem value_reverse_map (digits : List Nat) (small : ∀ digit ∈ digits, digit < 10) :
    value (digits.reverse.map digitByte) = Nat.ofDigits 10 digits := by
  induction digits with
  | nil => rfl
  | cons digit rest ih =>
      rw [List.reverse_cons, List.map_append, List.map_singleton, value_snoc,
        ih (fun next member => small next (List.mem_cons_of_mem _ member)),
        digitValue_digitByte digit (small digit List.mem_cons_self), Nat.ofDigits_cons]
      omega

theorem digits_small (n : Nat) : ∀ digit ∈ Nat.digits 10 n, digit < 10 :=
  fun _ member => Nat.digits_lt_base (by decide) member

@[simp] theorem value_decimal (n : Nat) : value (decimal n) = n := by
  unfold decimal
  split
  · rename_i zero
    rw [zero]
    rfl
  · rw [value_reverse_map _ (digits_small n), Nat.ofDigits_digits]

theorem decimal_injective {m n : Nat} (same : decimal m = decimal n) : m = n := by
  rw [← value_decimal m, same, value_decimal]

theorem decimal_digits (n : Nat) : ∀ byte ∈ decimal n, isDigit byte = true := by
  unfold decimal
  split
  · intro byte member
    rw [List.mem_singleton.mp member]
    rfl
  · intro byte member
    obtain ⟨digit, inside, rfl⟩ := List.mem_map.mp member
    exact isDigit_digitByte digit (digits_small n digit (List.mem_reverse.mp inside))

theorem decimal_ne_nil (n : Nat) : decimal n ≠ [] := by
  unfold decimal
  split
  · exact List.cons_ne_nil _ _
  · rename_i positive
    simp [Nat.digits_eq_nil_iff_eq_zero, positive]

theorem decimal_nulFree (n : Nat) : NulFree (decimal n) := by
  intro member
  exact isDigit_ne_zero 0 (decimal_digits n 0 member) rfl

theorem decimal_length_le (n width : Nat) (positive : 0 < width) (bound : n < 10 ^ width) :
    (decimal n).length ≤ width := by
  unfold decimal
  split
  · exact positive
  · rw [List.length_map, List.length_reverse]
    exact (Nat.digits_length_le_iff (by decide) n).mpr bound

def isHexDigit (byte : UInt8) : Bool := isDigit byte || (97 ≤ byte && byte ≤ 102)

def hexByte (digit : Nat) : UInt8 :=
  if digit < 10 then UInt8.ofNat (48 + digit) else UInt8.ofNat (87 + digit)

def hexDigitValue (byte : UInt8) : Nat :=
  if isDigit byte then byte.toNat - 48 else byte.toNat - 87

/-- The number a run of lower-case hexadecimal digits denotes. -/
def hexValue (digits : Bytes) : Nat :=
  digits.foldl (fun total byte => 16 * total + hexDigitValue byte) 0

/-- The zero-padded lower-case numeral `%0<width>x` writes for a number below `16 ^ width`. -/
def fixedHex : Nat → Nat → Bytes
  | 0, _ => []
  | width + 1, n => fixedHex width (n / 16) ++ [hexByte (n % 16)]

theorem hexByte_spec : ∀ digit < 16, isHexDigit (hexByte digit) = true ∧
    hexDigitValue (hexByte digit) = digit := by
  decide

@[simp] theorem fixedHex_length (width n : Nat) : (fixedHex width n).length = width := by
  induction width generalizing n with
  | zero => rfl
  | succ width ih => simp only [fixedHex, List.length_append, ih, List.length_singleton]

theorem fixedHex_digits (width n : Nat) : ∀ byte ∈ fixedHex width n, isHexDigit byte = true := by
  induction width generalizing n with
  | zero =>
      intro byte member
      cases member
  | succ width ih =>
      intro byte member
      rcases List.mem_append.mp member with inside | last
      · exact ih (n / 16) byte inside
      · rw [List.mem_singleton.mp last]
        exact (hexByte_spec (n % 16) (Nat.mod_lt _ (by decide))).1

theorem hexValue_fixedHex (width n : Nat) : hexValue (fixedHex width n) = n % 16 ^ width := by
  induction width generalizing n with
  | zero => simp [fixedHex, hexValue, Nat.mod_one]
  | succ width ih =>
      have last := (hexByte_spec (n % 16) (Nat.mod_lt _ (by decide))).2
      have front := ih (n / 16)
      unfold hexValue at front
      simp only [fixedHex, hexValue, List.foldl_append, List.foldl_cons, List.foldl_nil, front,
        last]
      rw [Nat.pow_succ, Nat.mul_comm (16 ^ width) 16, Nat.mod_mul]
      omega

end Numeral
