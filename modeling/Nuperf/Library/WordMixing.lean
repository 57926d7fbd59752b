import Mathlib

set_option autoImplicit false

/- The steps that hash functions mix words with, none of which loses a bit. -/
namespace WordMixing

section Steps

variable {w : Nat}

theorem mul_injective (factor inverse : BitVec w) (unit : factor * inverse = 1) :
    Function.Injective (· * factor) :=
  (IsUnit.of_mul_eq_one inverse unit).mul_left_injective

theorem rotate_injective (r : Nat) (inside : r ≤ w) :
    Function.Injective fun word : BitVec w => word <<< r ||| word >>> (w - r) := by
  intro left right same
  apply BitVec.eq_of_getLsbD_eq
  intro i below
  -- Bit `i` has moved up by `r`, or past the top to the bottom.
  by_cases high : i + r < w
  · have bit := congrArg (·.getLsbD (i + r)) same
    simp only [BitVec.getLsbD_or, BitVec.getLsbD_shiftLeft, BitVec.getLsbD_ushiftRight,
      Nat.add_sub_cancel] at bit
    have out (word : BitVec w) : word.getLsbD (w - r + (i + r)) = false :=
      BitVec.getLsbD_of_ge _ _ (by omega)
    simpa [high, out] using bit
  · have bit := congrArg (·.getLsbD (i + r - w)) same
    simp only [BitVec.getLsbD_or, BitVec.getLsbD_shiftLeft, BitVec.getLsbD_ushiftRight] at bit
    have back : w - r + (i + r - w) = i := by omega
    have low : i + r - w < r := by omega
    simpa [low, back] using bit

/-- A word that equals its own shift has no bits. -/
theorem eq_zero_of_shift (word : BitVec w) (k : Nat) (positive : 0 < k)
    (fixed : word = word >>> k) : word = 0 := by
  apply BitVec.eq_of_toNat_eq
  have value := congrArg BitVec.toNat fixed
  rw [BitVec.toNat_ushiftRight, Nat.shiftRight_eq_div_pow] at value
  have two : 1 < 2 ^ k := Nat.one_lt_two_pow (by omega)
  by_contra nonzero
  have smaller : word.toNat / 2 ^ k < word.toNat :=
    Nat.div_lt_self (Nat.pos_of_ne_zero nonzero) two
  omega

theorem xorShift_injective (k : Nat) (positive : 0 < k) :
    Function.Injective fun word : BitVec w => word ^^^ word >>> k := by
  intro left right same
  change left ^^^ left >>> k = right ^^^ right >>> k at same
  have fixed : left ^^^ right = (left ^^^ right) >>> k := by
    rw [BitVec.ushiftRight_xor_distrib]
    apply (BitVec.xor_left_inj (left >>> k ^^^ right)).mp
    calc left ^^^ right ^^^ (left >>> k ^^^ right)
        = left ^^^ left >>> k ^^^ (right ^^^ right) := by ac_rfl
      _ = right ^^^ right >>> k ^^^ (left >>> k ^^^ left >>> k) := by
        rw [same, BitVec.xor_self, BitVec.xor_self]
      _ = left >>> k ^^^ right >>> k ^^^ (left >>> k ^^^ right) := by ac_rfl
  exact BitVec.xor_eq_zero_iff.mp (eq_zero_of_shift _ k positive fixed)

/-- A word shifted up does not meet the bits below. -/
theorem shifted_xor (high low k : Nat) (below : low < 2 ^ k) :
    (high <<< k) ^^^ low = 2 ^ k * high + low := by
  apply Nat.eq_of_testBit_eq
  intro i
  rw [Nat.testBit_xor, Nat.testBit_two_pow_mul_add _ below, Nat.testBit_shiftLeft]
  by_cases under : i < k
  · have none_ : ¬ k ≤ i := by omega
    simp [under, none_]
  · have clear : low.testBit i = false :=
      Nat.testBit_lt_two_pow (Nat.lt_of_lt_of_le below
        (Nat.pow_le_pow_right (by decide) (by omega)))
    simp [under, clear, Nat.le_of_not_lt under]

/-- Steps of machine words are judged by their bits. -/
theorem injective_of_view {Word : Type} (view : Word → BitVec w)
    (faithful : Function.Injective view) (step : Word → Word) (bits : BitVec w → BitVec w)
    (same : ∀ word, view (step word) = bits (view word)) (injective : Function.Injective bits) :
    Function.Injective step := by
  intro left right equal
  apply faithful
  apply injective
  rw [← same, ← same, equal]

theorem injective_of_bits (step : UInt32 → UInt32) (bits : BitVec 32 → BitVec 32)
    (same : ∀ word, (step word).toBitVec = bits word.toBitVec)
    (injective : Function.Injective bits) : Function.Injective step :=
  injective_of_view UInt32.toBitVec (fun _ _ => UInt32.toBitVec_inj.mp) step bits same injective

theorem mulWord_injective (factor inverse : UInt32) (unit : factor * inverse = 1) :
    Function.Injective (· * factor) :=
  injective_of_bits _ _ (fun _ => rfl)
    (mul_injective factor.toBitVec inverse.toBitVec (congrArg UInt32.toBitVec unit))

theorem mulLong_injective (factor inverse : UInt64) (unit : factor * inverse = 1) :
    Function.Injective (· * factor) :=
  injective_of_view UInt64.toBitVec (fun _ _ => UInt64.toBitVec_inj.mp) _ _ (fun _ => rfl)
    (mul_injective factor.toBitVec inverse.toBitVec (congrArg UInt64.toBitVec unit))

theorem xorWord_injective (mask : UInt32) : Function.Injective (· ^^^ mask) :=
  fun _ _ same => (UInt32.xor_left_inj mask).mp same

theorem addWord_injective (offset : UInt32) : Function.Injective (· + offset) :=
  fun _ _ same => (UInt32.add_left_inj offset).mp same

end Steps

section Rounds

variable {State Block : Type} (round : State → Block → State)

/-- A round keeps states apart, and blocks apart. -/
structure Mixes : Prop where
  state : ∀ block, Function.Injective fun state => round state block
  block : ∀ state, Function.Injective (round state)

variable {round} (mixes : Mixes round)

include mixes

theorem Mixes.foldl_injective (blocks : List Block) :
    Function.Injective fun state => blocks.foldl round state := by
  induction blocks with
  | nil => exact Function.injective_id
  | cons block rest ih => exact ih.comp (mixes.state block)

/-- One block that differs is not made up for by the blocks after it, if these are the same. -/
theorem Mixes.foldl_apart (before after : List Block) (left right : Block) (apart : left ≠ right)
    (state : State) :
    (before ++ left :: after).foldl round state ≠ (before ++ right :: after).foldl round state := by
  rw [List.foldl_append, List.foldl_append, List.foldl_cons, List.foldl_cons]
  intro same
  exact apart (mixes.block _ (mixes.foldl_injective after same))

end Rounds

section Positions

variable {α : Type} {left right : List α}

/-- Lists of one length that differ in one position only. -/
theorem split_of_unique (same : left.length = right.length)
    (single : ∃! i : Nat, left[i]? ≠ right[i]?) :
    ∃ before x y after, left = before ++ x :: after ∧ right = before ++ y :: after ∧ x ≠ y := by
  obtain ⟨i, differ, only⟩ := single
  have agree (j : Nat) (other : j ≠ i) : left[j]? = right[j]? := by
    by_contra unequal
    exact other (only j unequal)
  have inside : i < left.length := by
    by_contra outside
    apply differ
    rw [List.getElem?_eq_none (by omega), List.getElem?_eq_none (by omega)]
  have inside' : i < right.length := by omega
  have before : left.take i = right.take i := by
    apply List.ext_getElem?
    intro j
    by_cases early : j < i
    · rw [List.getElem?_take_of_lt early, List.getElem?_take_of_lt early, agree j (by omega)]
    · rw [List.getElem?_eq_none (by rw [List.length_take]; omega),
        List.getElem?_eq_none (by rw [List.length_take]; omega)]
  have after : left.drop (i + 1) = right.drop (i + 1) := by
    apply List.ext_getElem?
    intro j
    rw [List.getElem?_drop, List.getElem?_drop, agree _ (by omega)]
  refine ⟨left.take i, left[i], right[i], left.drop (i + 1), ?_, ?_, ?_⟩
  · rw [← List.drop_eq_getElem_cons inside, List.take_append_drop]
  · rw [before, after, ← List.drop_eq_getElem_cons inside', List.take_append_drop]
  · intro equal
    apply differ
    rw [List.getElem?_eq_getElem inside, List.getElem?_eq_getElem inside', equal]

/-- A change of one position changes what the rounds make of a list. -/
theorem Mixes.foldl_ne_of_unique {State : Type} {round : State → α → State} (mixes : Mixes round)
    (same : left.length = right.length) (single : ∃! i : Nat, left[i]? ≠ right[i]?)
    (state : State) : left.foldl round state ≠ right.foldl round state := by
  obtain ⟨before, x, y, after, rfl, rfl, apart⟩ := split_of_unique same single
  exact mixes.foldl_apart before after x y apart state

end Positions

end WordMixing
