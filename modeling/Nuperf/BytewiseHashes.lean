import Nuperf.Hash
import Nuperf.Stdmeth
import Nuperf.Library.WordMixing

set_option autoImplicit false

namespace Nuperf.Util

open ByteString WordMixing

section Rounds

theorem fnvRound_mixes : Mixes fnvRound := by
  have prime := mulLong_injective fnvPrime64 0xce965057aff6957b (by decide)
  constructor
  · intro byte left right same
    exact (UInt64.xor_left_inj byte.toUInt64).mp (prime same)
  · intro h left right same
    have widened := (UInt64.xor_right_inj h).mp (prime same)
    exact UInt8.toUInt64_inj.mp widened

theorem hash32Round_mixes : Mixes hash32Round := by
  have factor := mulWord_injective 0x5bd1e995 0xe59b19bd (by decide)
  have shift : Function.Injective fun h : UInt32 => h ^^^ h >>> 15 :=
    injective_of_bits _ _ (fun _ => rfl) (xorShift_injective 15 (by decide))
  constructor
  · intro byte left right same
    exact xorWord_injective byte.toUInt32 (factor (shift same))
  · intro h left right same
    have widened := (UInt32.xor_right_inj h).mp (factor (shift same))
    exact UInt8.toUInt32_inj.mp widened

end Rounds

section Overloads

variable (signed : Bool)

theorem charValue_emod (byte : UInt8) : charValue signed byte % 2 ^ 8 = byte.toNat := by
  have below : (byte.toNat : Int) < 2 ^ 8 := by
    have bound := byte.toNat_lt
    omega
  cases signed with
  | false => exact Int.emod_eq_of_lt (Int.natCast_nonneg byte.toNat) below
  | true =>
      have value : byte.toInt8.toInt = Int.bmod byte.toNat (2 ^ 8) :=
        byte.toBitVec.toInt_eq_toNat_bmod
      have wraps := Int.bmod_emod (x := byte.toNat) (m := 2 ^ 8)
      simp only [charValue, ↓reduceIte, value]
      omega

/-- The cast back from `char` undoes the sign. -/
theorem charValue_cast (byte : UInt8) : UInt8.ofInt (charValue signed byte) = byte := by
  rw [UInt8.ofInt, charValue_emod, Int.toNat_natCast, UInt8.ofNat_toNat]

theorem charValue_eq_zero (byte : UInt8) : charValue signed byte = 0 ↔ byte = 0 := by
  constructor
  · intro zero
    rw [← charValue_cast signed byte, zero]
    rfl
  · rintro rfl
    cases signed <;> rfl

variable {State : Type} (round : State → UInt8 → State)

theorem terminatedLoop_eq (text beyond : Bytes) (free : NulFree text) (h : State) :
    terminatedLoop signed round h (text ++ 0 :: beyond) = some (text.foldl round h) := by
  induction text generalizing h with
  | nil => exact if_pos ((charValue_eq_zero signed 0).mpr rfl)
  | cons byte rest ih =>
      have nonzero : byte ≠ 0 := fun zero => free (by simp [zero])
      have more : NulFree rest := fun member => free (List.mem_cons_of_mem _ member)
      have runs : charValue signed byte ≠ 0 :=
        fun zero => nonzero ((charValue_eq_zero signed byte).mp zero)
      rw [List.cons_append, terminatedLoop, if_neg runs, charValue_cast, ih more,
        List.foldl_cons]

end Overloads

/-- One changed byte changes both hashes, and a terminated string is hashed as its bytes are. -/
theorem bytewise_hashes_apart_and_agree :
    (∀ left right : Bytes, left.length = right.length → (∃! i : Nat, left[i]? ≠ right[i]?) →
      fnv1a64 left ≠ fnv1a64 right ∧ ∀ seed, hash32 left seed ≠ hash32 right seed) ∧
    (∀ signed (text beyond : Bytes), NulFree text →
      fnv1a64Terminated signed (some (text ++ 0 :: beyond)) = some (fnv1a64 text)) ∧
    ∀ signed, fnv1a64Terminated signed none = some (fnv1a64 []) := by
  refine ⟨?_, ?_, fun _ => rfl⟩
  · intro left right same single
    constructor
    · exact fnvRound_mixes.foldl_ne_of_unique same single fnvOffsetBasis64
    · exact hash32Round_mixes.foldl_ne_of_unique same single
  · intro signed text beyond free
    exact terminatedLoop_eq signed fnvRound text beyond free fnvOffsetBasis64

theorem bytewise_hashes_key_kez :
    (fnv1a64 (ascii "key") ≠ fnv1a64 (ascii "kez") ∧
      ∀ seed, hash32 (ascii "key") seed ≠ hash32 (ascii "kez") seed) ∧
    fnv1a64Terminated true (some (ascii "key" ++ 0 :: ascii "s")) = some (fnv1a64 (ascii "key")) ∧
    fnv1a64Terminated true none = some (fnv1a64 []) := by
  obtain ⟨apart, agree, null⟩ := bytewise_hashes_apart_and_agree
  refine ⟨apart _ _ (by decide) ?_, agree true _ _ (by decide), null true⟩
  refine ⟨2, by decide, ?_⟩
  intro i differ
  rcases i with _ | _ | _ | i
  · exact absurd rfl differ
  · exact absurd rfl differ
  · rfl
  · exact absurd rfl differ

end Nuperf.Util
