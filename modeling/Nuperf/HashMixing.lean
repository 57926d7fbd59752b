import Nuperf.Hash
import Nuperf.Library.WordMixing

set_option autoImplicit false

namespace Nuperf.Util

open ByteString HostWords WordMixing

section Steps

theorem rotl32_injective_15 : Function.Injective (rotl32 · 15) :=
  injective_of_bits _ _ (fun _ => rfl) (rotate_injective 15 (by decide))

theorem rotl32_injective_13 : Function.Injective (rotl32 · 13) :=
  injective_of_bits _ _ (fun _ => rfl) (rotate_injective 13 (by decide))

theorem fmix32_injective : Function.Injective fmix32 := by
  have half : Function.Injective fun h : UInt32 => h ^^^ h >>> 16 :=
    injective_of_bits _ _ (fun _ => rfl) (xorShift_injective 16 (by decide))
  have middle : Function.Injective fun h : UInt32 => h ^^^ h >>> 13 :=
    injective_of_bits _ _ (fun _ => rfl) (xorShift_injective 13 (by decide))
  have first := mulWord_injective fmix32C1 0xa5cb9243 (by decide)
  have second := mulWord_injective fmix32C2 0x7ed1b41d (by decide)
  exact half.comp (second.comp (middle.comp (first.comp half)))

theorem scramble_injective : Function.Injective scramble := by
  have first := mulWord_injective murmurC1 0xdee13bb1 (by decide)
  have second := mulWord_injective murmurC2 0x56ed309b (by decide)
  exact second.comp (rotl32_injective_15.comp first)

theorem blockRound_mixes : Mixes blockRound := by
  have affine : Function.Injective fun h : UInt32 => rotl32 h 13 * 5 + 0xe6546b64 := by
    have five := mulWord_injective 5 0xcccccccd (by decide)
    exact (addWord_injective 0xe6546b64).comp (five.comp rotl32_injective_13)
  constructor
  · intro k1
    exact affine.comp (xorWord_injective (scramble k1))
  · intro h1 left right same
    apply scramble_injective
    exact (UInt32.xor_right_inj h1).mp (affine same)

end Steps

section Tail

theorem byte_shift (byte : UInt8) (k : Nat) (room : k ≤ 24) :
    (byte.toUInt32 <<< UInt32.ofNat k).toNat = byte.toNat <<< k := by
  have below : byte.toNat <<< k < 2 ^ 32 := by
    rw [Nat.shiftLeft_eq]
    calc byte.toNat * 2 ^ k < 2 ^ 8 * 2 ^ k :=
          Nat.mul_lt_mul_of_pos_right byte.toNat_lt (Nat.two_pow_pos k)
      _ ≤ 2 ^ 8 * 2 ^ 24 := Nat.mul_le_mul_left _ (Nat.pow_le_pow_right (by decide) room)
  have amount : (UInt32.ofNat k).toNat % 32 = k := by
    rw [UInt32.toNat_ofNat']
    omega
  rw [UInt32.toNat_shiftLeft, amount, UInt8.toNat_toUInt32, Nat.mod_eq_of_lt below]

/-- The tail is read little-endian. -/
theorem tailKey_toNat (tail : Bytes) (short : tail.length < 4) :
    (tailKey tail).toNat = Nat.ofDigits 256 (tail.map UInt8.toNat) := by
  have zero : (0 : UInt32).toNat = 0 := rfl
  rcases tail with _ | ⟨a, _ | ⟨b, _ | ⟨c, _ | ⟨d, rest⟩⟩⟩⟩
  · rfl
  · simp only [tailKey, UInt32.toNat_xor, UInt8.toNat_toUInt32, zero, Nat.zero_xor, List.map_cons,
      List.map_nil, Nat.ofDigits_singleton]
  · have low := a.toNat_lt
    have second : (b.toUInt32 <<< 8).toNat = b.toNat <<< 8 := byte_shift b 8 (by decide)
    simp only [tailKey, UInt32.toNat_xor, UInt8.toNat_toUInt32, zero, Nat.zero_xor, second,
      List.map_cons, List.map_nil, Nat.ofDigits_cons, Nat.ofDigits_nil]
    rw [shifted_xor _ _ 8 low]
    omega
  · have low := a.toNat_lt
    have middle := b.toNat_lt
    have second : (b.toUInt32 <<< 8).toNat = b.toNat <<< 8 := byte_shift b 8 (by decide)
    have third : (c.toUInt32 <<< 16).toNat = c.toNat <<< 16 := byte_shift c 16 (by decide)
    simp only [tailKey, UInt32.toNat_xor, UInt8.toNat_toUInt32, zero, Nat.zero_xor, second, third,
      Nat.xor_assoc, List.map_cons, List.map_nil, Nat.ofDigits_cons, Nat.ofDigits_nil]
    rw [shifted_xor _ _ 8 low, shifted_xor _ _ 16 (by omega)]
    omega
  · simp only [List.length_cons] at short
    omega

theorem tailKey_injective (left right : Bytes) (same : left.length = right.length)
    (short : left.length < 4) (keys : tailKey left = tailKey right) : left = right := by
  have values := congrArg UInt32.toNat keys
  rw [tailKey_toNat left short, tailKey_toNat right (same ▸ short)] at values
  have digits (tail : Bytes) : ∀ digit ∈ tail.map UInt8.toNat, digit < 256 := by
    intro digit member
    obtain ⟨byte, _, rfl⟩ := List.mem_map.mp member
    exact byte.toNat_lt
  have equal := Nat.ofDigits_inj_of_len_eq (by decide)
    (by rw [List.length_map, List.length_map, same]) (digits left) (digits right) values
  exact (List.map_injective_iff.mpr fun _ _ => UInt8.toNat_inj.mp) equal

theorem tailBytes_append (front back : Bytes) (aligned : 4 ∣ front.length) :
    tailBytes (front ++ back) = tailBytes back := by
  have shift : (front ++ back).length / 4 * 4 = front.length + back.length / 4 * 4 := by
    rw [List.length_append]
    omega
  rw [tailBytes, shift, ← List.drop_drop, List.drop_left, tailBytes]

theorem tailBytes_short (tail : Bytes) (short : tail.length < 4) : tailBytes tail = tail := by
  rw [tailBytes, Nat.div_eq_of_lt short]
  rfl

theorem absorbTail_injective (tail : Bytes) : Function.Injective (absorbTail tail) := by
  intro left right same
  unfold absorbTail at same
  split_ifs at same with nothing
  · exact same
  · exact (UInt32.xor_left_inj _).mp same

/-- Tails of one length are told apart. -/
theorem absorbTail_apart (left right : Bytes) (same : left.length = right.length)
    (short : left.length < 4) (apart : left ≠ right) (h1 : UInt32) :
    absorbTail left h1 ≠ absorbTail right h1 := by
  have some_left : left ≠ [] := by
    rintro rfl
    exact apart (List.eq_nil_of_length_eq_zero same.symm).symm
  have some_right : right ≠ [] := by
    rintro rfl
    exact apart (List.eq_nil_of_length_eq_zero same)
  unfold absorbTail
  rw [if_neg some_left, if_neg some_right]
  intro equal
  apply apart
  apply tailKey_injective left right same short
  exact scramble_injective ((UInt32.xor_right_inj h1).mp equal)

end Tail

section Whole

variable (host : ByteOrder)

/-- What follows the loop keeps states apart. -/
theorem finish_injective (tail : Bytes) (size : UInt32) :
    Function.Injective fun h1 => fmix32 (absorbTail tail h1 ^^^ size) := by
  intro left right same
  have mixed : absorbTail tail left ^^^ size = absorbTail tail right ^^^ size :=
    fmix32_injective same
  exact absorbTail_injective tail ((UInt32.xor_left_inj size).mp mixed)

/-- The seed is not lost on the way. -/
theorem murmur3_32_injective (data : Bytes) : Function.Injective (murmur3_32 host data) := by
  intro left right same
  exact blockRound_mixes.foldl_injective (words host data) (finish_injective _ _ same)

/-- One whole block that differs changes the hash. -/
theorem murmur3_32_block_apart (front left right back : Bytes) (aligned : 4 ∣ front.length)
    (wide : left.length = 4) (same : right.length = 4) (apart : left ≠ right) (seed : UInt32) :
    murmur3_32 host (front ++ left ++ back) seed ≠
      murmur3_32 host (front ++ right ++ back) seed := by
  have split (block : Bytes) (four : block.length = 4) :
      words host (front ++ block ++ back) =
        words host front ++ (words host block ++ words host back) := by
    rw [List.append_assoc, words_append host front _ aligned,
      words_append host block _ (Dvd.intro 1 four.symm)]
  have tail (block : Bytes) (four : block.length = 4) :
      tailBytes (front ++ block ++ back) = tailBytes back := by
    apply tailBytes_append
    rw [List.length_append]
    omega
  have size : (front ++ left ++ back).length = (front ++ right ++ back).length := by
    simp only [List.length_append]
    omega
  unfold murmur3_32 blockLoop
  rw [split left wide, split right same, tail left wide, tail right same, size]
  intro equal
  have loops := finish_injective (tailBytes back) _ equal
  obtain ⟨a, b, c, d, rfl⟩ := List.length_eq_four.mp wide
  obtain ⟨a', b', c', d', rfl⟩ := List.length_eq_four.mp same
  have keys : readWord host a b c d ≠ readWord host a' b' c' d' := by
    intro read
    obtain ⟨rfl, rfl, rfl, rfl⟩ := readWord_injective host read
    exact apart rfl
  exact blockRound_mixes.foldl_apart (words host front) (words host back) _ _ keys seed loops

/-- A tail that differs changes the hash. -/
theorem murmur3_32_tail_apart (front left right : Bytes) (aligned : 4 ∣ front.length)
    (short : left.length < 4) (same : left.length = right.length) (apart : left ≠ right)
    (seed : UInt32) :
    murmur3_32 host (front ++ left) seed ≠ murmur3_32 host (front ++ right) seed := by
  have split (tail : Bytes) (few : tail.length < 4) :
      words host (front ++ tail) = words host front := by
    rw [words_append host front tail aligned, words_short host tail few, List.append_nil]
  have rest (tail : Bytes) (few : tail.length < 4) : tailBytes (front ++ tail) = tail := by
    rw [tailBytes_append front tail aligned, tailBytes_short tail few]
  have size : (front ++ left).length = (front ++ right).length := by
    simp only [List.length_append]
    omega
  have few : right.length < 4 := by omega
  unfold murmur3_32 blockLoop
  rw [split left short, split right few, rest left short, rest right few, size]
  intro equal
  have mixed := (UInt32.xor_left_inj _).mp (fmix32_injective equal)
  exact absorbTail_apart left right same short apart _ mixed

/-- Outside one aligned block of four bytes, which may be cut short by the end. -/
def AlikeOutside (block : Nat) (left right : Bytes) : Prop :=
  ∀ i, i / 4 ≠ block → left[i]? = right[i]?

instance (block : Nat) (left right : Bytes) : Decidable (AlikeOutside block left right) :=
  decidable_of_iff
    (∀ i < max left.length right.length, i / 4 ≠ block → left[i]? = right[i]?) (by
      constructor
      · intro inside i outside
        rcases Nat.lt_or_ge i (max left.length right.length) with below | beyond
        · exact inside i below outside
        · rw [List.getElem?_eq_none (by omega), List.getElem?_eq_none (by omega)]
      · intro alike i _ outside
        exact alike i outside)

theorem AlikeOutside.take {block : Nat} {left right : Bytes}
    (alike : AlikeOutside block left right) :
    left.take (4 * block) = right.take (4 * block) := by
  apply List.ext_getElem?
  intro i
  rw [List.getElem?_take, List.getElem?_take]
  split_ifs with before
  · exact alike i (by omega)
  · rfl

theorem AlikeOutside.drop {block : Nat} {left right : Bytes}
    (alike : AlikeOutside block left right) :
    left.drop (4 * block + 4) = right.drop (4 * block + 4) := by
  apply List.ext_getElem?
  intro i
  rw [List.getElem?_drop, List.getElem?_drop]
  exact alike _ (by omega)

theorem cut_at (data : Bytes) (k n : Nat) :
    data = data.take k ++ (data.drop k).take n ++ data.drop (k + n) := by
  rw [List.append_assoc, ← List.drop_drop, List.take_append_drop, List.take_append_drop]

theorem murmur3_32_alike_apart (left right : Bytes) (same : left.length = right.length)
    (apart : left ≠ right) (block : Nat) (alike : AlikeOutside block left right) (seed : UInt32) :
    murmur3_32 host left seed ≠ murmur3_32 host right seed := by
  have cutLeft := cut_at left (4 * block) 4
  have cutRight := cut_at right (4 * block) 4
  rw [← alike.take, ← alike.drop] at cutRight
  have middles : (left.drop (4 * block)).take 4 ≠ (right.drop (4 * block)).take 4 := by
    intro equal
    rw [← equal, ← cutLeft] at cutRight
    exact apart cutRight.symm
  have reaches : 4 * block < left.length := by
    by_contra beyond
    apply middles
    rw [List.drop_eq_nil_of_le (by omega), List.drop_eq_nil_of_le (by omega)]
  have aligned : 4 ∣ (left.take (4 * block)).length := by
    rw [List.length_take, Nat.min_eq_left (Nat.le_of_lt reaches)]
    exact Dvd.intro block rfl
  have size (data : Bytes) :
      ((data.drop (4 * block)).take 4).length = min 4 (data.length - 4 * block) := by
    rw [List.length_take, List.length_drop]
  rw [cutLeft, cutRight]
  by_cases whole : 4 * block + 4 ≤ left.length
  · apply murmur3_32_block_apart host _ _ _ _ aligned _ _ middles
    · rw [size]; omega
    · rw [size]; omega
  · have behind : left.drop (4 * block + 4) = [] := List.drop_eq_nil_of_le (by omega)
    rw [behind, List.append_nil, List.append_nil]
    apply murmur3_32_tail_apart host _ _ _ aligned _ _ middles
    · rw [size]; omega
    · rw [size, size]; omega

theorem writeWord_apart {left right : UInt32} (apart : left ≠ right) :
    writeWord host left ≠ writeWord host right :=
  fun equal => apart (writeWord_injective host equal)

theorem hashU32_injective (seed : UInt32) : Function.Injective fun v => hashU32 host v seed := by
  intro left right same
  by_contra apart
  have different := murmur3_32_block_apart host [] _ _ [] (Dvd.intro 0 rfl)
    (writeWord_length host left) (writeWord_length host right) (writeWord_apart host apart) seed
  rw [List.nil_append, List.nil_append, List.append_nil, List.append_nil] at different
  exact different same

theorem first_word_apart {left right : UInt32} (apart : left ≠ right) (second seed : UInt32) :
    murmur3_32 host (writeWord host left ++ writeWord host second) seed ≠
      murmur3_32 host (writeWord host right ++ writeWord host second) seed :=
  murmur3_32_block_apart host [] _ _ (writeWord host second) (Dvd.intro 0 rfl)
    (writeWord_length host left) (writeWord_length host right) (writeWord_apart host apart) seed

theorem second_word_apart {left right : UInt32} (apart : left ≠ right) (first seed : UInt32) :
    murmur3_32 host (writeWord host first ++ writeWord host left) seed ≠
      murmur3_32 host (writeWord host first ++ writeWord host right) seed := by
  have aligned : 4 ∣ (writeWord host first).length := Dvd.intro 1 (writeWord_length host first).symm
  have different := murmur3_32_block_apart host (writeWord host first) _ _ [] aligned
    (writeWord_length host left) (writeWord_length host right) (writeWord_apart host apart) seed
  rwa [List.append_nil, List.append_nil] at different

/-- Keys that share a half are told apart by the other one. -/
theorem hashU64_apart (left right : UInt64) (apart : left ≠ right)
    (half : lowHalf left = lowHalf right ∨ highHalf left = highHalf right) (seed : UInt32) :
    hashU64 host left seed ≠ hashU64 host right seed := by
  unfold hashU64
  rcases half with low | high
  · have others : highHalf left ≠ highHalf right := fun high => apart (halves_injective low high)
    cases host with
    | little =>
        rw [writeLong, writeLong, low]
        exact second_word_apart .little others _ seed
    | big =>
        rw [writeLong, writeLong, low]
        exact first_word_apart .big others _ seed
  · have others : lowHalf left ≠ lowHalf right := fun low => apart (halves_injective low high)
    cases host with
    | little =>
        rw [writeLong, writeLong, high]
        exact first_word_apart .little others _ seed
    | big =>
        rw [writeLong, writeLong, high]
        exact second_word_apart .big others _ seed

end Whole

/-- Strings of one length that differ in a single aligned block, whole or cut short by the end,
have different hashes, and so have keys that fill one block or share all but one. -/
theorem murmur3_32_tells_blocks_apart (host : ByteOrder) (seed : UInt32) :
    (∀ left right : Bytes, left.length = right.length → left ≠ right →
      (∃ block, AlikeOutside block left right) →
      murmur3_32 host left seed ≠ murmur3_32 host right seed) ∧
    (Function.Injective fun v => hashU32 host v seed) ∧
    ∀ left right : UInt64, left ≠ right →
      lowHalf left = lowHalf right ∨ highHalf left = highHalf right →
      hashU64 host left seed ≠ hashU64 host right seed := by
  refine ⟨?_, hashU32_injective host seed, ?_⟩
  · intro left right same apart alike
    obtain ⟨block, alike⟩ := alike
    exact murmur3_32_alike_apart host left right same apart block alike seed
  · intro left right apart half
    exact hashU64_apart host left right apart half seed

theorem murmur3_32_tells_middle_apart :
    murmur3_32 .little (ascii "nuperf_table") 7 ≠ murmur3_32 .little (ascii "nuperfXtable") 7 ∧
      murmur3_32 .big (ascii "slots 12-15") 7 ≠ murmur3_32 .big (ascii "slots 12-16") 7 :=
  ⟨(murmur3_32_tells_blocks_apart .little 7).1 (ascii "nuperf_table") (ascii "nuperfXtable")
      (by decide) (by decide) ⟨1, by decide⟩,
    (murmur3_32_tells_blocks_apart .big 7).1 (ascii "slots 12-15") (ascii "slots 12-16")
      (by decide) (by decide) ⟨2, by decide⟩⟩

theorem murmur3_32_bijective (host : ByteOrder) (data : Bytes) :
    Function.Bijective (murmur3_32 host data) :=
  Finite.injective_iff_bijective.mp (murmur3_32_injective host data)

/-- Every seed gives another hash of the same key, and every hash is reached. -/
theorem hashes_permute_seeds (host : ByteOrder) :
    (∀ data, Function.Bijective (murmur3_32 host data)) ∧
    (∀ data, Function.Bijective (hashBytes host data)) ∧
    (∀ s, Function.Bijective (hashString host s)) ∧
    (∀ value, Function.Bijective (hashU32 host value)) ∧
    ∀ value, Function.Bijective (hashU64 host value) := by
  refine ⟨murmur3_32_bijective host, murmur3_32_bijective host, ?_, ?_, ?_⟩
  · intro s
    cases s with
    | none => exact murmur3_32_bijective host []
    | some text => exact murmur3_32_bijective host text.bytes
  · intro value
    exact murmur3_32_bijective host (writeWord host value)
  · intro value
    exact murmur3_32_bijective host (writeLong host value)

end Nuperf.Util
