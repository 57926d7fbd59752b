import Nuperf.HashMixing

set_option autoImplicit false

namespace Nuperf.Util

open ByteString HostWords WordMixing

section Published

def littleEndian (bytes : Bytes) : Nat := Nat.ofDigits 256 (bytes.map UInt8.toNat)

/-- The 4-byte blocks of MurmurHash3_x86_32, each read little-endian. -/
def publishedBlocks (data : Bytes) : List (BitVec 32) :=
  (List.range (data.length / 4)).map fun i =>
    BitVec.ofNat 32 (littleEndian ((data.drop (4 * i)).take 4))

def publishedScramble (k : BitVec 32) : BitVec 32 :=
  (k * 0xcc9e2d51#32).rotateLeft 15 * 0x1b873593#32

def publishedRound (h k : BitVec 32) : BitVec 32 :=
  (h ^^^ publishedScramble k).rotateLeft 13 * 5#32 + 0xe6546b64#32

def publishedFinal (h : BitVec 32) : BitVec 32 :=
  let h := (h ^^^ h >>> 16) * 0x85ebca6b#32
  let h := (h ^^^ h >>> 13) * 0xc2b2ae35#32
  h ^^^ h >>> 16

/-- MurmurHash3_x86_32 as published: the bytes behind the blocks are read little-endian too, and
the length is mixed in before the finaliser. -/
def publishedMurmur3 (data : Bytes) (seed : UInt32) : UInt32 :=
  let h := (publishedBlocks data).foldl publishedRound seed.toBitVec
  let remaining := data.drop (data.length / 4 * 4)
  let h := h ^^^ publishedScramble (BitVec.ofNat 32 (littleEndian remaining))
  .ofBitVec (publishedFinal (h ^^^ BitVec.ofNat 32 data.length))

end Published

section Little

theorem words_published (data : Bytes) :
    (words .little data).map UInt32.toBitVec = publishedBlocks data := by
  induction data using words.induct with
  | case1 a b c d rest ih =>
      have more : (a :: b :: c :: d :: rest).length / 4 = rest.length / 4 + 1 := by
        simp only [List.length_cons]
        omega
      have first : (readWord .little a b c d).toBitVec =
          BitVec.ofNat 32 (littleEndian [a, b, c, d]) := by
        show BitVec.ofNat 32 _ = BitVec.ofNat 32 _
        rfl
      rw [words, List.map_cons, ih, publishedBlocks, publishedBlocks, more,
        List.range_succ_eq_map, List.map_cons, List.map_map, first]
      congr 1
  | case2 data short =>
      have few := length_lt_of_short data short
      rw [words_of_short _ data short, publishedBlocks, Nat.div_eq_of_lt few]
      rfl

theorem blockLoop_published (data : Bytes) (seed : UInt32) :
    (blockLoop .little data seed).toBitVec =
      (publishedBlocks data).foldl publishedRound seed.toBitVec := by
  rw [blockLoop, ← words_published, List.foldl_map]
  exact (List.foldl_hom UInt32.toBitVec (fun _ _ => rfl)).symm

theorem absorbTail_published (tail : Bytes) (short : tail.length < 4) (h : UInt32) :
    (absorbTail tail h).toBitVec =
      h.toBitVec ^^^ publishedScramble (BitVec.ofNat 32 (littleEndian tail)) := by
  have key : BitVec.ofNat 32 (littleEndian tail) = (tailKey tail).toBitVec := by
    apply BitVec.eq_of_toNat_eq
    have value := tailKey_toNat tail short
    have bound := (tailKey tail).toNat_lt
    rw [BitVec.toNat_ofNat, littleEndian, ← value, Nat.mod_eq_of_lt bound]
    rfl
  rw [key, absorbTail]
  split_ifs with nothing
  · subst nothing
    exact BitVec.xor_zero.symm
  · rfl

theorem murmur3_32_little (data : Bytes) (seed : UInt32) :
    murmur3_32 .little data seed = publishedMurmur3 data seed := by
  apply UInt32.toBitVec_inj.mp
  have short : (tailBytes data).length < 4 := by
    rw [tailBytes, List.length_drop]
    omega
  show publishedFinal ((absorbTail (tailBytes data) (blockLoop .little data seed)).toBitVec ^^^
    (UInt32.ofNat data.length).toBitVec) = _
  rw [absorbTail_published _ short, blockLoop_published]
  rfl

end Little

section Big

theorem tailBytes_swapWords (data : Bytes) : tailBytes (swapWords data) = tailBytes data := by
  rw [tailBytes, swapWords_length]
  exact swapWords_tail data

/-- A big-endian host hashes the bytes with every whole block turned round. -/
theorem murmur3_32_big (data : Bytes) (seed : UInt32) :
    murmur3_32 .big data seed = publishedMurmur3 (swapWords data) seed := by
  rw [← murmur3_32_little, murmur3_32, murmur3_32, blockLoop, blockLoop, words_big,
    tailBytes_swapWords, swapWords_length]

/-- The byte order of the host cancels where a word is hashed from memory. -/
theorem hashU32_published (host : ByteOrder) (value seed : UInt32) :
    hashU32 host value seed = publishedMurmur3 (writeWord .little value) seed := by
  cases host with
  | little => exact murmur3_32_little _ seed
  | big => exact murmur3_32_big _ seed

/-- A double word is hashed with its halves in the order of the host. -/
theorem hashU64_big (value : UInt64) (seed : UInt32) :
    hashU64 .big value seed =
      publishedMurmur3 (writeWord .little (highHalf value) ++ writeWord .little (lowHalf value))
        seed :=
  murmur3_32_big _ seed

/-- For a string that the byte order changes in one block at most. -/
theorem murmur3_32_big_iff (data : Bytes) (block : Nat)
    (alike : AlikeOutside block (swapWords data) data) (seed : UInt32) :
    murmur3_32 .big data seed = publishedMurmur3 data seed ↔ swapWords data = data := by
  rw [murmur3_32_big, ← murmur3_32_little, ← murmur3_32_little]
  constructor
  · intro same
    by_contra apart
    exact murmur3_32_alike_apart .little _ _ (swapWords_length data) apart block alike seed same
  · intro turned
    rw [turned]

end Big

/-- On such a host the hashes are the published one of the bytes, and those of integers are
hashes of their little-endian bytes. -/
structure Portable (host : ByteOrder) : Prop where
  murmur : ∀ data seed, murmur3_32 host data seed = publishedMurmur3 data seed
  bytes : ∀ data seed, hashBytes host data seed = publishedMurmur3 data seed
  string : ∀ s seed, hashString host (some s) seed = publishedMurmur3 s.bytes seed
  word : ∀ value seed, hashU32 host value seed = hashBytes host (writeWord .little value) seed
  long : ∀ value seed, hashU64 host value seed = hashBytes host (writeLong .little value) seed

theorem portable_little : Portable .little where
  murmur := murmur3_32_little
  bytes := murmur3_32_little
  string s := murmur3_32_little s.bytes
  word _ _ := rfl
  long _ _ := rfl

theorem murmur3_32_big_differs :
    murmur3_32 .big [1, 0, 0, 0] 0 ≠ publishedMurmur3 [1, 0, 0, 0] 0 := by decide

/-- Words are hashed alike on all hosts, as their little-endian bytes, and double words alike
where their halves are equal. -/
theorem integer_hashes_published (seed : UInt32) :
    (∀ host value, hashU32 host value seed = publishedMurmur3 (writeWord .little value) seed) ∧
    (∀ value, hashU64 .little value seed = publishedMurmur3 (writeLong .little value) seed) ∧
    (∀ value, hashU64 .big value seed =
      publishedMurmur3 (writeWord .little (highHalf value) ++ writeWord .little (lowHalf value))
        seed) ∧
    ∀ value, lowHalf value = highHalf value →
      hashU64 .big value seed = hashU64 .little value seed := by
  refine ⟨fun host value => hashU32_published host value seed,
    fun value => murmur3_32_little _ seed, fun value => hashU64_big value seed, ?_⟩
  intro value same
  have little : hashU64 .little value seed = publishedMurmur3 (writeLong .little value) seed :=
    murmur3_32_little _ seed
  rw [hashU64_big, little, writeLong, same]

/-- The hashes are portable exactly on little-endian hosts. On the others a string is hashed as
published if no block changes with the byte order, and is not if a single one does. -/
theorem hashes_portable_iff (host : ByteOrder) :
    (Portable host ↔ host = .little) ∧
    ∀ data block, AlikeOutside block (swapWords data) data → ∀ seed,
      (murmur3_32 host data seed = publishedMurmur3 data seed ↔
        host = .little ∨ swapWords data = data) := by
  constructor
  · constructor
    · intro portable
      cases host with
      | little => rfl
      | big => exact absurd (portable.murmur [1, 0, 0, 0] 0) (by decide)
    · rintro rfl
      exact portable_little
  · intro data block alike seed
    cases host with
    | little => exact ⟨fun _ => .inl rfl, fun _ => murmur3_32_little data seed⟩
    | big =>
        rw [murmur3_32_big_iff data block alike seed]
        simp only [reduceCtorEq, false_or]

/-- The first block of `nuperf` changes with the byte order, and that of `noon.h` does not. -/
theorem first_block_decides :
    murmur3_32 .big (ascii "nuperf") 7 ≠ publishedMurmur3 (ascii "nuperf") 7 ∧
      murmur3_32 .big (ascii "noon.h") 7 = publishedMurmur3 (ascii "noon.h") 7 :=
  ⟨mt ((hashes_portable_iff .big).2 (ascii "nuperf") 0 (by decide) 7).mp (by decide),
    ((hashes_portable_iff .big).2 (ascii "noon.h") 0 (by decide) 7).mpr (by decide)⟩

end Nuperf.Util
