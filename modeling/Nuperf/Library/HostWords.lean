import Nuperf.Library.ByteString

set_option autoImplicit false

/- 32-bit words in the memory of a host of either byte order. -/
namespace HostWords

open ByteString

inductive ByteOrder
  | little
  | big
  deriving DecidableEq, Repr

/-- The word whose bytes are, from the lowest address, `a`, `b`, `c` and `d`. -/
def readWord (order : ByteOrder) (a b c d : UInt8) : UInt32 :=
  match order with
  | .little => UInt32.ofNat (a.toNat + 256 * (b.toNat + 256 * (c.toNat + 256 * d.toNat)))
  | .big => UInt32.ofNat (d.toNat + 256 * (c.toNat + 256 * (b.toNat + 256 * a.toNat)))

/-- The bytes of a word from the lowest address on. -/
def writeWord (order : ByteOrder) (word : UInt32) : Bytes :=
  let at_ (shift : Nat) := UInt8.ofNat (word.toNat / 2 ^ shift)
  match order with
  | .little => [at_ 0, at_ 8, at_ 16, at_ 24]
  | .big => [at_ 24, at_ 16, at_ 8, at_ 0]

def lowHalf (long : UInt64) : UInt32 := UInt32.ofNat (long.toNat % 2 ^ 32)

def highHalf (long : UInt64) : UInt32 := UInt32.ofNat (long.toNat / 2 ^ 32)

/-- The bytes of a double word from the lowest address on. -/
def writeLong (order : ByteOrder) (long : UInt64) : Bytes :=
  match order with
  | .little => writeWord .little (lowHalf long) ++ writeWord .little (highHalf long)
  | .big => writeWord .big (highHalf long) ++ writeWord .big (lowHalf long)

/-- The whole words of a block of memory. Trailing bytes that fill no word are not read. -/
def words (order : ByteOrder) : Bytes → List UInt32
  | a :: b :: c :: d :: rest => readWord order a b c d :: words order rest
  | _ => []

def wordBytes (order : ByteOrder) (block : List UInt32) : Bytes :=
  block.flatMap (writeWord order)

@[simp] theorem writeWord_length (order : ByteOrder) (word : UInt32) :
    (writeWord order word).length = 4 := by
  cases order <;> rfl

@[simp] theorem wordBytes_length (order : ByteOrder) (block : List UInt32) :
    (wordBytes order block).length = 4 * block.length := by
  induction block with
  | nil => rfl
  | cons word block ih =>
      simp only [wordBytes, List.flatMap_cons, List.length_append, writeWord_length,
        List.length_cons] at ih ⊢
      omega

theorem readWord_writeWord (order : ByteOrder) (word : UInt32) (rest : Bytes) :
    words order (writeWord order word ++ rest) = word :: words order rest := by
  have bound : word.toNat < 2 ^ 32 := word.toNat_lt
  cases order with
  | little =>
      simp only [writeWord, List.cons_append, List.nil_append, words, readWord, List.cons.injEq,
        and_true]
      apply UInt32.toNat_inj.mp
      simp only [UInt32.toNat_ofNat', UInt8.toNat_ofNat']
      omega
  | big =>
      simp only [writeWord, List.cons_append, List.nil_append, words, readWord, List.cons.injEq,
        and_true]
      apply UInt32.toNat_inj.mp
      simp only [UInt32.toNat_ofNat', UInt8.toNat_ofNat']
      omega

/-- Writing words to memory and reading them back, in one byte order. -/
@[simp] theorem words_wordBytes (order : ByteOrder) (block : List UInt32) :
    words order (wordBytes order block) = block := by
  induction block with
  | nil => rfl
  | cons word block ih =>
      rw [wordBytes, List.flatMap_cons, readWord_writeWord]
      exact congrArg _ ih

/-- What is not a word and more has no whole word. -/
theorem length_lt_of_short (block : Bytes)
    (short : ∀ a b c d rest, block = a :: b :: c :: d :: rest → False) : block.length < 4 := by
  rcases block with _ | ⟨a, _ | ⟨b, _ | ⟨c, _ | ⟨d, rest⟩⟩⟩⟩
  · decide
  · simp
  · simp
  · simp
  · exact absurd rfl (short a b c d rest)

theorem words_of_short (order : ByteOrder) (block : Bytes)
    (short : ∀ a b c d rest, block = a :: b :: c :: d :: rest → False) :
    words order block = [] := by
  rw [words]
  exact short

theorem words_length (order : ByteOrder) (block : Bytes) :
    (words order block).length = block.length / 4 := by
  induction block using words.induct with
  | case1 a b c d rest ih =>
      simp only [words, List.length_cons, ih]
      omega
  | case2 block short =>
      have few := length_lt_of_short block short
      rw [words_of_short order block short, List.length_nil]
      omega

theorem words_short (order : ByteOrder) (block : Bytes) (few : block.length < 4) :
    words order block = [] := by
  apply List.eq_nil_of_length_eq_zero
  rw [words_length]
  omega

/-- Memory is read in blocks of whole words. -/
theorem words_append (order : ByteOrder) (front back : Bytes) (aligned : 4 ∣ front.length) :
    words order (front ++ back) = words order front ++ words order back := by
  induction front using words.induct with
  | case1 a b c d rest ih =>
      have shorter : 4 ∣ rest.length := by
        simp only [List.length_cons] at aligned
        omega
      simp only [List.cons_append, words, ih shorter]
  | case2 front short =>
      have few := length_lt_of_short front short
      have empty : front = [] := List.eq_nil_of_length_eq_zero (by omega)
      rw [words_of_short order front short, empty]
      rfl

theorem readWord_injective (order : ByteOrder) {a b c d a' b' c' d' : UInt8}
    (same : readWord order a b c d = readWord order a' b' c' d') :
    a = a' ∧ b = b' ∧ c = c' ∧ d = d' := by
  have value := congrArg UInt32.toNat same
  have := a.toNat_lt
  have := b.toNat_lt
  have := c.toNat_lt
  have := d.toNat_lt
  have := a'.toNat_lt
  have := b'.toNat_lt
  have := c'.toNat_lt
  have := d'.toNat_lt
  simp only [← UInt8.toNat_inj]
  cases order <;> simp only [readWord, UInt32.toNat_ofNat'] at value <;> omega

/-- The bytes of a block that its words are made of. -/
def whole (block : Bytes) : Bytes := block.take (block.length / 4 * 4)

theorem whole_word (a b c d : UInt8) (rest : Bytes) :
    whole (a :: b :: c :: d :: rest) = a :: b :: c :: d :: whole rest := by
  have more : (a :: b :: c :: d :: rest).length / 4 * 4 = rest.length / 4 * 4 + 4 := by
    simp only [List.length_cons]
    omega
  rw [whole, more]
  rfl

theorem whole_short (block : Bytes) (few : block.length < 4) : whole block = [] := by
  rw [whole, Nat.div_eq_of_lt few]
  rfl

/-- Words tell whole words of memory apart, and nothing else. -/
theorem words_eq_iff (order : ByteOrder) (left right : Bytes) :
    words order left = words order right ↔ whole left = whole right := by
  induction left using words.induct generalizing right with
  | case1 a b c d rest ih =>
      rw [words, whole_word]
      by_cases few : right.length < 4
      · rw [words_short order right few, whole_short right few]
        simp only [reduceCtorEq]
      obtain ⟨a', b', c', d', rest', rfl⟩ : ∃ a' b' c' d' rest',
          right = a' :: b' :: c' :: d' :: rest' := by
        by_contra none_
        exact few (length_lt_of_short right fun a' b' c' d' rest' same =>
          none_ ⟨a', b', c', d', rest', same⟩)
      rw [words, whole_word]
      simp only [List.cons.injEq]
      constructor
      · rintro ⟨first, others⟩
        obtain ⟨rfl, rfl, rfl, rfl⟩ := readWord_injective order first
        exact ⟨rfl, rfl, rfl, rfl, (ih rest').mp others⟩
      · rintro ⟨rfl, rfl, rfl, rfl, others⟩
        exact ⟨rfl, (ih rest').mpr others⟩
  | case2 left short =>
      have few := length_lt_of_short left short
      rw [words_of_short order left short, whole_short left few, eq_comm, @eq_comm _ [],
        ← List.length_eq_zero_iff, words_length, ← List.length_eq_zero_iff, whole,
        List.length_take]
      omega

theorem writeWord_injective (order : ByteOrder) : Function.Injective (writeWord order) := by
  intro left right same
  have read := congrArg (fun bytes => words order (bytes ++ [])) same
  simp only [readWord_writeWord] at read
  exact (List.cons.inj read).1

theorem halves_injective {left right : UInt64} (low : lowHalf left = lowHalf right)
    (high : highHalf left = highHalf right) : left = right := by
  have lowValue := congrArg UInt32.toNat low
  have highValue := congrArg UInt32.toNat high
  have := left.toNat_lt
  have := right.toNat_lt
  simp only [lowHalf, highHalf, UInt32.toNat_ofNat'] at lowValue highValue
  apply UInt64.toNat_inj.mp
  omega

/-- Memory with the bytes of every whole word turned round. -/
def swapWords : Bytes → Bytes
  | a :: b :: c :: d :: rest => d :: c :: b :: a :: swapWords rest
  | rest => rest

theorem swapWords_of_short (block : Bytes)
    (short : ∀ a b c d rest, block = a :: b :: c :: d :: rest → False) :
    swapWords block = block := by
  rw [swapWords]
  exact short

@[simp] theorem swapWords_length (block : Bytes) : (swapWords block).length = block.length := by
  induction block using words.induct with
  | case1 a b c d rest ih => simp only [swapWords, List.length_cons, ih]
  | case2 block short => rw [swapWords_of_short block short]

/-- A host of the other byte order finds the words of the turned bytes. -/
theorem words_big (block : Bytes) : words .big block = words .little (swapWords block) := by
  induction block using words.induct with
  | case1 a b c d rest ih => simp only [words, swapWords, readWord, ih]
  | case2 block short => rw [swapWords_of_short block short, words_of_short _ block short,
      words_of_short _ block short]

theorem swapWords_tail (block : Bytes) :
    (swapWords block).drop (block.length / 4 * 4) = block.drop (block.length / 4 * 4) := by
  induction block using words.induct with
  | case1 a b c d rest ih =>
      have step : (a :: b :: c :: d :: rest).length / 4 * 4 = rest.length / 4 * 4 + 4 := by
        simp only [List.length_cons]
        omega
      rw [step, swapWords]
      simp only [List.drop_succ_cons]
      exact ih
  | case2 block short => rw [swapWords_of_short block short]

end HostWords
