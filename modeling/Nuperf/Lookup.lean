import Nuperf.BBHash
import Nuperf.Library.PerfectHash
import Nuperf.Stdmeth

set_option autoImplicit false

namespace Nuperf

open ByteString Numeral HostWords PerfectHash

/-- A way to find a key's slot from the payload words and the number of keys. -/
abbrev LookupFunction := List UInt32 → Nat → Key → Nat

/-- The contract of a minimal method for one build: where it returns `NUPERF_OK`, the
lookup maps the keys one-to-one onto the first slots. -/
def FindsKeys {Impl : Type} (lookup : LookupFunction) (host : ByteOrder) (keyset : Keyset)
    (reply : BuildReply Impl) : Prop :=
  reply.completion = .ok .ok → ∀ result, reply.result = some result →
    result.flags &&& methodFlagMinimal ≠ 0 →
    MapsOnto (lookup (result.words host) result.keyCount) keyset.keys

/-- One lookup serves every keyset of `n` distinct keys of one type, with both methods. -/
def ServesEvery (lookup : LookupFunction) (env : BuildEnv) (type : KeyType) (n : Nat) : Prop :=
  ∀ keyset : Keyset, keyset.keys.Nodup → keyset.type = type → keyset.size = n →
    (∀ options, FindsKeys lookup env.host keyset (stdmeth.build env options keyset)) ∧
    (∀ impl, FindsKeys lookup env.host keyset (BBHash.method.build env impl keyset))

/-- There are no more than `n` keys of a type. -/
def HasAtMost (type : KeyType) (n : Nat) : Prop :=
  match type with
  | .unknown => True
  | .string => False
  | .binary => False
  | .uint32 => 2 ^ 32 ≤ n
  | .uint64 => 2 ^ 64 ≤ n

/-- The builds whose keyset its size gives away, and those that cannot be completed. -/
def SizeSuffices (env : BuildEnv) (type : KeyType) (n : Nat) : Prop :=
  n = 1 ∨ HasAtMost type n ∨
    (env.allocates (n * 2 % 2 ^ 64) = false ∧ env.allocates n = false)

def stdmethTable (n : Nat) : List UInt32 := fillTable (List.replicate (n * 2 % 2 ^ 64) 0) n

def BBHash.table (n : Nat) : List UInt32 := fillTable (List.replicate n 0) n

/-- The payload of `stdmeth` keeps nothing of the keys but their number. -/
theorem stdmethBuild_findsKeys_iff (lookup : LookupFunction) (env : BuildEnv)
    (options : StdmethOptions) (keyset : Keyset)
    (fits : env.allocates (keyset.size * 2 % 2 ^ 64) = true) :
    FindsKeys lookup env.host keyset (stdmeth.build env options keyset) ↔
      MapsOnto (lookup (stdmethTable keyset.size) keyset.size) keyset.keys := by
  have flagged : methodFlagMinimal &&& methodFlagMinimal ≠ 0 := by decide
  unfold FindsKeys
  simp only [stdmeth, stdmethBuild, fits, ↓reduceIte, forall_const, Option.some.injEq,
    forall_eq', flagged, not_false_eq_true, ne_eq, HashResult.words, Option.getD_some,
    words_wordBytes]
  rfl

theorem BBHash.build_findsKeys_iff (lookup : LookupFunction) (env : BuildEnv)
    (impl : BBHash.MethodImpl) (keyset : Keyset) (fits : env.allocates keyset.size = true) :
    FindsKeys lookup env.host keyset (BBHash.method.build env impl keyset) ↔
      MapsOnto (lookup (BBHash.table keyset.size) keyset.size) keyset.keys := by
  have flagged : methodFlagMinimal &&& methodFlagMinimal ≠ 0 := by decide
  unfold FindsKeys
  simp only [BBHash.method, BBHash.build, fits, ↓reduceIte, forall_const, Option.some.injEq,
    forall_eq', flagged, not_false_eq_true, ne_eq, HashResult.words, Option.getD_some,
    words_wordBytes]
  rfl

/-- A build that runs out of memory promises nothing. -/
theorem findsKeys_of_failed {Impl : Type} (lookup : LookupFunction) (host : ByteOrder)
    (keyset : Keyset) (reply : BuildReply Impl) (failed : reply.completion ≠ .ok .ok) :
    FindsKeys lookup host keyset reply := by
  intro done
  exact absurd done failed

/-- Distinct keys of a type, one for each index below the number there are. -/
def sampleKey : KeyType → Nat → Key
  | .string, index => .string ⟨decimal index, decimal_nulFree index⟩
  | .uint32, index => .uint32 (UInt32.ofNat index)
  | .uint64, index => .uint64 (UInt64.ofNat index)
  | _, index => .binary (decimal index)

theorem sampleKey_type (type : KeyType) (index : Nat) (known : type ≠ .unknown) :
    (sampleKey type index).type = type := by
  cases type with
  | unknown => exact absurd rfl known
  | string => rfl
  | binary => rfl
  | uint32 => rfl
  | uint64 => rfl

theorem sampleKey_injective (type : KeyType) (n : Nat) (more : ¬ HasAtMost type n)
    (left right : Nat) (leftLow : left ≤ n) (rightLow : right ≤ n)
    (same : sampleKey type left = sampleKey type right) : left = right := by
  cases type with
  | unknown => exact absurd trivial more
  | string =>
      simp only [sampleKey, Key.string.injEq, CString.mk.injEq] at same
      exact decimal_injective same
  | binary =>
      simp only [sampleKey, Key.binary.injEq] at same
      exact decimal_injective same
  | uint32 =>
      have numbers := congrArg UInt32.toNat (Key.uint32.inj same)
      simp only [HasAtMost, not_le] at more
      simp only [UInt32.toNat_ofNat'] at numbers
      omega
  | uint64 =>
      have numbers := congrArg UInt64.toNat (Key.uint64.inj same)
      simp only [HasAtMost, not_le] at more
      simp only [UInt64.toNat_ofNat'] at numbers
      omega

/-- A pool of keys of one type, one more than a build gets to see. -/
theorem exists_pool (type : KeyType) (n : Nat) (more : ¬ HasAtMost type n) :
    ∃ pool : Finset Key, n < pool.card ∧ ∀ key ∈ pool, key.type = type := by
  have known : type ≠ .unknown := by
    intro unknown
    exact more (unknown ▸ trivial)
  refine ⟨(Finset.range (n + 1)).image (sampleKey type), ?_, ?_⟩
  · rw [Finset.card_image_of_injOn, Finset.card_range]
    · omega
    · intro left leftIn right rightIn same
      have leftLow := Finset.mem_range.mp leftIn
      have rightLow := Finset.mem_range.mp rightIn
      exact sampleKey_injective type n more left right (by omega) (by omega) same
  · intro key member
    obtain ⟨index, -, rfl⟩ := Finset.mem_image.mp member
    exact sampleKey_type type index known

/-- Keys drawn from one type make a keyset of that type. -/
theorem exists_keyset (type : KeyType) (keys : List Key) (nonempty : keys ≠ [])
    (uniform : ∀ key ∈ keys, key.type = type) :
    ∃ keyset : Keyset, keyset.keys = keys ∧ keyset.type = type := by
  refine ⟨⟨keys, ?_⟩, rfl, ?_⟩
  · intro left leftIn right rightIn
    rw [uniform left leftIn, uniform right rightIn]
  · cases keys with
    | nil => exact absurd rfl nonempty
    | cons key rest => exact uniform key List.mem_cons_self

/-- No lookup can serve two or more keys out of a larger type from their number alone. -/
theorem exists_unserved (slot : Key → Nat) (type : KeyType) (n : Nat) (two : 2 ≤ n)
    (more : ¬ HasAtMost type n) :
    ∃ keyset : Keyset, keyset.keys.Nodup ∧ keyset.type = type ∧ keyset.size = n ∧
      ¬ MapsOnto slot keyset.keys := by
  obtain ⟨pool, larger, uniform⟩ := exists_pool type n more
  obtain ⟨keys, distinct, size, inside, failing⟩ := exists_not_mapsOnto slot n two pool larger
  have nonempty : keys ≠ [] := by
    rintro rfl
    rw [List.length_nil] at size
    omega
  obtain ⟨keyset, same, typed⟩ :=
    exists_keyset type keys nonempty (fun key member => uniform key (inside key member))
  subst same
  exact ⟨keyset, distinct, typed, size, failing⟩

theorem servesEvery_sizeSuffices (lookup : LookupFunction) (env : BuildEnv) (type : KeyType)
    (n : Nat) (positive : 1 ≤ n) (serves : ServesEvery lookup env type n) :
    SizeSuffices env type n := by
  by_contra blind
  simp only [SizeSuffices, not_or, not_and, Bool.not_eq_false] at blind
  obtain ⟨several, more, allocates⟩ := blind
  have two : 2 ≤ n := by omega
  by_cases fits : env.allocates (n * 2 % 2 ^ 64) = true
  · obtain ⟨keyset, distinct, typed, size, failing⟩ :=
      exists_unserved (lookup (stdmethTable n) n) type n two more
    subst size
    have found := (serves keyset distinct typed rfl).1 {}
    exact failing ((stdmethBuild_findsKeys_iff lookup env {} keyset fits).mp found)
  · obtain ⟨keyset, distinct, typed, size, failing⟩ :=
      exists_unserved (lookup (BBHash.table n) n) type n two more
    subst size
    have found := (serves keyset distinct typed rfl).2 {}
    have small := allocates (Bool.eq_false_iff.mpr fits)
    exact failing ((BBHash.build_findsKeys_iff lookup env {} keyset small).mp found)

/-- The lookup that makes the most of a payload without keys. -/
def indexLookup : LookupFunction := fun _ n key =>
  if n = 1 then 0
  else
    match key with
    | .uint32 value => value.toNat
    | .uint64 value => value.toNat
    | _ => 0

theorem indexLookup_mapsOnto (payload : List UInt32) (type : KeyType) (keyset : Keyset)
    (distinct : keyset.keys.Nodup) (typed : keyset.type = type)
    (few : keyset.size = 1 ∨ HasAtMost type keyset.size) (positive : 1 ≤ keyset.size) :
    MapsOnto (indexLookup payload keyset.size) keyset.keys := by
  have ofType : ∀ key ∈ keyset.keys, key.type = type := by
    intro key member
    rw [keyset.type_of_mem key member, typed]
  by_cases single : keyset.size = 1
  · obtain ⟨only, shape⟩ := List.length_eq_one_iff.mp single
    apply mapsOnto_of_injOn _ _ distinct
    · intro key _
      simp only [indexLookup, single, ↓reduceIte]
      exact positive
    · intro left leftIn right rightIn _
      rw [shape] at leftIn rightIn
      rw [List.mem_singleton.mp leftIn, List.mem_singleton.mp rightIn]
  · have bound := few.resolve_left single
    have size : keyset.size = keyset.keys.length := rfl
    cases type with
    | unknown =>
        obtain ⟨key, member⟩ := List.exists_mem_of_length_pos positive
        have unknown := ofType key member
        cases key <;> cases unknown
    | string => exact absurd bound id
    | binary => exact absurd bound id
    | uint32 =>
        apply mapsOnto_of_numbers _ _ distinct Key.uint32 UInt32.toNat
        · exact fun _ _ same => UInt32.toNat_inj.mp same
        · intro key member
          have shape := ofType key member
          cases key <;> cases shape
          exact ⟨_, rfl⟩
        · intro value
          rw [indexLookup, if_neg single]
        · intro value
          have below := value.toNat_lt
          simp only [HasAtMost] at bound
          omega
    | uint64 =>
        apply mapsOnto_of_numbers _ _ distinct Key.uint64 UInt64.toNat
        · exact fun _ _ same => UInt64.toNat_inj.mp same
        · intro key member
          have shape := ofType key member
          cases key <;> cases shape
          exact ⟨_, rfl⟩
        · intro value
          rw [indexLookup, if_neg single]
        · intro value
          have below := value.toNat_lt
          simp only [HasAtMost] at bound
          omega

theorem indexLookup_servesEvery (env : BuildEnv) (type : KeyType) (n : Nat) (positive : 1 ≤ n)
    (suffices_ : SizeSuffices env type n) : ServesEvery indexLookup env type n := by
  intro keyset distinct typed size
  subst size
  have onto : env.allocates (keyset.size * 2 % 2 ^ 64) = true ∨ env.allocates keyset.size = true →
      ∀ payload, MapsOnto (indexLookup payload keyset.size) keyset.keys := by
    intro allocated payload
    apply indexLookup_mapsOnto payload type keyset distinct typed _ positive
    rcases suffices_ with single | few | ⟨double, plain⟩
    · exact Or.inl single
    · exact Or.inr few
    · rw [double, plain] at allocated
      simp at allocated
  constructor
  · intro options
    by_cases fits : env.allocates (keyset.size * 2 % 2 ^ 64) = true
    · rw [stdmethBuild_findsKeys_iff indexLookup env options keyset fits]
      exact onto (Or.inl fits) _
    · apply findsKeys_of_failed
      simp only [stdmeth, stdmethBuild, fits, Bool.false_eq_true, ↓reduceIte, ne_eq,
        Except.ok.injEq, reduceCtorEq, not_false_eq_true]
  · intro impl
    by_cases fits : env.allocates keyset.size = true
    · rw [BBHash.build_findsKeys_iff indexLookup env impl keyset fits]
      exact onto (Or.inr fits) _
    · apply findsKeys_of_failed
      simp only [BBHash.method, BBHash.build, fits, Bool.false_eq_true, ↓reduceIte, reduceCtorEq,
        ne_eq, not_false_eq_true]

/-- A lookup for all keysets of one size and type exists exactly where their number
settles the keys' slots, and one lookup then serves all such sizes and types. -/
theorem minimal_lookup_iff (env : BuildEnv) (type : KeyType) (n : Nat) (positive : 1 ≤ n) :
    ((∃ lookup, ServesEvery lookup env type n) ↔ SizeSuffices env type n) ∧
      (ServesEvery indexLookup env type n ↔ SizeSuffices env type n) := by
  have suffices_ : SizeSuffices env type n → ServesEvery indexLookup env type n :=
    indexLookup_servesEvery env type n positive
  constructor
  · constructor
    · rintro ⟨lookup, serves⟩
      exact servesEvery_sizeSuffices lookup env type n positive serves
    · intro settled
      exact ⟨indexLookup, suffices_ settled⟩
  · exact ⟨servesEvery_sizeSuffices indexLookup env type n positive, suffices_⟩

/-- One string is found, two are not. -/
theorem minimal_lookup_strings :
    ServesEvery indexLookup ⟨.little, fun _ => true, 0⟩ .string 1 ∧
      ¬ ∃ lookup, ServesEvery lookup ⟨.little, fun _ => true, 0⟩ .string 2 := by
  constructor
  · exact (minimal_lookup_iff _ .string 1 (by decide)).2.mpr (Or.inl rfl)
  · rw [(minimal_lookup_iff _ .string 2 (by decide)).1]
    intro settled
    rcases settled with single | few | ⟨refused, _⟩
    · cases single
    · exact few
    · cases refused

def stringPair (left right : CString) : Keyset where
  keys := [.string left, .string right]
  uniform := by
    intro first firstIn second secondIn
    simp only [List.mem_cons, List.not_mem_nil, or_false] at firstIn secondIn
    rcases firstIn with rfl | rfl <;> rcases secondIn with rfl | rfl <;> rfl

/-- The three pairs of the keys `a`, `b` and `c` are more than one lookup can serve. -/
theorem no_lookup_for_three_pairs :
    ¬ ∃ lookup, ∀ keyset ∈ [stringPair ⟨ascii "a", by decide⟩ ⟨ascii "b", by decide⟩,
        stringPair ⟨ascii "a", by decide⟩ ⟨ascii "c", by decide⟩,
        stringPair ⟨ascii "b", by decide⟩ ⟨ascii "c", by decide⟩],
      FindsKeys lookup .little keyset
        (stdmeth.build ⟨.little, fun _ => true, 0⟩ {} keyset) := by
  rintro ⟨lookup, serves⟩
  let slot := lookup (stdmethTable 2) 2
  have onto : ∀ left right : CString, left ≠ right →
      FindsKeys lookup .little (stringPair left right)
        (stdmeth.build ⟨.little, fun _ => true, 0⟩ {} (stringPair left right)) →
      slot (.string left) < 2 ∧ slot (.string right) < 2 ∧
        slot (.string left) ≠ slot (.string right) := by
    intro left right apart finds
    have maps := (stdmethBuild_findsKeys_iff lookup ⟨.little, fun _ => true, 0⟩ {} _ rfl).mp finds
    have leftIn : Key.string left ∈ (stringPair left right).keys := List.mem_cons_self
    have rightIn : Key.string right ∈ (stringPair left right).keys :=
      List.mem_cons_of_mem _ List.mem_cons_self
    refine ⟨maps.mapsTo leftIn, maps.mapsTo rightIn, ?_⟩
    intro same
    exact apart (Key.string.inj (maps.injOn leftIn rightIn same))
  have ab := onto _ _ (by decide) (serves _ List.mem_cons_self)
  have ac := onto _ _ (by decide) (serves _ (List.mem_cons_of_mem _ List.mem_cons_self))
  have bc := onto _ _ (by decide)
    (serves _ (List.mem_cons_of_mem _ (List.mem_cons_of_mem _ List.mem_cons_self)))
  omega

end Nuperf
