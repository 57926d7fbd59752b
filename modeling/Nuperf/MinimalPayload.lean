import Nuperf.BBHash
import Nuperf.Stdmeth

set_option autoImplicit false

namespace Nuperf

open ByteString HostWords

/-- What `NUPERF_METHOD_FLAG_MINIMAL` says of the payload for `n` keys: it has just their slots,
each of them once. -/
def MinimalPayload (result : HashResult) (host : ByteOrder) (n : Nat) : Prop :=
  result.dataSize = 4 * n ∧ ((result.words host).map UInt32.toNat).Perm (List.range n)

/-- Up to `2 ^ 32` indices survive the narrowing. -/
theorem indices_narrowed (n : Nat) (small : n ≤ 2 ^ 32) :
    ((List.range n).map UInt32.ofNat).map UInt32.toNat = List.range n := by
  have same : ((List.range n).map UInt32.ofNat).map UInt32.toNat = (List.range n).map id := by
    rw [List.map_map]
    apply List.map_congr_left
    intro i member
    have below := List.mem_range.mp member
    show (UInt32.ofNat i).toNat = i
    rw [UInt32.toNat_ofNat']
    omega
  rw [same, List.map_id]

theorem bbHash_payload_minimal (env : BuildEnv) (impl : BBHash.MethodImpl) (keyset : Keyset)
    (small : keyset.size ≤ 2 ^ 32) (result : HashResult)
    (built : (BBHash.method.build env impl keyset).result = some result) :
    MinimalPayload result env.host keyset.size := by
  have table : fillTable (List.replicate keyset.size 0) keyset.size =
      (List.range keyset.size).map UInt32.ofNat := by
    rw [fillTable_eq _ _ (by rw [List.length_replicate]), List.drop_replicate, Nat.sub_self,
      List.replicate_zero, List.append_nil]
  simp only [BBHash.method, BBHash.build, table] at built
  split_ifs at built
  cases built
  constructor
  · rw [HashResult.dataSize, Option.getD_some, wordBytes_length, List.length_map,
      List.length_range]
  · rw [HashResult.words, Option.getD_some, words_wordBytes, indices_narrowed _ small]

/-- Twice as many words as keys are a minimal payload only if there are none. -/
theorem stdmeth_payload_minimal_iff (env : BuildEnv) (options : StdmethOptions) (keyset : Keyset)
    (small : keyset.size ≤ 2 ^ 32) (result : HashResult)
    (built : (stdmeth.build env options keyset).result = some result) :
    MinimalPayload result env.host keyset.size ↔ keyset.size = 0 := by
  change (stdmethBuild env options keyset).result = some result at built
  unfold stdmethBuild at built
  dsimp only at built
  by_cases fits : env.allocates (keyset.size * 2 % 2 ^ 64) = true
  case neg =>
    rw [if_neg fits] at built
    cases built
  rw [if_pos fits] at built
  cases built
  have room : keyset.size * 2 % 2 ^ 64 = keyset.size * 2 := by omega
  constructor
  · intro minimal
    have size := minimal.1
    rw [HashResult.dataSize, Option.getD_some, wordBytes_length, fillTable_length,
      List.length_replicate, room] at size
    omega
  · intro empty
    rw [empty]
    refine ⟨rfl, ?_⟩
    rw [HashResult.words, Option.getD_some, words_wordBytes]
    rfl

/-- Of the two methods that flag their results as minimal, only `BBHash` has minimal payloads
for keysets that are not empty. -/
theorem minimal_payload_iff (env : BuildEnv) (keyset : Keyset) (small : keyset.size ≤ 2 ^ 32) :
    (∀ options result, (stdmeth.build env options keyset).result = some result →
      result.flags &&& methodFlagMinimal ≠ 0 →
      (MinimalPayload result env.host keyset.size ↔ keyset.size = 0)) ∧
    (∀ impl result, (BBHash.method.build env impl keyset).result = some result →
      result.flags &&& methodFlagMinimal ≠ 0 → MinimalPayload result env.host keyset.size) := by
  constructor
  · intro options result built _
    exact stdmeth_payload_minimal_iff env options keyset small result built
  · intro impl result built _
    exact bbHash_payload_minimal env impl keyset small result built

def twoKeys : Keyset where
  keys := [.string (.ofBytes (ascii "apple")), .string (.ofBytes (ascii "pear"))]
  uniform := by decide

def ampleHost : BuildEnv where
  host := .little
  allocates _ := true
  now := 0

theorem minimal_payload_two_keys :
    (∀ options result, (stdmeth.build ampleHost options twoKeys).result = some result →
      result.flags &&& methodFlagMinimal ≠ 0 →
      (MinimalPayload result .little 2 ↔ (2 : Nat) = 0)) ∧
    (∀ impl result, (BBHash.method.build ampleHost impl twoKeys).result = some result →
      result.flags &&& methodFlagMinimal ≠ 0 → MinimalPayload result .little 2) :=
  minimal_payload_iff ampleHost twoKeys (by decide)

/-- The last two words are slots that no key has. -/
theorem stdmeth_pads_two_keys :
    ∃ result, (stdmeth.build ampleHost {} twoKeys).result = some result ∧
      result.flags &&& methodFlagMinimal ≠ 0 ∧ ¬ MinimalPayload result .little twoKeys.size := by
  refine ⟨_, rfl, by decide, ?_⟩
  intro minimal
  have size := minimal.1
  revert size
  decide

end Nuperf
