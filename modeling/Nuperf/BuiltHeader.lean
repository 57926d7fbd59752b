import Nuperf.EmitStructure
import Nuperf.MinimalPayload

set_option autoImplicit false

namespace Nuperf

open ByteString Numeral CStandard HostWords

/-- What the header that `stddef` writes for a built table tells its reader. -/
structure HeaderTells (env : BuildEnv) (opts : StddefOptions) (name : Bytes) (keyset : Keyset)
    (result : HashResult) : Prop where
  closed : EmitsClosed env.host opts result name
  counted : result.keyCount = keyset.size
  table : result.words env.host ≠ [] → ∀ sink text,
    SinkCall.write text ∈ (stddefEmit env.host sink opts result).2 →
    (decodeTable text = some ⟨opts.arrayName, result.words env.host,
        opts.arrayName ++ ascii "_size", (result.words env.host).length⟩ ↔
      opts.arrayName.length + (decimal (result.words env.host).length).length ≤ 34)

section Built

variable {Impl : Type} {method : Method Impl} (described : method.Describes) (env : BuildEnv)
variable (opts : StddefOptions) (array : IsIdentifier opts.arrayName)
variable (guard_ : IsIdentifier opts.guardPrefix) (impl : Impl) (keyset : Keyset)
variable (result : HashResult) (built : (method.build env impl keyset).result = some result)

include described array guard_ built

/-- A method of a short name has its whole name and count in the metadata comment. -/
theorem Method.Describes.closed (small : keyset.size < 2 ^ 64) (short : method.name.length ≤ 180)
    (oneLine : 10 ∉ method.name) (unended : ¬ ascii "*/" <:+: method.name) :
    EmitsClosed env.host opts result method.name := by
  obtain ⟨named, _, counted, _⟩ := described.result env impl keyset result built
  obtain ⟨name, given, bytes⟩ := Option.map_eq_some_iff.mp named
  have digits : (decimal result.keyCount).length ≤ 20 := by
    apply decimal_length_le _ _ (by decide)
    rw [counted]
    exact small.trans (by decide)
  rw [← bytes] at short oneLine unended ⊢
  exact emitsClosed_of_fits env.host opts result array guard_ name given oneLine unended
    (by omega) (.inl (by omega))

theorem Method.Describes.table (filled : result.words env.host ≠ [])
    (sink : SinkCall → Status) (text : Bytes)
    (written : SinkCall.write text ∈ (stddefEmit env.host sink opts result).2) :
    decodeTable text = some ⟨opts.arrayName, result.words env.host,
        opts.arrayName ++ ascii "_size", (result.words env.host).length⟩ ↔
      opts.arrayName.length + (decimal (result.words env.host).length).length ≤ 34 := by
  obtain ⟨_, _, _, whole⟩ := described.result env impl keyset result built
  rw [written_eq env.host sink opts result text written]
  cases payload : result.data with
  | none =>
      rw [HashResult.words, payload] at filled
      exact absurd rfl filled
  | some data =>
      have read : result.words env.host = words env.host data := by
        rw [HashResult.words, payload, Option.getD_some]
      rw [HashResult.dataSize, payload, Option.getD_some] at whole
      have positive : 1 ≤ (result.words env.host).length := List.length_pos_of_ne_nil filled
      have decoded :=
        decodeTable_iff env.host opts result data _ array guard_ payload whole positive
      rw [← read] at decoded
      exact decoded

end Built

end Nuperf
