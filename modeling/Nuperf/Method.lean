import Nuperf.Library.HostWords
import Nuperf.Types

set_option autoImplicit false

namespace Nuperf

open ByteString CStandard HostWords

/-- A key as one of the `nuperf_keyset_add_*` functions takes it. -/
inductive Key
  | string (text : CString)
  | binary (data : Bytes)
  | uint32 (value : UInt32)
  | uint64 (value : UInt64)
  deriving DecidableEq

def Key.type : Key → KeyType
  | .string _ => .string
  | .binary _ => .binary
  | .uint32 _ => .uint32
  | .uint64 _ => .uint64

/-- A keyset holds keys of one type, in the order they were added. -/
structure Keyset where
  keys : List Key
  uniform : ∀ left ∈ keys, ∀ right ∈ keys, left.type = right.type

/-- `nuperf_keyset_size`. -/
def Keyset.size (keyset : Keyset) : Nat := keyset.keys.length

/-- `nuperf_keyset_type`. -/
def Keyset.type (keyset : Keyset) : KeyType :=
  match keyset.keys with
  | [] => .unknown
  | key :: _ => key.type

theorem Keyset.type_of_mem (keyset : Keyset) (key : Key) (member : key ∈ keyset.keys) :
    key.type = keyset.type := by
  unfold Keyset.type
  cases shape : keyset.keys with
  | nil => simp [shape] at member
  | cons first rest => exact keyset.uniform key member first (by simp [shape])

/-- `NUPERF_METHOD_FLAG_MINIMAL`. -/
def methodFlagMinimal : UInt32 := 1

/-- `nuperf_hash_result_t`. The payload is the `data_size` bytes behind `data`, and a
null `data` is `none`. -/
structure HashResult where
  methodName : Option CString
  keyType : KeyType
  keyCount : Nat
  flags : UInt32
  data : Option Bytes
  deriving DecidableEq

def HashResult.dataSize (result : HashResult) : Nat := (result.data.getD []).length

/-- The payload read as an array of `uint32_t` on a host of the given byte order. -/
def HashResult.words (result : HashResult) (host : ByteOrder) : List UInt32 :=
  HostWords.words host (result.data.getD [])

/-- What a build depends on besides its instance and keyset: the byte order of the
host, whether a table of so many words can be allocated, and the clock. -/
structure BuildEnv where
  host : ByteOrder
  allocates : Nat → Bool
  now : Int

/-- How a build ends, with the result it stored through `out_result`. -/
structure BuildReply (Impl : Type) where
  impl : Impl
  completion : Completion
  result : Option HashResult

/-- `for (i = 0; i < count; ++i) table[i] = static_cast<uint32_t>(i)`. -/
def fillTable (table : List UInt32) : Nat → List UInt32
  | 0 => table
  | count + 1 => (fillTable table count).set count (UInt32.ofNat count)

/-- The loop has filled the front of the table with its own indices. -/
theorem fillTable_eq (table : List UInt32) (count : Nat) (room : count ≤ table.length) :
    fillTable table count = (List.range count).map UInt32.ofNat ++ table.drop count := by
  induction count with
  | zero => rfl
  | succ count ih =>
      have below : count < table.length := by omega
      have filled : ((List.range count).map UInt32.ofNat).length = count := by
        rw [List.length_map, List.length_range]
      rw [fillTable, ih (by omega), List.set_append_right _ _ (by omega), filled, Nat.sub_self,
        List.drop_eq_getElem_cons below, List.set_cons_zero, List.range_succ, List.map_append,
        List.append_assoc]
      rfl

theorem fillTable_length (table : List UInt32) (count : Nat) :
    (fillTable table count).length = table.length := by
  induction count with
  | zero => rfl
  | succ count ih => rw [fillTable, List.length_set, ih]

/-- A method plugin: its option functions and its build past the null checks. -/
structure Method (Impl : Type) extends Accessors Impl where
  name : Bytes
  build : BuildEnv → Impl → Keyset → BuildReply Impl

/-- What a method says about its results: a build that returns `NUPERF_OK` stores one, and
no other does. It names the method and the keys, and its payload is made of whole words. -/
structure Method.Describes {Impl : Type} (method : Method Impl) : Prop where
  stored : ∀ env impl keyset, (method.build env impl keyset).completion = .ok .ok ↔
    (method.build env impl keyset).result.isSome = true
  result : ∀ env impl keyset result, (method.build env impl keyset).result = some result →
    result.methodName.map CString.bytes = some method.name ∧ result.keyType = keyset.type ∧
      result.keyCount = keyset.size ∧ result.dataSize = 4 * (result.words env.host).length

end Nuperf
