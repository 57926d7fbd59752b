import Nuperf.Library.CStandard
import Nuperf.Library.OrderedMap

set_option autoImplicit false

namespace Nuperf.Serdetk

open ByteString CStandard OrderedMap

/-- `char_traits<char>::compare` orders bytes as unsigned numbers. -/
instance byteOrder : LinearOrder UInt8 where
  le_refl _ := Nat.le_refl _
  le_trans _ _ _ := Nat.le_trans
  le_antisymm _ _ := UInt8.le_antisymm
  le_total _ _ := Nat.le_total _ _
  lt_iff_le_not_ge left right := lt_iff_le_not_ge (a := left.toNat) (b := right.toNat)
  toDecidableLE := inferInstance
  toDecidableEq := inferInstance
  toDecidableLT := inferInstance

/-- `Value`. A `double` is kept as its bits, and the fields of an object in the order of
its `std::map`. -/
inductive Value
  | null
  | bool (value : Bool)
  | int (value : Int64)
  | uint (value : UInt64)
  | double (bits : UInt64)
  | string (text : Bytes)
  | binary (bytes : List UInt8)
  | object (fields : List (Bytes × Value))
  | array (items : List Value)

abbrev Fields := List (Bytes × Value)

/-- The fields of every object are those of a `std::map`. -/
inductive Value.WellFormed : Value → Prop
  | null : WellFormed .null
  | bool (value : Bool) : WellFormed (.bool value)
  | int (value : Int64) : WellFormed (.int value)
  | uint (value : UInt64) : WellFormed (.uint value)
  | double (bits : UInt64) : WellFormed (.double bits)
  | string (text : Bytes) : WellFormed (.string text)
  | binary (bytes : List UInt8) : WellFormed (.binary bytes)
  | object (fields : Fields) (sorted : Sorted fields)
      (members : ∀ field ∈ fields, field.2.WellFormed) : WellFormed (.object fields)
  | array (items : List Value) (members : ∀ item ∈ items, item.WellFormed) :
      WellFormed (.array items)

/-- `Document`, reduced to its root. -/
structure Document where
  root : Value
  wellFormed : root.WellFormed

/-- The floating-point conversions and comparisons of the platform, on the bits of a
`double`. -/
structure Floating where
  stod : Bytes → Except CxxException UInt64
  toString : UInt64 → Bytes
  print : UInt64 → Bytes
  ofInt64 : Int64 → UInt64
  ofUInt64 : UInt64 → UInt64
  equal : UInt64 → UInt64 → Bool
  less : UInt64 → UInt64 → Bool
  integral : UInt64 → Bool

end Nuperf.Serdetk
