import Mathlib

set_option autoImplicit false

/- Byte strings as length-counted values, and the NUL-terminated view that a C
interface takes of them. -/
namespace ByteString

abbrev Bytes := List UInt8

/-- The bytes of an ASCII literal. -/
def ascii (text : String) : Bytes :=
  text.toList.map fun c => UInt8.ofNat c.toNat

def NulFree (text : Bytes) : Prop := 0 ∉ text

instance (text : Bytes) : Decidable (NulFree text) :=
  inferInstanceAs (Decidable (0 ∉ text))

/-- What a reader of a NUL-terminated string sees of the bytes behind `c_str()`. -/
def cstr (text : Bytes) : Bytes := text.takeWhile (· != 0)

theorem cstr_nulFree (text : Bytes) : NulFree (cstr text) := by
  intro member
  have nonzero := List.mem_takeWhile_imp member
  simp at nonzero

theorem cstr_eq_self_iff (text : Bytes) : cstr text = text ↔ NulFree text := by
  rw [cstr, List.takeWhile_eq_self_iff]
  constructor
  · intro all member
    simpa using all 0 member
  · intro free byte member
    simp only [bne_iff_ne, ne_eq]
    rintro rfl
    exact free member

theorem NulFree.cstr {text : Bytes} (free : NulFree text) : cstr text = text :=
  (cstr_eq_self_iff text).mpr free

theorem nulFree_append (front back : Bytes) :
    NulFree (front ++ back) ↔ NulFree front ∧ NulFree back := by
  simp only [NulFree, List.mem_append, not_or]

/-- A string handed over by a C caller. -/
structure CString where
  bytes : Bytes
  nulFree : NulFree bytes
  deriving DecidableEq

theorem CString.ext {left right : CString} (same : left.bytes = right.bytes) : left = right := by
  cases left
  cases right
  cases same
  rfl

/-- The C string a callee receives from `text.c_str()`. -/
def CString.ofBytes (text : Bytes) : CString := ⟨cstr text, cstr_nulFree text⟩

@[simp] theorem CString.ofBytes_bytes (text : Bytes) :
    (CString.ofBytes text).bytes = cstr text := rfl

@[simp] theorem CString.cstr_bytes (text : CString) : cstr text.bytes = text.bytes :=
  text.nulFree.cstr

end ByteString
