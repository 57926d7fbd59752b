import Nuperf.Library.CStandard

set_option autoImplicit false

namespace Nuperf

open ByteString CStandard

/-- `nuperf_status_t`, in the order of the header. -/
inductive Status
  | ok
  | errInvalidArgument
  | errOutOfMemory
  | errNotFound
  | errAlreadyExists
  | errNotBuilt
  | errAlreadyBuilt
  | errUnsupported
  | errInvalidData
  | errIo
  | errBufferTooSmall
  | errInvalidState
  | errBuildFailed
  | errEmitFailed
  | errInternal
  deriving DecidableEq, Repr

/-- `nuperf_key_type_t`. -/
inductive KeyType
  | unknown
  | string
  | binary
  | uint32
  | uint64
  deriving DecidableEq, Repr

/-- `nuperf_option_type_t`. -/
inductive OptionType
  | string
  | bool
  | int
  | uint
  | float
  deriving DecidableEq, Repr

/-- `nuperf_method_option_t` and `nuperf_target_option_t`, which have the same members. -/
structure OptionDescriptor where
  name : Bytes
  description : Bytes
  type : OptionType
  defaultValue : Bytes
  deriving DecidableEq

/-- `nuperf_method_instance_t` and `nuperf_target_instance_t`, reduced to the member the
plugins read back. A null `impl` is `none`. -/
structure Instance (Impl : Type) where
  impl : Option Impl

/-- How a call through a plugin's function pointer ends: with a status, or with an
exception that crosses the C boundary. -/
abbrev Completion := Except CxxException Status

/-- What `get_option` leaves behind: its status, the caller's buffer when there is one,
and `*inout_size`. -/
structure GetReply where
  status : Status
  value : Option Bytes
  inoutSize : Nat
  deriving DecidableEq

/-- The option table of a plugin and its option functions past their null checks. -/
structure Accessors (Impl : Type) where
  options : List OptionDescriptor
  create : Impl
  set : Impl → CString → CString → Impl × Completion
  get : Impl → CString → Option Bytes → Nat → GetReply

/-- `set_option`, starting with
`if (!instance || !instance->impl || !key || !value) return NUPERF_ERR_INVALID_ARGUMENT`. -/
def Accessors.setOption {Impl : Type} (plugin : Accessors Impl) :
    Option (Instance Impl) → Option CString → Option CString →
      Option (Instance Impl) × Completion
  | some ⟨some impl⟩, some key, some value =>
      let (next, completion) := plugin.set impl key value
      (some ⟨some next⟩, completion)
  | held, _, _ => (held, .ok .errInvalidArgument)

/-- `get_option`, with the same null checks on the instance, the key and `inout_size`.
A null `inout_size` is `none`, and then nothing is written. -/
def Accessors.getOption {Impl : Type} (plugin : Accessors Impl) :
    Option (Instance Impl) → Option CString → Option Bytes → Option Nat →
      Status × Option Bytes × Option Nat
  | some ⟨some impl⟩, some key, value, some inoutSize =>
      let reply := plugin.get impl key value inoutSize
      (reply.status, reply.value, some reply.inoutSize)
  | _, _, value, inoutSize => (.errInvalidArgument, value, inoutSize)

/-- A null argument is reported and changes nothing. -/
theorem Accessors.setOption_null {Impl : Type} (plugin : Accessors Impl)
    (held : Option (Instance Impl)) (key value : Option CString)
    (null : (held.bind Instance.impl).isNone ∨ key = none ∨ value = none) :
    plugin.setOption held key value = (held, .ok .errInvalidArgument) := by
  rcases held with _ | ⟨_ | impl⟩ <;> rcases key with _ | key <;> rcases value with _ | value <;>
    simp_all [Accessors.setOption]

theorem Accessors.getOption_null {Impl : Type} (plugin : Accessors Impl)
    (held : Option (Instance Impl)) (key : Option CString) (value : Option Bytes)
    (inoutSize : Option Nat)
    (null : (held.bind Instance.impl).isNone ∨ key = none ∨ inoutSize = none) :
    plugin.getOption held key value inoutSize = (.errInvalidArgument, value, inoutSize) := by
  rcases held with _ | ⟨_ | impl⟩ <;> rcases key with _ | key <;>
    rcases inoutSize with _ | inoutSize <;> simp_all [Accessors.getOption]

/-- The state after a sequence of `set_option` calls on one instance. -/
def Accessors.run {Impl : Type} (plugin : Accessors Impl) (impl : Impl)
    (calls : List (CString × CString)) : Impl :=
  calls.foldl (fun current call => (plugin.set current call.1 call.2).1) impl

/-- `std::memcpy(value, text, needed)` after the size checks that `stdmeth_get_option`
and `stddef_get_option` share. -/
def copyOut (text : Bytes) (value : Option Bytes) (inoutSize : Nat) : GetReply :=
  let needed := text.length + 1
  match value with
  | none => ⟨.ok, none, needed⟩
  | some buffer =>
      if inoutSize < needed then ⟨.errBufferTooSmall, some buffer, needed⟩
      else ⟨.ok, some (text ++ 0 :: buffer.drop needed), needed⟩

end Nuperf
