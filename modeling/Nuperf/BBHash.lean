import Nuperf.Method

set_option autoImplicit false

namespace Nuperf.BBHash

open ByteString Numeral CStandard HostWords

/-- `MethodImpl`. -/
structure MethodImpl where
  gamma : UInt32 := 2
  deriving DecidableEq

/-- `opts`. -/
def opts : List OptionDescriptor := [⟨ascii "gamma", ascii "BBHash gamma", .uint, ascii "2"⟩]

/-- `set_option`. `std::stoul` throws before the assignment, and nothing catches it. -/
def setOption (impl : MethodImpl) (key value : CString) : MethodImpl × Completion :=
  if key.bytes ≠ ascii "gamma" then (impl, .ok .errNotFound)
  else
    match stoul value.bytes with
    | .error thrown => (impl, .error thrown)
    | .ok parsed => ({ impl with gamma := UInt32.ofNat parsed }, .ok .ok)

/-- `get_option`, whose null buffer and small capacity share one test. -/
def getOption (impl : MethodImpl) (key : CString) (out : Option Bytes) (n : Nat) : GetReply :=
  if key.bytes ≠ ascii "gamma" then ⟨.errNotFound, out, n⟩
  else
    let text := decimal impl.gamma.toNat
    let need := text.length + 1
    if out.isNone ∨ n < need then
      ⟨if out.isSome then .errBufferTooSmall else .ok, out, need⟩
    else ⟨.ok, out.map (fun buffer => text ++ 0 :: buffer.drop need), need⟩

/-- `build`, where a failed allocation escapes as an exception. -/
def build (env : BuildEnv) (impl : MethodImpl) (keyset : Keyset) : BuildReply MethodImpl :=
  let n := keyset.size
  if env.allocates n then
    let table := fillTable (List.replicate n 0) n
    ⟨impl, .ok .ok, some
      { methodName := some ⟨ascii "BBHash", by decide⟩
        keyType := keyset.type
        keyCount := n
        flags := methodFlagMinimal
        data := some (wordBytes env.host table) }⟩
  else ⟨impl, .error (.standard (ascii "std::bad_alloc")), none⟩

/-- `method`. -/
def method : Method MethodImpl where
  options := opts
  create := {}
  set := setOption
  get := getOption
  name := ascii "BBHash"
  build := build

theorem method_describes : method.Describes where
  stored env impl keyset := by
    simp only [method, build]
    split_ifs <;> simp
  result env impl keyset result built := by
    simp only [method, build] at built
    split_ifs at built
    cases built
    refine ⟨rfl, rfl, rfl, ?_⟩
    simp only [HashResult.dataSize, HashResult.words, Option.getD_some, words_wordBytes,
      wordBytes_length]

end Nuperf.BBHash
