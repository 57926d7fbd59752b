import Nuperf.Method

set_option autoImplicit false

namespace Nuperf

open ByteString Numeral CStandard HostWords

/-- The body of the loop of `hash32`. -/
def hash32Round (h : UInt32) (byte : UInt8) : UInt32 :=
  let h := h ^^^ byte.toUInt32
  let h := h * 0x5bd1e995
  h ^^^ h >>> 15

def hash32 (data : Bytes) (seed : UInt32) : UInt32 := data.foldl hash32Round seed

/-- `StdmethOptions`, with its default member initialisers. -/
structure StdmethOptions where
  bucketSize : UInt32 := 4
  maxIterations : UInt32 := 1000
  seed : UInt32 := 0
  seedSet : Bool := false
  deriving DecidableEq

/-- `g_stdmeth_options`. -/
def gStdmethOptions : List OptionDescriptor :=
  [⟨ascii "bucket_size", ascii "Number of keys per bucket", .uint, ascii "4"⟩,
   ⟨ascii "max_iterations", ascii "Maximum build iterations", .uint, ascii "1000"⟩,
   ⟨ascii "seed", ascii "Hash seed value", .uint, ascii "0"⟩]

/-- The block that `bucket_size` and `max_iterations` share:
`if (end == value || val <= 0) return NUPERF_ERR_INVALID_ARGUMENT`, then the narrowing
store. `strtol` gives none when `end == value`. -/
def storePositive (options : StdmethOptions) (value : CString) (store : UInt32 → StdmethOptions) :
    StdmethOptions × Completion :=
  match strtol value.bytes with
  | none => (options, .ok .errInvalidArgument)
  | some val =>
      if val ≤ 0 then (options, .ok .errInvalidArgument)
      else (store (UInt32.ofInt val), .ok .ok)

/-- `stdmeth_set_option`. -/
def stdmethSetOption (options : StdmethOptions) (key value : CString) :
    StdmethOptions × Completion :=
  if key.bytes = ascii "bucket_size" then
    storePositive options value fun val => { options with bucketSize := val }
  else if key.bytes = ascii "max_iterations" then
    storePositive options value fun val => { options with maxIterations := val }
  else if key.bytes = ascii "seed" then
    match strtol value.bytes with
    | none => (options, .ok .errInvalidArgument)
    | some val => ({ options with seed := UInt32.ofInt val, seedSet := true }, .ok .ok)
  else (options, .ok .errNotFound)

/-- `snprintf(buf, sizeof(buf), "%u", value)` into `char buf[32]`. -/
def printUnsigned (value : UInt32) : Bytes := snprintf 32 (decimal value.toNat)

/-- `stdmeth_get_option`. -/
def stdmethGetOption (options : StdmethOptions) (key : CString) (value : Option Bytes)
    (inoutSize : Nat) : GetReply :=
  if key.bytes = ascii "bucket_size" then
    copyOut (printUnsigned options.bucketSize) value inoutSize
  else if key.bytes = ascii "max_iterations" then
    copyOut (printUnsigned options.maxIterations) value inoutSize
  else if key.bytes = ascii "seed" then
    copyOut (printUnsigned options.seed) value inoutSize
  else ⟨.errNotFound, value, inoutSize⟩

/-- `stdmeth_build`. The table is an identity filling of the first half of twice as many
zeroed words, and the `catch (...)` turns a failed allocation into a status. -/
def stdmethBuild (env : BuildEnv) (options : StdmethOptions) (keyset : Keyset) :
    BuildReply StdmethOptions :=
  let options :=
    if options.seedSet then options else { options with seed := UInt32.ofInt env.now }
  let keyCount := keyset.size
  let tableSize := keyCount * 2 % 2 ^ 64
  if env.allocates tableSize then
    let tableData := fillTable (List.replicate tableSize 0) keyCount
    ⟨options, .ok .ok, some
      { methodName := some ⟨ascii "stdmeth", by decide⟩
        keyType := keyset.type
        keyCount := keyCount
        flags := methodFlagMinimal
        data := some (wordBytes env.host tableData) }⟩
  else ⟨options, .ok .errOutOfMemory, none⟩

/-- `g_stdmeth_method`. -/
def stdmeth : Method StdmethOptions where
  options := gStdmethOptions
  create := {}
  set := stdmethSetOption
  get := stdmethGetOption
  name := ascii "stdmeth"
  build := stdmethBuild

theorem maxIterations_ne_bucketSize : ascii "max_iterations" ≠ ascii "bucket_size" := by decide

theorem seed_ne_bucketSize : ascii "seed" ≠ ascii "bucket_size" := by decide

theorem seed_ne_maxIterations : ascii "seed" ≠ ascii "max_iterations" := by decide

theorem printUnsigned_eq (value : UInt32) : printUnsigned value = decimal value.toNat := by
  have bound : value.toNat < 10 ^ 10 := Nat.lt_of_lt_of_le value.toNat_lt (by decide)
  have short := decimal_length_le value.toNat 10 (by decide) bound
  exact snprintf_fits 32 _ (by omega) (decimal_nulFree _)

theorem stdmeth_describes : stdmeth.Describes where
  stored env options keyset := by
    show (stdmethBuild env options keyset).completion = _ ↔
      (stdmethBuild env options keyset).result.isSome = true
    unfold stdmethBuild
    dsimp only
    by_cases fits : env.allocates (keyset.size * 2 % 2 ^ 64) = true
    · simp only [fits, ↓reduceIte, Option.isSome_some]
    · simp only [fits, Bool.false_eq_true, ↓reduceIte, Except.ok.injEq, reduceCtorEq,
        Option.isSome_none]
  result env options keyset result built := by
    change (stdmethBuild env options keyset).result = some result at built
    unfold stdmethBuild at built
    dsimp only at built
    by_cases fits : env.allocates (keyset.size * 2 % 2 ^ 64) = true
    · rw [if_pos fits] at built
      cases built
      refine ⟨rfl, rfl, rfl, ?_⟩
      simp only [HashResult.dataSize, HashResult.words, Option.getD_some, words_wordBytes,
        wordBytes_length]
    · rw [if_neg fits] at built
      cases built

end Nuperf
