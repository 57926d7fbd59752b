import Nuperf.Library.HostWords

set_option autoImplicit false

namespace Nuperf.Util

open ByteString HostWords

/-- `FNV_OFFSET_BASIS_64`. -/
def fnvOffsetBasis64 : UInt64 := 14695981039346656037

/-- `FNV_PRIME_64`. -/
def fnvPrime64 : UInt64 := 1099511628211

/-- `FMIX32_C1`. -/
def fmix32C1 : UInt32 := 0x85ebca6b

/-- `FMIX32_C2`. -/
def fmix32C2 : UInt32 := 0xc2b2ae35

def rotl32 (x r : UInt32) : UInt32 := x <<< r ||| x >>> (32 - r)

def fmix32 (h : UInt32) : UInt32 :=
  let h := h ^^^ h >>> 16
  let h := h * fmix32C1
  let h := h ^^^ h >>> 13
  let h := h * fmix32C2
  h ^^^ h >>> 16

/-- The body of both `fnv1a_64` loops. -/
def fnvRound (h : UInt64) (byte : UInt8) : UInt64 := (h ^^^ byte.toUInt64) * fnvPrime64

/-- `fnv1a_64`, of a pointer and a size. -/
def fnv1a64 (data : Bytes) : UInt64 := data.foldl fnvRound fnvOffsetBasis64

/-- The value of a `char`, a type that is signed on some platforms. -/
def charValue (signed : Bool) (byte : UInt8) : Int :=
  if signed then byte.toInt8.toInt else byte.toNat

/-- `while (*s)` with the round that it makes of `static_cast<uint8_t>(*s++)`. The memory is
given from `s` on, and a loop that has read all of it leaves it. -/
def terminatedLoop {State : Type} (signed : Bool) (round : State → UInt8 → State) :
    State → Bytes → Option State
  | _, [] => none
  | h, byte :: rest =>
      let c := charValue signed byte
      if c = 0 then some h else terminatedLoop signed round (round h (UInt8.ofInt c)) rest

/-- `fnv1a_64`, of a pointer that may be null. -/
def fnv1a64Terminated (signed : Bool) (s : Option Bytes) : Option UInt64 :=
  match s with
  | none => some fnvOffsetBasis64
  | some memory => terminatedLoop signed fnvRound fnvOffsetBasis64 memory

/-- `c1` of `murmur3_32`. -/
def murmurC1 : UInt32 := 0xcc9e2d51

/-- `c2` of `murmur3_32`. -/
def murmurC2 : UInt32 := 0x1b873593

/-- `k1 *= c1; k1 = rotl32(k1, 15); k1 *= c2`. -/
def scramble (k1 : UInt32) : UInt32 := rotl32 (k1 * murmurC1) 15 * murmurC2

/-- One block of the loop. -/
def blockRound (h1 k1 : UInt32) : UInt32 :=
  rotl32 (h1 ^^^ scramble k1) 13 * 5 + 0xe6546b64

/-- The loop over the whole blocks. `read_u32_le` copies their bytes, so that each word is
read in the order of the host. -/
def blockLoop (host : ByteOrder) (data : Bytes) (h1 : UInt32) : UInt32 :=
  (words host data).foldl blockRound h1

/-- `k1` as the `switch` over `size & 3` puts it together. -/
def tailKey : Bytes → UInt32
  | [a, b, c] => (0 : UInt32) ^^^ c.toUInt32 <<< 16 ^^^ b.toUInt32 <<< 8 ^^^ a.toUInt32
  | [a, b] => (0 : UInt32) ^^^ b.toUInt32 <<< 8 ^^^ a.toUInt32
  | [a] => (0 : UInt32) ^^^ a.toUInt32
  | _ => 0

/-- `tail`: the bytes behind the whole blocks. -/
def tailBytes (data : Bytes) : Bytes := data.drop (data.length / 4 * 4)

/-- The `switch`, which mixes a tail in if there is one. -/
def absorbTail (tail : Bytes) (h1 : UInt32) : UInt32 :=
  if tail = [] then h1 else h1 ^^^ scramble (tailKey tail)

def murmur3_32 (host : ByteOrder) (data : Bytes) (seed : UInt32) : UInt32 :=
  let h1 := blockLoop host data seed
  let h1 := absorbTail (tailBytes data) h1
  fmix32 (h1 ^^^ UInt32.ofNat data.length)

/-- `hash_bytes`. -/
def hashBytes (host : ByteOrder) (data : Bytes) (seed : UInt32) : UInt32 :=
  murmur3_32 host data seed

/-- `hash_string`, of a pointer that may be null. -/
def hashString (host : ByteOrder) (s : Option CString) (seed : UInt32) : UInt32 :=
  match s with
  | none => murmur3_32 host [] seed
  | some text => murmur3_32 host text.bytes seed

/-- `hash_u32`, which hashes the memory of its argument. -/
def hashU32 (host : ByteOrder) (value seed : UInt32) : UInt32 :=
  murmur3_32 host (writeWord host value) seed

/-- `hash_u64`. -/
def hashU64 (host : ByteOrder) (value : UInt64) (seed : UInt32) : UInt32 :=
  murmur3_32 host (writeLong host value) seed

end Nuperf.Util
