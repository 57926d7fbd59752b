import Nuperf.Method

set_option autoImplicit false

namespace Nuperf

open ByteString Numeral CStandard HostWords

/-- `StddefOptions`, with its default member initialisers. -/
structure StddefOptions where
  arrayName : Bytes := ascii "nuperf_table"
  emitHeaderGuard : Bool := true
  guardPrefix : Bytes := ascii "NUPERF_TABLE"
  deriving DecidableEq

/-- `g_stddef_options`. -/
def gStddefOptions : List OptionDescriptor :=
  [⟨ascii "array_name", ascii "Name of the generated array symbol", .string,
      ascii "nuperf_table"⟩,
   ⟨ascii "emit_header_guard", ascii "Whether to emit header guard", .bool, ascii "true"⟩,
   ⟨ascii "guard_prefix", ascii "Prefix for header guard macro", .string,
      ascii "NUPERF_TABLE"⟩]

/-- `stddef_set_option`. -/
def stddefSetOption (options : StddefOptions) (key value : CString) :
    StddefOptions × Completion :=
  if key.bytes = ascii "array_name" then ({ options with arrayName := value.bytes }, .ok .ok)
  else if key.bytes = ascii "emit_header_guard" then
    if value.bytes = ascii "true" ∨ value.bytes = ascii "1" then
      ({ options with emitHeaderGuard := true }, .ok .ok)
    else if value.bytes = ascii "false" ∨ value.bytes = ascii "0" then
      ({ options with emitHeaderGuard := false }, .ok .ok)
    else (options, .ok .errInvalidArgument)
  else if key.bytes = ascii "guard_prefix" then
    ({ options with guardPrefix := value.bytes }, .ok .ok)
  else (options, .ok .errNotFound)

/-- `stddef_get_option`. -/
def stddefGetOption (options : StddefOptions) (key : CString) (value : Option Bytes)
    (inoutSize : Nat) : GetReply :=
  if key.bytes = ascii "array_name" then copyOut options.arrayName value inoutSize
  else if key.bytes = ascii "emit_header_guard" then
    copyOut (if options.emitHeaderGuard then ascii "true" else ascii "false") value inoutSize
  else if key.bytes = ascii "guard_prefix" then copyOut options.guardPrefix value inoutSize
  else ⟨.errNotFound, value, inoutSize⟩

/-- The option functions of `g_stddef_target`. -/
def stddef : Accessors StddefOptions where
  options := gStddefOptions
  create := {}
  set := stddefSetOption
  get := stddefGetOption

/-- `snprintf(buf, sizeof(buf), "    0x%08x", word)` into `char buf[32]`. -/
def emitWord (word : UInt32) : Bytes := snprintf 32 (ascii "    0x" ++ fixedHex 8 word.toNat)

/-- The element loop: every line but the last carries a comma. -/
def emitWords : List UInt32 → Bytes
  | [] => []
  | [word] => emitWord word ++ ascii "\n"
  | word :: rest => emitWord word ++ ascii "," ++ ascii "\n" ++ emitWords rest

/-- `size_buf`: the declaration of the element count, formatted into 64 bytes. -/
def sizeBuf (arrayName : Bytes) (count : Nat) : Bytes :=
  snprintf 64 (ascii "static const size_t " ++ cstr arrayName ++ ascii "_size = " ++
    decimal count ++ ascii ";\n\n")

/-- `meta_buf`: the metadata comment, formatted into 256 bytes. -/
def metaBuf (result : HashResult) : Bytes :=
  let methodName := match result.methodName with
    | some name => name.bytes
    | none => ascii "unknown"
  snprintf 256 (ascii "/* Generated by NuPERF\n * Method: " ++ methodName ++ ascii "\n * Keys: " ++
    decimal result.keyCount ++ ascii "\n */\n\n")

/-- What precedes the array definition. -/
def preamble (opts : StddefOptions) : Bytes :=
  (if opts.emitHeaderGuard then
    ascii "#ifndef " ++ opts.guardPrefix ++ ascii "_H\n" ++
      (ascii "#define " ++ opts.guardPrefix ++ ascii "_H\n\n")
  else []) ++
  (ascii "#include <stddef.h>\n" ++ ascii "#include <stdint.h>\n\n") ++
  ascii "#ifdef __cplusplus\nextern \"C\" \x7b\n#endif\n\n"

/-- The array definition and the declaration of its size. -/
def definitions (host : ByteOrder) (opts : StddefOptions) (result : HashResult) : Bytes :=
  match result.data with
  | some (byte :: rest) =>
      let data := words host (byte :: rest)
      let count := (byte :: rest).length / 4
      ascii "static const uint32_t " ++ opts.arrayName ++ ascii "[] = \x7b\n" ++
        emitWords data ++ ascii "\x7d;\n\n" ++ sizeBuf opts.arrayName count
  | _ =>
      ascii "static const uint32_t " ++ opts.arrayName ++ ascii "[] = \x7b\x7d;\n" ++
        (ascii "static const size_t " ++ opts.arrayName ++ ascii "_size = 0;\n\n")

/-- What follows the definitions. -/
def postamble (opts : StddefOptions) (result : HashResult) : Bytes :=
  metaBuf result ++ ascii "#ifdef __cplusplus\n\x7d\n#endif\n\n" ++
    (if opts.emitHeaderGuard then ascii "#endif /* " ++ opts.guardPrefix ++ ascii "_H */\n" else [])

/-- `output` as `stddef_emit` passes it to the sink. -/
def emitOutput (host : ByteOrder) (opts : StddefOptions) (result : HashResult) : Bytes :=
  preamble opts ++ definitions host opts result ++ postamble opts result

/-- `nuperf_artifact_kind_t`. -/
inductive ArtifactKind
  | unknown
  | source
  | header
  | script
  | binary
  | metadata
  deriving DecidableEq, Repr

/-- A call that a target makes on its `nuperf_emit_sink_t`. -/
inductive SinkCall
  | beginArtifact (name : CString) (kind : ArtifactKind)
  | write (data : Bytes)
  | endArtifact
  deriving DecidableEq

/-- `stddef_emit` past its null checks, against a sink that answers each call with a
status. The calls made are returned in order. -/
def stddefEmit (host : ByteOrder) (sink : SinkCall → Status) (opts : StddefOptions)
    (result : HashResult) : Status × List SinkCall :=
  let begin_ := SinkCall.beginArtifact (.ofBytes (opts.arrayName ++ ascii ".h")) .header
  if sink begin_ ≠ .ok then (sink begin_, [begin_])
  else
    let write := SinkCall.write (emitOutput host opts result)
    if sink write ≠ .ok then (sink write, [begin_, write])
    else (sink .endArtifact, [begin_, write, .endArtifact])

theorem emitHeaderGuard_ne_arrayName : ascii "emit_header_guard" ≠ ascii "array_name" := by decide

theorem guardPrefix_ne_arrayName : ascii "guard_prefix" ≠ ascii "array_name" := by decide

theorem guardPrefix_ne_emitHeaderGuard :
    ascii "guard_prefix" ≠ ascii "emit_header_guard" := by decide

end Nuperf
