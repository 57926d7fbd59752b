import Nuperf.Library.CallProgram
import Nuperf.SchemaIO
import Nuperf.Types

set_option autoImplicit false

namespace Nuperf.Cli

open ByteString CStandard TextReader Serdetk CallProgram

/-- A `nuperf_keyset_t *` or `nuperf_table_t *`. -/
abbrev Handle := Nat

/-- The library calls that `cmd_build_run` expects to return `NUPERF_OK`. -/
inductive StatusCall
  | addString (keyset : Handle) (key : CString)
  | setKeyset (table keyset : Handle)
  | setMethod (table : Handle) (name : CString)
  | setTarget (table : Handle) (name : CString)
  | setOption (table : Handle) (key value : CString)
  | tableBuild (table : Handle)
  | emitFile (table : Handle) (path : CString)
  deriving DecidableEq

/-- What `cmd_build_run` asks of the library and of the standard streams. Of
`nuperf_table_emit_buffer`, the call with a null buffer is kept apart. -/
inductive BuildCall
  | keysetCreate
  | keysetDestroy (keyset : Handle)
  | tableCreate
  | tableDestroy (table : Handle)
  | status (c : StatusCall)
  | emitSize (table : Handle)
  | emitBuffer (table : Handle) (capacity : Nat)
  | cerr (text : Bytes)
  | cout (text : Bytes)
  deriving DecidableEq

/-- What comes back: a status, with the new handle, or with the size and the bytes of the
buffer. -/
abbrev BuildReply : BuildCall → Type
  | .keysetCreate => Status × Handle
  | .tableCreate => Status × Handle
  | .status _ => Status
  | .emitSize _ => Status × Nat
  | .emitBuffer _ _ => Status × Nat × Bytes
  | _ => Unit

abbrev BuildEvent := Event BuildCall BuildReply

/-- A stretch of `cmd_build_run`. It exits early with the code that is returned. -/
abbrev Run := Program BuildCall BuildReply Nat

def ask (c : BuildCall) : Run (BuildReply c) := Program.perform c

/-- The arguments of `cmd_build_run`, C strings of the command line. -/
structure BuildArguments where
  inputPath : CString
  outputPath : CString
  method : CString
  target : CString
  options : List CString
  inputFormat : InputFormat
  schemaPath : CString
  schemaDumpPath : CString

/-- What the command finds: the readers, the files, the standard input, and the texts of
`nuperf_strerror`. -/
structure Host where
  loaders : Loaders
  files : FileSystem
  stdin : Bytes
  strerror : Status → Bytes

/-- `effective_method`, `effective_target` and `effective_options`. -/
structure Settings where
  method : Bytes
  target : Bytes
  options : List Bytes

section Ending

variable {α : Type} (keyset table : Handle)

def cleanup : Run Unit := do
  ask (.tableDestroy table)
  ask (.keysetDestroy keyset)

/-- `std::cerr << message`, `cleanup()` and `return 1`. -/
def giveUp (message : Bytes) : Run α := do
  ask (.cerr (message ++ ascii "\n"))
  cleanup keyset table
  .exit 1

/-- The handling of a status that should be `NUPERF_OK`. -/
def check (host : Host) (what : Bytes) (st : Status) : Run Unit :=
  if st = .ok then pure () else giveUp keyset table (what ++ ascii ": " ++ host.strerror st)

def must (host : Host) (what : Bytes) (c : StatusCall) : Run Unit := do
  let st ← ask (.status c)
  check keyset table host what st

end Ending

section Stages

variable (host : Host) (args : BuildArguments)

def openHandles : Run (Handle × Handle) := do
  let (st, keyset) ← ask .keysetCreate
  unless st = .ok do
    ask (.cerr (ascii "keyset_create: " ++ host.strerror st ++ ascii "\n"))
    Program.exit 1
  let (st, table) ← ask .tableCreate
  unless st = .ok do
    ask (.cerr (ascii "table_create: " ++ host.strerror st ++ ascii "\n"))
    ask (.keysetDestroy keyset)
    Program.exit 1
  pure (keyset, table)

/-- The settings before a document is read. -/
def flagSettings : Settings where
  method := if args.method.bytes = [] then ascii "stdmeth" else args.method.bytes
  target := if args.target.bytes = [] then ascii "stddef" else args.target.bytes
  options := args.options.map CString.bytes

/-- The settings after a document is read. -/
def Settings.merge (effective : Settings) (request : BuildRequest) : Settings where
  method := if effective.method = [] then request.method else effective.method
  target := if effective.target = [] then request.target else effective.target
  options := effective.options ++ request.options

/-- Standing for the standard streams. -/
def isStandard (path : Bytes) : Prop := path = [] ∨ path = ascii "-"

instance (path : Bytes) : Decidable (isStandard path) :=
  inferInstanceAs (Decidable (path = [] ∨ path = ascii "-"))

/-- `opt.find('=')` and the two `substr`. -/
def splitOption (opt : Bytes) : Option (Bytes × Bytes) :=
  match readRun (· != 61) opt with
  | (name, _ :: value) => some (name, value)
  | (_, []) => none

variable (keyset table : Handle)

def dumpSchema : Run FileSystem :=
  if args.schemaDumpPath.bytes = [] then pure host.files
  else
    match dumpDatasetSchema host.loaders.toFloating host.files args.schemaDumpPath.bytes with
    | .ok files => pure files
    | .error error => giveUp keyset table (ascii "dump-json-schema: " ++ error)

def addKey (key : Bytes) : Run Unit :=
  must keyset table host (ascii "add_string") (.addString keyset (CString.ofBytes key))

/-- The loop over `request.keys`. -/
def addKeys : List Bytes → Run Unit
  | [] => pure ()
  | key :: rest => do
      addKey host keyset table key
      addKeys rest

/-- The loop of `std::getline`. -/
def addLines : List Bytes → Run Unit
  | [] => pure ()
  | line :: rest => do
      unless line = [] do addKey host keyset table line
      addLines rest

/-- The stream that keys are read from line by line. -/
def openInput (files : FileSystem) : Run Bytes :=
  if isStandard args.inputPath.bytes then pure host.stdin
  else
    match files.contents args.inputPath.bytes with
    | some text => pure text
    | none => giveUp keyset table (ascii "failed to open input: " ++ args.inputPath.bytes)

def ingestLines (files : FileSystem) : Run Settings := do
  let text ← openInput host args keyset table files
  addLines host keyset table (lines text)
  pure (flagSettings args)

def ingestRequest (files : FileSystem) : Run Settings :=
  if isStandard args.inputPath.bytes then
    giveUp keyset table (ascii "structured imports require a file path")
  else
    match loadBuildRequest host.loaders files args.inputPath.bytes args.inputFormat
        args.schemaPath.bytes [] {} with
    | .ok () request => do
        addKeys host keyset table request.keys
        pure ((flagSettings args).merge request)
    | .error error _ => giveUp keyset table (ascii "structured import failed: " ++ error)

def ingest (files : FileSystem) : Run Settings :=
  if args.inputFormat = .lines then ingestLines host args keyset table files
  else ingestRequest host args keyset table files

def setOptions : List Bytes → Run Unit
  | [] => pure ()
  | opt :: rest =>
      match splitOption opt with
      | none => giveUp keyset table (ascii "invalid --option, expected key=value: " ++ opt)
      | some (name, value) => do
          must keyset table host (ascii "set_option(" ++ opt ++ ascii ")")
            (.setOption table (CString.ofBytes name) (CString.ofBytes value))
          setOptions rest

def configure (settings : Settings) : Run Unit := do
  must keyset table host (ascii "set_keyset") (.setKeyset table keyset)
  unless settings.method = [] do
    must keyset table host (ascii "set_method")
      (.setMethod table (CString.ofBytes settings.method))
  unless settings.target = [] do
    must keyset table host (ascii "set_target")
      (.setTarget table (CString.ofBytes settings.target))
  setOptions host keyset table settings.options

def emitTable : Run Unit :=
  if isStandard args.outputPath.bytes then do
    let (st, size) ← ask (.emitSize table)
    unless st = .ok ∨ st = .errBufferTooSmall do
      giveUp keyset table (ascii "emit size query: " ++ host.strerror st)
    let (st, size, out) ← ask (.emitBuffer table size)
    check keyset table host (ascii "emit buffer") st
    ask (.cout (out.take size))
  else must keyset table host (ascii "emit file") (.emitFile table args.outputPath)

end Stages

/-- `cmd_build_run`. -/
def cmdBuildRun (host : Host) (args : BuildArguments) : Run Nat := do
  let (keyset, table) ← openHandles host
  let files ← dumpSchema host args keyset table
  let settings ← ingest host args keyset table files
  configure host keyset table settings
  must keyset table host (ascii "build") (.tableBuild table)
  emitTable host args keyset table
  cleanup keyset table
  pure 0

end Nuperf.Cli
