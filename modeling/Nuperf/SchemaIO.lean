import Nuperf.JsonTotal
import Nuperf.SerdeValidator

set_option autoImplicit false

namespace Nuperf.Cli

open ByteString Numeral CStandard Serdetk

/-- `InputFormat`. -/
inductive InputFormat
  | lines
  | json
  | yaml
  | sexpr
  | xml
  deriving DecidableEq

/-- `BuildRequest`. -/
structure BuildRequest where
  keys : List Bytes := []
  method : Bytes := []
  target : Bytes := []
  options : List Bytes := []
  deriving DecidableEq

/-- What the importer stands on: the C++ standard library, and the readers of the formats
other than JSON. -/
structure Loaders extends Platform where
  yaml : Bytes → Except CxxException Document
  sexpr : Bytes → Except CxxException Document
  xml : Bytes → Except CxxException Document

/-- The files as the importer sees them: what reading a path yields, and which paths can be
opened for writing. -/
structure FileSystem where
  contents : Bytes → Option Bytes
  writable : Bytes → Bool

/-- `read_text_file`. -/
def readTextFile (fs : FileSystem) (path : Bytes) : Except CxxException Bytes :=
  match fs.contents path with
  | some text => .ok text
  | none => .error (.standard (ascii "Failed to open file for reading: " ++ path))

/-- `write_text_file`. -/
def writeTextFile (fs : FileSystem) (path text : Bytes) : Except CxxException FileSystem :=
  if fs.writable path then
    .ok { fs with contents := fun name => if name = path then some text else fs.contents name }
  else .error (.standard (ascii "Failed to open file for writing: " ++ path))

/-- `json::from_string`. -/
def jsonFromString (fp : Floating) (text : Bytes) : Except CxxException Document :=
  match loaded : jsonLoadString fp text with
  | .ok root => .ok ⟨root, jsonLoadString_wellFormed fp text root loaded⟩
  | .error thrown => .error thrown

section Import

variable (env : Loaders) (fs : FileSystem)

/-- `load_document`. -/
def loadDocument (path : Bytes) : InputFormat → Except CxxException Document
  | .json => do jsonFromString env.toFloating (← readTextFile fs path)
  | .yaml => do env.yaml (← readTextFile fs path)
  | .sexpr => do env.sexpr (← readTextFile fs path)
  | .xml => do env.xml (← readTextFile fs path)
  | .lines => .ok ⟨.null, .null⟩

/-- The text that a `catch (const std::exception &)` and a `catch (...)` make of an exception. -/
def caught (foreign : Bytes) : CxxException → Bytes
  | .standard what => what
  | .foreign => foreign

/-- `validate_document`: the error text when it returns false. -/
def validateDocument (document : Document) (schemaPath : Bytes) : Except Bytes Unit :=
  if schemaPath = [] then .ok ()
  else
    let report : Except CxxException ValidationReport := do
      let schema ← jsonFromString env.toFloating (← readTextFile fs schemaPath)
      validatorValidate env.toPlatform schema.root document.root
    match report with
    | .ok report => if report.success then .ok () else .error report.print
    | .error thrown => .error (caught (ascii "schema validation failed") thrown)

/-- A function that fills in `out_request` and returns a `bool`. Returning false, it has set
`out_error`, and the request keeps what it was given until then. -/
abbrev Extraction := EStateM Bytes BuildRequest Unit

/-- The loop of `collect_keys_from_value`. -/
def collectItems : List Value → Extraction
  | [] => pure ()
  | .string text :: rest => do
      modify fun request => { request with keys := request.keys ++ [text] }
      collectItems rest
  | _ :: _ => throw (ascii "all keys must be strings")

/-- `collect_keys_from_value`. -/
def collectKeysFromValue : Value → Extraction
  | .array items => collectItems items
  | _ => throw (ascii "keys must be an array")

/-- The text after the `=` of an option. -/
def optionText (fp : Floating) : Value → Option Bytes
  | .string text => some text
  | .bool value => some (if value then ascii "true" else ascii "false")
  | .int value => some (signedDecimal value.toInt)
  | .uint value => some (decimal value.toNat)
  | .double bits => some (fp.toString bits)
  | _ => none

def optionEntry (name text : Bytes) : Bytes := name ++ ascii "=" ++ text

/-- The loop over the members of `options`. -/
def collectOptions (fp : Floating) : List (Bytes × Value) → Extraction
  | [] => pure ()
  | (name, value) :: rest =>
      match optionText fp value with
      | some text => do
          modify fun request =>
            { request with options := request.options ++ [optionEntry name text] }
          collectOptions fp rest
      | none => throw (ascii "option values must be scalar")

/-- The keys of an object, from `keys` or else from `dataset`. -/
def extractKeys (root : Fields) : Extraction :=
  match root.lookup (ascii "keys") with
  | some keys => collectKeysFromValue keys
  | none =>
      match root.lookup (ascii "dataset") with
      | some (.object dataset) =>
          match dataset.lookup (ascii "keys") with
          | some keys => collectKeysFromValue keys
          | none => throw (ascii "dataset.keys is required")
      | some _ => throw (ascii "dataset.keys is required")
      | none => throw (ascii "missing keys array")

/-- A member that is taken over when it is a string. -/
def stringMember (root : Fields) (name unset : Bytes) : Bytes :=
  match root.lookup name with
  | some (.string text) => text
  | _ => unset

def extractNames (root : Fields) (request : BuildRequest) : BuildRequest :=
  { request with
    method := stringMember root (ascii "method") request.method
    target := stringMember root (ascii "target") request.target }

def extractOptions (fp : Floating) (root : Fields) : Extraction :=
  match root.lookup (ascii "options") with
  | none => pure ()
  | some (.object options) => collectOptions fp options
  | some _ => throw (ascii "options must be an object")

/-- `extract_request_from_document`. -/
def extractRequestFromDocument (fp : Floating) (root : Value) : Extraction :=
  match root with
  | .array _ => collectKeysFromValue root
  | .object fields => do
      extractKeys fields
      modify (extractNames fields)
      extractOptions fp fields
  | _ => throw (ascii "document root must be an object or array")

/-- `load_build_request`, with what `out_error` held before. -/
def loadBuildRequest (path : Bytes) (format : InputFormat) (schemaPath outError : Bytes) :
    Extraction :=
  if format = .lines then throw outError
  else
    match loadDocument env fs path format with
    | .error thrown => throw (caught (ascii "failed to load structured dataset") thrown)
    | .ok document =>
        match validateDocument env fs document schemaPath with
        | .error message => throw message
        | .ok () => extractRequestFromDocument env.toFloating document.root

end Import

/-- `canonical_dataset_schema_json`. -/
def canonicalDatasetSchemaJson : Bytes := [10].intercalate ([
  "\x7b",
  "  \"$schema\": \"https://json-schema.org/draft/2020-12/schema\",",
  "  \"title\": \"NuPERF Dataset\",",
  "  \"description\": \"Structured input document for NuPERF CLI imports.\",",
  "  \"oneOf\": [",
  "    \x7b",
  "      \"type\": \"array\",",
  "      \"items\": \x7b \"type\": \"string\" \x7d",
  "    \x7d,",
  "    \x7b",
  "      \"type\": \"object\",",
  "      \"required\": [\"keys\"],",
  "      \"additionalProperties\": false,",
  "      \"properties\": \x7b",
  "        \"keys\": \x7b",
  "          \"type\": \"array\",",
  "          \"items\": \x7b \"type\": \"string\" \x7d",
  "        \x7d,",
  "        \"method\": \x7b \"type\": \"string\" \x7d,",
  "        \"target\": \x7b \"type\": \"string\" \x7d,",
  "        \"options\": \x7b",
  "          \"type\": \"object\",",
  "          \"additionalProperties\": \x7b",
  "            \"type\": [\"string\", \"boolean\", \"integer\", \"number\"]",
  "          \x7d",
  "        \x7d",
  "      \x7d",
  "    \x7d,",
  "    \x7b",
  "      \"type\": \"object\",",
  "      \"required\": [\"dataset\"],",
  "      \"additionalProperties\": false,",
  "      \"properties\": \x7b",
  "        \"dataset\": \x7b",
  "          \"type\": \"object\",",
  "          \"required\": [\"keys\"],",
  "          \"additionalProperties\": false,",
  "          \"properties\": \x7b",
  "            \"keys\": \x7b",
  "              \"type\": \"array\",",
  "              \"items\": \x7b \"type\": \"string\" \x7d",
  "            \x7d",
  "          \x7d",
  "        \x7d,",
  "        \"method\": \x7b \"type\": \"string\" \x7d,",
  "        \"target\": \x7b \"type\": \"string\" \x7d,",
  "        \"options\": \x7b",
  "          \"type\": \"object\",",
  "          \"additionalProperties\": \x7b",
  "            \"type\": [\"string\", \"boolean\", \"integer\", \"number\"]",
  "          \x7d",
  "        \x7d",
  "      \x7d",
  "    \x7d",
  "  ]",
  "\x7d"].map ascii)

/-- `dump_dataset_schema`: the files afterwards, or the error text. -/
def dumpDatasetSchema (fp : Floating) (fs : FileSystem) (path : Bytes) : Except Bytes FileSystem :=
  let written : Except CxxException FileSystem := do
    let document ← jsonFromString fp canonicalDatasetSchemaJson
    writeTextFile fs path (← jsonDumpString fp document.root {})
  written.mapError (caught (ascii "failed to write schema"))

end Nuperf.Cli
