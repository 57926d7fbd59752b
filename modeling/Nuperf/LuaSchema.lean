import Nuperf.BuildRun

set_option autoImplicit false

namespace Nuperf.Lua

open ByteString Serdetk Cli

/-- What the binding library makes of a `std::string` that is a key or a value of a table. -/
structure LuaStrings where
  key : Bytes → Bytes
  value : Bytes → Bytes

/-- Strings without a NUL arrive as they are. -/
structure LuaStrings.Faithful (lua : LuaStrings) : Prop where
  key : ∀ text, NulFree text → lua.key text = text
  value : ∀ text, NulFree text → lua.value text = text

/-- The fields of a table whose keys and values are strings. -/
abbrev LuaTable := Bytes → Option Bytes

def LuaTable.assign (table : LuaTable) (key value : Bytes) : LuaTable :=
  Function.update table key (some value)

/-- The table that `schema.load` returns. -/
structure LoadedDataset where
  keys : List Bytes
  method : Bytes
  target : Bytes
  options : LuaTable

/-- `format_name`. -/
def schemaFormat (formatName : Bytes) : Except Bytes InputFormat :=
  if formatName = ascii "json" then .ok .json
  else if formatName = ascii "yaml" then .ok .yaml
  else if formatName = ascii "sexpr" then .ok .sexpr
  else if formatName = ascii "xml" then .ok .xml
  else .error (ascii "unsupported schema format")

/-- One round of the loop over `request.options`, which splits as `cmd_build_run` does. -/
def assignOption (lua : LuaStrings) (options : LuaTable) (entry : Bytes) : LuaTable :=
  match splitOption entry with
  | some (name, value) => options.assign (lua.key name) (lua.value value)
  | none => options

/-- A local variable that is referred to: it lives, or its function has returned. -/
inductive Referent (α : Type)
  | live (object : α)
  | ended

/-- What a call does: it returns or throws, or its behaviour is undefined. -/
inductive Behaviour (α : Type)
  | defined (result : α)
  | undefined

/-- The lambda of `schema["load"]`, with the `sol::state_view` that it captures by reference: the
table, or the text of the `sol::error`. -/
def schemaLoad (view : Referent LuaStrings) (loaders : Loaders) (files : FileSystem)
    (path formatName : Bytes) (schemaPath : Option Bytes) :
    Behaviour (Except Bytes LoadedDataset) :=
  match schemaFormat formatName with
  | .error message => .defined (.error message)
  | .ok format =>
      match loadBuildRequest loaders files path format (schemaPath.getD []) [] {} with
      | .error message _ => .defined (.error message)
      | .ok () request =>
          -- From here on every table is made by `lua.create_table`.
          match view with
          | .ended => .undefined
          | .live lua => .defined (.ok
              { keys := request.keys.map lua.value
                method := lua.value request.method
                target := lua.value request.target
                options := request.options.foldl (assignOption lua) fun _ => none })

/-- The functions in the table `nuperf.schema`. -/
structure SchemaNamespace where
  datasetJson : Bytes
  dumpJson : FileSystem → Bytes → Except Bytes FileSystem
  load : FileSystem → Bytes → Bytes → Option Bytes → Behaviour (Except Bytes LoadedDataset)

/-- `schema_namespace`. Scripts call the functions after it has returned, and `load` refers to its
local variable `lua`. -/
def schemaNamespace (loaders : Loaders) : SchemaNamespace where
  datasetJson := canonicalDatasetSchemaJson
  dumpJson := dumpDatasetSchema loaders.toFloating
  load := schemaLoad .ended loaders

section Load

variable (loaders : Loaders) (files : FileSystem) (path formatName : Bytes)
  (schemaPath : Option Bytes) (format : InputFormat)
  (named : schemaFormat formatName = .ok format) (request : BuildRequest)
  (accepted : loadBuildRequest loaders files path format (schemaPath.getD []) [] {} =
    .ok () request)

include named accepted

/-- On a document that the importer accepts, `schema.load` uses a variable that has ended. -/
theorem load_accepted :
    (schemaNamespace loaders).load files path formatName schemaPath = .undefined := by
  show schemaLoad .ended loaders files path formatName schemaPath = _
  rw [schemaLoad, named]
  dsimp only
  rw [accepted]

/-- What it would return, if the variable lived. -/
theorem schemaLoad_live (lua : LuaStrings) :
    schemaLoad (.live lua) loaders files path formatName schemaPath = .defined (.ok
      { keys := request.keys.map lua.value
        method := lua.value request.method
        target := lua.value request.target
        options := request.options.foldl (assignOption lua) fun _ => none }) := by
  rw [schemaLoad, named]
  dsimp only
  rw [accepted]

end Load

end Nuperf.Lua
