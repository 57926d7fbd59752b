import Nuperf.Types

set_option autoImplicit false

namespace Nuperf.Cli

open ByteString CStandard

/-- The two registries that plugins go to. -/
inductive PluginKind
  | method
  | target
  deriving DecidableEq

/-- How a call of a factory function ends: in a null pointer, in a descriptor, whose name may be
null too, or in an exception. -/
inductive FactoryOutcome
  | null
  | descriptor (name : Option CString)
  | throws (thrown : CxxException)

/-- A shared library that was opened: the function behind a symbol, or the text of `dlerror`. -/
structure SharedLibrary where
  symbol : Bytes → Except Bytes FactoryOutcome

/-- What `directory_iterator` delivers: a file with what `is_regular_file` replies, or throws when
its status cannot be read, and with what `dlopen` makes of it, a library or the text of
`dlerror`. -/
structure DirectoryEntry where
  filename : Bytes
  regular : Except CxxException Bool
  library : Except Bytes SharedLibrary

/-- A directory, in the order in which its entries are delivered. Behind the last of them the
iterator reaches the end, or its increment throws. -/
structure Directory where
  entries : List DirectoryEntry
  distinct : (entries.map DirectoryEntry.filename).Nodup
  ended : Except CxxException Unit

/-- Where a descriptor lies. -/
inductive Origin
  | builtIn
  | plugin (path symbol : Bytes)
  deriving DecidableEq

/-- A `const nuperf_method_t *` or `const nuperf_target_t *` that has a name. -/
structure Descriptor where
  name : CString
  origin : Origin
  deriving DecidableEq

/-- The library that supplied a descriptor. -/
def Descriptor.library (descriptor : Descriptor) : Option Bytes :=
  match descriptor.origin with
  | .builtIn => none
  | .plugin path _ => some path

/-- What `nuperf_method_register` and `nuperf_target_register` reply, given what the registry
holds. -/
abbrev RegistryApi := PluginKind → List Descriptor → Descriptor → Status

/-- The registries in the order of registration, the libraries of `g_loaded_plugin_handles`, and
those that were closed again. -/
structure PluginState where
  registry : PluginKind → List Descriptor
  handles : List Bytes
  closed : List Bytes

abbrev Loading := EStateM CxxException PluginState

/-- `std::filesystem::path` and its `/`. -/
def appendPath (directory name : Bytes) : Bytes :=
  if directory = [] then name
  else if directory.getLast? = some 47 then directory ++ name
  else directory ++ 47 :: name

/-- `stem()` and `extension()` of a file name: the extension starts at the last dot, unless that
is the first character. -/
def splitExtension (filename : Bytes) : Bytes × Bytes :=
  let extension := (filename.reverse.takeWhile (· != 46)).reverse
  let stem := filename.take (filename.length - extension.length - 1)
  if filename.contains 46 = false ∨ stem.isEmpty ∨ filename = ascii ".." then (filename, [])
  else (stem, 46 :: extension)

/-- `matches_plugin_name_scheme`. -/
def matchesPluginNameScheme (filename : Bytes) : Bool :=
  let (stem, extension) := splitExtension filename
  let scheme := ascii "libnuperf-"
  if extension ≠ ascii ".so" then false
  else scheme.isPrefixOf stem && scheme.length < stem.length

section Load

variable (api : RegistryApi) (kind : PluginKind)

/-- The registration of a descriptor. It is stored when the reply is `NUPERF_OK`. -/
def register (descriptor : Descriptor) : Loading Status := do
  let st := api kind ((← get).registry kind) descriptor
  if st = .ok then
    modify fun state => { state with
      registry := Function.update state.registry kind (state.registry kind ++ [descriptor]) }
  pure st

/-- The body of one `try` block: whether a plugin was registered, so that the library is moved to
`g_loaded_plugin_handles`. -/
def attempt (path : Bytes) (library : SharedLibrary) (symbol : Bytes) : Loading Bool := do
  match library.symbol symbol with
  | .error text =>
      throw (.standard (ascii "Failed to get [func_name:" ++ symbol ++ ascii "]: " ++ text))
  | .ok (.throws thrown) => throw thrown
  | .ok .null => pure false
  | .ok (.descriptor none) => pure false
  | .ok (.descriptor (some name)) => do
      let st ← register api kind ⟨name, .plugin path symbol⟩
      if st = .ok then
        modify fun state => { state with handles := state.handles ++ [path] }
        pure true
      else pure false

/-- `try { ... } catch (...) {}`. -/
def attemptCaught (path : Bytes) (library : SharedLibrary) (symbol : Bytes) : Loading Bool :=
  try attempt api kind path library symbol catch _ => pure false

/-- `entry.is_regular_file()`, the overload that throws. -/
def isRegularFile (entry : DirectoryEntry) : Loading Bool :=
  match entry.regular with
  | .ok regular => pure regular
  | .error thrown => throw thrown

/-- The `dynalo::library` of an entry, whose constructor throws. -/
def openLibrary (path : Bytes) (entry : DirectoryEntry) : Loading SharedLibrary :=
  match entry.library with
  | .ok library => pure library
  | .error text =>
      throw (.standard (ascii "Failed to open [dyn_lib_path:" ++ path ++ ascii "]: " ++ text))

variable (pluginSymbol descriptorSymbol : Bytes) (dir : Bytes)

/-- One round of the loop. The library is closed at its end unless it was moved away. -/
def loadEntry (entry : DirectoryEntry) : Loading Unit := do
  -- The status is read, and the library opened, outside of both `try` blocks.
  let regular ← isRegularFile entry
  if regular = false ∨ matchesPluginNameScheme entry.filename = false then pure ()
  else do
    let path := appendPath dir entry.filename
    let library ← openLibrary path entry
    if ← attemptCaught api kind path library pluginSymbol then pure ()
    else if ← attemptCaught api kind path library descriptorSymbol then pure ()
    else modify fun state => { state with closed := state.closed ++ [path] }

def loadEntries : List DirectoryEntry → Loading Unit
  | [] => pure ()
  | entry :: rest => do
      loadEntry api kind pluginSymbol descriptorSymbol dir entry
      loadEntries rest

/-- The increment of the iterator behind the last entry. -/
def endListing (directory : Directory) : Loading Unit :=
  match directory.ended with
  | .ok () => pure ()
  | .error thrown => throw thrown

/-- What `load_method_plugins_from_dir` and `load_target_plugins_from_dir` share. The listing is
absent where there is no such directory. -/
def loadPluginsFromDir (listing : Option Directory) : Loading Unit :=
  match listing with
  | none => pure ()
  | some directory => do
      loadEntries api kind pluginSymbol descriptorSymbol dir directory.entries
      endListing directory

end Load

/-- `load_method_plugins_from_dir`. -/
def loadMethodPluginsFromDir (api : RegistryApi) (dir : Bytes) (listing : Option Directory) :
    Loading Unit :=
  loadPluginsFromDir api .method (ascii "nuperf_method_plugin") (ascii "nuperf_method_descriptor")
    dir listing

/-- `load_target_plugins_from_dir`. -/
def loadTargetPluginsFromDir (api : RegistryApi) (dir : Bytes) (listing : Option Directory) :
    Loading Unit :=
  loadPluginsFromDir api .target (ascii "nuperf_target_plugin") (ascii "nuperf_target_descriptor")
    dir listing

end Nuperf.Cli
