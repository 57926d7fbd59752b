import Nuperf.PluginEntries

set_option autoImplicit false

namespace Nuperf.Cli

open ByteString CStandard

section Isolation

variable (api : RegistryApi) (kind : PluginKind) (pluginSymbol descriptorSymbol dir : Bytes)

/-- A plugin file whose library opens and offers, under either symbol, a descriptor with a name
that the registry accepts. -/
structure Offers (registry : List Descriptor) (entry : DirectoryEntry) : Prop where
  regular : entry.regular = .ok true
  scheme : ∃ name, name ≠ [] ∧ entry.filename = ascii "libnuperf-" ++ name ++ ascii ".so"
  descriptor : ∃ library symbol descriptor, entry.library = .ok library ∧
    (symbol = pluginSymbol ∨ symbol = descriptorSymbol) ∧
    offered (appendPath dir entry.filename) library symbol = some descriptor ∧
    api kind registry descriptor = .ok

/-- No entry keeps another from being loaded: the loader returns after visiting all of them, and
each that has something to offer when its turn comes ends up registered. -/
def Isolates (entries : List DirectoryEntry) (state : PluginState)
    (result : EStateM.Result CxxException PluginState Unit) : Prop :=
  ∃ final, result = .ok () final ∧
    ∀ before entry after, entries = before ++ entry :: after →
      ∃ reached, loadEntries api kind pluginSymbol descriptorSymbol dir before state =
          .ok () reached ∧
        (Offers api kind pluginSymbol descriptorSymbol dir (reached.registry kind) entry →
          ∃ descriptor ∈ final.registry kind,
            descriptor.library = some (appendPath dir entry.filename))

variable {api kind pluginSymbol descriptorSymbol dir}

/-- What is offered and accepted is admitted. -/
theorem offers_admitted (registry : List Descriptor) (entry : DirectoryEntry)
    (offers : Offers api kind pluginSymbol descriptorSymbol dir registry entry) :
    ∃ descriptor,
      admitted api kind pluginSymbol descriptorSymbol dir registry entry = some descriptor := by
  obtain ⟨library, symbol, descriptor, opened, either, offer, ok⟩ := offers.descriptor
  have plugin : entry.isPlugin = true := by
    rw [DirectoryEntry.isPlugin, offers.regular,
      (matchesPluginNameScheme_iff entry.filename).mpr offers.scheme]
    rfl
  have taken : accepted api kind registry (appendPath dir entry.filename) library symbol =
      some descriptor := Option.filter_eq_some_iff.mpr ⟨offer, decide_eq_true ok⟩
  rw [admitted, if_pos plugin, opened]
  dsimp only
  apply Option.ne_none_iff_exists'.mp
  intro nothing
  obtain ⟨first, second⟩ := Option.or_eq_none_iff.mp nothing
  rcases either with rfl | rfl
  · rw [first] at taken
    cases taken
  · rw [second] at taken
    cases taken

/-- A round takes nothing out of the registry. -/
theorem Round.grows {entry : DirectoryEntry} {registry : List Descriptor}
    {state after : PluginState}
    (round : Round api kind pluginSymbol descriptorSymbol dir registry entry state
      (.ok () after)) : state.registry kind <+: after.registry kind := by
  cases round with
  | registered descriptor opens found => simp [PluginState.hold]
  | passed opens closed own none_ => exact List.prefix_rfl

theorem loadEntries_grows (entries : List DirectoryEntry) (state final : PluginState)
    (returned : loadEntries api kind pluginSymbol descriptorSymbol dir entries state =
      .ok () final) : state.registry kind <+: final.registry kind := by
  induction entries generalizing state with
  | nil =>
      cases returned
      exact List.prefix_rfl
  | cons entry rest ih =>
      have opens := loadEntries_opens _ state final returned entry List.mem_cons_self
      obtain ⟨after, first, round⟩ :=
        loadEntry_returns api kind pluginSymbol descriptorSymbol dir entry state opens
      rw [loadEntries_cons_ok entry rest state after first] at returned
      exact round.grows.trans (ih after returned)

/-- An entry that offers something when its turn comes is in the registry at the end. -/
theorem loadEntries_registers (entry : DirectoryEntry) (rest : List DirectoryEntry)
    (reached final : PluginState)
    (offers : Offers api kind pluginSymbol descriptorSymbol dir (reached.registry kind) entry)
    (returned : loadEntries api kind pluginSymbol descriptorSymbol dir (entry :: rest) reached =
      .ok () final) :
    ∃ descriptor ∈ final.registry kind,
      descriptor.library = some (appendPath dir entry.filename) := by
  obtain ⟨descriptor, found⟩ := offers_admitted (reached.registry kind) entry offers
  have first := loadEntry_admitted api kind pluginSymbol descriptorSymbol dir entry reached
    descriptor found
  rw [loadEntries_cons_ok entry rest reached _ first] at returned
  have here : descriptor ∈ (reached.hold kind (appendPath dir entry.filename)
      descriptor).registry kind := by simp [PluginState.hold]
  exact ⟨descriptor, (loadEntries_grows rest _ final returned).subset here,
    admitted_library api kind pluginSymbol descriptorSymbol dir _ entry descriptor found⟩

theorem isolates_iff (listing : Option Directory) (state : PluginState) :
    Isolates api kind pluginSymbol descriptorSymbol dir (listed listing) state
      (loadPluginsFromDir api kind pluginSymbol descriptorSymbol dir listing state) ↔
      AllOpen (listed listing) ∧ ReachesEnd listing := by
  unfold Isolates
  simp only [loadPluginsFromDir_ok_iff, allOpen_iff]
  generalize listed listing = entries
  constructor
  · rintro ⟨final, ⟨returned, ended⟩, _⟩
    exact ⟨loadEntries_opens entries state final returned, ended⟩
  · rintro ⟨opens, ended⟩
    have returns : ∃ final, loadEntries api kind pluginSymbol descriptorSymbol dir entries state =
        .ok () final := (loadEntries_returns entries [] state opens).imp fun _ both => both.1
    obtain ⟨final, returned⟩ := returns
    refine ⟨final, ⟨returned, ended⟩, ?_⟩
    rintro before entry after rfl
    have front : ∀ other ∈ before, other.opens = true :=
      fun other member => opens other (List.mem_append_left _ member)
    obtain ⟨reached, visited, whole⟩ := loadEntries_returns before (entry :: after) state front
    rw [whole] at returned
    exact ⟨reached, visited, fun offers =>
      loadEntries_registers entry after reached final offers returned⟩

end Isolation

/-- A file that does not load is kept from the others exactly where the status of every file can be
read, every plugin file can be opened, and the iterator reaches the end. -/
theorem plugin_files_isolated_iff (api : RegistryApi) (dir : Bytes) (listing : Option Directory)
    (state : PluginState) :
    (Isolates api .method (ascii "nuperf_method_plugin") (ascii "nuperf_method_descriptor") dir
        (listed listing) state (loadMethodPluginsFromDir api dir listing state) ↔
      AllOpen (listed listing) ∧ ReachesEnd listing) ∧
    (Isolates api .target (ascii "nuperf_target_plugin") (ascii "nuperf_target_descriptor") dir
        (listed listing) state (loadTargetPluginsFromDir api dir listing state) ↔
      AllOpen (listed listing) ∧ ReachesEnd listing) :=
  ⟨isolates_iff listing state, isolates_iff listing state⟩

/-- A file that `dlopen` refuses, in front of a plugin. -/
def brokenListing : Directory where
  entries := [⟨ascii "libnuperf-a.so", .ok true, .error (ascii "file too short")⟩,
    samplePlugin (ascii "libnuperf-b.so") (ascii "b")]
  distinct := by decide
  ended := .ok ()

/-- The exception of one file leaves the loader, and the plugin behind it is not visited. -/
theorem broken_file_stops_loader :
    loadMethodPluginsFromDir refuseTaken (ascii "methods") (some brokenListing) sampleState =
      .error (.standard
        (ascii "Failed to open [dyn_lib_path:methods/libnuperf-a.so]: file too short"))
        sampleState ∧
    ¬ Isolates refuseTaken .method (ascii "nuperf_method_plugin")
        (ascii "nuperf_method_descriptor") (ascii "methods") (listed (some brokenListing))
        sampleState
        (loadMethodPluginsFromDir refuseTaken (ascii "methods") (some brokenListing)
          sampleState) := by
  have thrown : loadMethodPluginsFromDir refuseTaken (ascii "methods") (some brokenListing)
      sampleState = .error (.standard
        (ascii "Failed to open [dyn_lib_path:methods/libnuperf-a.so]: file too short"))
        sampleState := by
    rfl
  refine ⟨thrown, ?_⟩
  rintro ⟨final, returned, _⟩
  rw [thrown] at returned
  cases returned

/-- So does the exception of a file whose status cannot be read, whatever the file is named. -/
example (thrown : CxxException) (library : Except Bytes SharedLibrary) :
    loadEntries refuseTaken .method (ascii "nuperf_method_plugin")
      (ascii "nuperf_method_descriptor") (ascii "methods")
      [⟨ascii "loop", .error thrown, library⟩, samplePlugin (ascii "libnuperf-b.so") (ascii "b")]
      sampleState = .error thrown sampleState := rfl

end Nuperf.Cli
