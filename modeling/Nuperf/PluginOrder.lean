import Nuperf.Library.FirstCome
import Nuperf.PluginEntries

set_option autoImplicit false

namespace Nuperf.Cli

open ByteString CStandard

/-- What an enumeration of the registry shows of a descriptor, and the library behind it. -/
def Descriptor.binding (descriptor : Descriptor) : CString × Option Bytes :=
  (descriptor.name, descriptor.library)

/-- Any two orders in which a directory may be delivered leave the same names in the registry, in
the same order and bound to the descriptors of the same libraries. -/
def OrderIndependent (load : Option Directory → Loading Unit) (kind : PluginKind)
    (state : PluginState) (directory : Directory) : Prop :=
  ∀ first second : Directory, first.entries.Perm directory.entries →
    second.entries.Perm directory.entries →
    ((stateLeft (load (some first) state)).registry kind).map Descriptor.binding =
      ((stateLeft (load (some second) state)).registry kind).map Descriptor.binding

section Order

variable (api : RegistryApi) (kind : PluginKind) (pluginSymbol descriptorSymbol dir : Bytes)

/-- The registry is filled first come, first served. -/
theorem loadEntries_registry (entries : List DirectoryEntry) (state : PluginState) :
    (stateLeft (loadEntries api kind pluginSymbol descriptorSymbol dir entries
      state)).registry kind =
      FirstCome.run DirectoryEntry.opens (admitted api kind pluginSymbol descriptorSymbol dir)
        (state.registry kind) entries := by
  induction entries generalizing state with
  | nil => rfl
  | cons entry rest ih =>
      cases opens : entry.opens with
      | false =>
          obtain ⟨thrown, stopped⟩ :=
            loadEntry_unopened api kind pluginSymbol descriptorSymbol dir entry state opens
          rw [loadEntries_cons_error entry rest state state thrown stopped,
            FirstCome.run_stopped _ _ _ _ opens]
          rfl
      | true =>
          obtain ⟨after, first, round⟩ :=
            loadEntry_returns api kind pluginSymbol descriptorSymbol dir entry state opens
          rw [loadEntries_cons_ok entry rest state after first, ih after,
            FirstCome.run_cons _ _ _ _ opens]
          cases round with
          | registered descriptor opens found =>
              simp only [PluginState.hold, Function.update_self, found, Option.toList_some]
          | passed opens closed own none_ =>
              simp only [none_, Option.toList_none, List.append_nil]

/-- The libraries of descriptors tell the files of a directory apart. -/
theorem admitted_distinguishes (directory : Directory) :
    FirstCome.Distinguishes (admitted api kind pluginSymbol descriptorSymbol dir)
      Descriptor.binding directory.entries := by
  intro entry member other inside earlier later descriptor next found supplied different same
  have libraries := congrArg Prod.snd same
  simp only [Descriptor.binding, admitted_library _ _ _ _ _ _ _ _ found,
    admitted_library _ _ _ _ _ _ _ _ supplied, Option.some.injEq] at libraries
  exact different (List.inj_on_of_nodup_map directory.distinct member inside
    (appendPath_injective dir libraries))

theorem directory_nodup (directory : Directory) : directory.entries.Nodup :=
  List.Nodup.of_map _ directory.distinct

theorem orderIndependent_iff (state : PluginState) (directory : Directory) :
    OrderIndependent (loadPluginsFromDir api kind pluginSymbol descriptorSymbol dir) kind state
      directory ↔
      FirstCome.AtMostOne DirectoryEntry.opens
        (admitted api kind pluginSymbol descriptorSymbol dir) (state.registry kind)
        directory.entries := by
  rw [← FirstCome.run_perm_iff _ _ _ Descriptor.binding
    (admitted_distinguishes api kind pluginSymbol descriptorSymbol dir directory)
    (directory_nodup directory)]
  unfold OrderIndependent
  simp only [loadPluginsFromDir_left, listed, Option.elim_some, loadEntries_registry]
  constructor
  · intro same order other first second
    have left := (first.map DirectoryEntry.filename).nodup_iff.mpr directory.distinct
    have right := (second.map DirectoryEntry.filename).nodup_iff.mpr directory.distinct
    exact same ⟨order, left, .ok ()⟩ ⟨other, right, .ok ()⟩ first second
  · intro same left right first second
    exact same left.entries right.entries first second

end Order

/-- The order of a directory does not show in the registry exactly where at most one of its files
gets a plugin registered. -/
theorem plugin_order_iff (api : RegistryApi) (dir : Bytes) (state : PluginState)
    (directory : Directory) :
    (OrderIndependent (loadMethodPluginsFromDir api dir) .method state directory ↔
      FirstCome.AtMostOne DirectoryEntry.opens
        (admitted api .method (ascii "nuperf_method_plugin") (ascii "nuperf_method_descriptor")
          dir) (state.registry .method) directory.entries) ∧
    (OrderIndependent (loadTargetPluginsFromDir api dir) .target state directory ↔
      FirstCome.AtMostOne DirectoryEntry.opens
        (admitted api .target (ascii "nuperf_target_plugin") (ascii "nuperf_target_descriptor")
          dir) (state.registry .target) directory.entries) :=
  ⟨orderIndependent_iff api .method _ _ dir state directory,
    orderIndependent_iff api .target _ _ dir state directory⟩

/-- `sampleListing`, delivered in the other order. -/
def sampleListingReversed : Directory where
  entries := sampleListing.entries.reverse
  distinct := by decide
  ended := .ok ()

/-- Of two files that offer the same name, the one that is delivered first is bound to it. -/
theorem delivery_order_binds_name :
    ¬ OrderIndependent (loadMethodPluginsFromDir refuseTaken (ascii "methods")) .method sampleState
      sampleListing := by
  intro same
  have bindings := same sampleListing sampleListingReversed (List.Perm.refl _)
    (List.reverse_perm _)
  have first : ((stateLeft (loadMethodPluginsFromDir refuseTaken (ascii "methods")
      (some sampleListing) sampleState)).registry .method).map Descriptor.library =
      [some (ascii "methods/libnuperf-a.so")] := by
    rfl
  have second : ((stateLeft (loadMethodPluginsFromDir refuseTaken (ascii "methods")
      (some sampleListingReversed) sampleState)).registry .method).map Descriptor.library =
      [some (ascii "methods/libnuperf-b.so")] := by
    rfl
  have libraries := congrArg (List.map Prod.snd) bindings
  simp only [List.map_map] at libraries
  have shown : Prod.snd ∘ Descriptor.binding = Descriptor.library := rfl
  rw [shown, first, second] at libraries
  exact absurd libraries (by decide)

end Nuperf.Cli
