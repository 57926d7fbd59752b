import Nuperf.PluginEntries

set_option autoImplicit false

namespace Nuperf.Cli

open ByteString CStandard

section Paths

/-- The path of a file in a directory that is not empty and does not end in a slash. -/
theorem appendPath_nested (directory name : Bytes) (some_ : directory ≠ [])
    (last : directory.getLast? ≠ some 47) :
    appendPath directory name = directory ++ 47 :: name := by
  rw [appendPath, if_neg some_, if_neg last]

/-- What `/` puts in front of a name does not depend on the name. -/
theorem appendPath_split (home : Bytes) :
    ∃ front, ∀ name, appendPath home name = front ++ name := by
  unfold appendPath
  split_ifs
  · exact ⟨[], fun name => rfl⟩
  · exact ⟨home, fun name => rfl⟩
  · exact ⟨home ++ [47], fun name => by rw [List.append_assoc]; rfl⟩

/-- Files of the method directory and of the target directory have different paths. -/
theorem method_target_paths (home method target : Bytes) :
    appendPath (appendPath home (ascii "methods")) method ≠
      appendPath (appendPath home (ascii "targets")) target := by
  obtain ⟨front, shape⟩ := appendPath_split home
  have nested : ∀ name ∈ [ascii "methods", ascii "targets"], ∀ file,
      appendPath (front ++ name) file = front ++ (name ++ 47 :: file) := by
    intro name member file
    have ending : name ≠ [] ∧ name.getLast? ≠ some 47 := by
      revert name
      decide
    rw [appendPath_nested, List.append_assoc]
    · simp [ending.1]
    · rw [List.getLast?_append_of_ne_nil _ ending.1]
      exact ending.2
  rw [shape, shape, nested _ (by simp), nested _ (by simp)]
  intro same
  have names := List.append_cancel_left same
  cases names

end Paths

/-- The libraries that supplied the descriptors of both registries. -/
def PluginState.supplied (state : PluginState) : List Bytes :=
  (state.registry .method ++ state.registry .target).filterMap Descriptor.library

/-- The held libraries are those that supplied a descriptor, and none of them was closed. -/
structure LibrariesOwned (state : PluginState) : Prop where
  matched : state.supplied.Perm state.handles
  distinct : state.handles.Nodup
  live : ∀ path ∈ state.handles, path ∉ state.closed

/-- Every descriptor of a plugin lies in a library that is held, every library that is held
supplied exactly one descriptor, and none is held twice. -/
structure LibrariesHeld (state : PluginState) : Prop where
  held : ∀ kind, ∀ descriptor ∈ state.registry kind, ∀ path, descriptor.library = some path →
    path ∈ state.handles ∧ path ∉ state.closed
  exactlyOne : ∀ path ∈ state.handles, (state.registry .method ++ state.registry .target).countP
    (fun descriptor => descriptor.library == some path) = 1
  once : state.handles.Nodup

theorem LibrariesOwned.librariesHeld {state : PluginState} (owned : LibrariesOwned state) :
    LibrariesHeld state where
  held := by
    intro kind descriptor member path supplied
    have both : descriptor ∈ state.registry .method ++ state.registry .target := by
      cases kind with
      | method => exact List.mem_append_left _ member
      | target => exact List.mem_append_right _ member
    have inside : path ∈ state.supplied := List.mem_filterMap.mpr ⟨descriptor, both, supplied⟩
    have held := owned.matched.mem_iff.mp inside
    exact ⟨held, owned.live path held⟩
  exactlyOne := by
    intro path held
    rw [← List.count_filterMap]
    exact (owned.matched.count_eq path).trans (List.count_eq_one_of_mem owned.distinct held)
  once := owned.distinct

theorem hold_supplied (state : PluginState) (kind : PluginKind) (path : Bytes)
    (descriptor : Descriptor) (library : descriptor.library = some path) :
    (state.hold kind path descriptor).supplied.Perm (state.supplied ++ [path]) := by
  have one : [descriptor].filterMap Descriptor.library = [path] := by simp [library]
  unfold PluginState.supplied PluginState.hold
  cases kind with
  | method =>
      simp only [Function.update_self, List.filterMap_append, one, ne_eq, reduceCtorEq,
        not_false_eq_true, Function.update_of_ne, List.append_assoc]
      exact (List.perm_append_comm).append_left _
  | target =>
      simp only [Function.update_self, List.filterMap_append, one, ne_eq, reduceCtorEq,
        not_false_eq_true, Function.update_of_ne, List.append_assoc]
      exact List.Perm.refl _

section Runs

variable {api : RegistryApi} {kind : PluginKind} {pluginSymbol descriptorSymbol dir : Bytes}

/-- A round over a file that was not met before keeps the libraries owned. -/
theorem Round.owned {registry : List Descriptor} {entry : DirectoryEntry}
    {state after : PluginState}
    (round : Round api kind pluginSymbol descriptorSymbol dir registry entry state (.ok () after))
    (owned : LibrariesOwned state)
    (fresh : appendPath dir entry.filename ∉ state.handles ++ state.closed) :
    LibrariesOwned after ∧ ∀ path ∈ after.handles ++ after.closed,
      path ∈ state.handles ++ state.closed ∨ path = appendPath dir entry.filename := by
  rw [List.mem_append, not_or] at fresh
  cases round with
  | registered descriptor opens found =>
      -- The one descriptor that is added lies in the one library that is held in addition.
      have library := admitted_library api kind pluginSymbol descriptorSymbol dir registry entry
        descriptor found
      refine ⟨⟨?_, ?_, ?_⟩, ?_⟩
      · exact (hold_supplied state kind _ descriptor library).trans
          (owned.matched.append_right _)
      · show (state.handles ++ [_]).Nodup
        rw [← List.concat_eq_append]
        exact owned.distinct.concat fresh.1
      · intro path held
        rcases List.mem_append.mp held with earlier | here
        · exact owned.live path earlier
        · rw [List.mem_singleton.mp here]
          exact fresh.2
      · intro path member
        simp only [PluginState.hold, List.mem_append, List.mem_singleton] at member ⊢
        tauto
  | passed opens closed own none_ =>
      refine ⟨⟨owned.matched, owned.distinct, ?_⟩, ?_⟩
      · intro path held shut
        rcases List.mem_append.mp shut with earlier | here
        · exact owned.live path held earlier
        · rw [List.mem_singleton.mp (own here)] at held
          exact fresh.1 held
      · intro path member
        simp only [List.mem_append] at member ⊢
        rcases member with held | earlier | here
        · exact .inl (.inl held)
        · exact .inl (.inr earlier)
        · exact .inr (List.mem_singleton.mp (own here))

variable (api kind pluginSymbol descriptorSymbol dir)

/-- The loop keeps the libraries owned, also where it is stopped. What it holds or closes are files
of the listing. -/
theorem loadEntries_owned (entries : List DirectoryEntry) (state : PluginState)
    (owned : LibrariesOwned state) (distinct : (entries.map DirectoryEntry.filename).Nodup)
    (fresh : ∀ entry ∈ entries,
      appendPath dir entry.filename ∉ state.handles ++ state.closed) :
    ∃ reached, stateLeft (loadEntries api kind pluginSymbol descriptorSymbol dir entries state) =
        reached ∧ LibrariesOwned reached ∧
      ∀ path ∈ reached.handles ++ reached.closed, path ∈ state.handles ++ state.closed ∨
        ∃ entry ∈ entries, path = appendPath dir entry.filename := by
  induction entries generalizing state with
  | nil => exact ⟨state, rfl, owned, fun path member => .inl member⟩
  | cons entry rest ih =>
      cases opens : entry.opens with
      | false =>
          obtain ⟨thrown, stopped⟩ :=
            loadEntry_unopened api kind pluginSymbol descriptorSymbol dir entry state opens
          rw [loadEntries_cons_error entry rest state state thrown stopped]
          exact ⟨state, rfl, owned, fun path member => .inl member⟩
      | true =>
          obtain ⟨after, first, round⟩ :=
            loadEntry_returns api kind pluginSymbol descriptorSymbol dir entry state opens
          obtain ⟨kept, met⟩ := round.owned owned (fresh entry List.mem_cons_self)
          rw [List.map_cons, List.nodup_cons] at distinct
          have unmet : ∀ other ∈ rest,
              appendPath dir other.filename ∉ after.handles ++ after.closed := by
            intro other member inside
            rcases met _ inside with earlier | same
            · exact fresh other (List.mem_cons_of_mem _ member) earlier
            · apply distinct.1
              rw [← appendPath_injective dir same]
              exact List.mem_map_of_mem member
          obtain ⟨reached, later, final, visited⟩ := ih after kept distinct.2 unmet
          refine ⟨reached, ?_, final, ?_⟩
          · rw [loadEntries_cons_ok entry rest state after first]
            exact later
          · intro path member
            rcases visited path member with earlier | ⟨other, inside, same⟩
            · rcases met path earlier with before | here
              · exact .inl before
              · exact .inr ⟨entry, List.mem_cons_self, here⟩
            · exact .inr ⟨other, List.mem_cons_of_mem _ inside, same⟩

end Runs

/-- No plugin was loaded yet. -/
structure Pristine (state : PluginState) : Prop where
  builtIn : ∀ kind, ∀ descriptor ∈ state.registry kind, descriptor.origin = .builtIn
  handles : state.handles = []
  closed : state.closed = []

theorem Pristine.owned {state : PluginState} (pristine : Pristine state) :
    LibrariesOwned state where
  matched := by
    have none_ : state.supplied = [] := by
      rw [PluginState.supplied, List.filterMap_eq_nil_iff]
      intro descriptor member
      have origin : descriptor.origin = .builtIn := by
        rcases List.mem_append.mp member with inside | inside
        · exact pristine.builtIn _ descriptor inside
        · exact pristine.builtIn _ descriptor inside
      rw [Descriptor.library, origin]
    rw [none_, pristine.handles]
  distinct := by
    rw [pristine.handles]
    exact List.nodup_nil
  live := by
    rw [pristine.handles]
    intro path member
    cases member

theorem listed_distinct (listing : Option Directory) :
    ((listed listing).map DirectoryEntry.filename).Nodup := by
  cases listing with
  | none => exact List.nodup_nil
  | some directory => exact directory.distinct

section Loaders

variable (api : RegistryApi) (kind : PluginKind) (pluginSymbol descriptorSymbol dir : Bytes)

/-- Wherever the loop over the entries stands, or is stopped, the registries borrow from libraries
that are held. It is not stopped at entries that open. -/
def HoldsThroughout (entries : List DirectoryEntry) (state : PluginState) : Prop :=
  ∀ before after, entries = before ++ after →
    LibrariesHeld (stateLeft
      (loadEntries api kind pluginSymbol descriptorSymbol dir before state)) ∧
    (AllOpen before → ∃ reached,
      loadEntries api kind pluginSymbol descriptorSymbol dir before state = .ok () reached)

/-- A listing that is new to the state is loaded with the libraries held. -/
theorem listing_holds (listing : Option Directory) (state : PluginState)
    (owned : LibrariesOwned state)
    (fresh : ∀ filename, appendPath dir filename ∉ state.handles ++ state.closed) :
    HoldsThroughout api kind pluginSymbol descriptorSymbol dir (listed listing) state := by
  intro before after whole
  have names := listed_distinct listing
  rw [whole, List.map_append] at names
  obtain ⟨reached, left, kept, _⟩ := loadEntries_owned api kind pluginSymbol descriptorSymbol
    dir before state owned names.of_append_left fun entry _ => fresh entry.filename
  rw [left]
  refine ⟨kept.librariesHeld, ?_⟩
  rw [allOpen_iff]
  intro opens
  exact (loadEntries_returns before [] state opens).imp fun _ both => both.1

end Loaders

/-- Wherever loading stands, in the methods or behind them in the targets, the registries borrow
from libraries that are held. -/
theorem plugin_libraries_held (api : RegistryApi) (home : Bytes)
    (methods targets : Option Directory) (start : PluginState) (pristine : Pristine start) :
    HoldsThroughout api .method (ascii "nuperf_method_plugin") (ascii "nuperf_method_descriptor")
      (appendPath home (ascii "methods")) (listed methods) start ∧
    (AllOpen (listed methods) → ReachesEnd methods → ∃ loaded,
      loadMethodPluginsFromDir api (appendPath home (ascii "methods")) methods start =
        .ok () loaded) ∧
    ∀ loaded, loadMethodPluginsFromDir api (appendPath home (ascii "methods")) methods start =
        .ok () loaded →
      HoldsThroughout api .target (ascii "nuperf_target_plugin")
        (ascii "nuperf_target_descriptor") (appendPath home (ascii "targets")) (listed targets)
        loaded := by
  have unmet : start.handles ++ start.closed = [] := by
    rw [pristine.handles, pristine.closed]
    rfl
  have methodsFresh : ∀ filename, appendPath (appendPath home (ascii "methods")) filename ∉
      start.handles ++ start.closed := by
    intro filename
    rw [unmet]
    exact List.not_mem_nil
  have methodsHold := listing_holds api .method (ascii "nuperf_method_plugin")
    (ascii "nuperf_method_descriptor") _ methods start pristine.owned methodsFresh
  refine ⟨methodsHold, ?_, ?_⟩
  · intro opens ended
    obtain ⟨loaded, returned⟩ := (methodsHold (listed methods) [] (List.append_nil _).symm).2 opens
    exact ⟨loaded, (loadPluginsFromDir_ok_iff api .method _ _ _ methods start loaded).mpr
      ⟨returned, ended⟩⟩
  · intro loaded returned
    rw [loadMethodPluginsFromDir, loadPluginsFromDir_ok_iff] at returned
    obtain ⟨reached, left, owned, visited⟩ := loadEntries_owned api .method
      (ascii "nuperf_method_plugin") (ascii "nuperf_method_descriptor") _ (listed methods) start
      pristine.owned (listed_distinct methods) fun entry _ => methodsFresh entry.filename
    rw [returned.1, stateLeft] at left
    subst left
    -- What the methods left behind lies in another directory than the targets.
    apply listing_holds api .target _ _ _ targets loaded owned
    intro filename inside
    rcases visited _ inside with earlier | ⟨other, _, same⟩
    · rw [unmet] at earlier
      cases earlier
    · exact method_target_paths home _ _ same.symm

/-- A library of each directory is held, and the second one of each is closed again. -/
theorem plugin_libraries_held_sample :
    ∃ loaded reached, loadMethodPluginsFromDir refuseTaken
        (appendPath (ascii "/root/.nuperf") (ascii "methods")) (some sampleListing) sampleState =
        .ok () loaded ∧
      stateLeft (loadEntries refuseTaken .target (ascii "nuperf_target_plugin")
        (ascii "nuperf_target_descriptor") (appendPath (ascii "/root/.nuperf") (ascii "targets"))
        (listed (some sampleListing)) loaded) = reached ∧
      reached.handles = [ascii "/root/.nuperf/methods/libnuperf-a.so",
        ascii "/root/.nuperf/targets/libnuperf-a.so"] ∧
      LibrariesHeld reached := by
  have held := (plugin_libraries_held refuseTaken (ascii "/root/.nuperf") (some sampleListing)
    (some sampleListing) sampleState
    ⟨fun _ _ member => absurd member List.not_mem_nil, rfl, rfl⟩).2.2 _ rfl
  exact ⟨_, _, rfl, rfl, by decide, (held (listed (some sampleListing)) [] rfl).1⟩

end Nuperf.Cli
