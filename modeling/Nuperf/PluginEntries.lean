import Nuperf.PluginLoader

set_option autoImplicit false

namespace Nuperf.Cli

open ByteString CStandard

section Names

/-- The stem and the extension make up the file name. -/
theorem splitExtension_append (filename : Bytes) :
    (splitExtension filename).1 ++ (splitExtension filename).2 = filename := by
  unfold splitExtension
  dsimp only
  split_ifs with whole
  · exact List.append_nil filename
  · have dotted : 46 ∈ filename := by
      by_contra missing
      exact whole (.inl (by simpa using missing))
    have parts : filename.reverse = filename.reverse.takeWhile (· != 46) ++
        filename.reverse.dropWhile (· != 46) := List.takeWhile_append_dropWhile.symm
    cases rest : filename.reverse.dropWhile (· != 46) with
    | nil =>
        have passed := List.dropWhile_eq_nil_iff.mp rest 46 (List.mem_reverse.mpr dotted)
        simp at passed
    | cons first front =>
        have dot : first = 46 := by
          have stopped := List.head?_dropWhile_not (· != 46) filename.reverse
          rw [rest] at stopped
          simpa using stopped
        rw [rest, dot] at parts
        have shape : filename = front.reverse ++
            46 :: (filename.reverse.takeWhile (· != 46)).reverse := by
          have reversed := congrArg List.reverse parts
          simpa using reversed
        generalize (filename.reverse.takeWhile (· != 46)).reverse = extension at shape ⊢
        subst shape
        have count : (front.reverse ++ 46 :: extension).length - extension.length - 1 =
            front.reverse.length := by
          simp only [List.length_append, List.length_cons]
          omega
        rw [count, List.take_left]

theorem splitExtension_dot (stem extension : Bytes) (some_ : stem ≠ [])
    (shape : stem ++ 46 :: extension ≠ ascii "..") (last : 46 ∉ extension) :
    splitExtension (stem ++ 46 :: extension) = (stem, 46 :: extension) := by
  have before : ((stem ++ 46 :: extension).reverse.takeWhile (· != 46)).reverse = extension := by
    have reversed : (stem ++ 46 :: extension).reverse =
        extension.reverse ++ 46 :: stem.reverse := by simp
    rw [reversed, List.takeWhile_append_of_pos]
    · simp
    · intro byte member
      have inside : byte ∈ extension := List.mem_reverse.mp member
      simp only [bne_iff_ne, ne_eq]
      rintro rfl
      exact last inside
  have count : (stem ++ 46 :: extension).length - extension.length - 1 = stem.length := by
    simp only [List.length_append, List.length_cons]
    omega
  unfold splitExtension
  dsimp only
  rw [before, count, List.take_left, if_neg]
  rintro (missing | nothing | dots)
  · simp at missing
  · exact some_ (List.isEmpty_iff.mp nothing)
  · exact shape dots

/-- The scheme `libnuperf-<name>.so`. -/
theorem matchesPluginNameScheme_iff (filename : Bytes) :
    matchesPluginNameScheme filename = true ↔
      ∃ name, name ≠ [] ∧ filename = ascii "libnuperf-" ++ name ++ ascii ".so" := by
  constructor
  · intro matches_
    have whole := splitExtension_append filename
    unfold matchesPluginNameScheme at matches_
    dsimp only at matches_
    split_ifs at matches_ with other
    rw [Bool.and_eq_true, List.isPrefixOf_iff_prefix, decide_eq_true_iff] at matches_
    obtain ⟨⟨name, stem⟩, longer⟩ := matches_
    refine ⟨name, ?_, ?_⟩
    · rintro rfl
      rw [List.append_nil] at stem
      rw [← stem] at longer
      omega
    · rw [stem, ← not_not.mp other]
      exact whole.symm
  · rintro ⟨name, some_, rfl⟩
    have split_ : splitExtension (ascii "libnuperf-" ++ name ++ ascii ".so") =
        (ascii "libnuperf-" ++ name, ascii ".so") := by
      apply splitExtension_dot (ascii "libnuperf-" ++ name) (ascii "so")
      · intro nothing
        exact absurd (List.append_eq_nil_iff.mp nothing).1 (by decide)
      · intro same
        have lengths := congrArg List.length same
        simp [ascii] at lengths
      · decide
    unfold matchesPluginNameScheme
    rw [split_]
    have longer : 0 < name.length := List.length_pos_iff.mpr some_
    simp [longer]

/-- The name may not be empty. -/
example : matchesPluginNameScheme (ascii "libnuperf-.so") = false := by decide

theorem appendPath_injective (directory : Bytes) : Function.Injective (appendPath directory) := by
  intro name other same
  unfold appendPath at same
  split_ifs at same
  · exact same
  · exact List.append_cancel_left same
  · exact (List.cons.inj (List.append_cancel_left same)).2

end Names

/-- A descriptor that the function behind a symbol returns, with a name. -/
def offered (path : Bytes) (library : SharedLibrary) (symbol : Bytes) : Option Descriptor :=
  match library.symbol symbol with
  | .ok (.descriptor (some name)) => some ⟨name, .plugin path symbol⟩
  | _ => none

/-- A regular file that is named as plugins are. -/
def DirectoryEntry.isPlugin (entry : DirectoryEntry) : Bool :=
  entry.regular.toOption.getD false && matchesPluginNameScheme entry.filename

/-- The entry does not stop the loop. -/
def DirectoryEntry.opens (entry : DirectoryEntry) : Bool :=
  entry.regular.toBool && (!entry.isPlugin || entry.library.toBool)

/-- The status of every entry can be read, and every regular file that is named as plugins are can
be opened as a library. -/
def AllOpen (entries : List DirectoryEntry) : Prop :=
  ∀ entry ∈ entries, ∃ regular, entry.regular = .ok regular ∧
    (regular = true → matchesPluginNameScheme entry.filename = true →
      entry.library.toBool = true)

theorem allOpen_iff (entries : List DirectoryEntry) :
    AllOpen entries ↔ ∀ entry ∈ entries, entry.opens = true := by
  unfold AllOpen
  refine forall_congr' fun entry => imp_congr_right fun _ => ?_
  unfold DirectoryEntry.opens DirectoryEntry.isPlugin
  cases entry.regular with
  | error thrown => simp [Except.toBool]
  | ok regular =>
      cases regular <;> cases matchesPluginNameScheme entry.filename <;>
        simp [Except.toBool, Except.toOption]

/-- A plugin was registered, and its library is held. -/
def PluginState.hold (state : PluginState) (kind : PluginKind) (path : Bytes)
    (descriptor : Descriptor) : PluginState :=
  { state with
    registry := Function.update state.registry kind (state.registry kind ++ [descriptor])
    handles := state.handles ++ [path] }

def PluginState.close (state : PluginState) (path : Bytes) : PluginState :=
  { state with closed := state.closed ++ [path] }

section Spec

variable (api : RegistryApi) (kind : PluginKind)

/-- The descriptor that is offered under a symbol, if the registry accepts it. -/
def accepted (registry : List Descriptor) (path : Bytes) (library : SharedLibrary)
    (symbol : Bytes) : Option Descriptor :=
  (offered path library symbol).filter fun descriptor => api kind registry descriptor = .ok

theorem register_ok (descriptor : Descriptor) (state : PluginState)
    (ok : api kind (state.registry kind) descriptor = .ok) :
    register api kind descriptor state = .ok .ok { state with
      registry := Function.update state.registry kind (state.registry kind ++ [descriptor]) } := by
  simp [register, ok, bind, EStateM.bind, get, getThe, MonadStateOf.get, EStateM.get, modify,
    modifyGet, MonadStateOf.modifyGet, EStateM.modifyGet, pure, EStateM.pure]

theorem register_refused (descriptor : Descriptor) (state : PluginState)
    (refused : api kind (state.registry kind) descriptor ≠ .ok) :
    register api kind descriptor state =
      .ok (api kind (state.registry kind) descriptor) state := by
  simp [register, refused, bind, EStateM.bind, get, getThe, MonadStateOf.get, EStateM.get, pure,
    EStateM.pure]

theorem attempt_offered (path : Bytes) (library : SharedLibrary) (symbol : Bytes)
    (descriptor : Descriptor) (found : offered path library symbol = some descriptor) :
    attempt api kind path library symbol = (do
      let st ← register api kind descriptor
      if st = .ok then
        modify fun state => { state with handles := state.handles ++ [path] }
        pure true
      else pure false) := by
  unfold offered at found
  split at found
  · next name behind =>
      cases found
      rw [attempt, behind]
  · cases found

theorem attemptCaught_nothing (path : Bytes) (library : SharedLibrary) (symbol : Bytes)
    (state : PluginState) (nothing : offered path library symbol = none) :
    attemptCaught api kind path library symbol state = .ok false state := by
  unfold offered at nothing
  unfold attemptCaught attempt
  cases found : library.symbol symbol with
  | error text => rfl
  | ok outcome =>
      cases outcome with
      | null => rfl
      | throws thrown => rfl
      | descriptor name =>
          cases name with
          | none => rfl
          | some name =>
              rw [found] at nothing
              cases nothing

theorem attemptCaught_accepted (path : Bytes) (library : SharedLibrary) (symbol : Bytes)
    (state : PluginState) (descriptor : Descriptor)
    (found : accepted api kind (state.registry kind) path library symbol = some descriptor) :
    attemptCaught api kind path library symbol state =
      .ok true (state.hold kind path descriptor) := by
  obtain ⟨offer, ok⟩ := Option.filter_eq_some_iff.mp found
  have registered := register_ok api kind descriptor state (by simpa using ok)
  unfold attemptCaught
  rw [attempt_offered api kind path library symbol descriptor offer]
  show EStateM.tryCatch _ _ _ = _
  simp only [EStateM.tryCatch, bind, EStateM.bind, registered]
  rfl

theorem attemptCaught_refused (path : Bytes) (library : SharedLibrary) (symbol : Bytes)
    (state : PluginState)
    (none_ : accepted api kind (state.registry kind) path library symbol = none) :
    attemptCaught api kind path library symbol state = .ok false state := by
  cases offer : offered path library symbol with
  | none => exact attemptCaught_nothing api kind path library symbol state offer
  | some descriptor =>
      have refused : api kind (state.registry kind) descriptor ≠ .ok := by
        rw [accepted, offer] at none_
        simpa using none_
      unfold attemptCaught
      rw [attempt_offered api kind path library symbol descriptor offer]
      show EStateM.tryCatch _ _ _ = _
      simp only [EStateM.tryCatch, bind, EStateM.bind, register_refused api kind descriptor state
        refused, if_neg refused]
      rfl

variable (pluginSymbol descriptorSymbol : Bytes) (dir : Bytes)

/-- The descriptor that an entry brings into the registry. -/
def admitted (registry : List Descriptor) (entry : DirectoryEntry) : Option Descriptor :=
  if entry.isPlugin then
    match entry.library with
    | .ok library =>
        let path := appendPath dir entry.filename
        (accepted api kind registry path library pluginSymbol).or
          (accepted api kind registry path library descriptorSymbol)
    | .error _ => none
  else none

theorem loadEntry_skipped (entry : DirectoryEntry) (state : PluginState)
    (opens : entry.opens = true) (other : entry.isPlugin = false) :
    loadEntry api kind pluginSymbol descriptorSymbol dir entry state = .ok () state := by
  rw [DirectoryEntry.opens, Bool.and_eq_true] at opens
  unfold loadEntry isRegularFile
  cases known : entry.regular with
  | error thrown =>
      rw [known] at opens
      cases opens.1
  | ok regular =>
      rw [DirectoryEntry.isPlugin, known] at other
      have skipped : regular = false ∨ matchesPluginNameScheme entry.filename = false :=
        Bool.and_eq_false_iff.mp other
      show (if regular = false ∨ matchesPluginNameScheme entry.filename = false then pure ()
        else _ : Loading Unit) state = _
      rw [if_pos skipped]
      rfl

/-- What the loop does with a plugin file. -/
theorem loadEntry_plugin (entry : DirectoryEntry) (plugin : entry.isPlugin = true) :
    loadEntry api kind pluginSymbol descriptorSymbol dir entry = (do
      let path := appendPath dir entry.filename
      let library ← openLibrary path entry
      if ← attemptCaught api kind path library pluginSymbol then pure ()
      else if ← attemptCaught api kind path library descriptorSymbol then pure ()
      else modify fun state => { state with closed := state.closed ++ [path] }) := by
  rw [DirectoryEntry.isPlugin, Bool.and_eq_true] at plugin
  cases known : entry.regular with
  | error thrown =>
      rw [known] at plugin
      cases plugin.1
  | ok regular =>
      rw [known] at plugin
      have read : regular = true := plugin.1
      unfold loadEntry isRegularFile
      rw [known, read, plugin.2]
      rfl

theorem loadEntry_unopened (entry : DirectoryEntry) (state : PluginState)
    (closed : entry.opens = false) :
    ∃ thrown, loadEntry api kind pluginSymbol descriptorSymbol dir entry state =
      .error thrown state := by
  cases known : entry.regular with
  | error thrown =>
      unfold loadEntry isRegularFile
      rw [known]
      exact ⟨thrown, rfl⟩
  | ok regular =>
      rw [DirectoryEntry.opens, known, Except.toBool, Bool.true_and, Bool.or_eq_false_iff,
        Bool.not_eq_false'] at closed
      obtain ⟨plugin, unopened⟩ := closed
      rw [loadEntry_plugin api kind pluginSymbol descriptorSymbol dir entry plugin]
      cases missing : entry.library with
      | ok library =>
          rw [missing] at unopened
          cases unopened
      | error text =>
          unfold openLibrary
          rw [missing]
          exact ⟨_, rfl⟩

theorem loadEntry_admitted (entry : DirectoryEntry) (state : PluginState) (descriptor : Descriptor)
    (found : admitted api kind pluginSymbol descriptorSymbol dir (state.registry kind) entry =
      some descriptor) :
    loadEntry api kind pluginSymbol descriptorSymbol dir entry state =
      .ok () (state.hold kind (appendPath dir entry.filename) descriptor) := by
  unfold admitted at found
  split_ifs at found with plugin
  rw [loadEntry_plugin api kind pluginSymbol descriptorSymbol dir entry plugin]
  cases opened : entry.library with
  | error text =>
      rw [opened] at found
      cases found
  | ok library =>
      rw [opened] at found
      unfold openLibrary
      rw [opened]
      dsimp only at found ⊢
      cases first : accepted api kind (state.registry kind) (appendPath dir entry.filename) library
          pluginSymbol with
      | some offer =>
          rw [first, Option.some_or, Option.some.injEq] at found
          subst found
          simp only [bind, EStateM.bind, pure, EStateM.pure,
            attemptCaught_accepted api kind _ library _ state offer first, ↓reduceIte]
      | none =>
          rw [first, Option.none_or] at found
          simp only [bind, EStateM.bind, pure, EStateM.pure,
            attemptCaught_refused api kind _ library _ state first,
            attemptCaught_accepted api kind _ library _ state descriptor found, ↓reduceIte,
            Bool.false_eq_true]

theorem loadEntry_closed (entry : DirectoryEntry) (state : PluginState) (opens : entry.opens = true)
    (plugin : entry.isPlugin = true)
    (none_ : admitted api kind pluginSymbol descriptorSymbol dir (state.registry kind) entry =
      none) :
    loadEntry api kind pluginSymbol descriptorSymbol dir entry state =
      .ok () (state.close (appendPath dir entry.filename)) := by
  rw [loadEntry_plugin api kind pluginSymbol descriptorSymbol dir entry plugin]
  rw [admitted, if_pos plugin] at none_
  cases opened : entry.library with
  | error text =>
      rw [DirectoryEntry.opens, plugin, opened, Bool.and_eq_true] at opens
      cases opens.2
  | ok library =>
      rw [opened] at none_
      unfold openLibrary
      rw [opened]
      dsimp only at none_ ⊢
      obtain ⟨first, second⟩ := Option.or_eq_none_iff.mp none_
      simp only [bind, EStateM.bind, pure, EStateM.pure,
        attemptCaught_refused api kind _ library _ state first,
        attemptCaught_refused api kind _ library _ state second, ↓reduceIte, Bool.false_eq_true]
      rfl

theorem offered_library (path : Bytes) (library : SharedLibrary) (symbol : Bytes)
    (descriptor : Descriptor) (found : offered path library symbol = some descriptor) :
    descriptor.library = some path := by
  unfold offered at found
  split at found
  · cases found
    rfl
  · cases found

/-- An admitted descriptor lies in the library of its entry. -/
theorem admitted_library (registry : List Descriptor) (entry : DirectoryEntry)
    (descriptor : Descriptor)
    (found : admitted api kind pluginSymbol descriptorSymbol dir registry entry =
      some descriptor) : descriptor.library = some (appendPath dir entry.filename) := by
  unfold admitted at found
  split_ifs at found
  cases opened : entry.library with
  | error text =>
      rw [opened] at found
      cases found
  | ok library =>
      rw [opened] at found
      rcases Option.or_eq_some_iff.mp found with first | ⟨_, second⟩
      · exact offered_library _ library _ _ (Option.filter_eq_some_iff.mp first).1
      · exact offered_library _ library _ _ (Option.filter_eq_some_iff.mp second).1

/-- What one round of the loop does: it is stopped by an exception, it registers one plugin and
holds its library, or it changes nothing but the libraries that were closed again. -/
inductive Round (registry : List Descriptor) (entry : DirectoryEntry) (state : PluginState) :
    EStateM.Result CxxException PluginState Unit → Prop
  | stopped (thrown : CxxException) (closed : entry.opens = false) :
      Round registry entry state (.error thrown state)
  | registered (descriptor : Descriptor) (opens : entry.opens = true)
      (found : admitted api kind pluginSymbol descriptorSymbol dir registry entry =
        some descriptor) :
      Round registry entry state
        (.ok () (state.hold kind (appendPath dir entry.filename) descriptor))
  | passed (opens : entry.opens = true) (closed : List Bytes)
      (own : closed ⊆ [appendPath dir entry.filename])
      (none_ : admitted api kind pluginSymbol descriptorSymbol dir registry entry = none) :
      Round registry entry state (.ok () { state with closed := state.closed ++ closed })

theorem loadEntry_round (entry : DirectoryEntry) (state : PluginState) :
    Round api kind pluginSymbol descriptorSymbol dir (state.registry kind) entry state
      (loadEntry api kind pluginSymbol descriptorSymbol dir entry state) := by
  cases opens : entry.opens with
  | false =>
      obtain ⟨thrown, stopped⟩ :=
        loadEntry_unopened api kind pluginSymbol descriptorSymbol dir entry state opens
      rw [stopped]
      exact .stopped thrown opens
  | true =>
      cases found : admitted api kind pluginSymbol descriptorSymbol dir (state.registry kind)
          entry with
      | some descriptor =>
          rw [loadEntry_admitted api kind pluginSymbol descriptorSymbol dir entry state descriptor
            found]
          exact .registered descriptor opens found
      | none =>
          cases plugin : entry.isPlugin with
          | true =>
              rw [loadEntry_closed api kind pluginSymbol descriptorSymbol dir entry state opens
                plugin found]
              exact .passed opens [_] (List.Subset.refl _) found
          | false =>
              rw [loadEntry_skipped api kind pluginSymbol descriptorSymbol dir entry state opens
                plugin]
              have passed : Round api kind pluginSymbol descriptorSymbol dir (state.registry kind)
                  entry state (.ok () { state with closed := state.closed ++ [] }) :=
                .passed opens [] (List.nil_subset _) found
              rw [List.append_nil] at passed
              exact passed

section Runs

/-- A round that is not stopped returns. -/
theorem loadEntry_returns (entry : DirectoryEntry) (state : PluginState)
    (opens : entry.opens = true) :
    ∃ after, loadEntry api kind pluginSymbol descriptorSymbol dir entry state = .ok () after ∧
      Round api kind pluginSymbol descriptorSymbol dir (state.registry kind) entry state
        (.ok () after) := by
  have round := loadEntry_round api kind pluginSymbol descriptorSymbol dir entry state
  generalize loadEntry api kind pluginSymbol descriptorSymbol dir entry state = result at round ⊢
  cases result with
  | ok _ after => exact ⟨after, rfl, round⟩
  | error thrown after =>
      cases round with
      | stopped _ closed =>
          rw [opens] at closed
          cases closed

variable {api kind pluginSymbol descriptorSymbol dir}

theorem loadEntries_cons_ok (entry : DirectoryEntry) (rest : List DirectoryEntry)
    (state after : PluginState)
    (first : loadEntry api kind pluginSymbol descriptorSymbol dir entry state = .ok () after) :
    loadEntries api kind pluginSymbol descriptorSymbol dir (entry :: rest) state =
      loadEntries api kind pluginSymbol descriptorSymbol dir rest after := by
  simp only [loadEntries, bind, EStateM.bind, first]

theorem loadEntries_cons_error (entry : DirectoryEntry) (rest : List DirectoryEntry)
    (state after : PluginState) (thrown : CxxException)
    (first : loadEntry api kind pluginSymbol descriptorSymbol dir entry state =
      .error thrown after) :
    loadEntries api kind pluginSymbol descriptorSymbol dir (entry :: rest) state =
      .error thrown after := by
  simp only [loadEntries, bind, EStateM.bind, first]

/-- The loop returns, and as a run of its front and of what is left. -/
theorem loadEntries_returns (before rest : List DirectoryEntry) (state : PluginState)
    (opens : ∀ entry ∈ before, entry.opens = true) :
    ∃ reached, loadEntries api kind pluginSymbol descriptorSymbol dir before state =
        .ok () reached ∧
      loadEntries api kind pluginSymbol descriptorSymbol dir (before ++ rest) state =
        loadEntries api kind pluginSymbol descriptorSymbol dir rest reached := by
  induction before generalizing state with
  | nil => exact ⟨state, rfl, rfl⟩
  | cons entry before ih =>
      obtain ⟨after, first, _⟩ := loadEntry_returns api kind pluginSymbol descriptorSymbol dir
        entry state (opens entry List.mem_cons_self)
      obtain ⟨reached, front, whole⟩ :=
        ih after fun other member => opens other (List.mem_cons_of_mem _ member)
      rw [List.cons_append, loadEntries_cons_ok entry _ state after first,
        loadEntries_cons_ok entry _ state after first]
      exact ⟨reached, front, whole⟩

/-- An entry that cannot be opened stops the loop. -/
theorem loadEntries_opens (entries : List DirectoryEntry) (state final : PluginState)
    (returned : loadEntries api kind pluginSymbol descriptorSymbol dir entries state =
      .ok () final) : ∀ entry ∈ entries, entry.opens = true := by
  induction entries generalizing state with
  | nil =>
      intro entry member
      cases member
  | cons first rest ih =>
      cases opens : first.opens with
      | false =>
          obtain ⟨thrown, stopped⟩ :=
            loadEntry_unopened api kind pluginSymbol descriptorSymbol dir first state opens
          rw [loadEntries_cons_error first rest state state thrown stopped] at returned
          cases returned
      | true =>
          obtain ⟨after, round, _⟩ :=
            loadEntry_returns api kind pluginSymbol descriptorSymbol dir first state opens
          rw [loadEntries_cons_ok first rest state after round] at returned
          intro entry member
          rcases List.mem_cons.mp member with rfl | later
          · exact opens
          · exact ih after returned entry later

end Runs

end Spec

/-- The entries that a loader visits. There are none where there is no such directory. -/
def listed (listing : Option Directory) : List DirectoryEntry := listing.elim [] Directory.entries

/-- The iterator reaches the end of the directory. -/
def ReachesEnd (listing : Option Directory) : Prop :=
  ∀ directory, listing = some directory → directory.ended = .ok ()

/-- The state that a loader leaves, whether it returns or throws. -/
def stateLeft {ε σ α : Type} : EStateM.Result ε σ α → σ
  | .ok _ state => state
  | .error _ state => state

section Listing

variable (api : RegistryApi) (kind : PluginKind) (pluginSymbol descriptorSymbol dir : Bytes)
  (listing : Option Directory) (state : PluginState)

/-- A loader leaves what its loop leaves. -/
theorem loadPluginsFromDir_left :
    stateLeft (loadPluginsFromDir api kind pluginSymbol descriptorSymbol dir listing state) =
      stateLeft
        (loadEntries api kind pluginSymbol descriptorSymbol dir (listed listing) state) := by
  cases listing with
  | none => rfl
  | some directory =>
      simp only [loadPluginsFromDir, listed, Option.elim_some, bind, EStateM.bind]
      cases loadEntries api kind pluginSymbol descriptorSymbol dir directory.entries state with
      | error thrown after => rfl
      | ok _ after =>
          unfold endListing
          cases directory.ended <;> rfl

/-- A loader returns where its loop does, if the iterator reaches the end. -/
theorem loadPluginsFromDir_ok_iff (final : PluginState) :
    loadPluginsFromDir api kind pluginSymbol descriptorSymbol dir listing state = .ok () final ↔
      loadEntries api kind pluginSymbol descriptorSymbol dir (listed listing) state =
        .ok () final ∧ ReachesEnd listing := by
  cases listing with
  | none => exact (and_iff_left fun _ absent => by cases absent).symm
  | some directory =>
      have reaches : ReachesEnd (some directory) ↔ directory.ended = .ok () :=
        ⟨fun each => each directory rfl, fun ended other same => Option.some.inj same ▸ ended⟩
      rw [reaches]
      simp only [loadPluginsFromDir, listed, Option.elim_some, bind, EStateM.bind]
      cases loadEntries api kind pluginSymbol descriptorSymbol dir directory.entries state with
      | error thrown after => simp
      | ok _ after =>
          unfold endListing
          cases directory.ended with
          | error thrown => simp [throw, throwThe, MonadExceptOf.throw, EStateM.throw]
          | ok _ => simp [pure, EStateM.pure]

end Listing

/-- A registry that refuses a name it has. -/
def refuseTaken : RegistryApi := fun _ registry descriptor =>
  if registry.any (·.name.bytes == descriptor.name.bytes) then .errAlreadyExists else .ok

/-- A plugin whose factories all return a descriptor of one name. -/
def samplePlugin (filename name : Bytes) : DirectoryEntry where
  filename := filename
  regular := .ok true
  library := .ok ⟨fun _ => .ok (.descriptor (some (.ofBytes name)))⟩

def sampleState : PluginState := ⟨fun _ => [], [], []⟩

/-- Two files that offer the same name: the registry refuses the second. -/
def sampleListing : Directory where
  entries := [samplePlugin (ascii "libnuperf-a.so") (ascii "a"),
    samplePlugin (ascii "libnuperf-b.so") (ascii "a")]
  distinct := by decide
  ended := .ok ()

end Nuperf.Cli
