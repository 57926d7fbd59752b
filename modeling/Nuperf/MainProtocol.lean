import Nuperf.BuildReports
import Nuperf.MainCommands

set_option autoImplicit false

namespace Nuperf.Cli

open ByteString CStandard Klyspec CallProgram Program

section Events

/-- The calls of `cmd_build_run` among those of `main`. -/
def buildEvent : MainEvent → Option BuildEvent
  | ⟨.build c, reply⟩ => some ⟨c, reply⟩
  | _ => none

def buildEvents (events : List MainEvent) : List BuildEvent := events.filterMap buildEvent

/-- A text that goes to the standard error stream. -/
def MainCall.complains : MainCall → Bool
  | .cerr _ => true
  | .build (.cerr _) => true
  | _ => false

def MainCall.brackets : MainCall → Bool
  | .init => true
  | .shutdown => true
  | _ => false

/-- The library is initialised, and not shut down again. -/
def Initialised (history : List MainEvent) : Prop :=
  ∃ body, history = ⟨.init, Status.ok⟩ :: body ∧ ∀ event ∈ body, event.call.brackets = false

def Complained (history : List MainEvent) : Prop := ∃ event ∈ history, event.call.complains = true

/-- Where a call may stand: the library is used while it is open, a handle while it is there, and
the library is shut down when all handles are gone. -/
def Admissible (history : List MainEvent) : MainCall → Prop
  | .init => history = []
  | .shutdown => Initialised history ∧ Released (buildEvents history)
  | .build c => Initialised history ∧ Alive (buildEvents history) c
  | .cerr _ => True
  | _ => Initialised history

/-- A help path that is no command and no group. -/
def IsUnknown (docs : CommandTable) (tokens : List Bytes) : Prop :=
  tokens ≠ [] ∧ joinWords tokens ∉ docs.paths ∧ joinWords tokens ∉ helpGroups

/-- `nuperf help` with such a path. -/
def AsksUnknown (docs : CommandTable) (argv : List CString) : Prop :=
  ∃ program help topic, argv = program :: help :: topic ∧ help.bytes = ascii "help" ∧
    IsUnknown docs (topic.map CString.bytes)

/-- An early end of `main`: without the library, or by an exception. -/
def Stopped : Ending → List MainEvent → Prop
  | .returned code, history =>
      code = 1 ∧ ∃ st text, st ≠ .ok ∧ history = [⟨.init, st⟩, ⟨.cerr text, ()⟩]
  | .terminated _, history => Initialised history ∧ buildEvents history = []

/-- How `main` ends. The library is shut down last, and the code says whether there was a
complaint, but for an unknown help path. -/
def Exited (unknown : Prop) : Except Ending Nat → List MainEvent → Prop
  | .ok code, history =>
      ∃ front, history = front ++ [⟨.shutdown, ()⟩] ∧ Initialised front ∧ code ≤ 1 ∧
        (Complained front ↔ code = 1 ∨ unknown)
  | .error ending, history => Stopped ending history

end Events

section Steps

variable {history : List MainEvent} {event : MainEvent}

theorem Initialised.step (initialised : Initialised history)
    (inside : event.call.brackets = false) : Initialised (history ++ [event]) := by
  obtain ⟨body, rfl, between⟩ := initialised
  exact ⟨body ++ [event], rfl, List.forall_mem_append.mpr
    ⟨between, List.forall_mem_singleton.mpr inside⟩⟩

theorem complained_snoc :
    Complained (history ++ [event]) ↔ Complained history ∨ event.call.complains = true := by
  simp only [Complained, List.mem_append, List.mem_singleton, or_and_right, exists_or,
    exists_eq_left]

theorem buildEvents_snoc :
    buildEvents (history ++ [event]) = buildEvents history ++ (buildEvent event).toList :=
  filterMap_snoc _ _ _

theorem released_nil : Released [] := ⟨⟨0, 0, List.nil_prefix⟩, rfl⟩

/-- Before anything is built, and without a complaint. -/
structure Quiet (history : List MainEvent) : Prop where
  initialised : Initialised history
  unbuilt : buildEvents history = []
  calm : ¬ Complained history

/-- A call that is neither of the brackets nor of the build, and no complaint. -/
def MainCall.isPlain : MainCall → Bool
  | .init => false
  | .shutdown => false
  | .cerr _ => false
  | .build _ => false
  | _ => true

theorem Quiet.step (quiet : Quiet history) (plain : event.call.isPlain = true) :
    Quiet (history ++ [event]) := by
  obtain ⟨c, reply⟩ := event
  refine ⟨quiet.initialised.step ?_, ?_, ?_⟩
  · cases c <;> first | rfl | cases plain
  · rw [buildEvents_snoc, quiet.unbuilt]
    cases c <;> first | rfl | cases plain
  · rw [complained_snoc, not_or]
    refine ⟨quiet.calm, ?_⟩
    cases c <;> first | exact Bool.false_ne_true | cases plain

theorem Initialised.admits (initialised : Initialised history) {c : MainCall}
    (plain : c.isPlain = true) : Admissible history c := by
  cases c <;> first | exact initialised | cases plain

/-- Before the library is shut down. -/
structure Settled (unknown : Prop) (code : Nat) (history : List MainEvent) : Prop where
  initialised : Initialised history
  released : Released (buildEvents history)
  bounded : code ≤ 1
  verdict : Complained history ↔ code = 1 ∨ unknown

theorem Quiet.settled (quiet : Quiet history) : Settled False 0 history where
  initialised := quiet.initialised
  released := quiet.unbuilt.symm ▸ released_nil
  bounded := Nat.zero_le 1
  verdict := by simp [quiet.calm]

/-- A complaint where nothing is built. -/
theorem Quiet.complain (quiet : Quiet history) (text : Bytes) (reply : Unit) (unknown : Prop)
    (code : Nat) (bounded : code ≤ 1) (reason : code = 1 ∨ unknown) :
    Settled unknown code (history ++ [⟨.cerr text, reply⟩]) where
  initialised := quiet.initialised.step rfl
  released := by
    rw [buildEvents_snoc, quiet.unbuilt]
    exact released_nil
  bounded := bounded
  verdict := by
    rw [complained_snoc]
    exact iff_of_true (.inr rfl) reason

end Steps

section Stages

variable {α : Type} (unknown : Prop) {history : List MainEvent}

theorem shutDown_meets (code : Nat) (settled : Settled unknown code history) :
    (shutDown code).Meets Admissible (Exited unknown) history :=
  ⟨⟨settled.initialised, settled.released⟩,
    fun _ => ⟨history, rfl, settled.initialised, settled.bounded, settled.verdict⟩⟩

theorem tell_leads (c : MainCall) (plain : c.isPlain = true) :
    (tell c).Leads Admissible Stopped Quiet Quiet :=
  leads_perform (fun _ quiet => quiet.initialised.admits plain) fun _ _ quiet => quiet.step plain

theorem tell_then {c : MainCall} (plain : c.isPlain = true) (quiet : Quiet history)
    {next : MainReply c → MainRun α} {post : Except Ending α → List MainEvent → Prop}
    (later : ∀ reply reached, Quiet reached → (next reply).Meets Admissible post reached) :
    (tell c >>= next).Meets Admissible post history :=
  ⟨quiet.initialised.admits plain, fun reply => later reply _ (quiet.step plain)⟩

theorem orTerminate_leads (answer : Except CxxException α) :
    (orTerminate answer).Leads Admissible Stopped Quiet Quiet := by
  intro history quiet
  cases answer with
  | ok value => exact quiet
  | error thrown => exact ⟨quiet.initialised, quiet.unbuilt⟩

/-- Lines that are written before the end, of which there is one at least. -/
theorem refuse_meets (lines : List Bytes) (initialised : Initialised history)
    (unbuilt : buildEvents history = []) (told : lines ≠ [] ∨ Complained history) :
    (refuse lines).Meets Admissible (Exited False) history := by
  induction lines generalizing history with
  | nil =>
      have complained : Complained history := told.resolve_left fun some_ => some_ rfl
      apply shutDown_meets
      exact ⟨initialised, unbuilt.symm ▸ released_nil, le_rfl,
        iff_of_true complained (.inl rfl)⟩
  | cons line rest ih =>
      refine ⟨trivial, fun reply => ?_⟩
      apply ih (initialised.step rfl)
      · rw [buildEvents_snoc, unbuilt]
        rfl
      · exact .inr (complained_snoc.mpr (.inr rfl))

/-- A stretch without a complaint, and the end of `main` behind it. -/
theorem quiet_then_shutDown {p : MainRun Unit}
    (leads : p.Leads Admissible Stopped Quiet Quiet) (quiet : Quiet history) :
    (p >>= fun _ => shutDown 0).Meets Admissible (Exited False) history := by
  rw [meets_bind]
  apply (leads history quiet).mono
  intro outcome reached ends
  cases outcome with
  | ok _ => exact shutDown_meets False 0 ends.settled
  | error ending => exact ends

theorem withoutArguments_meets (rest : List Bytes) {print : MainRun Unit}
    (leads : print.Leads Admissible Stopped Quiet Quiet) (quiet : Quiet history) :
    (withoutArguments rest print).Meets Admissible (Exited False) history := by
  unfold withoutArguments
  split_ifs
  · exact refuse_meets _ quiet.initialised quiet.unbuilt (.inl (List.cons_ne_nil _ _))
  · exact quiet_then_shutDown leads quiet

/-- How a command ends that returns a code to `main`. -/
def Returned : Except Ending Nat → List MainEvent → Prop
  | .ok code, history => Settled False code history
  | .error ending, history => Stopped ending history

theorem returned_then_shutDown {p : MainRun Nat} (meets : p.Meets Admissible Returned history) :
    (p >>= shutDown).Meets Admissible (Exited False) history := by
  rw [meets_bind]
  apply meets.mono
  intro outcome reached ends
  cases outcome with
  | ok code => exact shutDown_meets False code ends
  | error ending => exact ends

theorem writeBuildFiles_meets (root : Bytes) (files : List Bytes) (quiet : Quiet history) :
    (writeBuildFiles root files).Meets Admissible Returned history := by
  induction files generalizing history with
  | nil =>
      rw [writeBuildFiles]
      apply tell_then rfl quiet
      exact fun _ _ quiet => quiet.settled
  | cons file rest ih =>
      rw [writeBuildFiles]
      cases buildFileText file with
      | some text =>
          apply tell_then rfl quiet
          exact fun _ _ quiet => ih quiet
      | none =>
          exact ⟨trivial, fun reply => quiet.complain _ reply False 1 le_rfl (.inl rfl)⟩

theorem workspaceRoot_leads (dir : Bytes) :
    (workspaceRoot dir).Leads Admissible Stopped Quiet Quiet := by
  unfold workspaceRoot
  split_ifs
  · exact leads_bind _ (tell_leads _ rfl) orTerminate_leads
  · exact leads_done dir

theorem cmdProjectInit_meets (dir : Bytes) (files : List Bytes) (quiet : Quiet history) :
    (cmdProjectInit dir files).Meets Admissible Returned history := by
  unfold cmdProjectInit
  rw [meets_bind]
  apply (workspaceRoot_leads dir history quiet).mono
  intro outcome reached ends
  cases outcome with
  | error ending => exact ends
  | ok root =>
      apply tell_then rfl ends
      intro _ history quiet
      apply tell_then rfl quiet
      intro _ history quiet
      apply tell_then rfl quiet
      intro _ history quiet
      apply tell_then rfl quiet
      intro _ history quiet
      apply tell_then rfl quiet
      intro _ history quiet
      exact writeBuildFiles_meets root files quiet

theorem not_calm_snoc (events : List BuildEvent) (c : BuildCall) (reply : BuildReply c) :
    ¬ Calm (events ++ [⟨c, reply⟩]) ↔ ¬ Calm events ∨ (MainCall.build c).complains = true := by
  have calm : Calm (events ++ [⟨c, reply⟩]) ↔ Calm events ∧ ∀ text, c ≠ .cerr text := by
    rw [Calm, List.forall_mem_append, List.forall_mem_singleton]
    rfl
  have complains : (MainCall.build c).complains = true ↔ ∃ text, c = .cerr text := by
    cases c <;> simp [MainCall.complains]
  rw [calm, complains, not_and_or, not_forall_not]

/-- The call of the build, which finds the library open, leaves no handle behind, and says why it
fails. -/
theorem callBuildRun_meets (host : Host) (args : BuildArguments) (quiet : Quiet history) :
    (callBuildRun host args).Meets Admissible Returned history := by
  have alone := (cmdBuildRun_finishes host args).and (reports_cmdBuildRun host args [] (by
    intro event member
    cases member))
  -- A complaint of the whole is one of the build from now on.
  let keeps (reached : List MainEvent) : Prop :=
    Initialised reached ∧ (Complained reached ↔ ¬ Calm (buildEvents reached))
  have start : keeps history := by
    refine ⟨quiet.initialised, iff_of_false quiet.calm ?_⟩
    rw [quiet.unbuilt, not_not]
    intro event member
    cases member
  apply (meets_within MainCall.build (fun _ reply => reply) buildEvents keeps ?_ ?_ ?_ _ _ start
    (quiet.unbuilt.symm ▸ alone)).mono
  · rintro outcome reached ⟨⟨initialised, complained⟩, ended, ⟨finished, reported⟩, rfl⟩
    cases ended with
    | ok code =>
        obtain ⟨rfl, released, -⟩ := finished
        refine ⟨initialised, released, Nat.zero_le 1, ?_⟩
        rw [complained]
        exact iff_of_false (not_not.mpr reported) (by simp [returned])
    | error code =>
        obtain ⟨rfl, released, -⟩ := finished
        refine ⟨initialised, released, le_rfl, ?_⟩
        rw [complained]
        exact iff_of_true reported.2 (.inl rfl)
  · intro history c kept guarded
    exact ⟨kept.1, guarded.1⟩
  · intro history c answer kept
    refine ⟨kept.1.step rfl, ?_⟩
    rw [complained_snoc, kept.2, buildEvents_snoc]
    exact (not_calm_snoc (buildEvents history) c answer).symm
  · intro history c answer
    exact buildEvents_snoc

theorem printHelpPath_meets (docs : CommandTable) (tokens : List Bytes) (quiet : Quiet history) :
    (printHelpPath docs tokens >>= fun _ => shutDown 0).Meets Admissible
      (Exited (IsUnknown docs tokens)) history := by
  have known (unknown : Prop) (never : ¬ unknown) (page : HelpPage) :
      (tell (.page page) >>= fun _ => shutDown 0).Meets Admissible (Exited unknown) history := by
    rw [eq_false never]
    exact quiet_then_shutDown (tell_leads _ rfl) quiet
  unfold printHelpPath printGroupHelp
  dsimp only
  split_ifs with none_ command group
  · exact known _ (fun all => all.1 none_) _
  · exact known _ (fun all => all.2.1 (List.contains_iff_mem.mp command)) _
  · exact known _ (fun all => all.2.2 (List.contains_iff_mem.mp group)) _
  · refine ⟨trivial, fun reply => shutDown_meets _ 0 ?_⟩
    apply quiet.complain _ reply _ 0 (Nat.zero_le 1)
    exact .inr ⟨none_, fun member => command (List.contains_iff_mem.mpr member),
      fun member => group (List.contains_iff_mem.mpr member)⟩

theorem runCommand_meets (host : Host) (parsed : ParsedCommand) (quiet : Quiet history) :
    (runCommand host parsed).Meets Admissible (Exited False) history := by
  have listing (kind : PluginKind) : (printRegistered kind).Leads Admissible Stopped Quiet Quiet :=
    leads_bind _ (tell_leads _ rfl) fun _ => tell_leads _ rfl
  unfold runCommand
  dsimp only
  split_ifs
  · apply withoutArguments_meets _ _ quiet
    exact leads_bind _ (tell_leads _ rfl) fun _ => tell_leads _ rfl
  · exact withoutArguments_meets _ (listing .method) quiet
  · exact withoutArguments_meets _ (listing .target) quiet
  · cases asked : buildArguments parsed.rest with
    | error lines =>
        exact refuse_meets lines quiet.initialised quiet.unbuilt
          (.inl (buildArguments_error _ _ asked))
    | ok args => exact returned_then_shutDown (callBuildRun_meets host args quiet)
  · cases asked : initArguments parsed.rest with
    | error lines =>
        exact refuse_meets lines quiet.initialised quiet.unbuilt
          (.inl (initArguments_error _ _ asked))
    | ok init =>
        obtain ⟨dir, builds⟩ := init
        exact returned_then_shutDown (cmdProjectInit_meets dir builds quiet)
  · exact refuse_meets _ quiet.initialised quiet.unbuilt (.inl (List.cons_ne_nil _ _))

theorem dispatch_meets (docs : CommandTable) (host : Host) (argv : List CString)
    (quiet : Quiet history) :
    (dispatch docs host argv).Meets Admissible (Exited (AsksUnknown docs argv)) history := by
  have page (unasked : ¬ AsksUnknown docs argv) (page : HelpPage) :
      (tell (.page page) >>= fun _ => shutDown 0).Meets Admissible
        (Exited (AsksUnknown docs argv)) history := by
    rw [eq_false unasked]
    exact quiet_then_shutDown (tell_leads _ rfl) quiet
  rcases argv with _ | ⟨program, _ | ⟨first, more⟩⟩
  · apply page
    rintro ⟨_, _, _, same, -⟩
    cases same
  · apply page
    rintro ⟨_, _, _, same, -⟩
    cases same
  · have asks : AsksUnknown docs (program :: first :: more) ↔
        first.bytes = ascii "help" ∧ IsUnknown docs (more.map CString.bytes) := by
      constructor
      · rintro ⟨_, _, _, same, help, unknown⟩
        cases same
        exact ⟨help, unknown⟩
      · rintro ⟨help, unknown⟩
        exact ⟨program, first, more, rfl, help, unknown⟩
    rw [dispatch]
    dsimp only
    split_ifs with help general flagged
    · rw [asks, eq_true help, true_and]
      exact printHelpPath_meets docs _ quiet
    all_goals have unasked := fun unknown => help (asks.mp unknown).1
    · exact page unasked _
    · exact page unasked _
    · rw [eq_false unasked]
      exact runCommand_meets host _ quiet

theorem loadPlugins_leads (kind : PluginKind) (dir : Bytes) :
    (loadPlugins kind dir).Leads Admissible Stopped Quiet Quiet :=
  leads_bind _ (tell_leads _ rfl) orTerminate_leads

/-- What holds in every run of `main`. -/
theorem main_meets (docs : CommandTable) (host : Host) (home : Option CString)
    (argv : List CString) :
    (main docs host home argv).Meets Admissible (Exited (AsksUnknown docs argv)) [] := by
  unfold main
  rw [tell, meets_perform_bind]
  refine ⟨rfl, fun st => ?_⟩
  dsimp only
  split_ifs with ok
  · subst ok
    have fresh : Quiet [⟨.init, Status.ok⟩] := by
      refine ⟨⟨[], rfl, fun event member => by cases member⟩, rfl, ?_⟩
      rintro ⟨event, member, complains⟩
      rw [List.mem_singleton.mp member] at complains
      cases complains
    have plugins := leads_bind _
      (loadPlugins_leads .method (appendPath (nuperfHomeDir home) (ascii "methods"))) fun _ =>
      loadPlugins_leads .target (appendPath (nuperfHomeDir home) (ascii "targets"))
    have loaded := (meets_bind Admissible (Exited (AsksUnknown docs argv)) _
      (fun _ => dispatch docs host argv) _).mpr ((plugins _ fresh).mono ?_)
    · rw [bind_assoc] at loaded
      exact loaded
    · intro outcome reached ends
      cases outcome with
      | ok _ => exact dispatch_meets docs host argv ends
      | error ending => exact ends
  · exact ⟨trivial, fun reply => ⟨rfl, st, _, ok, rfl⟩⟩

end Stages

/-- `nuperf build run --option seed=7`. -/
def seedLine : List CString :=
  .ofBytes (ascii "nuperf") :: ([.ofBytes (ascii "build"), .ofBytes (ascii "run")] ++
    [.ofBytes (ascii "--option"), .ofBytes (ascii "seed=7")])

/-- A run of it, without plugins. -/
def seedEvents : List MainEvent :=
  ⟨.init, Status.ok⟩ :: ⟨.loadPlugins .method (ascii "methods"), .ok ()⟩ ::
    ⟨.loadPlugins .target (ascii "targets"), .ok ()⟩ ::
      (printedEvents.map (fun event => ⟨.build event.call, event.reply⟩) ++ [⟨.shutdown, ()⟩])

end Nuperf.Cli
