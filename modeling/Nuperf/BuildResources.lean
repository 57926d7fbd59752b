import Nuperf.BuildTrace

set_option autoImplicit false

namespace Nuperf.Cli

open ByteString CStandard TextReader Serdetk CallProgram Program

/-- What `cmd_build_run` owns. -/
inductive Resource
  | keyset (keyset : Handle)
  | table (table : Handle)
  deriving DecidableEq

section Events

def StatusCall.passed : StatusCall → List Resource
  | .addString keyset _ => [.keyset keyset]
  | .setKeyset table keyset => [.table table, .keyset keyset]
  | .setMethod table _ => [.table table]
  | .setTarget table _ => [.table table]
  | .setOption table _ _ => [.table table]
  | .tableBuild table => [.table table]
  | .emitFile table _ => [.table table]

/-- The handles that a call is given. -/
def BuildCall.passed : BuildCall → List Resource
  | .keysetDestroy keyset => [.keyset keyset]
  | .tableDestroy table => [.table table]
  | .status c => c.passed
  | .emitSize table => [.table table]
  | .emitBuffer table _ => [.table table]
  | _ => []

def BuildCall.destroyed : BuildCall → Option Resource
  | .keysetDestroy keyset => some (.keyset keyset)
  | .tableDestroy table => some (.table table)
  | _ => none

def BuildCall.printed : BuildCall → Option Bytes
  | .cout text => some text
  | _ => none

/-- A handle that came with `NUPERF_OK`. -/
def createdBy : BuildEvent → Option Resource
  | ⟨.keysetCreate, (st, keyset)⟩ => if st = .ok then some (.keyset keyset) else none
  | ⟨.tableCreate, (st, table)⟩ => if st = .ok then some (.table table) else none
  | _ => none

/-- `NUPERF_ERR_BUFFER_TOO_SMALL` is a success of the query with a null buffer. -/
def IsSuccess : BuildEvent → Prop
  | ⟨.keysetCreate, (st, _)⟩ => st = .ok
  | ⟨.tableCreate, (st, _)⟩ => st = .ok
  | ⟨.status _, st⟩ => st = Status.ok
  | ⟨.emitSize _, (st, _)⟩ => st = .ok ∨ st = .errBufferTooSmall
  | ⟨.emitBuffer _ _, (st, _, _)⟩ => st = .ok
  | _ => True

def createdHandles (events : List BuildEvent) : List Resource := events.filterMap createdBy

def destroyedHandles (events : List BuildEvent) : List Resource :=
  events.filterMap fun event => event.call.destroyed

def printedTexts (events : List BuildEvent) : List Bytes :=
  events.filterMap fun event => event.call.printed

/-- The code that is returned, early or at the end. -/
def exitCode : Except Nat Nat → Nat
  | .ok code => code
  | .error code => code

end Events

/-- How a run treats what it owns and what it prints. -/
structure Orderly (events : List BuildEvent) (outcome : Except Nat Nat) : Prop where
  once : ∀ handle ∈ createdHandles events, (destroyedHandles events).count handle = 1
  tableFirst : ∀ keyset table, .keyset keyset ∈ createdHandles events →
    .table table ∈ createdHandles events →
    destroyedHandles events = [.table table, .keyset keyset]
  alive : ∀ before event after, events = before ++ event :: after →
    ∀ handle ∈ event.call.passed,
      handle ∈ createdHandles before ∧ handle ∉ destroyedHandles before
  succeeded : exitCode outcome = 0 → ∀ event ∈ events, IsSuccess event
  silent : exitCode outcome ≠ 0 → printedTexts events = []

/-- Only handles that are there are passed. -/
def Alive (history : List BuildEvent) (c : BuildCall) : Prop :=
  ∀ handle ∈ c.passed, handle ∈ createdHandles history ∧ handle ∉ destroyedHandles history

/-- What was created has been destroyed again, last things first. -/
structure Released (history : List BuildEvent) : Prop where
  created : ∃ keyset table, createdHandles history <+: [.keyset keyset, .table table]
  destroyed : destroyedHandles history = (createdHandles history).reverse

structure Owned (keyset table : Handle) (history : List BuildEvent) : Prop where
  created : createdHandles history = [.keyset keyset, .table table]
  destroyed : destroyedHandles history = []

def Silent (history : List BuildEvent) : Prop := printedTexts history = []

def AllSucceeded (history : List BuildEvent) : Prop := ∀ event ∈ history, IsSuccess event

/-- After an early exit. -/
def Abandoned (code : Nat) (history : List BuildEvent) : Prop :=
  code = 1 ∧ Released history ∧ Silent history

theorem filterMap_snoc {α β : Type} (f : α → Option β) (front : List α) (last : α) :
    (front ++ [last]).filterMap f = front.filterMap f ++ (f last).toList := by
  cases found : f last <;> simp [found]

theorem createdHandles_snoc (history : List BuildEvent) (event : BuildEvent) :
    createdHandles (history ++ [event]) = createdHandles history ++ (createdBy event).toList :=
  filterMap_snoc _ _ _

theorem destroyedHandles_snoc (history : List BuildEvent) (event : BuildEvent) :
    destroyedHandles (history ++ [event]) =
      destroyedHandles history ++ event.call.destroyed.toList :=
  filterMap_snoc _ _ _

theorem printedTexts_snoc (history : List BuildEvent) (event : BuildEvent) :
    printedTexts (history ++ [event]) = printedTexts history ++ event.call.printed.toList :=
  filterMap_snoc _ _ _

section Steps

variable {history : List BuildEvent} {event : BuildEvent}

theorem Silent.step (silent : Silent history) (prints : event.call.printed = none) :
    Silent (history ++ [event]) := by
  rw [Silent, printedTexts_snoc, prints, silent]
  rfl

theorem AllSucceeded.step (succeeded : AllSucceeded history) (success : IsSuccess event) :
    AllSucceeded (history ++ [event]) := by
  intro other member
  rcases List.mem_append.mp member with earlier | last
  · exact succeeded other earlier
  · rw [List.mem_singleton.mp last]
    exact success

variable {keyset table : Handle}

theorem Owned.step (owned : Owned keyset table history) (creates : createdBy event = none)
    (destroys : event.call.destroyed = none) : Owned keyset table (history ++ [event]) where
  created := by
    rw [createdHandles_snoc, creates, owned.created]
    rfl
  destroyed := by
    rw [destroyedHandles_snoc, destroys, owned.destroyed]
    rfl

theorem Owned.alive (owned : Owned keyset table history) (c : BuildCall)
    (passed : c.passed ⊆ [.keyset keyset, .table table]) : Alive history c := by
  intro handle given
  rw [owned.created, owned.destroyed]
  exact ⟨passed given, List.not_mem_nil⟩

end Steps

section Stages

variable {α : Type} (host : Host) (args : BuildArguments) (keyset table : Handle)

/-- `cleanup()` destroys the table and then the keyset, and changes nothing else. -/
theorem cleanup_leads (keeps : List BuildEvent → Prop)
    (first : ∀ history, keeps history → keeps (history ++ [⟨.tableDestroy table, ()⟩]))
    (second : ∀ history, keeps history → keeps (history ++ [⟨.keysetDestroy keyset, ()⟩])) :
    (cleanup keyset table).Leads Alive Abandoned
      (fun history => Owned keyset table history ∧ keeps history)
      (fun history => Released history ∧ keeps history) := by
  apply leads_bind (fun history => createdHandles history = [.keyset keyset, .table table] ∧
    destroyedHandles history = [.table table] ∧ keeps history)
  · apply leads_perform
    · intro history holds
      exact holds.1.alive _ (by simp [BuildCall.passed])
    · intro history reply holds
      refine ⟨?_, ?_, first history holds.2⟩
      · rw [createdHandles_snoc, holds.1.created]
        rfl
      · rw [destroyedHandles_snoc, holds.1.destroyed]
        rfl
  · intro _
    apply leads_perform
    · intro history holds handle given
      rw [holds.1, holds.2.1]
      rw [List.mem_singleton.mp given]
      simp
    · intro history reply holds
      have created : createdHandles (history ++ [⟨.keysetDestroy keyset, reply⟩]) =
          [.keyset keyset, .table table] := by
        rw [createdHandles_snoc, holds.1]
        rfl
      refine ⟨⟨⟨keyset, table, ?_⟩, ?_⟩, second history holds.2.2⟩
      · rw [created]
      · rw [created, destroyedHandles_snoc, holds.2.1]
        rfl

theorem giveUp_leads (message : Bytes) (post : List BuildEvent → Prop) :
    (giveUp keyset table message : Run α).Leads Alive Abandoned
      (fun history => Owned keyset table history ∧ Silent history) post := by
  apply leads_bind (fun history => Owned keyset table history ∧ Silent history)
  · apply leads_perform
    · intro history _ handle given
      cases given
    · intro history reply holds
      exact ⟨holds.1.step rfl rfl, holds.2.step rfl⟩
  intro _
  apply leads_bind (fun history => Released history ∧ Silent history)
  · apply cleanup_leads keyset table Silent
    · exact fun history silent => silent.step rfl
    · exact fun history silent => silent.step rfl
  intro _ history holds
  exact ⟨rfl, holds⟩

/-- Both handles are owned, nothing has been printed, and all calls have succeeded. -/
structure Working (history : List BuildEvent) : Prop where
  owned : Owned keyset table history
  silent : Silent history
  succeeded : AllSucceeded history

theorem check_leads (what : Bytes) (st : Status) :
    (check keyset table host what st).Leads Alive Abandoned
      (fun history => Owned keyset table history ∧ Silent history ∧
        (st = .ok → AllSucceeded history)) (Working keyset table) := by
  unfold check
  intro history holds
  split_ifs with ok
  · exact ⟨holds.1, holds.2.1, holds.2.2 ok⟩
  · exact giveUp_leads keyset table _ _ history ⟨holds.1, holds.2.1⟩

/-- A stretch that goes on only if all is well, and gives up otherwise. -/
def Works (p : Run α) : Prop :=
  p.Leads Alive Abandoned (Working keyset table) (Working keyset table)

theorem works_pure (value : α) : Works keyset table (pure value : Run α) := leads_done value

theorem works_bind {β : Type} {p : Run β} {f : β → Run α} (first : Works keyset table p)
    (second : ∀ value, Works keyset table (f value)) : Works keyset table (p >>= f) :=
  leads_bind _ first second

theorem works_giveUp (message : Bytes) : Works keyset table (giveUp keyset table message : Run α) :=
  fun history working =>
    giveUp_leads keyset table message _ history ⟨working.owned, working.silent⟩

theorem works_must (what : Bytes) (c : StatusCall)
    (passed : c.passed ⊆ [.keyset keyset, .table table]) :
    Works keyset table (must keyset table host what c) := by
  intro history working
  unfold must ask
  rw [meets_bind, meets_perform]
  refine ⟨working.owned.alive _ passed, ?_⟩
  intro st
  apply check_leads
  refine ⟨working.owned.step rfl rfl, working.silent.step rfl, ?_⟩
  intro ok
  exact working.succeeded.step ok

theorem works_dumpSchema : Works keyset table (dumpSchema host args keyset table) := by
  unfold dumpSchema
  split_ifs with absent
  · exact works_pure keyset table host.files
  · cases dumpDatasetSchema host.loaders.toFloating host.files args.schemaDumpPath.bytes with
    | ok files => exact works_pure keyset table files
    | error error => exact works_giveUp keyset table _

theorem works_addKey (key : Bytes) : Works keyset table (addKey host keyset table key) :=
  works_must host keyset table _ _ (by simp [StatusCall.passed])

theorem works_addKeys (keys : List Bytes) :
    Works keyset table (addKeys host keyset table keys) := by
  induction keys with
  | nil => exact works_pure keyset table ()
  | cons key rest ih =>
      exact works_bind keyset table (works_addKey host keyset table key) fun _ => ih

theorem works_addLines (lines : List Bytes) :
    Works keyset table (addLines host keyset table lines) := by
  induction lines with
  | nil => exact works_pure keyset table ()
  | cons line rest ih =>
      rw [addLines]
      split_ifs with empty
      · exact works_bind keyset table (works_pure keyset table ()) fun _ => ih
      · exact works_bind keyset table (works_addKey host keyset table line) fun _ => ih

theorem works_openInput (files : FileSystem) :
    Works keyset table (openInput host args keyset table files) := by
  unfold openInput
  split_ifs with standard
  · exact works_pure keyset table host.stdin
  · cases files.contents args.inputPath.bytes with
    | some text => exact works_pure keyset table text
    | none => exact works_giveUp keyset table _

theorem works_ingest (files : FileSystem) :
    Works keyset table (ingest host args keyset table files) := by
  unfold ingest
  split_ifs with lined
  · apply works_bind keyset table (works_openInput host args keyset table files)
    intro text
    apply works_bind keyset table (works_addLines host keyset table (lines text))
    exact fun _ => works_pure keyset table _
  · unfold ingestRequest
    split_ifs with standard
    · exact works_giveUp keyset table _
    · cases loadBuildRequest host.loaders files args.inputPath.bytes args.inputFormat
          args.schemaPath.bytes [] {} with
      | ok _ request =>
          apply works_bind keyset table (works_addKeys host keyset table request.keys)
          exact fun _ => works_pure keyset table _
      | error error left => exact works_giveUp keyset table _

theorem works_setOptions (options : List Bytes) :
    Works keyset table (setOptions host keyset table options) := by
  induction options with
  | nil => exact works_pure keyset table ()
  | cons opt rest ih =>
      rw [setOptions]
      cases splitOption opt with
      | none => exact works_giveUp keyset table _
      | some pair =>
          apply works_bind keyset table
          · exact works_must host keyset table _ _ (by simp [StatusCall.passed])
          · exact fun _ => ih

theorem works_configure (settings : Settings) :
    Works keyset table (configure host keyset table settings) := by
  unfold configure
  apply works_bind keyset table
  · exact works_must host keyset table _ _ (by simp [StatusCall.passed])
  intro _
  have options := works_setOptions host keyset table settings.options
  have named (what : Bytes) (c : StatusCall) (passed : c.passed ⊆ [.keyset keyset, .table table])
      {rest : Run Unit} (works : Works keyset table rest) :
      Works keyset table (must keyset table host what c >>= fun _ => rest) :=
    works_bind keyset table (works_must host keyset table what c passed) fun _ => works
  dsimp only
  split_ifs
  · exact options
  · exact named _ _ (by simp [StatusCall.passed]) options
  · exact named _ _ (by simp [StatusCall.passed]) options
  · exact named _ _ (by simp [StatusCall.passed]) (named _ _ (by simp [StatusCall.passed]) options)

/-- The table is printed after the last call that can fail. -/
theorem emitTable_leads :
    (emitTable host args keyset table).Leads Alive Abandoned (Working keyset table)
      (fun history => Owned keyset table history ∧ AllSucceeded history) := by
  intro history working
  unfold emitTable
  split_ifs with standard
  · rw [ask, meets_perform_bind]
    refine ⟨working.owned.alive _ (by simp [BuildCall.passed]), ?_⟩
    intro reply
    obtain ⟨st, size⟩ := reply
    dsimp only
    split_ifs with sized
    · have queried : Working keyset table (history ++ [⟨.emitSize table, (st, size)⟩]) :=
        ⟨working.owned.step rfl rfl, working.silent.step rfl, working.succeeded.step sized⟩
      rw [ask, meets_perform_bind]
      refine ⟨queried.owned.alive _ (by simp [BuildCall.passed]), ?_⟩
      intro reply
      obtain ⟨st, written, out⟩ := reply
      refine leads_bind (Working keyset table) (check_leads host keyset table _ st) ?_ _ ?_
      · intro _
        apply leads_perform
        · intro history _ handle given
          cases given
        · intro history reply working
          exact ⟨working.owned.step rfl rfl, working.succeeded.step trivial⟩
      · refine ⟨queried.owned.step rfl rfl, queried.silent.step rfl, ?_⟩
        intro ok
        exact queried.succeeded.step ok
    · rw [meets_bind]
      exact giveUp_leads keyset table _ _ _ ⟨working.owned.step rfl rfl, working.silent.step rfl⟩
  · apply (works_must host keyset table _ _ (by simp [StatusCall.passed]) history working).mono
    intro outcome reached ends
    cases outcome with
    | ok _ => exact ⟨ends.owned, ends.succeeded⟩
    | error code => exact ends

/-- How `openHandles` ends. -/
def Opened : Except Nat (Handle × Handle) → List BuildEvent → Prop
  | .ok (keyset, table), history => Working keyset table history
  | .error code, history => Abandoned code history

/-- How `cmdBuildRun` ends. -/
def Finished : Except Nat Nat → List BuildEvent → Prop
  | .ok code, history => code = 0 ∧ Released history ∧ AllSucceeded history
  | .error code, history => Abandoned code history

theorem openHandles_meets : (openHandles host).Meets Alive Opened [] := by
  have free (history : List BuildEvent) (c : BuildCall) (none_ : c.passed = []) :
      Alive history c := by
    intro handle given
    rw [none_] at given
    cases given
  have none_yet : AllSucceeded [] := fun event member => by cases member
  unfold openHandles
  rw [ask, meets_perform_bind]
  refine ⟨free _ _ rfl, ?_⟩
  intro reply
  obtain ⟨st, keyset⟩ := reply
  dsimp only
  split_ifs with keysetOk
  · subst keysetOk
    rw [ask, meets_perform_bind]
    refine ⟨free _ _ rfl, ?_⟩
    intro reply
    obtain ⟨st, table⟩ := reply
    dsimp only
    split_ifs with tableOk
    · subst tableOk
      have first : AllSucceeded [⟨.keysetCreate, (.ok, keyset)⟩] := none_yet.step rfl
      exact ⟨⟨rfl, rfl⟩, rfl, first.step rfl⟩
    · have created (later : List BuildEvent) (none_ : later.filterMap createdBy = []) :
          createdHandles (⟨.keysetCreate, (.ok, keyset)⟩ :: ⟨.tableCreate, (st, table)⟩ :: later) =
            [.keyset keyset] := by
        simp [createdHandles, createdBy, tableOk, none_]
      rw [ask, meets_perform_bind]
      refine ⟨free _ _ rfl, ?_⟩
      intro reply
      rw [ask, meets_perform_bind]
      constructor
      · intro handle given
        rw [List.mem_singleton.mp given]
        refine ⟨?_, List.not_mem_nil⟩
        exact created [⟨.cerr _, reply⟩] rfl ▸ List.mem_singleton_self _
      · intro answer
        have last := created [⟨.cerr _, reply⟩, ⟨.keysetDestroy keyset, answer⟩] rfl
        refine ⟨rfl, ⟨⟨keyset, table, ?_⟩, ?_⟩, rfl⟩
        · exact last ▸ ⟨[.table table], rfl⟩
        · exact last ▸ rfl
  · rw [ask, meets_perform_bind]
    refine ⟨free _ _ rfl, ?_⟩
    intro reply
    have created : createdHandles [⟨.keysetCreate, (st, keyset)⟩, ⟨.cerr _, reply⟩] = [] := by
      simp [createdHandles, createdBy, keysetOk]
    refine ⟨rfl, ⟨⟨keyset, keyset, ?_⟩, ?_⟩, rfl⟩
    · exact created ▸ List.nil_prefix
    · exact created ▸ rfl

/-- Every run of `cmd_build_run`. -/
theorem cmdBuildRun_finishes : (cmdBuildRun host args).Meets Alive Finished [] := by
  have rest (keyset table : Handle) : (do
      let files ← dumpSchema host args keyset table
      let settings ← ingest host args keyset table files
      configure host keyset table settings
      must keyset table host (ascii "build") (.tableBuild table)
      emitTable host args keyset table
      cleanup keyset table : Run Unit).Leads Alive Abandoned (Working keyset table)
      (fun history => Released history ∧ AllSucceeded history) := by
    apply leads_bind (Working keyset table) (works_dumpSchema host args keyset table)
    intro files
    apply leads_bind (Working keyset table) (works_ingest host args keyset table files)
    intro settings
    apply leads_bind (Working keyset table) (works_configure host keyset table settings)
    intro _
    apply leads_bind (Working keyset table)
      (works_must host keyset table _ _ (by simp [StatusCall.passed]))
    intro _
    apply leads_bind _ (emitTable_leads host args keyset table)
    intro _
    apply cleanup_leads keyset table AllSucceeded
    · exact fun history succeeded => succeeded.step trivial
    · exact fun history succeeded => succeeded.step trivial
  unfold cmdBuildRun
  rw [meets_bind]
  apply (openHandles_meets host).mono
  intro outcome reached ends
  cases outcome with
  | error code => exact ends
  | ok handles =>
      obtain ⟨keyset, table⟩ := handles
      have closed := (meets_bind Alive Finished _ (fun _ => (pure 0 : Run Nat)) reached).mpr
        ((rest keyset table reached ends).mono fun outcome reached ends => by
          cases outcome with
          | ok _ => exact ⟨rfl, ends⟩
          | error code => exact ends)
      simp only [bind_assoc] at closed
      exact closed

end Stages

/-- A keyset alone, or a keyset and a table, or nothing. -/
theorem Released.cases {history : List BuildEvent} (released : Released history) :
    createdHandles history = [] ∨ (∃ keyset, createdHandles history = [.keyset keyset]) ∨
      ∃ keyset table, createdHandles history = [.keyset keyset, .table table] := by
  obtain ⟨keyset, table, front⟩ := released.created
  rcases List.prefix_cons_iff.mp front with none_ | ⟨rest, some_, front⟩
  · exact .inl none_
  rcases List.prefix_cons_iff.mp front with one | ⟨last, two, front⟩
  · exact .inr (.inl ⟨keyset, some_.trans (congrArg _ one)⟩)
  · refine .inr (.inr ⟨keyset, table, some_.trans (congrArg _ (two.trans ?_))⟩)
    exact congrArg _ (List.prefix_nil.mp front)

theorem Released.once {history : List BuildEvent} (released : Released history) (handle : Resource)
    (created : handle ∈ createdHandles history) : (destroyedHandles history).count handle = 1 := by
  have distinct : (createdHandles history).Nodup := by
    rcases released.cases with none_ | ⟨keyset, one⟩ | ⟨keyset, table, two⟩
    · rw [none_]
      exact List.nodup_nil
    · rw [one]
      exact List.nodup_singleton _
    · rw [two]
      simp
  rw [released.destroyed, List.count_reverse]
  exact List.count_eq_one_of_mem distinct created

theorem Released.tableFirst {history : List BuildEvent} (released : Released history)
    (keyset table : Handle) (first : .keyset keyset ∈ createdHandles history)
    (second : .table table ∈ createdHandles history) :
    destroyedHandles history = [.table table, .keyset keyset] := by
  rw [released.destroyed]
  rcases released.cases with none_ | ⟨keyset, one⟩ | ⟨keyset, table, two⟩
  · rw [none_] at first
    cases first
  · rw [one] at second
    cases List.mem_singleton.mp second
  · rw [two] at first second ⊢
    simp only [List.mem_cons, Resource.keyset.injEq, reduceCtorEq, List.not_mem_nil, or_false,
      Resource.table.injEq, false_or] at first second
    rw [first, second]
    rfl

theorem Finished.orderly {events : List BuildEvent} {outcome : Except Nat Nat}
    (finished : Finished outcome events)
    (alive : ∀ before event after, events = before ++ event :: after → Alive before event.call) :
    Orderly events outcome := by
  cases outcome with
  | ok code =>
      obtain ⟨zero, released, succeeded⟩ := finished
      refine ⟨released.once, released.tableFirst, alive, fun _ => succeeded, ?_⟩
      intro failed
      exact absurd zero failed
  | error code =>
      obtain ⟨one, released, silent⟩ := finished
      refine ⟨released.once, released.tableFirst, alive, ?_, fun _ => silent⟩
      intro done
      rw [exitCode, one] at done
      cases done

/-- Whatever the input, and however the library answers. -/
theorem cmdBuildRun_orderly (host : Host) (args : BuildArguments) (events : List BuildEvent)
    (outcome : Except Nat Nat) (run : Runs (cmdBuildRun host args) events outcome) :
    Orderly events outcome := by
  obtain ⟨alive, finished⟩ :=
    runs_of_meets Alive Finished _ [] (cmdBuildRun_finishes host args) events outcome run
  exact finished.orderly alive

/-- One key on the standard input. -/
def keyHost : Host where
  loaders := jsonOnly
  files := { contents := fun _ => none, writable := fun _ => false }
  stdin := ascii "pear\n"
  strerror := fun _ => ascii "unknown"

/-- `nuperf build run --option seed=7`. -/
def seedArguments : BuildArguments where
  inputPath := CString.ofBytes []
  outputPath := CString.ofBytes (ascii "-")
  method := CString.ofBytes []
  target := CString.ofBytes []
  options := [CString.ofBytes (ascii "seed=7")]
  inputFormat := .lines
  schemaPath := CString.ofBytes []
  schemaDumpPath := CString.ofBytes []

/-- What the command does up to its build. -/
def configuredEvents : List BuildEvent :=
  [⟨.keysetCreate, (.ok, 1)⟩, ⟨.tableCreate, (.ok, 2)⟩,
    ⟨.status (.addString 1 (CString.ofBytes (ascii "pear"))), .ok⟩,
    ⟨.status (.setKeyset 2 1), .ok⟩,
    ⟨.status (.setMethod 2 (CString.ofBytes (ascii "stdmeth"))), .ok⟩,
    ⟨.status (.setTarget 2 (CString.ofBytes (ascii "stddef"))), .ok⟩,
    ⟨.status (.setOption 2 (CString.ofBytes (ascii "seed")) (CString.ofBytes (ascii "7"))), .ok⟩]

/-- A build that is printed. -/
def printedEvents : List BuildEvent :=
  configuredEvents ++ [⟨.status (.tableBuild 2), .ok⟩, ⟨.emitSize 2, (.ok, 3)⟩,
    ⟨.emitBuffer 2 3, (.ok, 3, ascii "abc")⟩, ⟨.cout (ascii "abc"), ()⟩, ⟨.tableDestroy 2, ()⟩,
    ⟨.keysetDestroy 1, ()⟩]

/-- A build that fails. -/
def failedEvents : List BuildEvent :=
  configuredEvents ++ [⟨.status (.tableBuild 2), .errOutOfMemory⟩,
    ⟨.cerr (ascii "build: unknown\n"), ()⟩, ⟨.tableDestroy 2, ()⟩, ⟨.keysetDestroy 1, ()⟩]

theorem configured_runs (rest : List BuildEvent) (outcome : Except Nat Nat)
    (later : Runs (do
      must 1 2 keyHost (ascii "build") (.tableBuild 2)
      emitTable keyHost seedArguments 1 2
      cleanup 1 2
      pure 0) rest outcome) :
    Runs (cmdBuildRun keyHost seedArguments) (configuredEvents ++ rest) outcome :=
  .call _ _ _ _ _ (.call _ _ _ _ _ (.call _ _ _ _ _ (.call _ _ _ _ _ (.call _ _ _ _ _
    (.call _ _ _ _ _ (.call _ _ _ _ _ later))))))

theorem printed_runs : Runs (cmdBuildRun keyHost seedArguments) printedEvents (.ok 0) :=
  configured_runs _ _ (.call _ _ _ _ _ (.call _ _ _ _ _ (.call _ _ _ _ _ (.call _ _ _ _ _
    (.call _ _ _ _ _ (.call _ _ _ _ _ (.done 0)))))))

theorem failed_runs : Runs (cmdBuildRun keyHost seedArguments) failedEvents (.error 1) :=
  configured_runs _ _ (.call _ _ _ _ _ (.call _ _ _ _ _ (.call _ _ _ _ _ (.call _ _ _ _ _
    (.exit 1)))))

theorem cmdBuildRun_orderly_seed :
    Orderly printedEvents (.ok 0) ∧ Orderly failedEvents (.error 1) :=
  ⟨cmdBuildRun_orderly keyHost seedArguments _ _ printed_runs,
    cmdBuildRun_orderly keyHost seedArguments _ _ failed_runs⟩

end Nuperf.Cli
