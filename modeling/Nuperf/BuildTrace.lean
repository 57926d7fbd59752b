import Nuperf.BuildRun
import Nuperf.SchemaConformance

set_option autoImplicit false

namespace Nuperf.Cli

open ByteString CStandard TextReader Serdetk CallProgram Program

section Spec

variable (host : Host) (args : BuildArguments)

/-- The files once a wanted schema dump is written. -/
def dumpedFiles : Except Bytes FileSystem :=
  if args.schemaDumpPath.bytes = [] then .ok host.files
  else dumpDatasetSchema host.loaders.toFloating host.files args.schemaDumpPath.bytes

/-- The bytes that are read line by line. -/
def inputStream (files : FileSystem) : Option Bytes :=
  if isStandard args.inputPath.bytes then some host.stdin else files.contents args.inputPath.bytes

/-- The request of a structured document. -/
def importedRequest (files : FileSystem) : Option BuildRequest :=
  if isStandard args.inputPath.bytes then none
  else
    match loadBuildRequest host.loaders files args.inputPath.bytes args.inputFormat
        args.schemaPath.bytes [] {} with
    | .ok () request => some request
    | .error _ _ => none

/-- The request that the input amounts to: the non-empty lines of the stream are keys, and a
structured document is imported. -/
def inputRequest : Option BuildRequest :=
  match dumpedFiles host args with
  | .error _ => none
  | .ok files =>
      if args.inputFormat = .lines then
        (inputStream host args files).map fun text => { keys := (lines text).filter (· ≠ []) }
      else importedRequest host args files

end Spec

/-- The calls at which the keyset and the settings of the table are looked at. -/
def BuildCall.isDecisive : BuildCall → Bool
  | .status (.setKeyset _ _) => true
  | .status (.setMethod _ _) => true
  | .status (.setTarget _ _) => true
  | .status (.tableBuild _) => true
  | _ => false

def created (keyset table : Handle) : List BuildEvent :=
  [⟨.keysetCreate, (.ok, keyset)⟩, ⟨.tableCreate, (.ok, table)⟩]

def succeeded (c : StatusCall) : BuildEvent := ⟨.status c, Status.ok⟩

def added (keyset : Handle) (key : Bytes) : BuildEvent :=
  succeeded (.addString keyset (CString.ofBytes key))

def given (table : Handle) (pair : Bytes × Bytes) : BuildEvent :=
  succeeded (.setOption table (CString.ofBytes pair.1) (CString.ofBytes pair.2))

/-- The calls that settle what the table is built from, before its options. -/
def settled (keyset table : Handle) (settings : Settings) : List BuildEvent :=
  [succeeded (.setKeyset table keyset),
    succeeded (.setMethod table (CString.ofBytes settings.method)),
    succeeded (.setTarget table (CString.ofBytes settings.target))]

/-- The guard is true where the table gets its keyset and its names, and where it is built. -/
structure Consults (guard : List BuildEvent → BuildCall → Prop) (keyset table : Handle)
    (settings : Settings) (history : List BuildEvent) : Prop where
  keys : guard history (.status (.setKeyset table keyset))
  method : guard (history ++ [succeeded (.setKeyset table keyset)])
    (.status (.setMethod table (CString.ofBytes settings.method)))
  target : guard (history ++ [succeeded (.setKeyset table keyset),
      succeeded (.setMethod table (CString.ofBytes settings.method))])
    (.status (.setTarget table (CString.ofBytes settings.target)))
  build : ∀ pairs, settings.options.mapM splitOption = some pairs →
    guard (history ++ settled keyset table settings ++ pairs.map (given table))
      (.status (.tableBuild table))

section Stages

variable {guard : List BuildEvent → BuildCall → Prop} {α : Type}
  {post : Except Nat α → List BuildEvent → Prop}
  (quiet : ∀ history c, c.isDecisive = false → guard history c)
  (lenient : ∀ code history, post (.error code) history)
  (host : Host) (args : BuildArguments) (keyset table : Handle) (history : List BuildEvent)

include quiet

/-- A guard that is true of a call has the call answered. -/
theorem ask_meets (c : BuildCall) (post : Except Nat (BuildReply c) → List BuildEvent → Prop)
    (other : c.isDecisive = false) :
    (ask c).Meets guard post history ↔ ∀ reply, post (.ok reply) (history ++ [⟨c, reply⟩]) := by
  rw [ask, meets_perform]
  exact and_iff_right (quiet history c other)

/-- One call, and what follows it. -/
theorem ask_bind_meets (c : BuildCall) (next : BuildReply c → Run α)
    (other : c.isDecisive = false) :
    (ask c >>= next).Meets guard post history ↔
      ∀ reply, (next reply).Meets guard post (history ++ [⟨c, reply⟩]) := by
  rw [meets_bind, ask_meets quiet history c _ other]

include lenient

theorem giveUp_meets (message : Bytes) :
    (giveUp keyset table message : Run α).Meets guard post history := by
  unfold giveUp cleanup
  rw [ask_bind_meets quiet _ _ _ rfl]
  intro _
  rw [meets_bind, ask_bind_meets quiet _ _ _ rfl]
  intro _
  rw [ask_meets quiet _ _ _ rfl]
  intro _
  exact lenient 1 _

theorem giveUp_bind_meets (message : Bytes) {β : Type} (next : β → Run α) :
    (giveUp keyset table message >>= next).Meets guard post history := by
  rw [meets_bind]
  exact giveUp_meets quiet lenient keyset table history message

/-- After a call that is checked, the program goes on only if it succeeded. -/
theorem check_bind_meets (what : Bytes) (st : Status) (next : Unit → Run α) :
    (check keyset table host what st >>= next).Meets guard post history ↔
      (st = .ok → (next ()).Meets guard post history) := by
  unfold check
  split_ifs with ok
  · simp only [ok, true_imp_iff]
    rfl
  · simp only [ok, false_imp_iff, iff_true]
    exact giveUp_bind_meets quiet lenient keyset table history _ next

/-- A call that must succeed is followed by the rest exactly when it does. -/
theorem must_bind_meets (what : Bytes) (c : StatusCall) (next : Unit → Run α) :
    (must keyset table host what c >>= next).Meets guard post history ↔
      guard history (.status c) ∧ (next ()).Meets guard post (history ++ [succeeded c]) := by
  unfold must ask
  rw [bind_assoc, meets_bind, meets_perform]
  apply and_congr_right
  intro _
  constructor
  · intro meets
    exact (check_bind_meets quiet lenient host keyset table _ what Status.ok next).mp (meets .ok)
      rfl
  · intro meets st
    show (check keyset table host what st >>= next).Meets guard post _
    rw [check_bind_meets quiet lenient]
    intro ok
    subst ok
    exact meets

theorem addKey_bind_meets (key : Bytes) (next : Unit → Run α) :
    (addKey host keyset table key >>= next).Meets guard post history ↔
      (next ()).Meets guard post (history ++ [added keyset key]) := by
  unfold addKey
  rw [must_bind_meets quiet lenient]
  exact and_iff_right (quiet _ _ rfl)

theorem addKeys_bind_meets (keys : List Bytes) (next : Unit → Run α) :
    (addKeys host keyset table keys >>= next).Meets guard post history ↔
      (next ()).Meets guard post (history ++ keys.map (added keyset)) := by
  induction keys generalizing history with
  | nil =>
      rw [List.map_nil, List.append_nil]
      rfl
  | cons key rest ih =>
      rw [addKeys, bind_assoc, addKey_bind_meets quiet lenient, ih, List.append_assoc]
      rfl

theorem addLines_bind_meets (lines : List Bytes) (next : Unit → Run α) :
    (addLines host keyset table lines >>= next).Meets guard post history ↔
      (next ()).Meets guard post
        (history ++ (lines.filter (· ≠ [])).map (added keyset)) := by
  induction lines generalizing history with
  | nil =>
      rw [List.filter_nil, List.map_nil, List.append_nil]
      rfl
  | cons line rest ih =>
      rw [addLines]
      by_cases empty : line = []
      · rw [if_pos empty, List.filter_cons_of_neg (by rw [empty]; decide)]
        exact ih history
      · rw [if_neg empty, List.filter_cons_of_pos (by rw [decide_eq_true_iff]; exact empty),
          List.map_cons, bind_assoc, addKey_bind_meets quiet lenient, ih, List.append_assoc]
        rfl

/-- The options are set one by one as long as they have a `=`. -/
theorem setOptions_bind_meets (options : List Bytes) (next : Unit → Run α) :
    (setOptions host keyset table options >>= next).Meets guard post history ↔
      ∀ pairs, options.mapM splitOption = some pairs →
        (next ()).Meets guard post (history ++ pairs.map (given table)) := by
  induction options generalizing history with
  | nil =>
      simp only [List.mapM_nil, Option.pure_def, Option.some.injEq, forall_eq', List.map_nil,
        List.append_nil]
      rfl
  | cons opt rest ih =>
      rw [setOptions]
      cases split : splitOption opt with
      | none =>
          simp only [List.mapM_cons, split, Option.bind_eq_bind, Option.bind_none, reduceCtorEq,
            false_imp_iff, implies_true, iff_true]
          exact giveUp_bind_meets quiet lenient keyset table history _ next
      | some pair =>
          obtain ⟨name, value⟩ := pair
          dsimp only
          rw [bind_assoc, must_bind_meets quiet lenient, and_iff_right (quiet _ _ rfl), ih]
          simp only [List.mapM_cons, split, Option.bind_eq_bind, Option.bind_some,
            Option.bind_eq_some_iff, Option.pure_def, Option.some.injEq, forall_exists_index,
            and_imp]
          constructor
          · intro meets pairs later settled same
            have reached := meets later settled
            rw [List.append_assoc] at reached
            rw [← same]
            exact reached
          · intro meets later settled
            rw [List.append_assoc]
            exact meets _ later settled rfl

theorem openHandles_bind_meets (next : Handle × Handle → Run α) :
    (openHandles host >>= next).Meets guard post history ↔
      ∀ keyset table,
        (next (keyset, table)).Meets guard post (history ++ created keyset table) := by
  unfold openHandles
  rw [bind_assoc, ask_bind_meets quiet _ _ _ rfl]
  constructor
  · intro meets keyset table
    have first := meets (.ok, keyset)
    dsimp only at first
    rw [if_pos rfl, bind_assoc, ask_bind_meets quiet _ _ _ rfl] at first
    have second := first (.ok, table)
    dsimp only at second
    rw [if_pos rfl, List.append_assoc] at second
    exact second
  · intro meets reply
    obtain ⟨st, keyset⟩ := reply
    dsimp only
    split_ifs with keysetOk
    · rw [bind_assoc, ask_bind_meets quiet _ _ _ rfl]
      intro reply
      obtain ⟨st, table⟩ := reply
      dsimp only
      split_ifs with tableOk
      · subst keysetOk tableOk
        rw [List.append_assoc]
        exact meets keyset table
      · rw [bind_assoc, ask_bind_meets quiet _ _ _ rfl]
        intro _
        rw [bind_assoc, ask_bind_meets quiet _ _ _ rfl]
        intro _
        exact lenient 1 _
    · rw [bind_assoc, ask_bind_meets quiet _ _ _ rfl]
      intro _
      exact lenient 1 _

theorem dumpSchema_bind_meets (next : FileSystem → Run α) :
    (dumpSchema host args keyset table >>= next).Meets guard post history ↔
      ∀ files, dumpedFiles host args = .ok files → (next files).Meets guard post history := by
  unfold dumpSchema dumpedFiles
  split_ifs with absent
  · simp only [Except.ok.injEq, forall_eq']
    rfl
  · cases dumpDatasetSchema host.loaders.toFloating host.files args.schemaDumpPath.bytes with
    | ok files =>
        simp only [Except.ok.injEq, forall_eq']
        rfl
    | error error =>
        simp only [reduceCtorEq, false_imp_iff, implies_true, iff_true]
        exact giveUp_bind_meets quiet lenient keyset table history _ next

theorem ingestLines_bind_meets (files : FileSystem) (next : Settings → Run α) :
    (ingestLines host args keyset table files >>= next).Meets guard post history ↔
      ∀ text, inputStream host args files = some text →
        (next (flagSettings args)).Meets guard post
          (history ++ ((lines text).filter (· ≠ [])).map (added keyset)) := by
  unfold ingestLines openInput inputStream
  rw [bind_assoc]
  split_ifs with standard
  · simp only [Option.some.injEq, forall_eq']
    show ((addLines host keyset table (lines host.stdin) >>= _) >>= _).Meets guard post history ↔ _
    rw [bind_assoc, addLines_bind_meets quiet lenient]
    rfl
  · cases files.contents args.inputPath.bytes with
    | some text =>
        simp only [Option.some.injEq, forall_eq']
        show ((addLines host keyset table (lines text) >>= _) >>= _).Meets guard post history ↔ _
        rw [bind_assoc, addLines_bind_meets quiet lenient]
        rfl
    | none =>
        simp only [reduceCtorEq, false_imp_iff, implies_true, iff_true]
        exact giveUp_bind_meets quiet lenient keyset table history _ _

theorem ingestRequest_bind_meets (files : FileSystem) (next : Settings → Run α) :
    (ingestRequest host args keyset table files >>= next).Meets guard post history ↔
      ∀ request, importedRequest host args files = some request →
        (next ((flagSettings args).merge request)).Meets guard post
          (history ++ request.keys.map (added keyset)) := by
  unfold ingestRequest importedRequest
  split_ifs with standard
  · simp only [false_imp_iff, implies_true, iff_true]
    exact giveUp_bind_meets quiet lenient keyset table history _ _
  · cases loadBuildRequest host.loaders files args.inputPath.bytes args.inputFormat
        args.schemaPath.bytes [] {} with
    | ok _ request =>
        simp only [Option.some.injEq, forall_eq']
        rw [bind_assoc, addKeys_bind_meets quiet lenient]
        rfl
    | error error left =>
        simp only [reduceCtorEq, false_imp_iff, implies_true, iff_true]
        exact giveUp_bind_meets quiet lenient keyset table history _ _

theorem configure_bind_meets (settings : Settings) (next : Unit → Run α)
    (method : settings.method ≠ []) (target : settings.target ≠ []) :
    (configure host keyset table settings >>= next).Meets guard post history ↔
      guard history (.status (.setKeyset table keyset)) ∧
      guard (history ++ [succeeded (.setKeyset table keyset)])
        (.status (.setMethod table (CString.ofBytes settings.method))) ∧
      guard (history ++ [succeeded (.setKeyset table keyset),
          succeeded (.setMethod table (CString.ofBytes settings.method))])
        (.status (.setTarget table (CString.ofBytes settings.target))) ∧
      ∀ pairs, settings.options.mapM splitOption = some pairs →
        (next ()).Meets guard post
          (history ++ settled keyset table settings ++ pairs.map (given table)) := by
  unfold configure
  rw [bind_assoc, must_bind_meets quiet lenient]
  apply and_congr_right
  intro _
  rw [if_neg method, bind_assoc, must_bind_meets quiet lenient]
  apply and_congr_right
  intro _
  rw [if_neg target, bind_assoc, must_bind_meets quiet lenient, List.append_assoc]
  apply and_congr_right
  intro _
  rw [setOptions_bind_meets quiet lenient, List.append_assoc]
  rfl

/-- Emitting leaves the settings alone. -/
theorem emitTable_bind_meets (next : Unit → Run α)
    (rest : ∀ history, (next ()).Meets guard post history) :
    (emitTable host args keyset table >>= next).Meets guard post history := by
  unfold emitTable
  split_ifs with standard
  · rw [bind_assoc, ask_bind_meets quiet _ _ _ rfl]
    intro reply
    obtain ⟨st, size⟩ := reply
    dsimp only
    split_ifs with sized
    · rw [bind_assoc, ask_bind_meets quiet _ _ _ rfl]
      intro reply
      obtain ⟨st, written, out⟩ := reply
      dsimp only
      rw [bind_assoc, check_bind_meets quiet lenient]
      intro _
      rw [ask_bind_meets quiet _ _ _ rfl]
      intro _
      exact rest _
    · rw [bind_assoc]
      exact giveUp_bind_meets quiet lenient keyset table _ _ _
  · rw [must_bind_meets quiet lenient]
    exact ⟨quiet _ _ rfl, rest _⟩

end Stages

instance (c : BuildCall) : Nonempty (BuildReply c) := by
  cases c with
  | keysetCreate => exact ⟨(.ok, 0)⟩
  | tableCreate => exact ⟨(.ok, 0)⟩
  | status c => exact ⟨Status.ok⟩
  | emitSize table => exact ⟨(.ok, 0)⟩
  | emitBuffer table capacity => exact ⟨(.ok, 0, [])⟩
  | _ => exact ⟨()⟩

section Whole

variable (host : Host) (args : BuildArguments)

def finalSettings (request : BuildRequest) : Settings := (flagSettings args).merge request

theorem flagSettings_method : (flagSettings args).method ≠ [] := by
  unfold flagSettings
  dsimp only
  split_ifs with absent
  · decide
  · exact absent

theorem flagSettings_target : (flagSettings args).target ≠ [] := by
  unfold flagSettings
  dsimp only
  split_ifs with absent
  · decide
  · exact absent

/-- A request never names the method or the target: the flags or the defaults have done so. -/
theorem finalSettings_eq (request : BuildRequest) :
    finalSettings args request =
      { flagSettings args with options := (flagSettings args).options ++ request.options } := by
  rw [finalSettings, Settings.merge, if_neg (flagSettings_method args),
    if_neg (flagSettings_target args)]

theorem finalSettings_named (request : BuildRequest) :
    (finalSettings args request).method ≠ [] ∧ (finalSettings args request).target ≠ [] := by
  rw [finalSettings_eq]
  exact ⟨flagSettings_method args, flagSettings_target args⟩

/-- The calls that come before the table is given its keyset. -/
def ingested (keyset table : Handle) (request : BuildRequest) : List BuildEvent :=
  created keyset table ++ request.keys.map (added keyset)

section Guarded

variable {guard : List BuildEvent → BuildCall → Prop}
  {post : Except Nat Nat → List BuildEvent → Prop}
  (quiet : ∀ history c, c.isDecisive = false → guard history c)
  (lenient : ∀ code history, post (.error code) history)

include quiet lenient

theorem ingest_bind_meets (keyset table : Handle) (files : FileSystem)
    (dumped : dumpedFiles host args = .ok files) (next : Settings → Run Nat) :
    (ingest host args keyset table files >>= next).Meets guard post (created keyset table) ↔
      ∀ request, inputRequest host args = some request →
        (next (finalSettings args request)).Meets guard post (ingested keyset table request) := by
  unfold ingest inputRequest
  rw [dumped]
  dsimp only
  split_ifs with lined
  · rw [ingestLines_bind_meets quiet lenient]
    have empty (keys : List Bytes) : finalSettings args { keys := keys } = flagSettings args := by
      rw [finalSettings_eq, List.append_nil]
    simp only [Option.map_eq_some_iff, forall_exists_index, and_imp]
    constructor
    · intro meets request text found same
      rw [← same, empty]
      exact meets text found
    · intro meets text found
      have reached := meets _ text found rfl
      rwa [empty] at reached
  · exact ingestRequest_bind_meets quiet lenient host args keyset table _ files next

/-- What `cmd_build_run` does once the keys are in. -/
theorem configured_meets (keyset table : Handle) (settings : Settings) (history : List BuildEvent)
    (method : settings.method ≠ []) (target : settings.target ≠ [])
    (finished : ∀ history, post (.ok 0) history) :
    (do
      configure host keyset table settings
      must keyset table host (ascii "build") (.tableBuild table)
      emitTable host args keyset table
      cleanup keyset table
      pure 0 : Run Nat).Meets guard post history ↔
      Consults guard keyset table settings history := by
  have cleaned (history : List BuildEvent) :
      (cleanup keyset table >>= fun _ => pure 0 : Run Nat).Meets guard post history := by
    unfold cleanup
    rw [bind_assoc, ask_bind_meets quiet _ _ _ rfl]
    intro _
    rw [ask_bind_meets quiet _ _ _ rfl]
    intro _
    exact finished _
  have built (history : List BuildEvent) :
      (do
        must keyset table host (ascii "build") (.tableBuild table)
        emitTable host args keyset table
        cleanup keyset table
        pure 0 : Run Nat).Meets guard post history ↔
        guard history (.status (.tableBuild table)) := by
    rw [must_bind_meets quiet lenient]
    exact and_iff_left (emitTable_bind_meets quiet lenient host args keyset table _ _ cleaned)
  rw [configure_bind_meets quiet lenient host keyset table history settings _ method target]
  constructor
  · rintro ⟨keys, named, aimed, meets⟩
    refine ⟨keys, named, aimed, ?_⟩
    intro pairs settled
    exact (built _).mp (meets pairs settled)
  · intro consults
    refine ⟨consults.keys, consults.method, consults.target, ?_⟩
    intro pairs settled
    exact (built _).mpr (consults.build pairs settled)

theorem cmdBuildRun_meets (finished : ∀ history, post (.ok 0) history) :
    (cmdBuildRun host args).Meets guard post [] ↔
      ∀ request, inputRequest host args = some request → ∀ keyset table,
        Consults guard keyset table (finalSettings args request)
          (ingested keyset table request) := by
  unfold cmdBuildRun
  rw [openHandles_bind_meets quiet lenient]
  constructor
  · intro meets request found keyset table
    obtain ⟨files, dumped⟩ : ∃ files, dumpedFiles host args = .ok files := by
      unfold inputRequest at found
      cases dumped : dumpedFiles host args with
      | ok files => exact ⟨files, rfl⟩
      | error error =>
          rw [dumped] at found
          cases found
    have opened := (dumpSchema_bind_meets quiet lenient host args keyset table _ _).mp
      (meets keyset table) files dumped
    have reached := (ingest_bind_meets host args quiet lenient keyset table files dumped _).mp
      opened request found
    obtain ⟨method, target⟩ := finalSettings_named args request
    exact (configured_meets host args quiet lenient keyset table _ _ method target finished).mp
      reached
  · intro consults keyset table
    apply (dumpSchema_bind_meets quiet lenient host args keyset table _ _).mpr
    intro files dumped
    apply (ingest_bind_meets host args quiet lenient keyset table files dumped _).mpr
    intro request found
    obtain ⟨method, target⟩ := finalSettings_named args request
    exact (configured_meets host args quiet lenient keyset table _ _ method target finished).mpr
      (consults request found keyset table)

end Guarded

/-- A guard on the decisive calls is about what the input amounts to, the flags, and the order in
which the table is configured. -/
theorem cmdBuildRun_guards_iff (guard : List BuildEvent → BuildCall → Prop)
    (quiet : ∀ history c, c.isDecisive = false → guard history c) :
    (cmdBuildRun host args).Guards guard ↔
      ∀ request, inputRequest host args = some request → ∀ keyset table,
        Consults guard keyset table (finalSettings args request)
          (ingested keyset table request) := by
  rw [guards_iff_meets]
  exact cmdBuildRun_meets host args quiet (fun _ _ => trivial) fun _ => trivial

end Whole

section Accepted

/-- A call that the library accepted. -/
def acceptedCall : BuildEvent → Option StatusCall
  | ⟨.status c, st⟩ => if st = Status.ok then some c else none
  | _ => none

def acceptedCalls (events : List BuildEvent) : List StatusCall := events.filterMap acceptedCall

variable (keyset table : Handle)

theorem acceptedCalls_append (before after : List BuildEvent) :
    acceptedCalls (before ++ after) = acceptedCalls before ++ acceptedCalls after :=
  List.filterMap_append

theorem acceptedCalls_map {α : Type} (items : List α) (event : α → BuildEvent)
    (c : α → StatusCall) (accepted : ∀ item, event item = succeeded (c item)) :
    acceptedCalls (items.map event) = items.map c := by
  induction items with
  | nil => rfl
  | cons item rest ih =>
      rw [List.map_cons, accepted item]
      exact congrArg (c item :: ·) ih

theorem acceptedCalls_ingested (request : BuildRequest) :
    acceptedCalls (ingested keyset table request) =
      request.keys.map fun key => .addString keyset (CString.ofBytes key) := by
  rw [ingested, acceptedCalls_append]
  exact acceptedCalls_map request.keys (added keyset) _ fun _ => rfl

theorem acceptedCalls_settled (settings : Settings) :
    acceptedCalls (settled keyset table settings) = [.setKeyset table keyset,
      .setMethod table (CString.ofBytes settings.method),
      .setTarget table (CString.ofBytes settings.target)] := rfl

theorem acceptedCalls_given (pairs : List (Bytes × Bytes)) :
    acceptedCalls (pairs.map (given table)) = pairs.map fun pair =>
      .setOption table (CString.ofBytes pair.1) (CString.ofBytes pair.2) :=
  acceptedCalls_map pairs (given table) _ fun _ => rfl

/-- The calls before a build, as far as the library accepted them. -/
theorem acceptedCalls_configured (request : BuildRequest) (settings : Settings)
    (pairs : List (Bytes × Bytes)) :
    acceptedCalls (ingested keyset table request ++ settled keyset table settings ++
        pairs.map (given table)) =
      (request.keys.map fun key => .addString keyset (CString.ofBytes key)) ++
        [.setKeyset table keyset, .setMethod table (CString.ofBytes settings.method),
          .setTarget table (CString.ofBytes settings.target)] ++
        pairs.map fun pair =>
          .setOption table (CString.ofBytes pair.1) (CString.ofBytes pair.2) := by
  rw [acceptedCalls_append, acceptedCalls_append, acceptedCalls_ingested, acceptedCalls_settled,
    acceptedCalls_given]

section Picked

variable {α β : Type} (items : List α) (c : α → StatusCall) (pick : StatusCall → Option β)

theorem filterMap_map_none (passed : ∀ item, pick (c item) = none) :
    (items.map c).filterMap pick = [] := by
  rw [List.filterMap_map, List.filterMap_eq_nil_iff]
  intro item _
  exact passed item

theorem filterMap_map_some (f : α → β) (picked : ∀ item, pick (c item) = some (f item)) :
    (items.map c).filterMap pick = items.map f := by
  have same : pick ∘ c = some ∘ f := funext picked
  rw [List.filterMap_map, same, List.filterMap_eq_map]

end Picked

end Accepted

section Documents

/-- One JSON document that can be read, and nothing else. -/
def documentHost (layout : Layout) : Host where
  loaders := jsonOnly
  files := {
    contents := fun path => if path = ascii "request.json" then some layout.write else none
    writable := fun _ => false }
  stdin := []
  strerror := fun _ => []

/-- `nuperf build run --from-json request.json`, with `--option` flags. -/
def documentArguments (options : List CString) : BuildArguments where
  inputPath := CString.ofBytes (ascii "request.json")
  outputPath := CString.ofBytes (ascii "-")
  method := CString.ofBytes []
  target := CString.ofBytes []
  options := options
  inputFormat := .json
  schemaPath := CString.ofBytes []
  schemaDumpPath := CString.ofBytes []

theorem documentHost_loads (layout : Layout) (proper : layout.Proper) :
    ∃ document, document.root = layout.value ∧
      loadDocument jsonOnly (documentHost layout).files (ascii "request.json") .json =
        .ok document := by
  have read := jsonLoadString_write jsonOnly.toFloating layout proper [] [] blank_nil blank_nil
  rw [List.nil_append, List.append_nil] at read
  obtain ⟨document, loaded, root⟩ := jsonFromString_root jsonOnly.toFloating _ _ read
  refine ⟨document, root, ?_⟩
  have stored :
      (documentHost layout).files.contents (ascii "request.json") = some layout.write := by
    show (if ascii "request.json" = ascii "request.json" then some layout.write else none) = _
    exact if_pos rfl
  simp only [loadDocument, readTextFile, stored, Bind.bind, Except.bind, loaded]

theorem documentHost_imports (layout : Layout) (proper : layout.Proper) (request : BuildRequest)
    (extracted : extractRequestFromDocument jsonOnly.toFloating layout.value {} = .ok () request) :
    loadBuildRequest jsonOnly (documentHost layout).files (ascii "request.json") .json [] [] {} =
      .ok () request := by
  obtain ⟨document, root, loaded⟩ := documentHost_loads layout proper
  rw [loadBuildRequest, if_neg (by decide), loaded]
  show extractRequestFromDocument jsonOnly.toFloating document.root {} = _
  rw [root, extracted]

theorem documentHost_request (layout : Layout) (proper : layout.Proper) (options : List CString)
    (request : BuildRequest)
    (extracted : extractRequestFromDocument jsonOnly.toFloating layout.value {} = .ok () request) :
    inputRequest (documentHost layout) (documentArguments options) = some request := by
  have imported : loadBuildRequest (documentHost layout).loaders (documentHost layout).files
      (ascii "request.json") (documentArguments options).inputFormat [] [] {} = .ok () request :=
    documentHost_imports layout proper request extracted
  have path : (documentArguments options).inputPath.bytes = ascii "request.json" := rfl
  have unvalidated : (documentArguments options).schemaPath.bytes = [] := rfl
  show importedRequest (documentHost layout) (documentArguments options) _ = _
  unfold importedRequest
  rw [path, unvalidated, if_neg (by decide)]
  rw [imported]

end Documents

end Nuperf.Cli
