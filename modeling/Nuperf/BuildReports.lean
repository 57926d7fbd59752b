import Nuperf.BuildResources

set_option autoImplicit false

namespace Nuperf.Cli

open ByteString CStandard TextReader Serdetk CallProgram Program

/-- Nothing is written to the standard error stream. -/
def Calm (history : List BuildEvent) : Prop := ∀ event ∈ history, ∀ text, event.call ≠ .cerr text

/-- After an early exit. -/
def Reported (code : Nat) (history : List BuildEvent) : Prop := code = 1 ∧ ¬ Calm history

section Stages

variable {α : Type} (host : Host) (args : BuildArguments) (keyset table : Handle)

/-- A stretch that says why, whenever it gives up, and nothing otherwise. -/
def Reports (p : Run α) : Prop := p.Leads (fun _ _ => True) Reported Calm Calm

theorem Calm.step {history : List BuildEvent} {event : BuildEvent} (calm : Calm history)
    (other : ∀ text, event.call ≠ .cerr text) : Calm (history ++ [event]) :=
  List.forall_mem_append.mpr ⟨calm, List.forall_mem_singleton.mpr other⟩

theorem not_calm_append {history : List BuildEvent} (later : List BuildEvent)
    (told : ¬ Calm history) : ¬ Calm (history ++ later) :=
  fun calm => told fun event member => calm event (List.mem_append_left _ member)

theorem not_calm_cerr (history : List BuildEvent) (text : Bytes) (reply : Unit) :
    ¬ Calm (history ++ [⟨.cerr text, reply⟩]) :=
  fun calm => calm ⟨.cerr text, reply⟩ (by simp) text rfl

theorem reports_pure (value : α) : Reports (pure value : Run α) := leads_done value

theorem reports_bind {β : Type} {p : Run β} {f : β → Run α} (first : Reports p)
    (second : ∀ value, Reports (f value)) : Reports (p >>= f) :=
  leads_bind _ first second

theorem reports_ask (c : BuildCall) (other : ∀ text, c ≠ .cerr text) : Reports (ask c) :=
  leads_perform (fun _ _ => trivial) fun _ _ calm => calm.step other

theorem reports_giveUp (message : Bytes) : Reports (giveUp keyset table message : Run α) := by
  intro history _
  refine ⟨trivial, fun reply => ⟨trivial, fun first => ⟨trivial, fun second => ⟨rfl, ?_⟩⟩⟩⟩
  exact not_calm_append _ (not_calm_append _ (not_calm_cerr history _ reply))

theorem reports_check (what : Bytes) (st : Status) :
    Reports (check keyset table host what st) := by
  unfold check
  split_ifs
  · exact reports_pure ()
  · exact reports_giveUp keyset table _

theorem reports_must (what : Bytes) (c : StatusCall) : Reports (must keyset table host what c) :=
  reports_bind (reports_ask _ fun _ same => by cases same) fun st =>
    reports_check host keyset table what st

theorem reports_openHandles : Reports (openHandles host) := by
  unfold openHandles
  apply reports_bind (reports_ask _ fun _ same => by cases same)
  rintro ⟨st, keyset⟩
  dsimp only
  split_ifs
  · apply reports_bind (reports_ask _ fun _ same => by cases same)
    rintro ⟨st, table⟩
    dsimp only
    split_ifs
    · exact reports_pure _
    · intro history _
      refine ⟨trivial, fun reply => ⟨trivial, fun answer => ⟨rfl, ?_⟩⟩⟩
      exact not_calm_append _ (not_calm_cerr history _ reply)
  · intro history _
    exact ⟨trivial, fun reply => ⟨rfl, not_calm_cerr history _ reply⟩⟩

theorem reports_dumpSchema : Reports (dumpSchema host args keyset table) := by
  unfold dumpSchema
  split_ifs
  · exact reports_pure _
  · cases dumpDatasetSchema host.loaders.toFloating host.files args.schemaDumpPath.bytes with
    | ok files => exact reports_pure files
    | error error => exact reports_giveUp keyset table _

theorem reports_addKey (key : Bytes) : Reports (addKey host keyset table key) :=
  reports_must host keyset table _ _

theorem reports_addKeys (keys : List Bytes) : Reports (addKeys host keyset table keys) := by
  induction keys with
  | nil => exact reports_pure ()
  | cons key rest ih => exact reports_bind (reports_addKey host keyset table key) fun _ => ih

theorem reports_addLines (lines : List Bytes) : Reports (addLines host keyset table lines) := by
  induction lines with
  | nil => exact reports_pure ()
  | cons line rest ih =>
      rw [addLines]
      split_ifs
      · exact reports_bind (reports_pure ()) fun _ => ih
      · exact reports_bind (reports_addKey host keyset table line) fun _ => ih

theorem reports_openInput (files : FileSystem) :
    Reports (openInput host args keyset table files) := by
  unfold openInput
  split_ifs
  · exact reports_pure _
  · cases files.contents args.inputPath.bytes with
    | some text => exact reports_pure text
    | none => exact reports_giveUp keyset table _

theorem reports_ingest (files : FileSystem) : Reports (ingest host args keyset table files) := by
  unfold ingest
  split_ifs
  · apply reports_bind (reports_openInput host args keyset table files)
    intro text
    exact reports_bind (reports_addLines host keyset table (lines text)) fun _ => reports_pure _
  · unfold ingestRequest
    split_ifs
    · exact reports_giveUp keyset table _
    · cases loadBuildRequest host.loaders files args.inputPath.bytes args.inputFormat
          args.schemaPath.bytes [] {} with
      | ok _ request =>
          exact reports_bind (reports_addKeys host keyset table request.keys) fun _ =>
            reports_pure _
      | error error left => exact reports_giveUp keyset table _

theorem reports_setOptions (options : List Bytes) :
    Reports (setOptions host keyset table options) := by
  induction options with
  | nil => exact reports_pure ()
  | cons opt rest ih =>
      rw [setOptions]
      cases splitOption opt with
      | none => exact reports_giveUp keyset table _
      | some pair => exact reports_bind (reports_must host keyset table _ _) fun _ => ih

theorem reports_configure (settings : Settings) :
    Reports (configure host keyset table settings) := by
  have options := reports_setOptions host keyset table settings.options
  have named (what : Bytes) (c : StatusCall) {rest : Run Unit} (reports : Reports rest) :
      Reports (must keyset table host what c >>= fun _ => rest) :=
    reports_bind (reports_must host keyset table what c) fun _ => reports
  unfold configure
  apply reports_bind (reports_must host keyset table _ _)
  intro _
  dsimp only
  split_ifs
  · exact options
  · exact named _ _ options
  · exact named _ _ options
  · exact named _ _ (named _ _ options)

theorem reports_emitTable : Reports (emitTable host args keyset table) := by
  unfold emitTable
  split_ifs
  · apply reports_bind (reports_ask _ fun _ same => by cases same)
    rintro ⟨st, size⟩
    dsimp only
    split_ifs
    · apply reports_bind (reports_ask _ fun _ same => by cases same)
      intro reply
      apply reports_bind (reports_check host keyset table _ _)
      exact fun _ => reports_ask _ fun _ same => by cases same
    · exact reports_bind (reports_giveUp keyset table _) fun _ =>
        reports_bind (reports_ask _ fun _ same => by cases same) fun reply =>
          reports_bind (reports_check host keyset table _ _) fun _ =>
            reports_ask _ fun _ same => by cases same
  · exact reports_must host keyset table _ _

/-- The command fails with a line on the standard error stream, and succeeds without one. -/
theorem reports_cmdBuildRun : Reports (cmdBuildRun host args) := by
  unfold cmdBuildRun
  apply reports_bind (reports_openHandles host)
  rintro ⟨keyset, table⟩
  apply reports_bind (reports_dumpSchema host args keyset table)
  intro files
  apply reports_bind (reports_ingest host args keyset table files)
  intro settings
  apply reports_bind (reports_configure host keyset table settings)
  intro _
  apply reports_bind (reports_must host keyset table _ _)
  intro _
  apply reports_bind (reports_emitTable host args keyset table)
  intro _
  apply reports_bind
  · exact reports_bind (reports_ask _ fun _ same => by cases same) fun _ =>
      reports_ask _ fun _ same => by cases same
  · exact fun _ => reports_pure 0

end Stages

end Nuperf.Cli
