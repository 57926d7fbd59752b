import Nuperf.BuildTrace

set_option autoImplicit false

namespace Nuperf.Cli

open ByteString TextReader Serdetk CallProgram Program

section Received

variable (keyset : Handle)

def keyGiven : StatusCall → Option Bytes
  | .addString named key => if named = keyset then some key.bytes else none
  | _ => none

/-- The keys a keyset has received, in order. -/
def receivedKeys (events : List BuildEvent) : List Bytes :=
  (acceptedCalls events).filterMap (keyGiven keyset)

variable (table : Handle) (request : BuildRequest)

theorem receivedKeys_ingested :
    receivedKeys keyset (ingested keyset table request) = request.keys.map cstr := by
  rw [receivedKeys, acceptedCalls_ingested]
  exact filterMap_map_some _ _ _ cstr fun _ => if_pos rfl

/-- No key is added once the table has the keyset. -/
theorem receivedKeys_settled (settings : Settings) (pairs : List (Bytes × Bytes)) :
    receivedKeys keyset (ingested keyset table request ++ settled keyset table settings ++
      pairs.map (given table)) = request.keys.map cstr := by
  rw [receivedKeys, acceptedCalls_configured, List.filterMap_append, List.filterMap_append,
    filterMap_map_some _ _ _ cstr fun _ => if_pos rfl, filterMap_map_none _ _ _ fun _ => rfl]
  exact (List.append_nil _).trans (List.append_nil _)

end Received

/-- A keyset that is handed to the table holds these keys, and holds them when the table is
built. -/
def KeysReceived (keys : List Bytes) (before : List BuildEvent) : BuildCall → Prop
  | .status (.setKeyset _ keyset) => receivedKeys keyset before = keys
  | .status (.tableBuild table) =>
      ∀ keyset, .setKeyset table keyset ∈ acceptedCalls before → receivedKeys keyset before = keys
  | _ => True

theorem keysReceived_quiet (keys : List Bytes) (history : List BuildEvent) (c : BuildCall)
    (quiet : c.isDecisive = false) : KeysReceived keys history c := by
  unfold KeysReceived
  split
  · cases quiet
  · cases quiet
  · trivial

section Ingestion

variable (host : Host) (args : BuildArguments) (request : BuildRequest)

/-- In line mode the keys are the non-empty lines, the last one ended or not. -/
theorem inputRequest_stream (ended : List Bytes) (last : Bytes)
    (lined : args.inputFormat = .lines) (undumped : args.schemaDumpPath.bytes = [])
    (standard : isStandard args.inputPath.bytes) (read : host.stdin = unlines ended ++ last)
    (single : ∀ line ∈ ended, 10 ∉ line) (lastSingle : 10 ∉ last) :
    inputRequest host args = some { keys := (ended ++ [last]).filter (· ≠ []) } := by
  rw [inputRequest, dumpedFiles, if_pos undumped]
  dsimp only
  rw [if_pos lined, inputStream, if_pos standard, Option.map_some, read,
    lines_unlines ended last single lastSingle]
  by_cases empty : last = []
  · rw [if_pos empty, List.filter_append, List.filter_singleton, empty]
    simp only [ne_eq, not_true_eq_false, decide_false, cond_false, List.append_nil]
  · rw [if_neg empty]

theorem settled_keyset (keyset table other : Handle) (settings : Settings)
    (pairs : List (Bytes × Bytes))
    (member : .setKeyset table other ∈ acceptedCalls (ingested keyset table request ++
      settled keyset table settings ++ pairs.map (given table))) : other = keyset := by
  rw [acceptedCalls_configured] at member
  simp only [List.mem_append, List.mem_map, List.mem_cons, List.not_mem_nil, reduceCtorEq,
    and_false, exists_false, false_or, or_false, StatusCall.setKeyset.injEq, true_and] at member
  exact member

/-- What the keyset receives are the keys up to their first NUL. -/
theorem keysReceived_iff (keys : List Bytes) (imported : inputRequest host args = some request) :
    (cmdBuildRun host args).Guards (KeysReceived keys) ↔ request.keys.map cstr = keys := by
  rw [cmdBuildRun_guards_iff host args _ (keysReceived_quiet keys)]
  constructor
  · intro consults
    have here : receivedKeys 0 (ingested 0 0 request) = keys := (consults request imported 0 0).keys
    rwa [receivedKeys_ingested] at here
  · intro same other found keyset table
    rw [imported, Option.some.injEq] at found
    subst found
    refine ⟨?_, trivial, trivial, ?_⟩
    · show receivedKeys keyset (ingested keyset table request) = keys
      rw [receivedKeys_ingested, same]
    · intro pairs _ handed member
      rw [settled_keyset request keyset table handed _ pairs member, receivedKeys_settled, same]

theorem map_cstr_eq_iff (keys : List Bytes) :
    keys.map cstr = keys ↔ ∀ key ∈ keys, NulFree key := by
  have same : keys.map cstr = keys.map id ↔ ∀ key ∈ keys, cstr key = id key := List.map_inj_left
  rw [List.map_id] at same
  rw [same]
  exact forall₂_congr fun key _ => cstr_eq_self_iff key

/-- The keys of the input reach the table as they are exactly if none holds a NUL. -/
theorem input_keys_received_iff (imported : inputRequest host args = some request) :
    (cmdBuildRun host args).Guards (KeysReceived request.keys) ↔
      ∀ key ∈ request.keys, NulFree key := by
  rw [keysReceived_iff host args request request.keys imported, map_cstr_eq_iff]

theorem nulFree_unlines (ended : List Bytes) :
    NulFree (unlines ended) ↔ ∀ line ∈ ended, NulFree line := by
  have newline : (0 : UInt8) ≠ 10 := by decide
  simp only [NulFree, unlines, List.mem_flatMap, List.mem_append, List.mem_singleton, newline,
    or_false, not_exists, not_and]

end Ingestion

section Shortened

/-- Two lines that differ behind a NUL. -/
def nulHost : Host where
  loaders := jsonOnly
  files := { contents := fun _ => none, writable := fun _ => false }
  stdin := [97, 0, 98, 10, 97, 0, 99, 10]
  strerror := fun _ => []

/-- `nuperf build run`, reading the standard input. -/
def nulArguments : BuildArguments where
  inputPath := CString.ofBytes (ascii "-")
  outputPath := CString.ofBytes (ascii "-")
  method := CString.ofBytes []
  target := CString.ofBytes []
  options := []
  inputFormat := .lines
  schemaPath := CString.ofBytes []
  schemaDumpPath := CString.ofBytes []

def nulRequest : BuildRequest where
  keys := [[97, 0, 98], [97, 0, 99]]

theorem nulRequest_read : inputRequest nulHost nulArguments = some nulRequest := by
  rfl

/-- Both lines arrive as `a`. -/
theorem lines_merged_behind_nul :
    inputRequest nulHost nulArguments = some nulRequest ∧
      (cmdBuildRun nulHost nulArguments).Guards (KeysReceived [ascii "a", ascii "a"]) ∧
      ¬ (cmdBuildRun nulHost nulArguments).Guards (KeysReceived nulRequest.keys) := by
  refine ⟨nulRequest_read, ?_, ?_⟩
  · rw [keysReceived_iff _ _ nulRequest _ nulRequest_read]
    decide
  · rw [keysReceived_iff _ _ nulRequest _ nulRequest_read]
    decide

theorem nul_lines_condition :
    (cmdBuildRun nulHost nulArguments).Guards (KeysReceived nulRequest.keys) ↔
      ∀ key ∈ nulRequest.keys, NulFree key :=
  input_keys_received_iff _ _ nulRequest nulRequest_read

/-- A key, an empty line and a key that no newline follows. -/
def pearHost : Host := { nulHost with stdin := ascii "pear\n\napple" }

end Shortened

end Nuperf.Cli
