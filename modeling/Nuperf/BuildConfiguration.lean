import Nuperf.BuildTrace

set_option autoImplicit false

namespace Nuperf.Cli

open ByteString Serdetk CallProgram Program

/-- A flag goes before the request, and the request before the default. -/
def wanted (flag field default : Bytes) : Bytes :=
  if flag ≠ [] then flag else if field ≠ [] then field else default

/-- A flag, or else the default: what the settings are made of before a document is read. -/
def unlessGiven (flag default : Bytes) : Bytes := if flag = [] then default else flag

theorem unlessGiven_eq_wanted_iff (flag field default : Bytes) :
    unlessGiven flag default = wanted flag field default ↔
      flag ≠ [] ∨ field = [] ∨ field = default := by
  unfold unlessGiven wanted
  by_cases absent : flag = []
  · by_cases empty : field = []
    · simp only [absent, empty, ↓reduceIte, ne_eq, not_true_eq_false, true_or, or_true]
    · simp only [absent, empty, ↓reduceIte, ne_eq, not_true_eq_false, not_false_eq_true, false_or,
        eq_comm]
  · simp only [absent, ↓reduceIte, ne_eq, not_false_eq_true, true_or]

section Names

variable (table : Handle)

def methodGiven : StatusCall → Option Bytes
  | .setMethod named name => if named = table then some name.bytes else none
  | _ => none

def targetGiven : StatusCall → Option Bytes
  | .setTarget named name => if named = table then some name.bytes else none
  | _ => none

variable (events : List BuildEvent)

/-- The method that the table was last given. -/
def tableMethod : Option Bytes := ((acceptedCalls events).filterMap (methodGiven table)).getLast?

def tableTarget : Option Bytes := ((acceptedCalls events).filterMap (targetGiven table)).getLast?

end Names

/-- The method and the target are asked for, and in force when the table is built, as wanted. -/
def ConfiguredAs (method target : Bytes) (before : List BuildEvent) : BuildCall → Prop
  | .status (.setMethod _ name) => name.bytes = method
  | .status (.setTarget _ name) => name.bytes = target
  | .status (.tableBuild table) =>
      tableMethod table before = some method ∧ tableTarget table before = some target
  | _ => True

theorem configuredAs_quiet (method target : Bytes) (history : List BuildEvent) (c : BuildCall)
    (quiet : c.isDecisive = false) : ConfiguredAs method target history c := by
  unfold ConfiguredAs
  split
  · cases quiet
  · cases quiet
  · cases quiet
  · trivial

section Settled

variable (keyset table : Handle) (settings : Settings) (request : BuildRequest)
  (pairs : List (Bytes × Bytes))

/-- Adding keys and setting options is no part of what `pick` looks at. -/
theorem filterMap_acceptedCalls {α : Type} (pick : StatusCall → Option α)
    (adds : ∀ key, pick (.addString keyset key) = none)
    (sets : ∀ key value, pick (.setOption table key value) = none) :
    (acceptedCalls (ingested keyset table request ++ settled keyset table settings ++
        pairs.map (given table))).filterMap pick =
      [StatusCall.setKeyset table keyset, .setMethod table (CString.ofBytes settings.method),
        .setTarget table (CString.ofBytes settings.target)].filterMap pick := by
  rw [acceptedCalls_configured, List.filterMap_append, List.filterMap_append,
    filterMap_map_none _ _ _ fun key => adds _, filterMap_map_none _ _ _ fun pair => sets _ _,
    List.nil_append, List.append_nil]

theorem tableMethod_settled :
    tableMethod table (ingested keyset table request ++ settled keyset table settings ++
      pairs.map (given table)) = some (cstr settings.method) := by
  have here : methodGiven table (.setMethod table (CString.ofBytes settings.method)) =
      some (cstr settings.method) := if_pos rfl
  rw [tableMethod, filterMap_acceptedCalls _ _ _ _ _ _ (fun _ => rfl) fun _ _ => rfl,
    List.filterMap_cons_none rfl, List.filterMap_cons_some here]
  rfl

theorem tableTarget_settled :
    tableTarget table (ingested keyset table request ++ settled keyset table settings ++
      pairs.map (given table)) = some (cstr settings.target) := by
  have here : targetGiven table (.setTarget table (CString.ofBytes settings.target)) =
      some (cstr settings.target) := if_pos rfl
  rw [tableTarget, filterMap_acceptedCalls _ _ _ _ _ _ (fun _ => rfl) fun _ _ => rfl,
    List.filterMap_cons_none rfl, List.filterMap_cons_none rfl, List.filterMap_cons_some here]
  rfl

end Settled

section Configuration

variable (host : Host) (args : BuildArguments) (request : BuildRequest)

theorem finalSettings_method :
    cstr (finalSettings args request).method = unlessGiven args.method.bytes (ascii "stdmeth") := by
  rw [finalSettings_eq]
  unfold flagSettings unlessGiven
  dsimp only
  split_ifs
  · decide
  · exact args.method.cstr_bytes

theorem finalSettings_target :
    cstr (finalSettings args request).target = unlessGiven args.target.bytes (ascii "stddef") := by
  rw [finalSettings_eq]
  unfold flagSettings unlessGiven
  dsimp only
  split_ifs
  · decide
  · exact args.target.cstr_bytes

/-- The table is configured from the flags and the defaults alone. -/
theorem configured_from_flags (method target : Bytes)
    (imported : inputRequest host args = some request) :
    (cmdBuildRun host args).Guards (ConfiguredAs method target) ↔
      unlessGiven args.method.bytes (ascii "stdmeth") = method ∧
        unlessGiven args.target.bytes (ascii "stddef") = target := by
  rw [cmdBuildRun_guards_iff host args _ (configuredAs_quiet method target)]
  constructor
  · intro consults
    have here := consults request imported 0 0
    rw [← finalSettings_method args request, ← finalSettings_target args request]
    exact ⟨here.method, here.target⟩
  · rintro ⟨named, aimed⟩ other found keyset table
    rw [imported, Option.some.injEq] at found
    subst found
    rw [← finalSettings_method args request] at named
    rw [← finalSettings_target args request] at aimed
    refine ⟨trivial, named, aimed, ?_⟩
    intro pairs _
    constructor
    · rw [tableMethod_settled, named]
    · rw [tableTarget_settled, aimed]

/-- A request configures the table exactly where it has nothing to say that the flags and the
defaults do not say. -/
theorem configured_as_wanted_iff (imported : inputRequest host args = some request) :
    (cmdBuildRun host args).Guards (ConfiguredAs
        (wanted args.method.bytes request.method (ascii "stdmeth"))
        (wanted args.target.bytes request.target (ascii "stddef"))) ↔
      (args.method.bytes ≠ [] ∨ request.method = [] ∨ request.method = ascii "stdmeth") ∧
        (args.target.bytes ≠ [] ∨ request.target = [] ∨ request.target = ascii "stddef") := by
  rw [configured_from_flags host args request _ _ imported, unlessGiven_eq_wanted_iff,
    unlessGiven_eq_wanted_iff]

end Configuration

section Ignored

/-- A document that asks for `BBHash`. -/
def methodLayout : Layout :=
  .object [
    member [] "keys" (.array [([], word "a")] []),
    member [] "method" (word "BBHash")] []

def methodRequest : BuildRequest where
  keys := [ascii "a"]
  method := ascii "BBHash"

theorem methodLayout_proper : methodLayout.Proper := by
  refine ⟨?_, blank_nil⟩
  apply member_proper _ _ _ _ blank_nil
  · exact ⟨⟨blank_nil, word_proper "a", trivial⟩, blank_nil⟩
  exact member_proper _ _ _ _ blank_nil (word_proper "BBHash") trivial

theorem methodRequest_imported :
    inputRequest (documentHost methodLayout) (documentArguments []) = some methodRequest :=
  documentHost_request methodLayout methodLayout_proper [] methodRequest rfl

/-- The method of a document loses to the default. -/
theorem document_method_ignored :
    inputRequest (documentHost methodLayout) (documentArguments []) = some methodRequest ∧
      ¬ (cmdBuildRun (documentHost methodLayout) (documentArguments [])).Guards (ConfiguredAs
        (wanted (documentArguments []).method.bytes methodRequest.method (ascii "stdmeth"))
        (wanted (documentArguments []).target.bytes methodRequest.target (ascii "stddef"))) := by
  refine ⟨methodRequest_imported, ?_⟩
  rw [configured_from_flags _ _ _ _ _ methodRequest_imported]
  decide

theorem document_method_condition :
    (cmdBuildRun (documentHost methodLayout) (documentArguments [])).Guards (ConfiguredAs
        (wanted (documentArguments []).method.bytes methodRequest.method (ascii "stdmeth"))
        (wanted (documentArguments []).target.bytes methodRequest.target (ascii "stddef"))) ↔
      ((documentArguments []).method.bytes ≠ [] ∨ methodRequest.method = [] ∨
          methodRequest.method = ascii "stdmeth") ∧
        ((documentArguments []).target.bytes ≠ [] ∨ methodRequest.target = [] ∨
          methodRequest.target = ascii "stddef") :=
  configured_as_wanted_iff _ _ methodRequest methodRequest_imported

end Ignored

end Nuperf.Cli
