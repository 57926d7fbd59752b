import Nuperf.LuaSchema
import Nuperf.OptionPrecedence

set_option autoImplicit false

namespace Nuperf.Cli

open ByteString Numeral CStandard OrderedMap TextReader Serdetk CallProgram Program Lua

section Passed

variable (table : Handle)

def optionPassed : BuildCall → Option (Bytes × Bytes)
  | .status (.setOption named key value) =>
      if named = table then some (key.bytes, value.bytes) else none
  | _ => none

/-- The pairs that were passed to `nuperf_table_set_option`. -/
def optionsPassed (events : List BuildEvent) : List (Bytes × Bytes) :=
  events.filterMap fun event => optionPassed table event.call

/-- Where the table is built, it has been passed these pairs, in some order. -/
def PassesOptions (pairs : List (Bytes × Bytes)) (before : List BuildEvent) : BuildCall → Prop
  | .status (.tableBuild table) => (optionsPassed table before).Perm pairs
  | _ => True

theorem passesOptions_quiet (pairs : List (Bytes × Bytes)) (history : List BuildEvent)
    (c : BuildCall) (quiet : c.isDecisive = false) : PassesOptions pairs history c := by
  unfold PassesOptions
  split
  · cases quiet
  · trivial

theorem optionsPassed_none {α : Type} (items : List α) (event : α → BuildEvent)
    (passes : ∀ item, optionPassed table (event item).call = none) :
    optionsPassed table (items.map event) = [] := by
  rw [optionsPassed, List.filterMap_map, List.filterMap_eq_nil_iff]
  intro item _
  exact passes item

theorem optionsPassed_given (pairs : List (Bytes × Bytes)) :
    optionsPassed table (pairs.map (given table)) = pairs.map cstrPair := by
  have same : (fun event => optionPassed table event.call) ∘ given table = some ∘ cstrPair := by
    funext pair
    exact if_pos rfl
  rw [optionsPassed, List.filterMap_map, same, List.filterMap_eq_map]

theorem optionsPassed_settled (keyset : Handle) (request : BuildRequest) (settings : Settings)
    (pairs : List (Bytes × Bytes)) :
    optionsPassed table (ingested keyset table request ++ settled keyset table settings ++
      pairs.map (given table)) = pairs.map cstrPair := by
  have keys : optionsPassed table (request.keys.map (added keyset)) = [] :=
    optionsPassed_none table _ _ fun _ => rfl
  have opened : optionsPassed table (created keyset table) = [] := rfl
  have configured : optionsPassed table (settled keyset table settings) = [] := rfl
  unfold optionsPassed at *
  rw [List.filterMap_append, List.filterMap_append, ingested, List.filterMap_append, opened, keys,
    configured]
  exact optionsPassed_given table pairs

end Passed

section Decoding

/-- The text of a string, a boolean or an integer. -/
def rendered : Value → Option Bytes
  | .string text => some text
  | .bool value => some (if value then ascii "true" else ascii "false")
  | .int value => some (signedDecimal value.toInt)
  | .uint value => some (decimal value.toNat)
  | _ => none

/-- A member of an options object with its rendered value. -/
def renderedMember (field : Bytes × Value) : Bytes × Bytes :=
  (field.1, (rendered field.2).getD [])

theorem memberPair_rendered (fp : Floating) (members : Fields)
    (texts : ∀ field ∈ members, (rendered field.2).isSome = true) :
    members.map (memberPair fp) = members.map renderedMember := by
  apply List.map_congr_left
  intro field member
  obtain ⟨name, value⟩ := field
  have text := texts _ member
  cases value with
  | string text => rfl
  | bool value => rfl
  | int value => rfl
  | uint value => rfl
  | _ => cases text

/-- A name that comes out of an option has no `=`. -/
theorem splitOption_name (opt name value : Bytes) (split : splitOption opt = some (name, value)) :
    61 ∉ name := by
  obtain ⟨_, run⟩ := readRun_spec (· != 61) opt
  unfold splitOption at split
  generalize readRun (· != 61) opt = parts at run split
  obtain ⟨front, back⟩ := parts
  cases back with
  | nil => cases split
  | cons byte back =>
      cases split
      intro member
      exact absurd rfl (bne_iff_ne.mp (run 61 member))

/-- What is read back unchanged: a name without `=` and NUL, and a value without NUL. -/
def Encodable (pair : Bytes × Bytes) : Prop := 61 ∉ pair.1 ∧ NulFree pair.1 ∧ NulFree pair.2

/-- The pairs that a callee is passed for encoded options. -/
def decoded (entries : List Bytes) : List (Bytes × Bytes) :=
  (entries.filterMap splitOption).map cstrPair

theorem decoded_encodable (entries : List Bytes) (pair : Bytes × Bytes)
    (member : pair ∈ decoded entries) : Encodable pair := by
  obtain ⟨whole, split, rfl⟩ := List.mem_map.mp member
  obtain ⟨opt, _, split⟩ := List.mem_filterMap.mp split
  refine ⟨?_, cstr_nulFree _, cstr_nulFree _⟩
  intro inside
  exact splitOption_name opt whole.1 whole.2 split (List.takeWhile_subset _ inside)

theorem cstrPair_encodable (pairs : List (Bytes × Bytes)) (clean : ∀ pair ∈ pairs, Encodable pair) :
    pairs.map cstrPair = pairs := by
  have same : pairs.map cstrPair = pairs.map id := by
    apply List.map_congr_left
    intro pair member
    obtain ⟨_, name, value⟩ := clean pair member
    exact Prod.ext name.cstr value.cstr
  rw [same, List.map_id]

/-- The encoding is undone, as a multiset, exactly when each pair survives it. -/
theorem decoded_perm_iff (fp : Floating) (members : Fields) :
    (decoded (members.map (entryOf fp))).Perm (members.map (memberPair fp)) ↔
      ∀ pair ∈ members.map (memberPair fp), Encodable pair := by
  constructor
  · intro same pair member
    exact decoded_encodable _ pair (same.mem_iff.mpr member)
  · intro clean
    have names : ∀ field ∈ members, 61 ∉ field.1 :=
      fun field member => (clean _ (List.mem_map_of_mem member)).1
    rw [decoded, filterMap_entryOf fp members names, cstrPair_encodable _ clean]

end Decoding

section Command

variable (host : Host) (args : BuildArguments) (files : FileSystem) (document : Document)
  (request : BuildRequest)

/-- What the command passes are the pairs of the flags and those decoded from the request. -/
theorem passesOptions_iff (pairs : List (Bytes × Bytes))
    (flags : ∀ opt ∈ args.options, 61 ∈ opt.bytes) (equals : ∀ opt ∈ request.options, 61 ∈ opt)
    (imported : inputRequest host args = some request) :
    (cmdBuildRun host args).Guards (PassesOptions pairs) ↔
      (flagPairs args ++ decoded request.options).Perm pairs := by
  have split := finalSettings_split args request flags equals
  have passed (keyset table : Handle) :
      optionsPassed table (ingested keyset table request ++
        settled keyset table (finalSettings args request) ++
        (flagPairs args ++ request.options.filterMap splitOption).map (given table)) =
      flagPairs args ++ decoded request.options := by
    rw [optionsPassed_settled, List.map_append, flagPairs_cstr]
    rfl
  rw [cmdBuildRun_guards_iff host args _ (passesOptions_quiet pairs)]
  constructor
  · intro consults
    have built := (consults request imported 0 0).build _ split
    rw [PassesOptions, passed] at built
    exact built
  · intro same other found keyset table
    rw [imported, Option.some.injEq] at found
    subst found
    refine ⟨trivial, trivial, trivial, ?_⟩
    intro settledPairs settled
    rw [split, Option.some.injEq] at settled
    rw [← settled, PassesOptions, passed]
    exact same

end Command

section Table

variable (lua : LuaStrings)

theorem assign_eq (options : LuaTable) (key value name : Bytes) :
    options.assign key value name = (lastValue [(key, value)] name).or (options name) := by
  rw [LuaTable.assign]
  by_cases same : name = key
  · subst same
    rw [Function.update_self]
    simp [lastValue]
  · rw [Function.update_of_ne same]
    have other : (name == key) = false := beq_eq_false_iff_ne.mpr same
    simp [lastValue, List.lookup_cons, other]

/-- The last entry for a name is the one that the table keeps. -/
theorem assignOptions_eq (entries : List Bytes) (name : Bytes) :
    entries.foldl (assignOption lua) (fun _ => none) name =
      lastValue ((entries.filterMap splitOption).map fun pair =>
        (lua.key pair.1, lua.value pair.2)) name := by
  induction entries using List.reverseRecOn with
  | nil => rfl
  | append_singleton entries entry ih =>
      rw [List.foldl_append, List.filterMap_append, List.map_append, lastValue_append, ← ih,
        List.foldl_cons, List.foldl_nil, assignOption]
      cases split : splitOption entry with
      | none =>
          rw [List.filterMap_cons_none split]
          rfl
      | some pair =>
          rw [List.filterMap_cons_some split]
          exact assign_eq _ (lua.key pair.1) (lua.value pair.2) name

/-- Pairs that survive the encoding make the table of the members. -/
theorem assignOptions_members (faithful : lua.Faithful) (fp : Floating) (members : Fields)
    (sorted : Sorted members)
    (clean : ∀ pair ∈ members.map (memberPair fp), Encodable pair) (name : Bytes) :
    (members.map (entryOf fp)).foldl (assignOption lua) (fun _ => none) name =
      (members.map (memberPair fp)).lookup name := by
  have names : ∀ field ∈ members, 61 ∉ field.1 :=
    fun field member => (clean _ (List.mem_map_of_mem member)).1
  have pushed : ((members.map (memberPair fp)).map fun pair =>
      (lua.key pair.1, lua.value pair.2)) = (members.map (memberPair fp)).map id := by
    apply List.map_congr_left
    intro pair member
    obtain ⟨_, key, value⟩ := clean pair member
    exact Prod.ext (faithful.key _ key) (faithful.value _ value)
  have distinct : ((members.map (memberPair fp)).map Prod.fst).Nodup := by
    rw [List.map_map]
    exact keys_nodup _ sorted
  rw [assignOptions_eq, filterMap_entryOf fp members names, pushed, List.map_id,
    lastValue_eq_lookup _ _ distinct]

/-- Were its local variable alive, `schema.load` would return the options of the document as they
are written, where each of them can be encoded. -/
theorem schemaLoad_live_options (faithful : lua.Faithful) (loaders : Loaders) (files : FileSystem)
    (path formatName : Bytes) (schemaPath : Option Bytes) (format : InputFormat)
    (named : schemaFormat formatName = .ok format) (request : BuildRequest)
    (accepted : loadBuildRequest loaders files path format (schemaPath.getD []) [] {} =
      .ok () request)
    (document : Document) (loaded : loadDocument loaders files path format = .ok document)
    (texts : ∀ field ∈ optionMembers document.root, (rendered field.2).isSome = true)
    (clean : ∀ pair ∈ (optionMembers document.root).map renderedMember, Encodable pair) :
    ∃ dataset, schemaLoad (.live lua) loaders files path formatName schemaPath =
        .defined (.ok dataset) ∧
      ∀ name, dataset.options name =
        ((optionMembers document.root).map renderedMember).lookup name := by
  refine ⟨_, schemaLoad_live loaders files path formatName schemaPath format named request accepted
    lua, ?_⟩
  intro name
  have extracted := loaded_extracted ⟨loaders, files, [], fun _ => []⟩ files document request
    _ _ _ _ loaded accepted
  rw [← memberPair_rendered loaders.toFloating _ texts] at clean ⊢
  rw [extracted_options request _ _ extracted]
  exact assignOptions_members lua faithful _ _ (optionMembers_sorted document) clean name

end Table

section RoundTrip

/-- The encoding is undone on both sides: the command passes the options of a document on, and
`schema.load` puts them into its table, as they are written. -/
def PassedAndLoaded (host : Host) (args : BuildArguments) (formatName : Bytes)
    (schemaPath : Option Bytes) (files : FileSystem) (pairs : List (Bytes × Bytes)) : Prop :=
  (cmdBuildRun host args).Guards (PassesOptions (flagPairs args ++ pairs)) ∧
    ∃ dataset, (schemaNamespace host.loaders).load files args.inputPath.bytes formatName
        schemaPath = .defined (.ok dataset) ∧
      ∀ name, dataset.options name = pairs.lookup name

/-- The command passes the options of a document on as they are written exactly when each of them
can be encoded. `schema.load` returns for no document that it accepts; with its local variable
alive it would return those that can be encoded as they are written. -/
theorem option_encoding_iff (host : Host) (args : BuildArguments) (files : FileSystem)
    (document : Document) (request : BuildRequest) (formatName : Bytes) (schemaPath : Option Bytes)
    (flags : ∀ opt ∈ args.options, 61 ∈ opt.bytes)
    (dumped : dumpedFiles host args = .ok files)
    (named : schemaFormat formatName = .ok args.inputFormat)
    (loaded : loadDocument host.loaders files args.inputPath.bytes args.inputFormat = .ok document)
    (imported : inputRequest host args = some request) (reply : BuildRequest)
    (accepted : loadBuildRequest host.loaders files args.inputPath.bytes args.inputFormat
      (schemaPath.getD []) [] {} = .ok () reply)
    (texts : ∀ field ∈ optionMembers document.root, (rendered field.2).isSome = true) :
    ¬ PassedAndLoaded host args formatName schemaPath files
        ((optionMembers document.root).map renderedMember) ∧
      (schemaNamespace host.loaders).load files args.inputPath.bytes formatName schemaPath =
        .undefined ∧
      ((cmdBuildRun host args).Guards
          (PassesOptions (flagPairs args ++ (optionMembers document.root).map renderedMember)) ↔
        ∀ pair ∈ (optionMembers document.root).map renderedMember, Encodable pair) ∧
      ∀ lua : LuaStrings, lua.Faithful →
        (∀ pair ∈ (optionMembers document.root).map renderedMember, Encodable pair) →
        ∃ dataset, schemaLoad (.live lua) host.loaders files args.inputPath.bytes formatName
            schemaPath = .defined (.ok dataset) ∧
          ∀ name, dataset.options name =
            ((optionMembers document.root).map renderedMember).lookup name := by
  have undefined := load_accepted host.loaders files args.inputPath.bytes formatName schemaPath _
    named reply accepted
  have options := inputRequest_options host args files document request dumped loaded imported
  have equals := inputRequest_equals host args files document request dumped loaded imported
  refine ⟨?_, undefined, ?_, ?_⟩
  · rintro ⟨_, dataset, returned, _⟩
    rw [undefined] at returned
    cases returned
  · rw [← memberPair_rendered host.loaders.toFloating _ texts,
      passesOptions_iff host args request _ flags equals imported, options,
      List.perm_append_left_iff, decoded_perm_iff]
  · intro lua faithful clean
    exact schemaLoad_live_options lua faithful host.loaders files args.inputPath.bytes formatName
      schemaPath args.inputFormat named reply accepted document loaded texts clean

/-- `schema.load("request.json", "json")`. -/
def loadRequest (layout : Layout) : Behaviour (Except Bytes LoadedDataset) :=
  (schemaNamespace (documentHost layout).loaders).load (documentHost layout).files
    (documentArguments []).inputPath.bytes (ascii "json") none

/-- A document that sets the option `a=b`. -/
def equalsLayout : Layout :=
  .object [
    member [] "keys" (.array [([], word "a")] []),
    member [] "options" (.object [member [] "a=b" (word "c")] [])] []

def equalsRequest : BuildRequest where
  keys := [ascii "a"]
  options := [ascii "a=b=c"]

theorem equalsLayout_proper : equalsLayout.Proper := by
  refine ⟨?_, blank_nil⟩
  apply member_proper _ _ _ _ blank_nil
  · exact ⟨⟨blank_nil, word_proper "a", trivial⟩, blank_nil⟩
  refine member_proper _ _ _ _ blank_nil ?_ trivial
  exact ⟨member_proper _ _ _ _ blank_nil (word_proper "c") trivial, blank_nil⟩

theorem equalsRequest_imported :
    inputRequest (documentHost equalsLayout) (documentArguments []) = some equalsRequest :=
  documentHost_request equalsLayout equalsLayout_proper [] equalsRequest rfl

/-- The importer accepts the document, also when a script calls it. -/
theorem equalsRequest_accepted :
    loadBuildRequest (documentHost equalsLayout).loaders (documentHost equalsLayout).files
      (documentArguments []).inputPath.bytes (documentArguments []).inputFormat
      ((none : Option Bytes).getD []) [] {} = .ok () equalsRequest :=
  documentHost_imports equalsLayout equalsLayout_proper equalsRequest rfl

/-- The command passes the option `a` with the value `b=c`, and `schema.load` returns no table. -/
theorem equals_in_name_renames : ∃ document,
    loadDocument (documentHost equalsLayout).loaders (documentHost equalsLayout).files
        (documentArguments []).inputPath.bytes (documentArguments []).inputFormat = .ok document ∧
    (optionMembers document.root).map renderedMember = [(ascii "a=b", ascii "c")] ∧
    inputRequest (documentHost equalsLayout) (documentArguments []) = some equalsRequest ∧
    ¬ (cmdBuildRun (documentHost equalsLayout) (documentArguments [])).Guards
      (PassesOptions (flagPairs (documentArguments []) ++
        (optionMembers document.root).map renderedMember)) ∧
    loadRequest equalsLayout = .undefined ∧
    ¬ PassedAndLoaded (documentHost equalsLayout) (documentArguments []) (ascii "json") none
      (documentHost equalsLayout).files ((optionMembers document.root).map renderedMember) := by
  obtain ⟨document, root, loaded⟩ := documentHost_loads equalsLayout equalsLayout_proper
  have members : (optionMembers document.root).map renderedMember = [(ascii "a=b", ascii "c")] := by
    rw [root]
    rfl
  have renamed : ¬ (cmdBuildRun (documentHost equalsLayout) (documentArguments [])).Guards
      (PassesOptions (flagPairs (documentArguments []) ++
        (optionMembers document.root).map renderedMember)) := by
    rw [passesOptions_iff _ _ equalsRequest _ (by decide) (by decide) equalsRequest_imported,
      members]
    decide
  refine ⟨document, loaded, members, equalsRequest_imported, renamed, ?_, ?_⟩
  · exact load_accepted _ _ _ _ none .json rfl equalsRequest equalsRequest_accepted
  · exact fun both => renamed both.1

theorem option_encoding_equals : ∃ document,
    loadDocument (documentHost equalsLayout).loaders (documentHost equalsLayout).files
        (documentArguments []).inputPath.bytes (documentArguments []).inputFormat = .ok document ∧
    ((cmdBuildRun (documentHost equalsLayout) (documentArguments [])).Guards
        (PassesOptions (flagPairs (documentArguments []) ++
          (optionMembers document.root).map renderedMember)) ↔
      ∀ pair ∈ (optionMembers document.root).map renderedMember, Encodable pair) := by
  obtain ⟨document, root, loaded⟩ := documentHost_loads equalsLayout equalsLayout_proper
  refine ⟨document, loaded, (option_encoding_iff (documentHost equalsLayout) (documentArguments [])
    (documentHost equalsLayout).files document equalsRequest (ascii "json") none (by decide) rfl rfl
    loaded equalsRequest_imported _ equalsRequest_accepted ?_).2.2.1⟩
  rw [root]
  decide

end RoundTrip

end Nuperf.Cli
