import Nuperf.BuildTrace

set_option autoImplicit false

namespace Nuperf.Cli

open ByteString CStandard OrderedMap TextReader Serdetk CallProgram Program

section Force

variable (table : Handle)

def optionGiven : StatusCall → Option (Bytes × Bytes)
  | .setOption named key value => if named = table then some (key.bytes, value.bytes) else none
  | _ => none

/-- The value that the library keeps for an option: the last one it accepted. -/
def optionInForce (events : List BuildEvent) (name : Bytes) : Option Bytes :=
  lastValue ((acceptedCalls events).filterMap (optionGiven table)) name

/-- These values are in force when the table is built. -/
def OptionsInForce (value : Bytes → Option Bytes) (before : List BuildEvent) : BuildCall → Prop
  | .status (.tableBuild table) => ∀ name, optionInForce table before name = value name
  | _ => True

theorem optionsInForce_quiet (value : Bytes → Option Bytes) (history : List BuildEvent)
    (c : BuildCall) (quiet : c.isDecisive = false) : OptionsInForce value history c := by
  unfold OptionsInForce
  split
  · cases quiet
  · trivial

/-- What a callee makes of a pair of strings. -/
def cstrPair (pair : Bytes × Bytes) : Bytes × Bytes := (cstr pair.1, cstr pair.2)

theorem optionInForce_settled (keyset : Handle) (request : BuildRequest) (settings : Settings)
    (pairs : List (Bytes × Bytes)) (name : Bytes) :
    optionInForce table (ingested keyset table request ++ settled keyset table settings ++
      pairs.map (given table)) name = lastValue (pairs.map cstrPair) name := by
  rw [optionInForce, acceptedCalls_configured, List.filterMap_append, List.filterMap_append,
    filterMap_map_none _ _ _ fun _ => rfl, filterMap_map_some _ _ _ cstrPair fun _ => if_pos rfl]
  rfl

end Force

section Pairs

theorem splitOption_entry (name value : Bytes) (free : 61 ∉ name) :
    splitOption (optionEntry name value) = some (name, value) := by
  have split : readRun (· != 61) (name ++ (ascii "=" ++ value)) = (name, ascii "=" ++ value) := by
    apply readRun_append
    · intro byte member
      exact bne_iff_ne.mpr fun same => free (same ▸ member)
    · rfl
  unfold splitOption optionEntry
  rw [List.append_assoc, split]
  rfl

theorem splitOption_isSome (opt : Bytes) (equals : 61 ∈ opt) : (splitOption opt).isSome = true := by
  obtain ⟨whole, run⟩ := readRun_spec (· != 61) opt
  unfold splitOption
  split
  · rfl
  · next name nothing =>
      rw [nothing, List.append_nil] at whole
      have different := run 61 (by rw [nothing]; exact whole ▸ equals)
      exact absurd rfl (bne_iff_ne.mp different)

/-- Both halves of an option come out of it. -/
theorem splitOption_parts (opt name value : Bytes) (split : splitOption opt = some (name, value)) :
    ∃ byte, opt = name ++ byte :: value := by
  obtain ⟨whole, _⟩ := readRun_spec (· != 61) opt
  unfold splitOption at split
  generalize readRun (· != 61) opt = parts at whole split
  obtain ⟨front, back⟩ := parts
  cases back with
  | nil => cases split
  | cons byte back =>
      cases split
      exact ⟨byte, whole⟩

theorem mapM_splitOption (options : List Bytes) (equals : ∀ opt ∈ options, 61 ∈ opt) :
    options.mapM splitOption = some (options.filterMap splitOption) := by
  induction options with
  | nil => rfl
  | cons opt rest ih =>
      obtain ⟨pair, split⟩ := Option.isSome_iff_exists.mp
        (splitOption_isSome opt (equals opt List.mem_cons_self))
      have later := ih fun next member => equals next (List.mem_cons_of_mem _ member)
      rw [List.mapM_cons, split, later, List.filterMap_cons_some split]
      rfl

variable (args : BuildArguments)

/-- The names and values of the `--option` flags. -/
def flagPairs : List (Bytes × Bytes) := args.options.filterMap fun opt => splitOption opt.bytes

/-- The value of the last `--option` flag for a name. -/
def lastFlag (name : Bytes) : Option Bytes := lastValue (flagPairs args) name

theorem flagPairs_cstr : (flagPairs args).map cstrPair = flagPairs args := by
  have same : (flagPairs args).map cstrPair = (flagPairs args).map id := by
    apply List.map_congr_left
    intro pair member
    obtain ⟨opt, _, split⟩ := List.mem_filterMap.mp member
    obtain ⟨byte, whole⟩ := splitOption_parts opt.bytes pair.1 pair.2 split
    have free := opt.nulFree
    rw [whole, nulFree_append] at free
    have valueFree : NulFree pair.2 := fun inside => free.2 (List.mem_cons_of_mem byte inside)
    exact Prod.ext free.1.cstr valueFree.cstr
  rw [same, List.map_id]

theorem lastFlag_nulFree (name value : Bytes) (found : lastFlag args name = some value) :
    NulFree name := by
  have member := mem_of_lastValue _ _ _ found
  rw [← flagPairs_cstr] at member
  obtain ⟨pair, _, same⟩ := List.mem_map.mp member
  have shortened : cstr pair.1 = name := congrArg Prod.fst same
  rw [← shortened]
  exact cstr_nulFree pair.1

variable (fp : Floating)

/-- A member of an options object, as a name and the text of its value. -/
def memberPair (field : Bytes × Value) : Bytes × Bytes :=
  (field.1, (optionText fp field.2).getD [])

theorem filterMap_entryOf (members : Fields) (names : ∀ field ∈ members, 61 ∉ field.1) :
    (members.map (entryOf fp)).filterMap splitOption = members.map (memberPair fp) := by
  induction members with
  | nil => rfl
  | cons field rest ih =>
      have split : splitOption (entryOf fp field) = some (memberPair fp field) :=
        splitOption_entry field.1 _ (names field List.mem_cons_self)
      rw [List.map_cons, List.filterMap_cons_some split, List.map_cons,
        ih fun next member => names next (List.mem_cons_of_mem _ member)]

theorem entryOf_equals (field : Bytes × Value) : 61 ∈ entryOf fp field := by
  unfold entryOf optionEntry
  exact List.mem_append_left _ (List.mem_append_right _ List.mem_cons_self)

end Pairs

section Override

variable (flags members : List (Bytes × Bytes))

/-- Names without a NUL stay apart, and each keeps its one value, up to the NUL in it. -/
theorem lastValue_cstrPair (distinct : (members.map Prod.fst).Nodup)
    (names : ∀ member ∈ members, NulFree member.1) (name : Bytes) :
    lastValue (members.map cstrPair) name = (members.lookup name).map cstr := by
  have shape : members.map cstrPair = members.map fun member => (member.1, cstr member.2) := by
    apply List.map_congr_left
    intro member inside
    exact Prod.ext (names member inside).cstr rfl
  have kept : ((members.map fun member => (member.1, cstr member.2)).map Prod.fst).Nodup := by
    rw [List.map_map]
    exact distinct
  rw [shape, lastValue_eq_lookup _ _ kept, lookup_map_snd]

theorem prevailing_names_nulFree
    (flagNames : ∀ name value, lastValue flags name = some value → NulFree name)
    (distinct : (members.map Prod.fst).Nodup)
    (prevail : ∀ name, lastValue (flags ++ members.map cstrPair) name =
      (lastValue flags name).or (members.lookup name)) :
    ∀ member ∈ members, NulFree member.1 := by
  intro member inside
  have found : members.lookup member.1 = some member.2 :=
    (lookup_eq_some_iff_mem _ _ distinct _).mpr inside
  cases flagged : lastValue flags member.1 with
  | some value => exact flagNames member.1 value flagged
  | none =>
      have here := prevail member.1
      rw [lastValue_append, flagged, found, Option.or_none, Option.none_or] at here
      obtain ⟨other, _, same⟩ := List.mem_map.mp (mem_of_lastValue _ _ _ here)
      have shortened : cstr other.1 = member.1 := congrArg Prod.fst same
      rw [← shortened]
      exact cstr_nulFree other.1

/-- When what is in force after the flags and then the members is what the flags say, and what
the members say where the flags are silent. -/
theorem flags_prevail_iff
    (flagNames : ∀ name value, lastValue flags name = some value → NulFree name)
    (distinct : (members.map Prod.fst).Nodup) :
    (∀ name, lastValue (flags ++ members.map cstrPair) name =
        (lastValue flags name).or (members.lookup name)) ↔
      ∀ member ∈ members, NulFree member.1 ∧
        match lastValue flags member.1 with
        | some value => cstr member.2 = value
        | none => NulFree member.2 := by
  constructor
  · intro prevail
    have names := prevailing_names_nulFree flags members flagNames distinct prevail
    intro member inside
    refine ⟨names member inside, ?_⟩
    have found : members.lookup member.1 = some member.2 :=
      (lookup_eq_some_iff_mem _ _ distinct _).mpr inside
    have here := prevail member.1
    rw [lastValue_append, lastValue_cstrPair members distinct names, found, Option.map_some,
      Option.some_or] at here
    cases flagged : lastValue flags member.1 with
    | some value =>
        rw [flagged, Option.some_or, Option.some.injEq] at here
        exact here
    | none =>
        rw [flagged, Option.none_or, Option.some.injEq] at here
        exact (cstr_eq_self_iff _).mp here
  · intro condition name
    have names : ∀ member ∈ members, NulFree member.1 :=
      fun member inside => (condition member inside).1
    rw [lastValue_append, lastValue_cstrPair members distinct names]
    cases found : members.lookup name with
    | none => rw [Option.map_none, Option.none_or, Option.or_none]
    | some text =>
        have value := (condition (name, text) (mem_of_lookup _ _ _ found)).2
        rw [Option.map_some, Option.some_or]
        cases flagged : lastValue flags name with
        | some other =>
            simp only [flagged] at value
            rw [Option.some_or, value]
        | none =>
            simp only [flagged] at value
            rw [Option.none_or, value.cstr]

end Override

section Imported

variable (host : Host) (args : BuildArguments) (files : FileSystem) (document : Document)
  (request : BuildRequest)

theorem optionMembers_sorted : Sorted (optionMembers document.root) := by
  obtain ⟨root, wellFormed⟩ := document
  unfold optionMembers
  split
  · next members found =>
      cases root with
      | object fields =>
          cases wellFormed with
          | object _ _ each =>
              have inside : Value.WellFormed (.object members) :=
                each _ (mem_of_lookup _ _ _ found)
              cases inside with
              | object _ sorted _ => exact sorted
      | _ => cases found
  · exact List.Pairwise.nil

theorem extracted_options (fp : Floating) (root : Value)
    (extracted : extractRequestFromDocument fp root {} = .ok () request) :
    request.options = (optionMembers root).map (entryOf fp) := by
  cases importable : isImportable root with
  | true =>
      obtain ⟨keys, _, made⟩ := extract_importable fp root importable
      rw [extracted] at made
      cases made
      rfl
  | false =>
      obtain ⟨message, left, refused⟩ := extract_refuses fp root importable {}
      rw [extracted] at refused
      cases refused

theorem loaded_extracted (path schemaPath outError : Bytes) (format : InputFormat)
    (loaded : loadDocument host.loaders files path format = .ok document)
    (accepted : loadBuildRequest host.loaders files path format schemaPath outError {} =
      .ok () request) :
    extractRequestFromDocument host.loaders.toFloating document.root {} = .ok () request := by
  unfold loadBuildRequest at accepted
  split_ifs at accepted with lined
  · cases accepted
  · rw [loaded] at accepted
    dsimp only at accepted
    cases validated : validateDocument host.loaders files document schemaPath with
    | ok _ =>
        rw [validated] at accepted
        exact accepted
    | error message =>
        rw [validated] at accepted
        cases accepted

/-- The options of the request are the members of the options object, one by one. -/
theorem inputRequest_options (dumped : dumpedFiles host args = .ok files)
    (loaded : loadDocument host.loaders files args.inputPath.bytes args.inputFormat = .ok document)
    (imported : inputRequest host args = some request) :
    request.options = (optionMembers document.root).map (entryOf host.loaders.toFloating) := by
  unfold inputRequest at imported
  rw [dumped] at imported
  dsimp only at imported
  split_ifs at imported with lined
  · obtain ⟨text, _, made⟩ := Option.map_eq_some_iff.mp imported
    rw [lined] at loaded
    cases loaded
    rw [← made]
    rfl
  · unfold importedRequest at imported
    split_ifs at imported
    cases accepted : loadBuildRequest host.loaders files args.inputPath.bytes args.inputFormat
        args.schemaPath.bytes [] {} with
    | ok _ made =>
        rw [accepted] at imported
        cases imported
        exact extracted_options request _ _
          (loaded_extracted host files document request _ _ _ _ loaded accepted)
    | error message left =>
        rw [accepted] at imported
        cases imported

/-- The options that are set: those of the flags first, and those of the request after them. -/
theorem finalSettings_split (flags : ∀ opt ∈ args.options, 61 ∈ opt.bytes)
    (equals : ∀ opt ∈ request.options, 61 ∈ opt) :
    (finalSettings args request).options.mapM splitOption =
      some (flagPairs args ++ request.options.filterMap splitOption) := by
  rw [finalSettings_eq]
  show ((args.options.map CString.bytes) ++ request.options).mapM splitOption = _
  rw [mapM_splitOption, List.filterMap_append, List.filterMap_map]
  · rfl
  · intro opt member
    rcases List.mem_append.mp member with flag | entry
    · obtain ⟨text, listed, rfl⟩ := List.mem_map.mp flag
      exact flags text listed
    · exact equals opt entry

theorem inputRequest_equals
    (dumped : dumpedFiles host args = .ok files)
    (loaded : loadDocument host.loaders files args.inputPath.bytes args.inputFormat = .ok document)
    (imported : inputRequest host args = some request) : ∀ opt ∈ request.options, 61 ∈ opt := by
  intro opt member
  rw [inputRequest_options host args files document request dumped loaded imported] at member
  obtain ⟨field, _, rfl⟩ := List.mem_map.mp member
  exact entryOf_equals _ field

theorem optionsInForce_iff (value : Bytes → Option Bytes)
    (flags : ∀ opt ∈ args.options, 61 ∈ opt.bytes)
    (dumped : dumpedFiles host args = .ok files)
    (loaded : loadDocument host.loaders files args.inputPath.bytes args.inputFormat = .ok document)
    (names : ∀ field ∈ optionMembers document.root, 61 ∉ field.1)
    (imported : inputRequest host args = some request) :
    (cmdBuildRun host args).Guards (OptionsInForce value) ↔
      ∀ name, lastValue (flagPairs args ++ ((optionMembers document.root).map
        (memberPair host.loaders.toFloating)).map cstrPair) name = value name := by
  have options := inputRequest_options host args files document request dumped loaded imported
  have equals := inputRequest_equals host args files document request dumped loaded imported
  have split := finalSettings_split args request flags equals
  rw [options, filterMap_entryOf _ _ names] at split
  rw [cmdBuildRun_guards_iff host args _ (optionsInForce_quiet value)]
  constructor
  · intro consults name
    have built := (consults request imported 0 0).build _ split name
    rw [optionInForce_settled, List.map_append, flagPairs_cstr] at built
    exact built
  · intro inForce other found keyset table
    rw [imported, Option.some.injEq] at found
    subst found
    refine ⟨trivial, trivial, trivial, ?_⟩
    intro pairs settled name
    rw [split, Option.some.injEq] at settled
    rw [← settled, optionInForce_settled, List.map_append, flagPairs_cstr]
    exact inForce name

/-- The `--option` flags win over the request exactly where the two do not disagree, and where
the rest of the request gets past its NULs. -/
theorem flags_override_request_iff (flags : ∀ opt ∈ args.options, 61 ∈ opt.bytes)
    (dumped : dumpedFiles host args = .ok files)
    (loaded : loadDocument host.loaders files args.inputPath.bytes args.inputFormat = .ok document)
    (names : ∀ field ∈ optionMembers document.root, 61 ∉ field.1)
    (imported : inputRequest host args = some request) :
    (cmdBuildRun host args).Guards (OptionsInForce fun name => (lastFlag args name).or
        (((optionMembers document.root).map (memberPair host.loaders.toFloating)).lookup name)) ↔
      ∀ member ∈ (optionMembers document.root).map (memberPair host.loaders.toFloating),
        NulFree member.1 ∧
          match lastFlag args member.1 with
          | some value => cstr member.2 = value
          | none => NulFree member.2 := by
  have distinct : (((optionMembers document.root).map (memberPair host.loaders.toFloating)).map
      Prod.fst).Nodup := by
    rw [List.map_map]
    exact keys_nodup _ (optionMembers_sorted document)
  rw [optionsInForce_iff host args files document request _ flags dumped loaded names imported]
  exact flags_prevail_iff (flagPairs args) _ (lastFlag_nulFree args) distinct

end Imported

section Overridden

/-- A document that sets an option. -/
def seedLayout : Layout :=
  .object [
    member [] "keys" (.array [([], word "a")] []),
    member [] "options" (.object [member [] "seed" (word "1")] [])] []

def seedRequest : BuildRequest where
  keys := [ascii "a"]
  options := [ascii "seed=1"]

/-- `--option seed=2`. -/
def seedFlags : List CString := [CString.ofBytes (ascii "seed=2")]

theorem seedLayout_proper : seedLayout.Proper := by
  refine ⟨?_, blank_nil⟩
  apply member_proper _ _ _ _ blank_nil
  · exact ⟨⟨blank_nil, word_proper "a", trivial⟩, blank_nil⟩
  refine member_proper _ _ _ _ blank_nil ?_ trivial
  exact ⟨member_proper _ _ _ _ blank_nil (word_proper "1") trivial, blank_nil⟩

theorem seedRequest_imported :
    inputRequest (documentHost seedLayout) (documentArguments seedFlags) = some seedRequest :=
  documentHost_request seedLayout seedLayout_proper seedFlags seedRequest rfl

theorem seedDocument_loads : ∃ document,
    loadDocument (documentHost seedLayout).loaders (documentHost seedLayout).files
        (documentArguments seedFlags).inputPath.bytes (documentArguments seedFlags).inputFormat =
      .ok document ∧
    (∀ field ∈ optionMembers document.root, 61 ∉ field.1) ∧
    (optionMembers document.root).map (memberPair (documentHost seedLayout).loaders.toFloating) =
      [(ascii "seed", ascii "1")] := by
  obtain ⟨document, root, loaded⟩ := documentHost_loads seedLayout seedLayout_proper
  refine ⟨document, loaded, ?_, ?_⟩
  · rw [root]
    decide
  · rw [root]
    rfl

/-- The request wins over the flag. -/
theorem request_overrides_seed_flag : ∃ document,
    loadDocument (documentHost seedLayout).loaders (documentHost seedLayout).files
        (documentArguments seedFlags).inputPath.bytes (documentArguments seedFlags).inputFormat =
      .ok document ∧
    lastFlag (documentArguments seedFlags) (ascii "seed") = some (ascii "2") ∧
    inputRequest (documentHost seedLayout) (documentArguments seedFlags) = some seedRequest ∧
    ¬ (cmdBuildRun (documentHost seedLayout) (documentArguments seedFlags)).Guards
      (OptionsInForce fun name => (lastFlag (documentArguments seedFlags) name).or
        (((optionMembers document.root).map
          (memberPair (documentHost seedLayout).loaders.toFloating)).lookup name)) := by
  obtain ⟨document, loaded, names, pairs⟩ := seedDocument_loads
  refine ⟨document, loaded, by decide, seedRequest_imported, ?_⟩
  rw [optionsInForce_iff _ _ _ document seedRequest _ (by decide) rfl loaded names
    seedRequest_imported, pairs]
  intro all
  have here := all (ascii "seed")
  revert here
  decide

theorem seed_flag_condition : ∃ document,
    loadDocument (documentHost seedLayout).loaders (documentHost seedLayout).files
        (documentArguments seedFlags).inputPath.bytes (documentArguments seedFlags).inputFormat =
      .ok document ∧
    ((cmdBuildRun (documentHost seedLayout) (documentArguments seedFlags)).Guards
        (OptionsInForce fun name => (lastFlag (documentArguments seedFlags) name).or
          (((optionMembers document.root).map
            (memberPair (documentHost seedLayout).loaders.toFloating)).lookup name)) ↔
      ∀ member ∈ (optionMembers document.root).map
          (memberPair (documentHost seedLayout).loaders.toFloating),
        NulFree member.1 ∧
          match lastFlag (documentArguments seedFlags) member.1 with
          | some value => cstr member.2 = value
          | none => NulFree member.2) := by
  obtain ⟨document, loaded, names, _⟩ := seedDocument_loads
  exact ⟨document, loaded, flags_override_request_iff _ _ _ document seedRequest (by decide) rfl
    loaded names seedRequest_imported⟩

end Overridden

end Nuperf.Cli
