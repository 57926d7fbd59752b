import Nuperf.CanonicalSchema

set_option autoImplicit false

namespace Nuperf.Cli

open ByteString CStandard Serdetk JsonSchema

/-- A member of an object. -/
def memberOf (name : Bytes) : Value → Option Value
  | .object fields => fields.lookup name
  | _ => none

/-- Where a document lists its keys: at its root, under `keys`, or under `dataset.keys`. -/
def listedKeys (root : Value) : Option Value :=
  match root with
  | .array _ => some root
  | _ => (memberOf (ascii "keys") root).or
      ((memberOf (ascii "dataset") root).bind (memberOf (ascii "keys")))

theorem listedKeys_object (fields : Fields) :
    listedKeys (.object fields) = (fields.lookup (ascii "keys")).or
      ((fields.lookup (ascii "dataset")).bind (memberOf (ascii "keys"))) := rfl

def optionMembers (root : Value) : Fields :=
  match memberOf (ascii "options") root with
  | some (.object options) => options
  | _ => []

/-- The request that a document denotes. -/
structure Denotes (fp : Floating) (root : Value) (request : BuildRequest) : Prop where
  keys : listedKeys root = some (.array (request.keys.map .string))
  method : (memberOf (ascii "method") root).getD (.string []) = .string request.method
  target : (memberOf (ascii "target") root).getD (.string []) = .string request.target
  options : List.Forall₂
    (fun (field : Bytes × Value) entry =>
      ∃ text, optionText fp field.2 = some text ∧ entry = field.1 ++ ascii "=" ++ text)
    (optionMembers root) request.options

section Extraction

variable (fp : Floating)

theorem isTextArray_iff (v : Value) :
    isTextArray v = true ↔ ∃ keys : List Bytes, v = .array (keys.map .string) := by
  constructor
  · intro texts
    cases v with
    | array items =>
        rw [isTextArray] at texts
        induction items with
        | nil => exact ⟨[], rfl⟩
        | cons item rest ih =>
            rw [List.all_cons, Bool.and_eq_true] at texts
            obtain ⟨keys, listed⟩ := ih texts.2
            cases item with
            | string key =>
                cases listed
                exact ⟨key :: keys, rfl⟩
            | _ => cases texts.1
    | _ => cases texts
  · rintro ⟨keys, listed⟩
    rw [listed, isTextArray, List.all_map, List.all_eq_true]
    intro key _
    rfl

theorem collectItems_texts (keys : List Bytes) (request : BuildRequest) :
    collectItems (keys.map .string) request =
      .ok () { request with keys := request.keys ++ keys } := by
  induction keys generalizing request with
  | nil =>
      rw [List.append_nil]
      rfl
  | cons key rest ih =>
      show collectItems (rest.map .string) _ = _
      rw [ih, List.append_assoc]
      rfl

theorem collectItems_refuses (items : List Value) (other : items.all isText = false)
    (request : BuildRequest) :
    ∃ message left, collectItems items request = .error message left := by
  induction items generalizing request with
  | nil => cases other
  | cons item rest ih =>
      cases item with
      | string text => exact ih other _
      | _ => exact ⟨_, _, rfl⟩

/-- What `collect_options` adds for a member. -/
def entryOf (field : Bytes × Value) : Bytes :=
  optionEntry field.1 ((optionText fp field.2).getD [])

theorem optionText_scalar (v : Value) : (optionText fp v).isSome = isScalar v := by
  cases v <;> rfl

theorem collectOptions_scalars (fields : Fields)
    (scalars : (fields.all fun field => isScalar field.2) = true) (request : BuildRequest) :
    collectOptions fp fields request =
      .ok () { request with options := request.options ++ fields.map (entryOf fp) } := by
  induction fields generalizing request with
  | nil =>
      rw [List.map_nil, List.append_nil]
      rfl
  | cons field rest ih =>
      obtain ⟨name, value⟩ := field
      rw [List.all_cons, Bool.and_eq_true] at scalars
      obtain ⟨scalar, others⟩ := scalars
      rw [← optionText_scalar fp] at scalar
      obtain ⟨text, rendered⟩ := Option.isSome_iff_exists.mp scalar
      have entry : entryOf fp (name, value) = optionEntry name text := by
        rw [entryOf, rendered, Option.getD_some]
      rw [List.map_cons, entry, collectOptions, rendered]
      show collectOptions fp rest _ = _
      rw [ih others, List.append_assoc]
      rfl

theorem collectOptions_refuses (fields : Fields)
    (other : (fields.all fun field => isScalar field.2) = false) (request : BuildRequest) :
    ∃ message left, collectOptions fp fields request = .error message left := by
  induction fields generalizing request with
  | nil => cases other
  | cons field rest ih =>
      obtain ⟨name, value⟩ := field
      rw [collectOptions]
      cases rendered : optionText fp value with
      | none => exact ⟨_, _, rfl⟩
      | some text =>
          have scalar : isScalar value = true := by
            rw [← optionText_scalar fp, rendered, Option.isSome_some]
          rw [List.all_cons, scalar, Bool.true_and] at other
          exact ih other _

/-- The object lists its keys where the importer looks for them. -/
def keysGiven (fields : Fields) : Bool :=
  match fields.lookup (ascii "keys") with
  | some keys => isTextArray keys
  | none => (fields.lookup (ascii "dataset")).any fun dataset =>
      (memberOf (ascii "keys") dataset).any isTextArray

/-- The documents that have the shape the importer checks for. -/
def isImportable : Value → Bool
  | .array items => items.all isText
  | .object fields => keysGiven fields && (fields.lookup (ascii "options")).all isOptionObject
  | _ => false

theorem collectKeysFromValue_texts (keys : List Bytes) (request : BuildRequest) :
    collectKeysFromValue (.array (keys.map .string)) request =
      .ok () { request with keys := request.keys ++ keys } :=
  collectItems_texts keys request

theorem collectKeysFromValue_refuses (v : Value) (other : isTextArray v = false)
    (request : BuildRequest) :
    ∃ message left, collectKeysFromValue v request = .error message left := by
  cases v with
  | array items => exact collectItems_refuses items other request
  | _ => exact ⟨_, _, rfl⟩

theorem extractKeys_given (fields : Fields) (given : keysGiven fields = true) :
    ∃ keys : List Bytes, listedKeys (.object fields) = some (.array (keys.map .string)) ∧
      ∀ request, extractKeys fields request =
        .ok () { request with keys := request.keys ++ keys } := by
  unfold keysGiven at given
  unfold extractKeys
  rw [listedKeys_object]
  cases found : fields.lookup (ascii "keys") with
  | some v =>
      rw [found] at given
      obtain ⟨keys, rfl⟩ := (isTextArray_iff v).mp given
      exact ⟨keys, rfl, collectKeysFromValue_texts keys⟩
  | none =>
      rw [found] at given
      obtain ⟨dataset, inside, v, under, texts⟩ : ∃ dataset,
          fields.lookup (ascii "dataset") = some dataset ∧ ∃ v,
            memberOf (ascii "keys") dataset = some v ∧ isTextArray v = true := by
        simpa only [Option.any_eq_true] using given
      obtain ⟨keys, rfl⟩ := (isTextArray_iff v).mp texts
      cases dataset with
      | object members =>
          have lookup : members.lookup (ascii "keys") = some _ := under
          refine ⟨keys, ?_, ?_⟩
          · rw [inside, Option.none_or, Option.bind_some, under]
          · intro request
            simp only [inside, lookup]
            exact collectKeysFromValue_texts keys request
      | _ => cases under

theorem extractKeys_refuses (fields : Fields) (missing : keysGiven fields = false)
    (request : BuildRequest) :
    ∃ message left, extractKeys fields request = .error message left := by
  unfold keysGiven at missing
  unfold extractKeys
  cases found : fields.lookup (ascii "keys") with
  | some v =>
      rw [found] at missing
      exact collectKeysFromValue_refuses v missing request
  | none =>
      rw [found] at missing
      cases inside : fields.lookup (ascii "dataset") with
      | none => exact ⟨_, _, rfl⟩
      | some dataset =>
          rw [inside] at missing
          cases dataset with
          | object members =>
              cases under : members.lookup (ascii "keys") with
              | none =>
                  simp only [under]
                  exact ⟨_, _, rfl⟩
              | some v =>
                  have other : isTextArray v = false := by
                    simpa only [Option.any_some, memberOf, under] using missing
                  simp only [under]
                  exact collectKeysFromValue_refuses v other request
          | _ => exact ⟨_, _, rfl⟩

/-- The text of a member, empty when it is none. -/
def textMember (name : Bytes) (root : Value) : Bytes :=
  match memberOf name root with
  | some (.string text) => text
  | _ => []

theorem extractOptions_scalars (fields : Fields)
    (options : (fields.lookup (ascii "options")).all isOptionObject = true)
    (request : BuildRequest) :
    extractOptions fp fields request = .ok () { request with
      options := request.options ++ (optionMembers (.object fields)).map (entryOf fp) } := by
  unfold extractOptions optionMembers memberOf
  cases found : fields.lookup (ascii "options") with
  | none =>
      simp only [found, List.map_nil, List.append_nil]
      rfl
  | some v =>
      rw [found, Option.all_some] at options
      cases v with
      | object members =>
          simp only [found]
          exact collectOptions_scalars fp members options request
      | _ => cases options

theorem extractOptions_refuses (fields : Fields)
    (other : (fields.lookup (ascii "options")).all isOptionObject = false)
    (request : BuildRequest) :
    ∃ message left, extractOptions fp fields request = .error message left := by
  unfold extractOptions
  cases found : fields.lookup (ascii "options") with
  | none =>
      rw [found] at other
      cases other
  | some v =>
      rw [found, Option.all_some] at other
      cases v with
      | object members => exact collectOptions_refuses fp members other request
      | _ => exact ⟨_, _, rfl⟩

theorem extract_object (fields : Fields) (request next : BuildRequest)
    (collected : extractKeys fields request = .ok () next) :
    extractRequestFromDocument fp (.object fields) request =
      extractOptions fp fields (extractNames fields next) := by
  show EStateM.bind (extractKeys fields) _ request = _
  rw [EStateM.bind, collected]
  rfl

/-- What is made of an importable document. -/
theorem extract_importable (root : Value) (importable : isImportable root = true) :
    ∃ keys : List Bytes, listedKeys root = some (.array (keys.map .string)) ∧
      extractRequestFromDocument fp root {} = .ok () {
        keys := keys
        method := textMember (ascii "method") root
        target := textMember (ascii "target") root
        options := (optionMembers root).map (entryOf fp) } := by
  cases root with
  | array items =>
      obtain ⟨keys, same⟩ := (isTextArray_iff (.array items)).mp importable
      cases same
      exact ⟨keys, rfl, collectKeysFromValue_texts keys {}⟩
  | object fields =>
      rw [isImportable, Bool.and_eq_true] at importable
      obtain ⟨keys, listed, collected⟩ := extractKeys_given fields importable.1
      refine ⟨keys, listed, ?_⟩
      rw [extract_object fp fields {} _ (collected {}),
        extractOptions_scalars fp fields importable.2]
      rfl
  | _ => cases importable

theorem extract_refuses (root : Value) (other : isImportable root = false)
    (request : BuildRequest) :
    ∃ message left, extractRequestFromDocument fp root request = .error message left := by
  cases root with
  | array items => exact collectKeysFromValue_refuses (.array items) other request
  | object fields =>
      rw [isImportable, Bool.and_eq_false_iff] at other
      cases given : keysGiven fields with
      | false =>
          obtain ⟨message, left, refused⟩ := extractKeys_refuses fields given request
          refine ⟨message, left, ?_⟩
          show EStateM.bind (extractKeys fields) _ request = _
          rw [EStateM.bind, refused]
      | true =>
          obtain ⟨keys, _, collected⟩ := extractKeys_given fields given
          have options := other.resolve_left (by rw [given]; exact Bool.noConfusion)
          rw [extract_object fp fields request _ (collected request)]
          exact extractOptions_refuses fp fields options _
  | _ => exact ⟨_, _, rfl⟩

end Extraction

section Conformance

variable (fp : Floating)

theorem absent_of_closed (fields : Fields) (names : List Bytes) (name : Bytes)
    (closed : ∀ field ∈ fields, field.1 ∈ names) (other : name ∉ names) :
    fields.lookup name = none := by
  cases found : fields.lookup name with
  | none => rfl
  | some v => exact absurd (closed _ (OrderedMap.mem_of_lookup fields name v found)) other

/-- An object with no member that a request has no place for. -/
structure TidyFields (fields : Fields) : Prop where
  closed :
    (∀ field ∈ fields, field.1 ∈ [ascii "keys", ascii "method", ascii "options", ascii "target"]) ∨
      ∀ field ∈ fields, field.1 ∈ [ascii "dataset", ascii "method", ascii "options", ascii "target"]
  method : (fields.lookup (ascii "method")).all isText = true
  target : (fields.lookup (ascii "target")).all isText = true
  dataset : ∀ members, fields.lookup (ascii "dataset") = some (.object members) →
    ∀ member ∈ members, member.1 = ascii "keys"

def Tidy : Value → Prop
  | .object fields => TidyFields fields
  | _ => True

theorem keysRequest_iff (fields : Fields)
    (closed : ∀ field ∈ fields,
      field.1 ∈ [ascii "keys", ascii "method", ascii "options", ascii "target"]) :
    RequestFields (ascii "keys") isTextArray fields ↔
      isImportable (.object fields) = true ∧ TidyFields fields := by
  have noDataset := absent_of_closed fields _ (ascii "dataset") closed (by decide)
  constructor
  · intro request
    obtain ⟨v, found, texts⟩ := request.given
    constructor
    · rw [isImportable, keysGiven, found, request.options, Bool.and_true]
      exact texts
    · refine ⟨.inl closed, request.method, request.target, ?_⟩
      intro members found
      rw [noDataset] at found
      cases found
  · rintro ⟨importable, tidy⟩
    rw [isImportable, Bool.and_eq_true] at importable
    obtain ⟨given, options⟩ := importable
    refine ⟨?_, tidy.method, options, tidy.target, closed⟩
    rw [keysGiven, noDataset] at given
    cases found : fields.lookup (ascii "keys") with
    | none =>
        rw [found] at given
        cases given
    | some v =>
        rw [found] at given
        exact ⟨v, rfl, given⟩

theorem isDataset_iff (v : Value) :
    isDataset v = true ↔
      (memberOf (ascii "keys") v).any isTextArray = true ∧
        ∀ members, v = .object members → ∀ member ∈ members, member.1 = ascii "keys" := by
  cases v with
  | object fields =>
      rw [isDataset, Bool.and_eq_true, List.all_eq_true]
      simp only [decide_eq_true_eq, memberOf, Value.object.injEq, forall_eq']
  | _ =>
      constructor
      · intro conforming
        cases conforming
      · rintro ⟨given, _⟩
        cases given

theorem datasetRequest_iff (fields : Fields)
    (closed : ∀ field ∈ fields,
      field.1 ∈ [ascii "dataset", ascii "method", ascii "options", ascii "target"]) :
    RequestFields (ascii "dataset") isDataset fields ↔
      isImportable (.object fields) = true ∧ TidyFields fields := by
  have noKeys := absent_of_closed fields _ (ascii "keys") closed (by decide)
  constructor
  · intro request
    obtain ⟨v, found, dataset⟩ := request.given
    obtain ⟨texts, only⟩ := (isDataset_iff v).mp dataset
    constructor
    · rw [isImportable, keysGiven, noKeys, found, request.options, Bool.and_true]
      exact texts
    · refine ⟨.inr closed, request.method, request.target, ?_⟩
      intro members same
      rw [found, Option.some.injEq] at same
      exact only members same
  · rintro ⟨importable, tidy⟩
    rw [isImportable, Bool.and_eq_true] at importable
    obtain ⟨given, options⟩ := importable
    refine ⟨?_, tidy.method, options, tidy.target, closed⟩
    rw [keysGiven, noKeys] at given
    obtain ⟨v, found, texts⟩ := (Option.any_eq_true _ _).mp given
    refine ⟨v, found, (isDataset_iff v).mpr ⟨texts, ?_⟩⟩
    intro members shape
    exact tidy.dataset members (shape ▸ found)

/-- The published schema asks for what the importer checks, and for tidiness. -/
theorem conforms_iff_importable_tidy (root : Value) :
    conforms fp canonicalSchema root = true ↔ isImportable root = true ∧ Tidy root := by
  rw [conforms_canonicalSchema]
  cases root with
  | array items =>
      simp only [isTextArray, isImportable, Tidy, and_true, reduceCtorEq, false_and, exists_false,
        or_false]
  | object fields =>
      simp only [isTextArray, Bool.false_eq_true, Value.object.injEq, exists_eq_left', false_or]
      constructor
      · intro request
        cases request with
        | inl keys => exact (keysRequest_iff fields keys.closed).mp keys
        | inr dataset => exact (datasetRequest_iff fields dataset.closed).mp dataset
      · intro both
        cases both.2.closed with
        | inl closed => exact .inl ((keysRequest_iff fields closed).mpr both)
        | inr closed => exact .inr ((datasetRequest_iff fields closed).mpr both)
  | _ =>
      simp only [isTextArray, isImportable, Bool.false_eq_true, reduceCtorEq, false_and,
        exists_false, or_self]

theorem memberOf_text (name : Bytes) (root : Value)
    (text : (memberOf name root).all isText = true) :
    (memberOf name root).getD (.string []) = .string (textMember name root) := by
  unfold textMember
  cases found : memberOf name root with
  | none => rfl
  | some v =>
      rw [found, Option.all_some] at text
      cases v with
      | string text => rfl
      | _ => cases text

theorem tidy_texts (root : Value) (tidy : Tidy root) :
    (memberOf (ascii "method") root).all isText = true ∧
      (memberOf (ascii "target") root).all isText = true := by
  cases root with
  | object fields => exact ⟨tidy.method, tidy.target⟩
  | _ => exact ⟨rfl, rfl⟩

theorem optionMembers_scalar (root : Value) (importable : isImportable root = true) :
    ∀ field ∈ optionMembers root, isScalar field.2 = true := by
  intro field listed
  unfold optionMembers at listed
  split at listed
  · next members found =>
      cases root with
      | object fields =>
          have present : fields.lookup (ascii "options") = some (.object members) := found
          rw [isImportable, present, Bool.and_eq_true, Option.all_some, isOptionObject,
            List.all_eq_true] at importable
          exact importable.2 field listed
      | _ => cases found
  · cases listed

/-- The published text reads as the canonical schema, and a document that conforms to it is
imported as what it denotes. -/
theorem conforming_document_imported (document : Document)
    (conforming : conforms fp canonicalSchema document.root = true) :
    jsonLoadString fp canonicalDatasetSchemaJson = .ok canonicalSchema ∧
      ∃ request, extractRequestFromDocument fp document.root {} = .ok () request ∧
        Denotes fp document.root request := by
  refine ⟨jsonLoadString_canonical fp, ?_⟩
  obtain ⟨importable, tidy⟩ := (conforms_iff_importable_tidy fp document.root).mp conforming
  obtain ⟨keys, listed, extracted⟩ := extract_importable fp document.root importable
  obtain ⟨method, target⟩ := tidy_texts document.root tidy
  refine ⟨_, extracted, listed, memberOf_text _ _ method, memberOf_text _ _ target, ?_⟩
  rw [List.forall₂_map_right_iff, List.forall₂_same]
  intro field member
  have scalar := optionMembers_scalar document.root importable field member
  rw [← optionText_scalar fp] at scalar
  obtain ⟨text, rendered⟩ := Option.isSome_iff_exists.mp scalar
  refine ⟨text, rendered, ?_⟩
  rw [entryOf, rendered, Option.getD_some, optionEntry]

/-- A platform for documents without fractions, in JSON. -/
def jsonOnly : Loaders where
  stod _ := .error (.standard (ascii "stod"))
  toString _ := []
  print _ := []
  ofInt64 _ := 0
  ofUInt64 _ := 0
  equal := (· == ·)
  less := (· < ·)
  integral _ := false
  regexSearch _ _ := .error .foreign
  yaml _ := .error .foreign
  sexpr _ := .error .foreign
  xml _ := .error .foreign

def sampleKeys : List Value := [.string (ascii "b"), .string (ascii "a"), .string (ascii "b")]

def sampleOptions : Fields :=
  [(ascii "fast", .bool true), (ascii "seed", .uint 7), (ascii "tag", .string (ascii "x=y"))]

/-- A document with a repeated key, a method and options. -/
def sampleDocument : Document where
  root := .object [(ascii "keys", .array sampleKeys), (ascii "method", .string (ascii "BBHash")),
    (ascii "options", .object sampleOptions)]
  wellFormed := by
    refine .object _ (by decide) (List.forall_mem_cons.mpr ⟨.array _ ?_,
      List.forall_mem_cons.mpr ⟨.string _, List.forall_mem_singleton.mpr ?_⟩⟩)
    · intro item member
      obtain ⟨key, _, rfl⟩ : ∃ key ∈ [ascii "b", ascii "a", ascii "b"], Value.string key = item :=
        List.mem_map.mp member
      exact .string key
    · exact .object _ (by decide) (List.forall_mem_cons.mpr ⟨.bool _,
        List.forall_mem_cons.mpr ⟨.uint _, List.forall_mem_singleton.mpr (.string _)⟩⟩)

theorem conforming_sample_imported :
    jsonLoadString jsonOnly.toFloating canonicalDatasetSchemaJson = .ok canonicalSchema ∧
      ∃ request, extractRequestFromDocument jsonOnly.toFloating sampleDocument.root {} =
          .ok () request ∧
        Denotes jsonOnly.toFloating sampleDocument.root request :=
  conforming_document_imported jsonOnly.toFloating sampleDocument rfl

section Validation

variable (env : Loaders)

/-- The validator has nothing to say about the published schema. -/
theorem validator_passes (root : Value) :
    validatorValidate env.toPlatform canonicalSchema root = .ok {} := by
  have depth : ∃ fuel, canonicalSchema.depth = fuel + 1 := ⟨_, rfl⟩
  obtain ⟨fuel, deep⟩ := depth
  show validateNode env.toPlatform canonicalSchema.depth _ root _ {} = _
  rw [deep]
  apply validateNode_ignores
  decide

theorem validateDocument_published (fs published reads : FileSystem) (path schemaPath : Bytes)
    (dumped : dumpDatasetSchema env.toFloating fs path = .ok published)
    (same : reads.contents schemaPath = published.contents path) (document : Document) :
    validateDocument env reads document schemaPath = .ok () := by
  obtain ⟨text, stored, read⟩ := dumpDatasetSchema_reads env.toFloating fs path published dumped
  obtain ⟨schema, loaded, root⟩ := jsonFromString_root env.toFloating text _ read
  unfold validateDocument
  rw [stored] at same
  split_ifs
  · rfl
  · simp only [readTextFile, same, bind, Except.bind, loaded, root, validator_passes,
      ↓reduceIte]

/-- Validated or not, a document is imported exactly when it has the shape that the importer
checks for. -/
theorem loadBuildRequest_accepts_iff (reads : FileSystem) (path schemaPath outError : Bytes)
    (format : InputFormat) (document : Document)
    (validated : validateDocument env reads document schemaPath = .ok ())
    (loaded : loadDocument env reads path format = .ok document) :
    (∃ request, loadBuildRequest env reads path format schemaPath outError {} = .ok () request) ↔
      isImportable document.root = true := by
  by_cases lines : format = .lines
  · subst lines
    cases loaded
    constructor
    · rintro ⟨request, accepted⟩
      cases accepted
    · intro importable
      cases importable
  · simp only [loadBuildRequest, lines, ↓reduceIte, loaded, validated]
    constructor
    · rintro ⟨request, accepted⟩
      cases importable : isImportable document.root with
      | true => rfl
      | false =>
          obtain ⟨message, left, refused⟩ :=
            extract_refuses env.toFloating document.root importable {}
          rw [refused] at accepted
          cases accepted
    · intro importable
      obtain ⟨keys, _, extracted⟩ := extract_importable env.toFloating document.root importable
      exact ⟨_, extracted⟩

/-- The published schema keeps a document out exactly when the importer would: the validator
does not read `oneOf`. -/
theorem published_schema_guards_iff (fs published reads : FileSystem)
    (dumpPath path schemaPath outError : Bytes) (format : InputFormat) (document : Document)
    (dumped : dumpDatasetSchema env.toFloating fs dumpPath = .ok published)
    (same : reads.contents schemaPath = published.contents dumpPath)
    (loaded : loadDocument env reads path format = .ok document) :
    ((∃ request, loadBuildRequest env reads path format schemaPath outError {} = .ok () request) →
        conforms env.toFloating canonicalSchema document.root = true) ↔
      (isImportable document.root = true → Tidy document.root) := by
  have validated := validateDocument_published env fs published reads dumpPath schemaPath dumped
    same document
  rw [loadBuildRequest_accepts_iff env reads path schemaPath outError format document validated
    loaded, conforms_iff_importable_tidy]
  constructor
  · intro guards importable
    exact (guards importable).2
  · intro tidy importable
    exact ⟨importable, tidy importable⟩

end Validation

section Stray

def strayText : Bytes := ascii "\x7b\"keys\":[\"a\"],\"bogus\":true\x7d"

def strayRoot : Value :=
  .object [(ascii "bogus", .bool true), (ascii "keys", .array [.string (ascii "a")])]

def strayFiles : FileSystem where
  contents path := if path = ascii "request.json" then some strayText else none
  writable _ := true

def strayLayout : Layout :=
  .object [
    (⟨[], ascii "keys", []⟩, .array [([], word "a")] []),
    (⟨[], ascii "bogus", []⟩, .leaf (.bool true))] []

theorem strayLayout_proper : strayLayout.Proper :=
  ⟨⟨blank_nil, blank_nil, ⟨⟨blank_nil, word_proper "a", trivial⟩, blank_nil⟩,
    blank_nil, blank_nil, Option.some_ne_none _, trivial⟩, blank_nil⟩

theorem strayText_reads : jsonLoadString jsonOnly.toFloating strayText = .ok strayRoot :=
  jsonLoadString_write jsonOnly.toFloating strayLayout strayLayout_proper [] [] blank_nil blank_nil

theorem strayFiles_load : ∃ published document,
    dumpDatasetSchema jsonOnly.toFloating strayFiles (ascii "schema.json") = .ok published ∧
      loadDocument jsonOnly published (ascii "request.json") .json = .ok document ∧
      document.root = strayRoot := by
  obtain ⟨published, dumped, others⟩ :=
    dumpDatasetSchema_ok jsonOnly.toFloating strayFiles (ascii "schema.json") rfl
  obtain ⟨document, loaded, root⟩ :=
    jsonFromString_root jsonOnly.toFloating strayText strayRoot strayText_reads
  have stored : published.contents (ascii "request.json") = some strayText :=
    others (ascii "request.json") (by decide)
  refine ⟨published, document, dumped, ?_, root⟩
  simp only [loadDocument, readTextFile, stored, bind, Except.bind, loaded]

/-- A member that no alternative allows goes through. -/
theorem stray_member_accepted : ∃ published document request,
    dumpDatasetSchema jsonOnly.toFloating strayFiles (ascii "schema.json") = .ok published ∧
      loadDocument jsonOnly published (ascii "request.json") .json = .ok document ∧
      loadBuildRequest jsonOnly published (ascii "request.json") .json (ascii "schema.json") [] {} =
        .ok () request ∧
      conforms jsonOnly.toFloating canonicalSchema document.root = false := by
  obtain ⟨published, document, dumped, loaded, root⟩ := strayFiles_load
  have validated := validateDocument_published jsonOnly strayFiles published published _ _ dumped
    rfl document
  have accepts := loadBuildRequest_accepts_iff jsonOnly published _ (ascii "schema.json") [] .json
    document validated loaded
  rw [root] at accepts
  obtain ⟨request, accepted⟩ := accepts.mpr rfl
  refine ⟨published, document, request, dumped, loaded, accepted, ?_⟩
  rw [root]
  rfl

theorem published_schema_guards_stray : ∃ published document,
    dumpDatasetSchema jsonOnly.toFloating strayFiles (ascii "schema.json") = .ok published ∧
      loadDocument jsonOnly published (ascii "request.json") .json = .ok document ∧
      (((∃ request, loadBuildRequest jsonOnly published (ascii "request.json") .json
            (ascii "schema.json") [] {} = .ok () request) →
          conforms jsonOnly.toFloating canonicalSchema document.root = true) ↔
        (isImportable document.root = true → Tidy document.root)) := by
  obtain ⟨published, document, dumped, loaded, _⟩ := strayFiles_load
  exact ⟨published, document, dumped, loaded,
    published_schema_guards_iff jsonOnly strayFiles published published _ _ _ [] .json document
      dumped rfl loaded⟩

end Stray

end Conformance

end Nuperf.Cli
