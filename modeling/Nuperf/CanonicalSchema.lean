import Nuperf.JsonRoundTrip
import Nuperf.JsonSchema
import Nuperf.SchemaIO

set_option autoImplicit false

namespace Nuperf.Cli

open ByteString CStandard Serdetk JsonSchema

section Schema

def stringSchema : Value := .object [(ascii "type", .string (ascii "string"))]

def keysSchema : Value :=
  .object [(ascii "items", stringSchema), (ascii "type", .string (ascii "array"))]

def scalarSchema : Value :=
  .object [(ascii "type", .array [.string (ascii "string"), .string (ascii "boolean"),
    .string (ascii "integer"), .string (ascii "number")])]

def optionsSchema : Value :=
  .object [
    (ascii "additionalProperties", scalarSchema), (ascii "type", .string (ascii "object"))]

/-- A schema of objects that have a `required` member and no members but these. -/
def closedObject (required : Bytes) (properties : Fields) : Value :=
  .object [
    (ascii "additionalProperties", .bool false),
    (ascii "properties", .object properties),
    (ascii "required", .array [.string required]),
    (ascii "type", .string (ascii "object"))]

def datasetSchema : Value := closedObject (ascii "keys") [(ascii "keys", keysSchema)]

/-- An alternative for objects, by the member that holds the keys. -/
def requestSchema (holder : Bytes) (schema : Value) : Value :=
  closedObject holder [
    (holder, schema),
    (ascii "method", stringSchema),
    (ascii "options", optionsSchema),
    (ascii "target", stringSchema)]

/-- The document that `canonical_dataset_schema_json` is the text of. -/
def canonicalSchema : Value :=
  .object [
    (ascii "$schema", .string (ascii "https://json-schema.org/draft/2020-12/schema")),
    (ascii "description",
      .string (ascii "Structured input document for NuPERF CLI imports.")),
    (ascii "oneOf", .array [keysSchema, requestSchema (ascii "keys") keysSchema,
      requestSchema (ascii "dataset") datasetSchema]),
    (ascii "title", .string (ascii "NuPERF Dataset"))]

end Schema

section Text

/-- A new line, indented. -/
def line (indent : Nat) : Bytes := 10 :: List.replicate indent 32

def member (gap : Bytes) (name : String) (value : Layout) : MemberName × Layout :=
  (⟨gap, ascii name, ascii " "⟩, value)

def word (text : String) : Layout := .leaf (.string (ascii text))

def stringLayout : Layout := .object [member (ascii " ") "type" (word "string")] (ascii " ")

def keysLayout (indent : Nat) : Layout :=
  .object [
    member (line (indent + 2)) "type" (word "array"),
    member (line (indent + 2)) "items" stringLayout] (line indent)

def optionsLayout (indent : Nat) : Layout :=
  .object [
    member (line (indent + 2)) "type" (word "object"),
    member (line (indent + 2)) "additionalProperties" (.object [
      member (line (indent + 4)) "type" (.array [([], word "string"), (ascii " ", word "boolean"),
        (ascii " ", word "integer"), (ascii " ", word "number")] [])] (line (indent + 2)))]
    (line indent)

/-- An object with `required` members and no others than the listed ones. -/
def objectLayout (indent : Nat) (required : String) (members : List (MemberName × Layout)) :
    Layout :=
  .object [
    member (line (indent + 2)) "type" (word "object"),
    member (line (indent + 2)) "required" (.array [([], word required)] []),
    member (line (indent + 2)) "additionalProperties" (.leaf (.bool false)),
    member (line (indent + 2)) "properties" (.object members (line (indent + 2)))] (line indent)

def requestLayout (name : String) (schema : Layout) : Layout :=
  objectLayout 4 name [
    member (line 8) name schema,
    member (line 8) "method" stringLayout,
    member (line 8) "target" stringLayout,
    member (line 8) "options" (optionsLayout 8)]

def canonicalLayout : Layout :=
  .object [
    member (line 2) "$schema" (word "https://json-schema.org/draft/2020-12/schema"),
    member (line 2) "title" (word "NuPERF Dataset"),
    member (line 2) "description" (word "Structured input document for NuPERF CLI imports."),
    member (line 2) "oneOf" (.array [
      (line 4, keysLayout 4),
      (line 4, requestLayout "keys" (keysLayout 8)),
      (line 4, requestLayout "dataset"
        (objectLayout 8 "keys" [member (line 12) "keys" (keysLayout 12)]))] (line 2))] (line 0)

theorem line_blank (indent : Nat) : Blank (line indent) := by
  intro byte inside
  rcases List.mem_cons.mp inside with rfl | space
  · rfl
  · rw [List.eq_of_mem_replicate space]
    rfl

theorem word_proper (text : String) : (word text).Proper := by
  simp only [word, Layout.Proper, leafText, ne_eq, reduceCtorEq, not_false_eq_true]

theorem member_proper (gap : Bytes) (name : String) (value : Layout)
    (rest : List (MemberName × Layout)) (blank : Blank gap) (proper : value.Proper)
    (others : ProperMembers rest) : ProperMembers (member gap name value :: rest) :=
  ⟨blank, blank_space, proper, others⟩

theorem stringLayout_proper : stringLayout.Proper :=
  ⟨member_proper _ _ _ _ blank_space (word_proper "string") trivial, blank_space⟩

theorem keysLayout_proper (indent : Nat) : (keysLayout indent).Proper := by
  refine ⟨?_, line_blank indent⟩
  apply member_proper _ _ _ _ (line_blank _) (word_proper "array")
  apply member_proper _ _ _ _ (line_blank _) stringLayout_proper
  trivial

theorem optionsLayout_proper (indent : Nat) : (optionsLayout indent).Proper := by
  have types : ProperItems [([], word "string"), (ascii " ", word "boolean"),
      (ascii " ", word "integer"), (ascii " ", word "number")] :=
    ⟨blank_nil, word_proper _, blank_space, word_proper _, blank_space, word_proper _, blank_space,
      word_proper _, trivial⟩
  refine ⟨?_, line_blank indent⟩
  apply member_proper _ _ _ _ (line_blank _) (word_proper "object")
  refine member_proper _ _ _ _ (line_blank _) ?_ trivial
  exact ⟨member_proper _ _ _ _ (line_blank _) ⟨types, blank_nil⟩ trivial, line_blank _⟩

theorem objectLayout_proper (indent : Nat) (required : String)
    (members : List (MemberName × Layout)) (proper : ProperMembers members) :
    (objectLayout indent required members).Proper := by
  refine ⟨?_, line_blank indent⟩
  apply member_proper _ _ _ _ (line_blank _) (word_proper "object")
  apply member_proper _ _ _ _ (line_blank _)
  · exact ⟨⟨blank_nil, word_proper required, trivial⟩, blank_nil⟩
  apply member_proper _ _ _ _ (line_blank _)
  · exact Option.some_ne_none _
  refine member_proper _ _ _ _ (line_blank _) ?_ trivial
  exact ⟨proper, line_blank _⟩

theorem requestLayout_proper (name : String) (schema : Layout) (proper : schema.Proper) :
    (requestLayout name schema).Proper := by
  apply objectLayout_proper
  apply member_proper _ _ _ _ (line_blank _) proper
  apply member_proper _ _ _ _ (line_blank _) stringLayout_proper
  apply member_proper _ _ _ _ (line_blank _) stringLayout_proper
  apply member_proper _ _ _ _ (line_blank _) (optionsLayout_proper 8)
  trivial

theorem canonicalLayout_proper : canonicalLayout.Proper := by
  have dataset : (objectLayout 8 "keys" [member (line 12) "keys" (keysLayout 12)]).Proper :=
    objectLayout_proper _ _ _
      (member_proper _ _ _ _ (line_blank _) (keysLayout_proper 12) trivial)
  refine ⟨?_, line_blank 0⟩
  apply member_proper _ _ _ _ (line_blank _) (word_proper _)
  apply member_proper _ _ _ _ (line_blank _) (word_proper _)
  apply member_proper _ _ _ _ (line_blank _) (word_proper _)
  refine member_proper _ _ _ _ (line_blank _) ?_ trivial
  exact ⟨⟨line_blank _, keysLayout_proper 4, line_blank _,
    requestLayout_proper _ _ (keysLayout_proper 8), line_blank _,
    requestLayout_proper _ _ dataset, trivial⟩, line_blank _⟩

theorem canonicalLayout_write : canonicalLayout.write = canonicalDatasetSchemaJson := by
  decide +kernel

theorem canonicalLayout_value : canonicalLayout.value = canonicalSchema := rfl

/-- The published text is read as the canonical schema. -/
theorem jsonLoadString_canonical (fp : Floating) :
    jsonLoadString fp canonicalDatasetSchemaJson = .ok canonicalSchema := by
  have loaded := jsonLoadString_write fp canonicalLayout canonicalLayout_proper [] []
    blank_nil blank_nil
  rwa [canonicalLayout_value, canonicalLayout_write, List.append_nil, List.nil_append] at loaded

theorem canonicalSchema_wellFormed (fp : Floating) : canonicalSchema.WellFormed :=
  jsonLoadString_wellFormed fp _ _ (jsonLoadString_canonical fp)

theorem canonicalSchema_portable : canonicalSchema.Portable := by
  simp [canonicalSchema, requestSchema, datasetSchema, closedObject, keysSchema, optionsSchema,
    scalarSchema, stringSchema, Value.Portable, PortableFields, PortableItems, leafText]

end Text

section Published

variable (fp : Floating) (fs : FileSystem)

theorem jsonFromString_root (text : Bytes) (root : Value)
    (loaded : jsonLoadString fp text = .ok root) :
    ∃ document, jsonFromString fp text = .ok document ∧ document.root = root := by
  refine ⟨⟨root, jsonLoadString_wellFormed fp text root loaded⟩, ?_, rfl⟩
  unfold jsonFromString
  split
  · next other same =>
      rw [loaded] at same
      cases same
      rfl
  · next thrown failed =>
      rw [loaded] at failed
      cases failed

/-- The dumped text is read as the canonical schema again. -/
theorem dumpDatasetSchema_text :
    ∃ text, jsonLoadString fp text = .ok canonicalSchema ∧ ∀ path,
      dumpDatasetSchema fp fs path =
        (writeTextFile fs path text).mapError (caught (ascii "failed to write schema")) := by
  obtain ⟨document, loaded, root⟩ :=
    jsonFromString_root fp canonicalDatasetSchemaJson _ (jsonLoadString_canonical fp)
  obtain ⟨text, written, readBack⟩ := jsonLoadString_dump fp defaultFormatting_blank
    canonicalSchema (canonicalSchema_wellFormed fp) canonicalSchema_portable
  refine ⟨text, readBack, ?_⟩
  intro path
  simp only [dumpDatasetSchema, loaded, root, written, bind, Except.bind]

/-- Where the schema was dumped to, the schema is read. -/
theorem dumpDatasetSchema_reads (path : Bytes) (published : FileSystem)
    (dumped : dumpDatasetSchema fp fs path = .ok published) :
    ∃ text, published.contents path = some text ∧ jsonLoadString fp text = .ok canonicalSchema := by
  obtain ⟨text, readBack, writes⟩ := dumpDatasetSchema_text fp fs
  rw [writes, writeTextFile] at dumped
  split_ifs at dumped with writable
  · cases dumped
    exact ⟨text, if_pos rfl, readBack⟩
  · cases dumped

theorem dumpDatasetSchema_ok (path : Bytes) (writable : fs.writable path = true) :
    ∃ published, dumpDatasetSchema fp fs path = .ok published ∧
      ∀ name, name ≠ path → published.contents name = fs.contents name := by
  obtain ⟨text, _, writes⟩ := dumpDatasetSchema_text fp fs
  refine ⟨_, by rw [writes, writeTextFile, if_pos writable]; rfl, ?_⟩
  intro name other
  exact if_neg other

end Published

section Meaning

variable (fp : Floating)

def isText (v : Value) : Bool := v matches .string _

def isTextArray : Value → Bool
  | .array items => items.all isText
  | _ => false

/-- What an option can be given as. -/
def isScalar : Value → Bool
  | .string _ => true
  | .bool _ => true
  | .int _ => true
  | .uint _ => true
  | .double _ => true
  | _ => false

def isOptionObject : Value → Bool
  | .object fields => fields.all fun field => isScalar field.2
  | _ => false

/-- An object whose keys stand under `holder`, with no member but the ones a request has. -/
structure RequestFields (holder : Bytes) (keysGiven : Value → Bool) (fields : Fields) : Prop where
  given : ∃ v, fields.lookup holder = some v ∧ keysGiven v = true
  method : (fields.lookup (ascii "method")).all isText = true
  options : (fields.lookup (ascii "options")).all isOptionObject = true
  target : (fields.lookup (ascii "target")).all isText = true
  closed : ∀ field ∈ fields,
    field.1 ∈ [holder, ascii "method", ascii "options", ascii "target"]

/-- An object with `keys` and nothing else. -/
def isDataset : Value → Bool
  | .object fields =>
      (fields.lookup (ascii "keys")).any isTextArray &&
        fields.all fun field => field.1 = ascii "keys"
  | _ => false

theorem conforms_stringSchema (v : Value) : conforms fp stringSchema v = isText v := by
  cases v <;> rfl

theorem conforms_keysSchema (v : Value) : conforms fp keysSchema v = isTextArray v := by
  cases v with
  | array items =>
      have typed :
          keywordsHold fp [] [(ascii "type", .string (ascii "array"))] (.array items) = true := rfl
      show keywordsHold fp [] [(ascii "items", stringSchema), _] (.array items) = items.all isText
      rw [keywordsHold_items, typed, Bool.and_true]
      simp only [conforms_stringSchema]
  | _ => rfl

theorem conforms_scalarSchema (v : Value) : conforms fp scalarSchema v = isScalar v := by
  cases v with
  | double bits =>
      show ((fp.integral bits || true) && true) = true
      rw [Bool.or_true, Bool.and_true]
  | _ => rfl

theorem conforms_optionsSchema (v : Value) : conforms fp optionsSchema v = isOptionObject v := by
  cases v with
  | object fields =>
      have typed : keywordsHold fp [] [(ascii "type", .string (ascii "object"))] (.object fields) =
          true := rfl
      show keywordsHold fp [] [(ascii "additionalProperties", scalarSchema), _] (.object fields) = _
      rw [keywordsHold_additionalProperties, typed, Bool.and_true]
      simp only [conforms_scalarSchema, List.not_mem_nil, decide_false, Bool.false_or,
        isOptionObject]
  | _ => rfl

theorem conforms_closedObject (required : Bytes) (properties fields : Fields) :
    conforms fp (closedObject required properties) (.object fields) =
      ((fields.all fun field => decide (field.1 ∈ properties.map Prod.fst)) &&
        memberConforms fp properties fields && (fields.lookup required).isSome) := by
  have typed : keywordsHold fp (properties.map Prod.fst) [(ascii "type", .string (ascii "object"))]
      (.object fields) = true := rfl
  have given : requiredHolds (.array [.string required]) (.object fields) =
      (fields.lookup required).isSome := by
    rw [requiredHolds, List.all_cons, List.all_nil, Bool.and_true]
  show keywordsHold fp (properties.map Prod.fst) _ (.object fields) = _
  rw [keywordsHold_additionalProperties, keywordsHold_properties, keywordsHold_required, typed,
    given, Bool.and_true, Bool.and_assoc]
  simp only [conforms, Bool.or_false, describedConform]

theorem conforms_datasetSchema (v : Value) : conforms fp datasetSchema v = isDataset v := by
  cases v with
  | object fields =>
      rw [datasetSchema, conforms_closedObject, memberConforms_cons, isDataset]
      cases fields.lookup (ascii "keys") with
      | none => simp only [Option.isSome_none, Bool.and_false, Option.any_none, Bool.false_and]
      | some keys =>
          simp only [conforms_keysSchema, memberConforms, List.map_cons, List.map_nil,
            List.mem_singleton, Option.all_some, Bool.and_true, Option.isSome_some, Option.any_some]
          exact Bool.and_comm _ _
  | _ => rfl

theorem conforms_requestSchema (holder : Bytes) (schema v : Value) :
    conforms fp (requestSchema holder schema) v = true ↔
      ∃ fields, v = .object fields ∧ RequestFields holder (conforms fp schema) fields := by
  have text : conforms fp stringSchema = isText := funext (conforms_stringSchema fp)
  have option : conforms fp optionsSchema = isOptionObject := funext (conforms_optionsSchema fp)
  cases v with
  | object fields =>
      rw [requestSchema, conforms_closedObject, memberConforms_cons, memberConforms_cons,
        memberConforms_cons, memberConforms_cons, text, option]
      simp only [Value.object.injEq, exists_eq_left', Bool.and_eq_true, List.all_eq_true,
        decide_eq_true_eq, List.map_cons, List.map_nil, memberConforms, and_true]
      constructor
      · rintro ⟨⟨closed, conforming, method, options, target⟩, present⟩
        obtain ⟨keys, found⟩ := Option.isSome_iff_exists.mp present
        rw [found, Option.all_some] at conforming
        exact ⟨⟨keys, found, conforming⟩, method, options, target, closed⟩
      · rintro ⟨⟨keys, found, conforming⟩, method, options, target, closed⟩
        rw [found]
        exact ⟨⟨closed, conforming, method, options, target⟩, rfl⟩
  | _ =>
      constructor
      · intro conforming
        cases conforming
      · rintro ⟨fields, shape, _⟩
        cases shape

/-- No document is both kinds of request. -/
theorem requests_exclude (fields : Fields) (keysGiven datasetGiven : Value → Bool)
    (keys : RequestFields (ascii "keys") keysGiven fields)
    (dataset : RequestFields (ascii "dataset") datasetGiven fields) : False := by
  obtain ⟨v, found, _⟩ := keys.given
  have named : ascii "keys" ∈ [ascii "dataset", ascii "method", ascii "options", ascii "target"] :=
    dataset.closed _ (OrderedMap.mem_of_lookup fields _ v found)
  revert named
  decide

theorem count_one_of_exclusive (first second third : Bool)
    (apart : (first && (second || third) || second && third) = false) :
    ([first, second, third].count true == 1) = (first || second || third) := by
  revert first second third
  decide

/-- A document conforms to the published schema in one of three ways, which exclude each
other. -/
theorem conforms_canonicalSchema (v : Value) :
    conforms fp canonicalSchema v = true ↔
      isTextArray v = true ∨ ∃ fields, v = .object fields ∧
        (RequestFields (ascii "keys") isTextArray fields ∨
          RequestFields (ascii "dataset") isDataset fields) := by
  have keys := conforms_requestSchema fp (ascii "keys") keysSchema v
  have dataset := conforms_requestSchema fp (ascii "dataset") datasetSchema v
  rw [show conforms fp keysSchema = isTextArray from funext (conforms_keysSchema fp)] at keys
  rw [show conforms fp datasetSchema = isDataset from funext (conforms_datasetSchema fp)] at dataset
  have apart : (conforms fp (requestSchema (ascii "keys") keysSchema) v &&
      conforms fp (requestSchema (ascii "dataset") datasetSchema) v) = false := by
    rw [Bool.and_eq_false_imp, keys, ← Bool.not_eq_true, dataset]
    rintro ⟨fields, shape, asKeys⟩ ⟨others, same, asDataset⟩
    rw [shape, Value.object.injEq] at same
    exact requests_exclude others _ _ (same ▸ asKeys) asDataset
  have listed : (isTextArray v && (conforms fp (requestSchema (ascii "keys") keysSchema) v ||
      conforms fp (requestSchema (ascii "dataset") datasetSchema) v)) = false := by
    cases v with
    | array items => exact Bool.and_false _
    | _ => rfl
  show (([conforms fp keysSchema v, _, _].count true == 1) && true) = true ↔ _
  rw [conforms_keysSchema, count_one_of_exclusive _ _ _ (by rw [listed, apart, Bool.or_self]),
    Bool.and_true, Bool.or_eq_true, Bool.or_eq_true, keys, dataset, or_assoc, ← exists_or]
  simp only [and_or_left]

end Meaning

end Nuperf.Cli
