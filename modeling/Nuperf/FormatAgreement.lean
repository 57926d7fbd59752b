import Nuperf.SexprRoundTrip
import Nuperf.XmlRoundTrip
import Nuperf.YamlRoundTrip

set_option autoImplicit false

namespace Nuperf.Cli

open ByteString Numeral CStandard OrderedMap Serdetk

section Readers

variable (stod : StodIndex)

/-- `yaml::from_string`. -/
def yamlFromString (text : Bytes) : Except CxxException Document :=
  match loaded : parseYamlBasic stod text with
  | .ok root => .ok ⟨root, (parseYamlBasic_flat stod text root loaded).wellFormed⟩
  | .error thrown => .error thrown

theorem sexprRoot_wellFormed (items : List Value) (members : ∀ item ∈ items, item.WellFormed) :
    (sexprRoot items).WellFormed := by
  unfold sexprRoot
  split
  · exact members _ List.mem_cons_self
  · exact .array items members

theorem parseSexprBasic_wellFormed (text : Bytes) : (parseSexprBasic stod text).WellFormed := by
  obtain ⟨pieces, tail, laid, blank, rfl⟩ := exists_pieces text
  rw [parseSexprBasic_write stod pieces laid tail blank]
  apply sexprRoot_wellFormed
  apply NestedList.read_all Value.array Value.WellFormed Value.WellFormed.array
  intro item member
  obtain ⟨piece, -, same⟩ := List.mem_map.mp member
  cases shape : piece.token with
  | opening =>
      rw [shape] at same
      cases same
  | closing =>
      rw [shape] at same
      cases same
  | atom word =>
      rw [shape] at same
      cases same
      exact parseScalarToken_wellFormed stod word

/-- `sexpr::from_string`. -/
def sexprFromString (text : Bytes) : Except CxxException Document :=
  .ok ⟨parseSexprBasic stod text, parseSexprBasic_wellFormed stod text⟩

/-- The importer with SerdeTk's readers of all formats. -/
def Loaders.withReaders (env : Loaders) : Loaders :=
  { env with
    yaml := yamlFromString stod
    sexpr := sexprFromString stod
    xml := xmlFromString stod }

theorem yamlFromString_root (text : Bytes) (root : Value)
    (loaded : parseYamlBasic stod text = .ok root) :
    ∃ document, yamlFromString stod text = .ok document ∧ document.root = root := by
  unfold yamlFromString
  split
  · rename_i found read
    rw [read] at loaded
    cases loaded
    exact ⟨_, rfl, rfl⟩
  · rename_i thrown read
    rw [read] at loaded
    cases loaded

end Readers

/-- A document that is loaded and valid is what the request is extracted from. -/
theorem loadBuildRequest_document (env : Loaders) (fs : FileSystem) (path schemaPath : Bytes)
    (format : InputFormat) (structured : format ≠ .lines) (document : Document)
    (loads : loadDocument env fs path format = .ok document)
    (valid : validateDocument env fs document schemaPath = .ok ()) (outError : Bytes)
    (request : BuildRequest) :
    loadBuildRequest env fs path format schemaPath outError request =
      extractRequestFromDocument env.toFloating document.root request := by
  rw [loadBuildRequest, if_neg structured, loads]
  simp only [valid]

/-- `CompiledFormat::dump_string`. Lines are no format of SerdeTk. -/
def dumpString (fp : Floating) (opt : FormattingOptions) :
    InputFormat → Value → Except CxxException Bytes
  | .json, root => jsonDumpString fp root opt
  | .yaml, root => .ok (emitYamlValue fp root 0)
  | .sexpr, root => .ok (emitSexprValue fp root)
  | .xml, root => .ok (xmlDumpString fp root)
  | .lines, _ => .error .foreign

mutual

/-- The value with its unsigned numbers as signed ones. -/
def normal : Value → Value
  | .uint value => .int (Int64.ofNat value.toNat)
  | .array items => .array (normalItems items)
  | .object fields => .object (normalFields fields)
  | value => value

def normalItems : List Value → List Value
  | [] => []
  | item :: rest => normal item :: normalItems rest

def normalFields : List (Bytes × Value) → List (Bytes × Value)
  | [] => []
  | (name, value) :: rest => (name, normal value) :: normalFields rest

end

section Normal

variable (fp : Floating)

theorem normalItems_eq (items : List Value) : normalItems items = items.map normal := by
  induction items with
  | nil => rfl
  | cons item rest ih => rw [normalItems, ih, List.map_cons]

theorem normalFields_eq (fields : List (Bytes × Value)) :
    normalFields fields = fields.map fun field => (field.1, normal field.2) := by
  induction fields with
  | nil => rfl
  | cons field rest ih => rw [normalFields, ih, List.map_cons]

theorem lookup_normal (fields : Fields) (name : Bytes) :
    (normalFields fields).lookup name = (fields.lookup name).map normal := by
  rw [normalFields_eq]
  exact lookup_map_snd fields name normal

/-- Unsigned numbers that a signed number can hold. -/
def Small : Value → Prop
  | .uint value => value.toNat < 2 ^ 63
  | _ => True

theorem optionText_normal (value : Value) (small : Small value) :
    optionText fp (normal value) = optionText fp value := by
  cases value with
  | uint value =>
      have number : (Int64.ofNat value.toNat).toInt = value.toNat :=
        Int64.toInt_ofNat_of_lt small
      rw [normal, optionText, optionText, number, signedDecimal, if_neg (by omega),
        Int.natAbs_natCast]
  | _ => rfl

theorem collectItems_normal (items : List Value) (request : BuildRequest) :
    collectItems (items.map normal) request = collectItems items request := by
  induction items generalizing request with
  | nil => rfl
  | cons item rest ih =>
      cases item with
      | string text => exact ih _
      | _ => rfl

theorem collectKeysFromValue_normal (value : Value) (request : BuildRequest) :
    collectKeysFromValue (normal value) request = collectKeysFromValue value request := by
  cases value with
  | array items =>
      rw [normal, normalItems_eq]
      exact collectItems_normal items request
  | _ => rfl

theorem collectOptions_normal (fields : Fields) (small : ∀ field ∈ fields, Small field.2)
    (request : BuildRequest) :
    collectOptions fp (normalFields fields) request = collectOptions fp fields request := by
  induction fields generalizing request with
  | nil => rfl
  | cons field rest ih =>
      obtain ⟨name, value⟩ := field
      obtain ⟨here, others⟩ := List.forall_mem_cons.mp small
      have text := optionText_normal fp value here
      rw [normalFields, collectOptions, collectOptions, text]
      cases optionText fp value with
      | none => rfl
      | some text => exact ih others _

theorem extractKeys_normal (fields : Fields) (request : BuildRequest) :
    extractKeys (normalFields fields) request = extractKeys fields request := by
  unfold extractKeys
  rw [lookup_normal, lookup_normal]
  cases fields.lookup (ascii "keys") with
  | some keys => exact collectKeysFromValue_normal keys request
  | none =>
      cases fields.lookup (ascii "dataset") with
      | none => rfl
      | some dataset =>
          cases dataset with
          | object inner =>
              simp only [Option.map_none, Option.map_some, normal, lookup_normal]
              cases inner.lookup (ascii "keys") with
              | none => rfl
              | some keys => exact collectKeysFromValue_normal keys request
          | _ => rfl

theorem stringMember_normal (fields : Fields) (name unset : Bytes) :
    stringMember (normalFields fields) name unset = stringMember fields name unset := by
  unfold stringMember
  rw [lookup_normal]
  cases fields.lookup name with
  | none => rfl
  | some value => cases value <;> rfl

theorem extractOptions_normal (fields : Fields)
    (small : ∀ options, fields.lookup (ascii "options") = some (.object options) →
      ∀ field ∈ options, Small field.2) (request : BuildRequest) :
    extractOptions fp (normalFields fields) request = extractOptions fp fields request := by
  unfold extractOptions
  rw [lookup_normal]
  cases found : fields.lookup (ascii "options") with
  | none => rfl
  | some value =>
      cases value with
      | object options => exact collectOptions_normal fp options (small options found) request
      | _ => rfl

/-- The importer does not see the sign of a number's type. -/
theorem extract_normal (root : Value)
    (small : ∀ fields options, root = .object fields →
      fields.lookup (ascii "options") = some (.object options) →
        ∀ field ∈ options, Small field.2) (request : BuildRequest) :
    extractRequestFromDocument fp (normal root) request =
      extractRequestFromDocument fp root request := by
  cases root with
  | array items => exact collectKeysFromValue_normal (.array items) request
  | object fields =>
      have keys := extractKeys_normal fields request
      cases taken : extractKeys fields request with
      | ok _ next =>
          have names : extractNames (normalFields fields) next = extractNames fields next := by
            rw [extractNames, extractNames, stringMember_normal, stringMember_normal]
          rw [taken] at keys
          rw [extract_object fp fields request next taken]
          exact (extract_object fp _ request next keys).trans (by
            rw [names]
            exact extractOptions_normal fp fields (fun options => small fields options rfl) _)
      | error message left =>
          rw [taken] at keys
          have refused (given : Fields) (stops : extractKeys given request = .error message left) :
              extractRequestFromDocument fp (.object given) request = .error message left := by
            show EStateM.bind (extractKeys given) _ request = _
            rw [EStateM.bind, stops]
          rw [refused fields taken]
          exact refused _ keys
  | _ => rfl

end Normal

section Images

variable (fp : Floating) (stod : StodIndex)

mutual

/-- The values whose texts are read as nothing but texts, and whose numbers a signed integer
holds. -/
def Kept : Value → Prop
  | .string text => parseScalarToken stod text = .string text
  | .uint value => value.toNat < 2 ^ 63
  | .double _ => False
  | .binary _ => False
  | .array items => KeptItems items
  | .object fields => KeptFields fields
  | _ => True

def KeptItems : List Value → Prop
  | [] => True
  | item :: rest => Kept item ∧ KeptItems rest

def KeptFields : List (Bytes × Value) → Prop
  | [] => True
  | (_, value) :: rest => Kept value ∧ KeptFields rest

end

mutual

/-- The values that elements can be gathered to again: an array has several items, none of them an
array, and an object is not empty. -/
def Gathers : Value → Prop
  | .array items => 2 ≤ items.length ∧ GathersItems items
  | .object fields => fields ≠ [] ∧ GathersFields fields
  | _ => True

def GathersItems : List Value → Prop
  | [] => True
  | item :: rest => ¬ IsArray item ∧ Gathers item ∧ GathersItems rest

def GathersFields : List (Bytes × Value) → Prop
  | [] => True
  | (_, value) :: rest => Gathers value ∧ GathersFields rest

end

theorem keptItems_iff (items : List Value) :
    KeptItems stod items ↔ ∀ item ∈ items, Kept stod item := by
  induction items with
  | nil => exact ⟨fun _ _ member => absurd member List.not_mem_nil, fun _ => trivial⟩
  | cons item rest ih => rw [KeptItems, ih, List.forall_mem_cons]

theorem keptFields_iff (fields : List (Bytes × Value)) :
    KeptFields stod fields ↔ ∀ field ∈ fields, Kept stod field.2 := by
  induction fields with
  | nil => exact ⟨fun _ _ member => absurd member List.not_mem_nil, fun _ => trivial⟩
  | cons field rest ih => rw [KeptFields, ih, List.forall_mem_cons]

theorem unsignedToken_small (value : UInt64) (small : value.toNat < 2 ^ 63) :
    unsignedToken stod value = normal (.uint value) := if_pos small

/-- A scalar that is kept is read as it is, from the text that both writers give it. -/
theorem parseScalarToken_kept (value : Value) (scalar : value.IsScalar) (kept : Kept stod value) :
    parseScalarToken stod (emitYamlValue fp value 0) = normal value ∧
      xmlText fp value = emitYamlValue fp value 0 := by
  cases value with
  | null => exact ⟨rfl, rfl⟩
  | bool value => exact ⟨parseScalarToken_bool stod value, rfl⟩
  | int value => exact ⟨parseScalarToken_int stod value, rfl⟩
  | uint value =>
      exact ⟨(parseScalarToken_uint stod value).trans (unsignedToken_small stod value kept), rfl⟩
  | double bits => exact absurd kept id
  | string text => exact ⟨kept, rfl⟩
  | binary bytes => exact absurd kept id
  | object fields => cases scalar
  | array items => cases scalar

mutual

theorem yamlImage_kept (value : Value) (kept : Kept stod value) (plain : value.Plain fp) :
    yamlImage fp stod value = normal value := by
  cases value with
  | object fields =>
      rw [yamlImage, normal, yamlImages_kept fields kept plain.2]
  | array items =>
      rw [yamlImage, normal, normalItems_eq]
      congr 1
      apply List.map_congr_left
      intro item member
      exact (parseScalarToken_kept fp stod item (plain.2 item member).1
        ((keptItems_iff stod items).mp kept item member)).1
  | null => exact (parseScalarToken_kept fp stod .null rfl kept).1
  | bool value => exact (parseScalarToken_kept fp stod (.bool value) rfl kept).1
  | int value => exact (parseScalarToken_kept fp stod (.int value) rfl kept).1
  | uint value => exact (parseScalarToken_kept fp stod (.uint value) rfl kept).1
  | double bits => exact absurd kept id
  | string text => exact (parseScalarToken_kept fp stod (.string text) rfl kept).1
  | binary bytes => exact absurd kept id

theorem yamlImages_kept (fields : List (Bytes × Value)) (kept : KeptFields stod fields)
    (plain : PlainFields fp fields) : yamlImages fp stod fields = normalFields fields := by
  cases fields with
  | nil => rfl
  | cons field rest =>
      obtain ⟨name, value⟩ := field
      rw [yamlImages, normalFields, yamlImage_kept value kept.1 plain.2.1,
        yamlImages_kept rest kept.2 plain.2.2]

end

theorem xmlValues_scalar (value : Value) (scalar : value.IsScalar) (kept : Kept stod value) :
    xmlValues fp stod value = [normal value] := by
  obtain ⟨read, same⟩ := parseScalarToken_kept fp stod value scalar kept
  rw [← read, ← same]
  cases value <;> first | rfl | cases scalar

theorem gathered_array (items : List Value) (several : 2 ≤ items.length) :
    gathered items = some (.array items) := by
  rcases items with _ | ⟨first, _ | ⟨second, rest⟩⟩
  · simp at several
  · simp at several
  · rfl

mutual

/-- A value that is no array is one element. -/
theorem xmlValues_kept (value : Value) (kept : Kept stod value) (gathers : Gathers value)
    (single : ¬ IsArray value) : xmlValues fp stod value = [normal value] := by
  cases value with
  | object fields =>
      have inside := xmlFields_kept fields kept gathers.2
      have nonempty : (normalFields fields).isEmpty = false := by
        rw [normalFields_eq, List.isEmpty_map, List.isEmpty_eq_false_iff]
        exact gathers.1
      rw [xmlValues, inside, nodeValue, nonempty, normal]
      rfl
  | array items => exact absurd ⟨items, rfl⟩ single
  | null => exact xmlValues_scalar fp stod .null rfl kept
  | bool value => exact xmlValues_scalar fp stod (.bool value) rfl kept
  | int value => exact xmlValues_scalar fp stod (.int value) rfl kept
  | uint value => exact xmlValues_scalar fp stod (.uint value) rfl kept
  | double bits => exact absurd kept id
  | string text => exact xmlValues_scalar fp stod (.string text) rfl kept
  | binary bytes => exact absurd kept id

theorem xmlItemValues_kept (items : List Value) (kept : KeptItems stod items)
    (gathers : GathersItems items) : xmlItemValues fp stod items = items.map normal := by
  cases items with
  | nil => rfl
  | cons item rest =>
      rw [xmlItemValues, xmlValues_kept item kept.1 gathers.2.1 gathers.1,
        xmlItemValues_kept rest kept.2 gathers.2.2, List.singleton_append, List.map_cons]

theorem xmlFields_kept (fields : List (Bytes × Value)) (kept : KeptFields stod fields)
    (gathers : GathersFields fields) : xmlFields fp stod fields = normalFields fields := by
  cases fields with
  | nil => rfl
  | cons field rest =>
      obtain ⟨name, value⟩ := field
      have later := xmlFields_kept rest kept.2 gathers.2
      have here : gathered (xmlValues fp stod value) = some (normal value) := by
        cases value with
        | array items =>
            have inside := xmlItemValues_kept items kept.1 gathers.1.2
            rw [xmlValues, inside, gathered_array, normal, normalItems_eq]
            rw [List.length_map]
            exact gathers.1.1
        | object inner =>
            rw [xmlValues_kept (.object inner) kept.1 gathers.1 (by
              rintro ⟨items, same⟩
              cases same)]
            rfl
        | null => exact congrArg gathered (xmlValues_scalar fp stod .null rfl kept.1)
        | bool value => exact congrArg gathered (xmlValues_scalar fp stod (.bool value) rfl kept.1)
        | int value => exact congrArg gathered (xmlValues_scalar fp stod (.int value) rfl kept.1)
        | uint value => exact congrArg gathered (xmlValues_scalar fp stod (.uint value) rfl kept.1)
        | double bits => exact absurd kept.1 id
        | string text =>
            exact congrArg gathered (xmlValues_scalar fp stod (.string text) rfl kept.1)
        | binary bytes => exact absurd kept.1 id
      rw [xmlFields, gatheredField, here, later, normalFields]
      rfl

end

/-- A scalar that an S-expression keeps: `nil` is read as a text. -/
def Listed (item : Value) : Prop :=
  item.IsScalar ∧ item ≠ .null ∧ (∀ bits, item ≠ .double bits) ∧ (∀ bytes, item ≠ .binary bytes) ∧
    Small item

theorem sexprImage_listed (item : Value) (listed : Listed item) :
    sexprImage fp stod item = normal item := by
  obtain ⟨scalar, notNull, notDouble, notBinary, small⟩ := listed
  cases item with
  | null => exact absurd rfl notNull
  | bool value => rfl
  | int value => rfl
  | uint value => exact unsignedToken_small stod value small
  | double bits => exact absurd rfl (notDouble bits)
  | string text => rfl
  | binary bytes => exact absurd rfl (notBinary bytes)
  | object fields => cases scalar
  | array items => cases scalar

theorem sexprImages_listed (items : List Value) (listed : ∀ item ∈ items, Listed item) :
    sexprImages fp stod items = normalItems items := by
  induction items with
  | nil => rfl
  | cons item rest ih =>
      obtain ⟨here, others⟩ := List.forall_mem_cons.mp listed
      rw [sexprImages, normalItems, sexprImage_listed fp stod item here, ih others]

end Images

section Agreement

variable (stod : StodIndex)

/-- The documents that a format carries to the importer without loss. -/
def Carries (fp : Floating) : InputFormat → Value → Prop
  | .json, root => root.WellFormed ∧ root.Portable
  | .yaml, root => root.WellFormed ∧ isNested root = true ∧ root.Plain fp ∧ Kept stod root
  | .sexpr, root => ∃ items, root = .array items ∧ root.Unbroken fp ∧ ∀ item ∈ items, Listed item
  | .xml, root => ∃ fields, root = .object fields ∧ root.WellFormed ∧ UntaggedFields fp fields ∧
      GathersFields fields ∧ KeptFields stod fields
  | .lines, _ => False

variable (env : Loaders) (fs : FileSystem)

/-- The options of a root are numbers that a signed integer holds. -/
def SmallOptions (root : Value) : Prop :=
  ∀ fields options, root = .object fields →
    fields.lookup (ascii "options") = some (.object options) → ∀ field ∈ options, Small field.2

theorem kept_small (value : Value) (kept : Kept stod value) : Small value := by
  cases value with
  | uint value => exact kept
  | _ => trivial

theorem kept_smallOptions (root : Value) (kept : Kept stod root) : SmallOptions root := by
  rintro fields options rfl found field member
  have inside := (keptFields_iff stod fields).mp kept _ (mem_of_lookup _ _ _ found)
  exact kept_small stod _ ((keptFields_iff stod options).mp inside field member)

/-- What is loaded of a document that was dumped. -/
theorem loadDocument_dump (format : InputFormat) (root : Value) (opt : FormattingOptions)
    (blank : opt.Blank) (carries : Carries stod env.toFloating format root) (path text : Bytes)
    (dumped : dumpString env.toFloating opt format root = .ok text)
    (file : fs.contents path = some text) :
    ∃ document, loadDocument (env.withReaders stod) fs path format = .ok document ∧
      (document.root = root ∨ document.root = normal root ∧ SmallOptions root) := by
  cases format with
  | lines => exact absurd carries id
  | json =>
      obtain ⟨wellFormed, portable⟩ := carries
      obtain ⟨written, emitted, loaded⟩ :=
        jsonLoadString_dump env.toFloating blank root wellFormed portable
      cases emitted.symm.trans dumped
      obtain ⟨document, read, same⟩ := jsonFromString_root env.toFloating _ root loaded
      refine ⟨document, ?_, .inl same⟩
      simp only [loadDocument, readTextFile, file, bind, Except.bind]
      exact read
  | yaml =>
      obtain ⟨wellFormed, nested, plain, kept⟩ := carries
      cases dumped
      have loaded := parseYamlBasic_emit env.toFloating stod root nested wellFormed plain
      rw [yamlImage_kept env.toFloating stod root kept plain] at loaded
      obtain ⟨document, read, image⟩ := yamlFromString_root stod _ _ loaded
      refine ⟨document, ?_, .inr ⟨image, kept_smallOptions stod root kept⟩⟩
      simp only [loadDocument, readTextFile, file, bind, Except.bind]
      exact read
  | sexpr =>
      obtain ⟨items, rfl, unbroken, listed⟩ := carries
      cases dumped
      have loaded := parseSexprBasic_emit env.toFloating stod (.array items) unbroken
      rw [sexprImage, sexprImages_listed env.toFloating stod items listed] at loaded
      refine ⟨⟨_, parseSexprBasic_wellFormed stod _⟩, ?_,
        .inr ⟨loaded, fun _ _ same => by cases same⟩⟩
      simp only [loadDocument, readTextFile, file, bind, Except.bind]
      rfl
  | xml =>
      obtain ⟨fields, rfl, wellFormed, untagged, gathers, kept⟩ := carries
      cases wellFormed with
      | object _ sorted members =>
          cases dumped
          have loaded :=
            parseXmlBasic_emit env.toFloating stod (.object fields) sorted members untagged
          rw [rootFields, xmlFields_kept env.toFloating stod fields kept gathers] at loaded
          obtain ⟨document, read, image⟩ := xmlFromString_root stod _ _ loaded
          refine ⟨document, ?_, .inr ⟨image, kept_smallOptions stod (.object fields) kept⟩⟩
          simp only [loadDocument, readTextFile, file, bind, Except.bind]
          exact read

end Agreement

section Sample

def sampleDataset : Value := .object [
  (ascii "keys", .array [.string (ascii "ab"), .string (ascii "cd")]),
  (ascii "options", .object [(ascii "tries", .uint 7)])]

def sampleFiles : FileSystem where
  contents path :=
    if path = ascii "keys.xml" then some (xmlDumpString jsonOnly.toFloating sampleDataset)
    else if path = ascii "keys.yaml" then some (emitYamlValue jsonOnly.toFloating sampleDataset 0)
    else none
  writable _ := false

end Sample

end Nuperf.Cli
