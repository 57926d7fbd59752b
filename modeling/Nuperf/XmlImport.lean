import Nuperf.SchemaConformance
import Nuperf.XmlLayout

set_option autoImplicit false

namespace Nuperf.Cli

open ByteString CStandard OrderedMap Serdetk

/-- `xml::from_string`. -/
def xmlFromString (stod : StodIndex) (text : Bytes) : Except CxxException Document :=
  match loaded : parseXmlBasic stod text with
  | .ok root => .ok ⟨root, parseXmlBasic_wellFormed stod text root loaded⟩
  | .error thrown => .error thrown

/-- The importer with SerdeTk's reader of XML. -/
def Loaders.withXml (env : Loaders) (stod : StodIndex) : Loaders :=
  { env with xml := xmlFromString stod }

section Children

variable (stod : StodIndex)

/-- What the children of one name amount to: an array of them, unless there is only one. -/
def gathered : List Value → Option Value
  | [] => none
  | [value] => some value
  | values => some (.array values)

def IsArray (value : Value) : Prop := ∃ items, value = .array items

theorem gathered_several (first second : Value) (rest : List Value) :
    gathered (first :: second :: rest) = some (.array (first :: second :: rest)) := rfl

theorem gathered_some (values : List Value) (nonempty : values ≠ []) :
    ∃ found, gathered values = some found := by
  rcases values with _ | ⟨first, _ | ⟨second, rest⟩⟩
  · exact absurd rfl nonempty
  · exact ⟨first, rfl⟩
  · exact ⟨.array (first :: second :: rest), rfl⟩

/-- A child more, where none is an array of its own. -/
theorem addChild_lookup (obj : Fields) (name : Bytes) (values : List Value) (value : Value)
    (single : ∀ value ∈ values, ¬ IsArray value)
    (found : obj.lookup name = gathered values) :
    (addChild obj name value).lookup name = gathered (values ++ [value]) := by
  unfold addChild
  rcases values with _ | ⟨first, _ | ⟨second, rest⟩⟩
  · rw [found]
    exact lookup_insert name value obj
  · have plain := single first List.mem_cons_self
    rw [found, gathered]
    cases first with
    | array items => exact absurd ⟨items, rfl⟩ plain
    | _ => exact lookup_insert name _ obj
  · rw [found, gathered_several]
    exact lookup_insert name _ obj

theorem addChild_lookup_of_ne (obj : Fields) (name other : Bytes) (value : Value)
    (apart : other ≠ name) : (addChild obj name value).lookup other = obj.lookup other := by
  unfold addChild
  split
  · exact lookup_insert_of_ne name _ obj other apart
  · exact lookup_insert_of_ne name _ obj other apart
  · exact lookup_insert_of_ne name _ obj other apart

theorem parseScalarToken_single (token : Bytes) : ¬ IsArray (parseScalarToken stod token) := by
  have real (token : Bytes) : ¬ IsArray (realToken stod token) := by
    rintro ⟨items, array⟩
    unfold realToken at array
    split at array
    · split_ifs at array
    · cases array
  rintro ⟨items, array⟩
  unfold parseScalarToken at array
  dsimp only at array
  split_ifs at array
  split at array
  · split_ifs at array
    exact real _ ⟨items, array⟩
  · exact real _ ⟨items, array⟩

theorem value_single (element : XmlElement) : ¬ IsArray (element.value stod) := by
  rintro ⟨items, array⟩
  cases element with
  | empty tag => cases array
  | full tag content gap blank =>
      rw [XmlElement.value, nodeValue] at array
      split_ifs at array
      exact parseScalarToken_single stod _ ⟨items, array⟩

theorem values_single (elements : List XmlElement) :
    ∀ value ∈ elements.map (XmlElement.value stod), ¬ IsArray value := by
  intro value member
  obtain ⟨element, -, rfl⟩ := List.mem_map.mp member
  exact value_single stod element

theorem fields_eq (content : XmlContent) (obj : Fields) :
    content.fields stod obj =
      content.children.foldl (fun obj child => addChild obj child.name (child.value stod)) obj := by
  cases content with
  | nil => rfl
  | char _ _ rest => exact fields_eq rest obj
  | cdata _ _ rest => exact fields_eq rest obj
  | comment _ _ rest => exact fields_eq rest obj
  | instruction _ _ rest => exact fields_eq rest obj
  | child element rest => exact fields_eq rest (addChild obj element.name (element.value stod))

/-- The children of one name, in order. -/
def namedChildren (children : List XmlElement) (name : Bytes) : List XmlElement :=
  children.filter fun child => child.name == name

theorem lookup_children (children : List XmlElement) (name : Bytes) :
    (children.foldl (fun obj child => addChild obj child.name (child.value stod)) []).lookup name =
      gathered ((namedChildren children name).map (XmlElement.value stod)) := by
  induction children using List.reverseRecOn with
  | nil => rfl
  | append_singleton children child ih =>
      rw [List.foldl_append, List.foldl_cons, List.foldl_nil, namedChildren, List.filter_append,
        List.map_append]
      by_cases same : child.name = name
      · subst same
        rw [List.filter_cons_of_pos (by simp), List.filter_nil, List.map_cons, List.map_nil]
        exact addChild_lookup _ _ _ _ (values_single stod _) ih
      · rw [addChild_lookup_of_ne _ _ _ _ (Ne.symm same), ih,
          List.filter_cons_of_neg (by simpa using same), List.filter_nil, List.map_nil,
          List.append_nil]
        rfl

end Children

section Keys

variable (stod : StodIndex)

/-- An element with children of a name has their values under it. -/
theorem value_object (element : XmlElement) (name : Bytes)
    (present : namedChildren element.children name ≠ []) :
    ∃ obj, element.value stod = .object obj ∧ obj.lookup name =
      gathered ((namedChildren element.children name).map (XmlElement.value stod)) := by
  cases element with
  | empty tag => exact absurd rfl present
  | full tag content gap blank =>
      have under := lookup_children stod content.children name
      rw [← fields_eq] at under
      have nonempty : (content.fields stod []).isEmpty = false := by
        rw [List.isEmpty_eq_false_iff]
        intro empty
        rw [empty, List.lookup_nil] at under
        cases shape : namedChildren content.children name with
        | nil => exact present shape
        | cons first rest =>
            rw [shape] at under
            cases rest <;> cases under
      refine ⟨content.fields stod [], ?_, under⟩
      rw [XmlElement.value, nodeValue, nonempty]
      rfl

/-- An element without children whose text, without the white space around it, is a key. -/
structure SpellsKey (element : XmlElement) (key : Bytes) : Prop where
  leaf : element.children = []
  spelled : trimCopy element.text = key

theorem spellsKey_value (element : XmlElement) (key : Bytes) (spells : SpellsKey element key)
    (kept : parseScalarToken stod key = .string key) :
    element.value stod = if element.selfClosing then .null else .string key := by
  cases element with
  | empty tag => rfl
  | full tag content gap blank =>
      have leaf : content.children = [] := spells.leaf
      have spelled : trimCopy (content.text false) = key := spells.spelled
      rw [XmlElement.value, fields_eq, leaf, List.foldl_nil, nodeValue, spelled, kept]
      rfl

theorem spellsKey_values (elements : List XmlElement) (keys : List Bytes)
    (spells : List.Forall₂ SpellsKey elements keys)
    (kept : ∀ key ∈ keys, parseScalarToken stod key = .string key) :
    elements.map (XmlElement.value stod) = keys.map .string ↔
      ∀ element ∈ elements, element.selfClosing = false := by
  induction spells with
  | nil => simp
  | @cons element key elements keys spells others ih =>
      have value := spellsKey_value stod element key spells (kept key List.mem_cons_self)
      have later := ih fun other member => kept other (List.mem_cons_of_mem _ member)
      rw [List.map_cons, List.map_cons, List.cons.injEq, later, value, List.forall_mem_cons]
      apply and_congr_left'
      cases element.selfClosing <;> simp

theorem gathered_eq_array_iff (values items : List Value)
    (single : ∀ value ∈ values, ¬ IsArray value) :
    gathered values = some (.array items) ↔ 2 ≤ values.length ∧ values = items := by
  rcases values with _ | ⟨first, _ | ⟨second, rest⟩⟩
  · simp [gathered]
  · have plain := single first List.mem_cons_self
    constructor
    · intro array
      exact absurd ⟨items, Option.some.inj array⟩ plain
    · rintro ⟨several, -⟩
      simp at several
  · rw [gathered_several]
    simp

variable (fp : Floating)

theorem extract_dataset (dataset : Fields) (found : List Bytes)
    (listed : dataset.lookup (ascii "keys") = some (.array (found.map .string)))
    (request : BuildRequest) :
    extractRequestFromDocument fp (.object [(ascii "dataset", .object dataset)]) request =
      .ok () { request with keys := request.keys ++ found } := by
  have collected : extractKeys [(ascii "dataset", .object dataset)] request =
      .ok () { request with keys := request.keys ++ found } := by
    have direct : [(ascii "dataset", Value.object dataset)].lookup (ascii "keys") = none := rfl
    have under : [(ascii "dataset", Value.object dataset)].lookup (ascii "dataset") =
        some (.object dataset) := rfl
    unfold extractKeys
    simp only [direct, under, listed]
    exact collectKeysFromValue_texts found request
  rw [extract_object fp _ request _ collected]
  rfl

/-- The keys of a dataset are taken when they are an array of strings. -/
theorem extract_dataset_iff (dataset : Fields) (value : Value) (keys : List Bytes)
    (listed : dataset.lookup (ascii "keys") = some value) (request : BuildRequest)
    (fresh : request.keys = []) :
    (∃ final, extractRequestFromDocument fp (.object [(ascii "dataset", .object dataset)]) request =
        .ok () final ∧ final.keys = keys) ↔ value = .array (keys.map .string) := by
  have given : keysGiven [(ascii "dataset", .object dataset)] = isTextArray value := by
    have member : memberOf (ascii "keys") (.object dataset) = some value := listed
    show (memberOf (ascii "keys") (.object dataset)).any isTextArray = _
    rw [member, Option.any_some]
  have importable : isImportable (.object [(ascii "dataset", .object dataset)]) =
      isTextArray value := by
    rw [isImportable, given]
    exact Bool.and_true _
  constructor
  · rintro ⟨final, accepted, kept⟩
    cases texts : isTextArray value with
    | false =>
        rw [texts] at importable
        obtain ⟨message, left, refused⟩ := extract_refuses fp _ importable request
        rw [refused] at accepted
        cases accepted
    | true =>
        obtain ⟨found, rfl⟩ := (isTextArray_iff value).mp texts
        rw [extract_dataset fp dataset found listed request] at accepted
        cases accepted
        rw [← kept, fresh, List.nil_append]
  · rintro rfl
    refine ⟨_, extract_dataset fp dataset keys listed request, ?_⟩
    rw [fresh, List.nil_append]

end Keys

section Import

variable (env : Loaders) (stod : StodIndex) (fs : FileSystem)

theorem xmlFromString_root (text : Bytes) (root : Value)
    (loaded : parseXmlBasic stod text = .ok root) :
    ∃ document, xmlFromString stod text = .ok document ∧ document.root = root := by
  unfold xmlFromString
  split
  · rename_i found read
    rw [read] at loaded
    cases loaded
    exact ⟨_, rfl, rfl⟩
  · rename_i thrown read
    rw [read] at loaded
    cases loaded

/-- A request is extracted from the element that a document consists of. -/
theorem loadBuildRequest_layout (path schemaPath outError : Bytes) (request : BuildRequest)
    (document : XmlDocument) (file : fs.contents path = some document.write)
    (valid : ∀ loaded : Document,
      loaded.root = .object [(document.root.name, document.root.value stod)] →
        validateDocument (env.withXml stod) fs loaded schemaPath = .ok ()) :
    loadBuildRequest (env.withXml stod) fs path .xml schemaPath outError request =
      extractRequestFromDocument env.toFloating
        (.object [(document.root.name, document.root.value stod)]) request := by
  have written : parseXmlBasic stod document.write = _ := parseXmlBasic_write document
  obtain ⟨loaded, read, same⟩ := xmlFromString_root stod _ _ written
  have loads : loadDocument (env.withXml stod) fs path .xml = .ok loaded := by
    simp only [loadDocument, readTextFile, file, bind, Except.bind]
    exact read
  rw [loadBuildRequest, if_neg (by decide), loads]
  simp only [valid loaded same]
  rw [same]
  rfl

/-- A dataset of `keys` elements is imported as the keys they spell exactly when there are two of
them at least, and none of them is `<keys/>`. -/
theorem loadBuildRequest_xml_iff (path schemaPath outError : Bytes) (request : BuildRequest)
    (document : XmlDocument) (keys : List Bytes)
    (file : fs.contents path = some document.write)
    (dataset : document.root.name = ascii "dataset")
    (spelled : List.Forall₂ SpellsKey (namedChildren document.root.children (ascii "keys")) keys)
    (nonempty : keys ≠ []) (kept : ∀ key ∈ keys, parseScalarToken stod key = .string key)
    (fresh : request.keys = [])
    (valid : ∀ loaded : Document,
      loaded.root = .object [(document.root.name, document.root.value stod)] →
        validateDocument (env.withXml stod) fs loaded schemaPath = .ok ()) :
    (∃ final, loadBuildRequest (env.withXml stod) fs path .xml schemaPath outError request =
        .ok () final ∧ final.keys = keys) ↔
      2 ≤ keys.length ∧
        ∀ element ∈ namedChildren document.root.children (ascii "keys"),
          element.selfClosing = false := by
  have count := spelled.length_eq
  have present : namedChildren document.root.children (ascii "keys") ≠ [] := by
    intro empty
    rw [empty] at count
    exact nonempty (List.eq_nil_of_length_eq_zero count.symm)
  obtain ⟨obj, value, listed⟩ := value_object stod document.root (ascii "keys") present
  obtain ⟨found, several⟩ := gathered_some
    ((namedChildren document.root.children (ascii "keys")).map (XmlElement.value stod))
    (by simpa using present)
  have single := values_single stod (namedChildren document.root.children (ascii "keys"))
  rw [loadBuildRequest_layout env stod fs path schemaPath outError request document file valid,
    dataset, value, extract_dataset_iff env.toFloating obj found keys (listed.trans several)
      request fresh,
    ← Option.some.injEq, ← several, gathered_eq_array_iff _ _ single, List.length_map, count]
  exact and_congr_right' (spellsKey_values stod _ _ spelled kept)

end Import

section Sample

/-- A platform on which no text is a number. -/
def wordsOnly : StodIndex := fun _ => .error (.standard (ascii "stod"))

def bareTag (name : Bytes) (named : name ≠ []) (letters : name.all isNameByte = true)
    (element : name.head?.all (fun c => c != 33 && c != 63) = true) : Tag where
  name := name
  tail := []
  named := named
  letters := List.all_eq_true.mp letters
  element := element
  spaced := rfl
  attributes := .nil

def keysTag : Tag := bareTag (ascii "keys") (by decide) rfl rfl

def datasetTag : Tag := bareTag (ascii "dataset") (by decide) rfl rfl

def keyAb : XmlElement :=
  .full keysTag (.char 97 (by decide) (.char 98 (by decide) .nil)) [] blank_nil

def keyCd : XmlElement :=
  .full keysTag (.char 99 (by decide) (.char 100 (by decide) .nil)) [] blank_nil

def xmlDeclaration : XmlMisc := .instruction (ascii "xml version=\"1.0\"") (by decide) .nil

def datasetOf (prolog : XmlMisc) (elements : List XmlElement) : XmlDocument where
  prolog := prolog
  root := .full datasetTag (elements.foldr .child .nil) [] blank_nil
  epilog := .nil

def savedAs (text : Bytes) : FileSystem where
  contents path := if path = ascii "keys.xml" then some text else none
  writable _ := false

theorem keyAb_spells : SpellsKey keyAb (ascii "ab") := ⟨rfl, rfl⟩

theorem keyCd_spells : SpellsKey keyCd (ascii "cd") := ⟨rfl, rfl⟩

theorem loadBuildRequest_xml_two : ∃ final,
    loadBuildRequest (jsonOnly.withXml wordsOnly)
        (savedAs (ascii
          "<?xml version=\"1.0\"?><dataset><keys>ab</keys><keys>cd</keys></dataset>"))
        (ascii "keys.xml") .xml [] [] {} = .ok () final ∧
      final.keys = [ascii "ab", ascii "cd"] := by
  apply (loadBuildRequest_xml_iff jsonOnly wordsOnly _ _ _ _ _
    (datasetOf xmlDeclaration [keyAb, keyCd]) _ rfl rfl
    (.cons keyAb_spells (.cons keyCd_spells .nil)) (by decide)
    (List.forall_mem_cons.mpr ⟨rfl, List.forall_mem_singleton.mpr rfl⟩) rfl
    (fun _ _ => if_pos rfl)).mpr
  exact ⟨le_refl 2, List.forall_mem_cons.mpr ⟨rfl, List.forall_mem_singleton.mpr rfl⟩⟩

/-- One key, and it is no array. -/
theorem loadBuildRequest_xml_one : ∃ final,
    parseScalarToken wordsOnly (ascii "ab") = .string (ascii "ab") ∧
      loadBuildRequest (jsonOnly.withXml wordsOnly)
          (savedAs (ascii "<dataset><keys>ab</keys></dataset>"))
          (ascii "keys.xml") .xml [] [] {} = .error (ascii "keys must be an array") final := by
  refine ⟨{}, rfl, ?_⟩
  rw [loadBuildRequest_layout jsonOnly wordsOnly _ _ _ _ _ (datasetOf .nil [keyAb]) rfl
    (fun _ _ => if_pos rfl)]
  rfl

end Sample

end Nuperf.Cli
