import Nuperf.ScalarToken
import Nuperf.XmlImport

set_option autoImplicit false

namespace Nuperf.Serdetk

open ByteString Numeral CStandard OrderedMap
open Cli (IsArray gathered gathered_several fields_eq)

section Elements

variable (stod : StodIndex)

theorem parseRoots_elements (elements : List XmlElement) (fuel : Nat) (root : Fields) :
    parseRoots stod (fuel + elements.length + 1) root (elements.flatMap XmlElement.write) =
      .ok (elements.foldl (fun obj child => addChild obj child.name (child.value stod)) root) := by
  induction elements generalizing root with
  | nil => rfl
  | cons element elements ih =>
      rw [List.flatMap_cons, List.length_cons, ← Nat.add_assoc, parseRoots_element, ih,
        List.foldl_cons]

theorem flatMap_write_length (elements : List XmlElement) :
    elements.length ≤ (elements.flatMap XmlElement.write).length := by
  induction elements with
  | nil => exact Nat.le_refl _
  | cons element elements ih =>
      obtain ⟨c, tail, head, -⟩ := element.write_head
      rw [List.flatMap_cons, List.length_append, List.length_cons, head, List.length_cons]
      omega

/-- Elements next to each other are read as the children of one element are. -/
theorem parseXmlBasic_elements (elements : List XmlElement) :
    parseXmlBasic stod (elements.flatMap XmlElement.write) =
      .ok (.object (elements.foldl
        (fun obj child => addChild obj child.name (child.value stod)) [])) := by
  have stops (fuel : Nat) : skipMisc (fuel + 1) (elements.flatMap XmlElement.write) =
      .ok (elements.flatMap XmlElement.write) := by
    cases elements with
    | nil => rfl
    | cons element elements =>
        obtain ⟨c, tail, head, -, name⟩ := element.write_head
        rw [List.flatMap_cons, head]
        exact skipMisc_tag fuel _ c name
  obtain ⟨more, turns⟩ := Nat.exists_eq_add_of_le' (flatMap_write_length elements)
  have roots := parseRoots_elements stod elements more []
  rw [← turns] at roots
  rw [parseXmlBasic, stops]
  simp only [bind, Except.bind, roots]

end Elements

section Gathering

/-- The field that children of one name make, if there are any. -/
def gatheredField (name : Bytes) (values : List Value) : Fields :=
  ((gathered values).map fun value => (name, value)).toList

/-- Children of a name behind all others become the last field. -/
theorem foldl_addChild (name : Bytes) (values : List Value)
    (single : ∀ value ∈ values, ¬ IsArray value) (obj : Fields)
    (last : ∀ entry ∈ obj, entry.1 < name) :
    values.foldl (fun obj value => addChild obj name value) obj =
      obj ++ gatheredField name values := by
  induction values using List.reverseRecOn with
  | nil => rw [List.foldl_nil, gatheredField, gathered, Option.map_none, Option.toList_none,
      List.append_nil]
  | append_singleton values value ih =>
      have before := ih fun earlier member => single earlier (List.mem_append_left _ member)
      rw [List.foldl_append, before, List.foldl_cons, List.foldl_nil, addChild]
      rcases values with _ | ⟨first, _ | ⟨second, rest⟩⟩
      · rw [show gatheredField name [] = [] from rfl, List.append_nil, lookup_above name obj last]
        exact insert_last name value obj last
      · rw [show gatheredField name [first] = [(name, first)] from rfl,
          lookup_last name first obj last]
        have plain := single first List.mem_cons_self
        cases first with
        | array items => exact absurd ⟨items, rfl⟩ plain
        | _ => exact insert_over_last name _ _ obj last
      · rw [show gatheredField name (first :: second :: rest) =
          [(name, .array (first :: second :: rest))] from rfl, lookup_last name _ obj last]
        exact insert_over_last name _ _ obj last

end Gathering

section Emit

variable (fp : Floating) (stod : StodIndex)

/-- A name that stands for itself in a tag. -/
structure PlainTag (name : Bytes) : Prop where
  named : name ≠ []
  letters : name.all isNameByte = true
  element : name.head?.all (fun c => c != 33 && c != 63) = true

def PlainTag.tag {name : Bytes} (plain : PlainTag name) : Tag :=
  Cli.bareTag name plain.named plain.letters plain.element

mutual

/-- The values whose texts hold no tag of their own. -/
def Value.Untagged : Value → Prop
  | .array items => UntaggedItems items
  | .object fields => UntaggedFields fields
  | scalar => openAngle ∉ xmlText fp scalar

def UntaggedItems : List Value → Prop
  | [] => True
  | item :: rest => item.Untagged ∧ UntaggedItems rest

def UntaggedFields : List (Bytes × Value) → Prop
  | [] => True
  | (name, value) :: rest => PlainTag name ∧ value.Untagged ∧ UntaggedFields rest

end

mutual

/-- The values of the elements that a value is written as: one, or for an array those of its
items. -/
def xmlValues : Value → List Value
  | .object fields => [nodeValue stod (xmlFields fields) []]
  | .array items => xmlItemValues items
  | scalar => [parseScalarToken stod (xmlText fp scalar)]

def xmlItemValues : List Value → List Value
  | [] => []
  | item :: rest => xmlValues item ++ xmlItemValues rest

/-- The fields that are read back: an array of one item is the item, and an empty one is gone. -/
def xmlFields : List (Bytes × Value) → Fields
  | [] => []
  | (name, value) :: rest => gatheredField name (xmlValues value) ++ xmlFields rest

end

/-- A text, and nothing else. -/
theorem exists_charContent (text : Bytes) (plain : openAngle ∉ text) :
    ∃ content : XmlContent, content.write = text ∧ content.text false = text ∧
      ∀ obj, content.fields stod obj = obj := by
  induction text with
  | nil => exact ⟨.nil, rfl, rfl, fun _ => rfl⟩
  | cons c text ih =>
      rw [List.mem_cons, not_or] at plain
      obtain ⟨content, written, read, fields⟩ := ih plain.2
      refine ⟨.char c (Ne.symm plain.1) content, ?_, ?_, fields⟩
      · rw [XmlContent.write, written]
      · rw [XmlContent.text, read]
        rfl

/-- Elements, and nothing between them. -/
def childContent (elements : List XmlElement) : XmlContent := elements.foldr .child .nil

theorem childContent_spec (elements : List XmlElement) :
    (childContent elements).write = elements.flatMap XmlElement.write ∧
      (childContent elements).text false = [] ∧ (childContent elements).children = elements := by
  induction elements with
  | nil => exact ⟨rfl, rfl, rfl⟩
  | cons element elements ih =>
      obtain ⟨written, read, children⟩ := ih
      rw [childContent, List.foldr_cons, ← childContent]
      refine ⟨?_, ?_, ?_⟩
      · rw [XmlContent.write, written, List.flatMap_cons]
      · rw [XmlContent.text, read]
      · rw [XmlContent.children, children]

/-- The elements that a value is written as under a name. -/
structure WrittenAs (name text : Bytes) (values : List Value) (elements : List XmlElement) :
    Prop where
  text : elements.flatMap XmlElement.write = text
  named : ∀ element ∈ elements, element.name = name
  values : elements.map (XmlElement.value stod) = values

theorem writtenAs_append {name front back : Bytes} {first second : List Value}
    {head tail : List XmlElement} (here : WrittenAs stod name front first head)
    (later : WrittenAs stod name back second tail) :
    WrittenAs stod name (front ++ back) (first ++ second) (head ++ tail) where
  text := by rw [List.flatMap_append, here.text, later.text]
  named := by
    intro element member
    rcases List.mem_append.mp member with inside | inside
    · exact here.named element inside
    · exact later.named element inside
  values := by rw [List.map_append, here.values, later.values]

/-- One element around a content. -/
theorem writtenAs_element {name : Bytes} (plain : PlainTag name) (content : XmlContent) :
    WrittenAs stod name (xmlTag name ++ (content.write ++ xmlClosingTag name))
      [nodeValue stod (content.fields stod []) (content.text false)]
      [.full plain.tag content [] blank_nil] where
  text := by
    rw [List.flatMap_singleton, XmlElement.write, xmlTag, xmlClosingTag]
    simp only [PlainTag.tag, Cli.bareTag, List.nil_append, List.cons_append, List.append_assoc]
  named := List.forall_mem_singleton.mpr rfl
  values := rfl

theorem parseScalarToken_trimCopy (text : Bytes) :
    parseScalarToken stod (trimCopy text) = parseScalarToken stod text := by
  rw [parseScalarToken, parseScalarToken, trimCopy_of_solid _ (trimCopy_solid text)]

theorem writtenAs_scalar {name : Bytes} (named : PlainTag name) (text : Bytes)
    (plain : openAngle ∉ text) :
    ∃ elements, WrittenAs stod name (xmlTag name ++ (text ++ xmlClosingTag name))
      [parseScalarToken stod text] elements := by
  obtain ⟨content, written, read, fields⟩ := exists_charContent stod text plain
  have element := writtenAs_element stod named content
  rw [written, read, fields] at element
  have value : nodeValue stod [] text = parseScalarToken stod text :=
    parseScalarToken_trimCopy stod text
  rw [value] at element
  exact ⟨_, element⟩

/-- Elements of one name are children of that name. -/
theorem foldl_named (name : Bytes) (elements : List XmlElement)
    (named : ∀ element ∈ elements, element.name = name) (obj : Fields) :
    elements.foldl (fun obj child => addChild obj child.name (child.value stod)) obj =
      (elements.map (XmlElement.value stod)).foldl
        (fun obj value => addChild obj name value) obj := by
  induction elements generalizing obj with
  | nil => rfl
  | cons element elements ih =>
      rw [List.foldl_cons, List.map_cons, List.foldl_cons, named element List.mem_cons_self,
        ih fun later member => named later (List.mem_cons_of_mem element member)]

theorem gatheredField_key (name : Bytes) (values : List Value) :
    ∀ entry ∈ gatheredField name values, entry.1 = name := by
  intro entry member
  rw [gatheredField, Option.mem_toList] at member
  obtain ⟨value, -, rfl⟩ := Option.map_eq_some_iff.mp member
  rfl

mutual

theorem xml_value (name : Bytes) (named : PlainTag name) (value : Value)
    (wellFormed : value.WellFormed) (untagged : value.Untagged fp) :
    ∃ elements,
      WrittenAs stod name (emitXmlNode fp name value) (xmlValues fp stod value) elements := by
  cases value with
  | object fields =>
      cases wellFormed with
      | object _ sorted members =>
          obtain ⟨elements, written, built⟩ := xml_fields fields sorted members untagged
          obtain ⟨text, read, children⟩ := childContent_spec elements
          have element := writtenAs_element stod named (childContent elements)
          rw [text, read, written, fields_eq, children] at element
          have fields' := built [] fun _ _ _ inside => absurd inside List.not_mem_nil
          rw [fields', List.nil_append] at element
          exact ⟨_, element⟩
  | array items => exact xml_items name named items (by cases wellFormed; assumption) untagged
  | null => exact writtenAs_scalar stod named _ untagged
  | bool value => exact writtenAs_scalar stod named _ untagged
  | int value => exact writtenAs_scalar stod named _ untagged
  | uint value => exact writtenAs_scalar stod named _ untagged
  | double bits => exact writtenAs_scalar stod named _ untagged
  | string text => exact writtenAs_scalar stod named _ untagged
  | binary bytes => exact writtenAs_scalar stod named _ untagged

theorem xml_items (name : Bytes) (named : PlainTag name) (items : List Value)
    (members : ∀ item ∈ items, item.WellFormed) (untagged : UntaggedItems fp items) :
    ∃ elements, WrittenAs stod name (emitXmlItems fp name items) (xmlItemValues fp stod items)
      elements := by
  cases items with
  | nil => exact ⟨[], rfl, fun _ inside => absurd inside List.not_mem_nil, rfl⟩
  | cons item rest =>
      obtain ⟨first, here⟩ :=
        xml_value name named item (members item List.mem_cons_self) untagged.1
      obtain ⟨others, later⟩ := xml_items name named rest
        (fun next inside => members next (List.mem_cons_of_mem item inside)) untagged.2
      exact ⟨_, writtenAs_append stod here later⟩

/-- Fields are written as elements, and these are read as the fields behind those there are. -/
theorem xml_fields (fields : List (Bytes × Value)) (sorted : Sorted fields)
    (members : ∀ field ∈ fields, field.2.WellFormed) (untagged : UntaggedFields fp fields) :
    ∃ elements : List XmlElement, elements.flatMap XmlElement.write = emitXmlFields fp fields ∧
      ∀ obj : Fields, (∀ field ∈ fields, ∀ entry ∈ obj, entry.1 < field.1) →
        elements.foldl (fun obj child => addChild obj child.name (child.value stod)) obj =
          obj ++ xmlFields fp stod fields := by
  cases fields with
  | nil => exact ⟨[], rfl, fun obj _ => (List.append_nil obj).symm⟩
  | cons field rest =>
      obtain ⟨name, value⟩ := field
      obtain ⟨named, plain, others⟩ := untagged
      obtain ⟨head, tail⟩ := List.pairwise_cons.mp sorted
      obtain ⟨first, here⟩ :=
        xml_value name named value (members (name, value) List.mem_cons_self) plain
      obtain ⟨later, written, built⟩ := xml_fields rest tail
        (fun next inside => members next (List.mem_cons_of_mem _ inside)) others
      refine ⟨first ++ later, ?_, fun obj above => ?_⟩
      · rw [List.flatMap_append, here.text, written, emitXmlFields]
      · have single : ∀ item ∈ xmlValues fp stod value, ¬ IsArray item := by
          rw [← here.values]
          exact Cli.values_single stod first
        have gathered := foldl_addChild name _ single obj
          (fun entry inside => above (name, value) List.mem_cons_self entry inside)
        rw [List.foldl_append, foldl_named stod name first here.named, here.values, gathered,
          built, xmlFields, List.append_assoc]
        intro field inside entry member
        rcases List.mem_append.mp member with earlier | same
        · exact above field (List.mem_cons_of_mem _ inside) entry earlier
        · rw [gatheredField_key name _ entry same]
          exact head field inside

end

/-- The dumper writes the fields of the root, or the root under a name of its own. -/
def rootFields : Value → Fields
  | .object fields => fields
  | root => [(ascii "root", root)]

theorem xmlDumpString_eq (root : Value) :
    xmlDumpString fp root = emitXmlFields fp (rootFields root) := by
  cases root <;> first | rfl | exact (List.append_nil _).symm

/-- What `dump_string` writes of a value, `load_string` reads as the fields that are left of it. -/
theorem parseXmlBasic_emit (root : Value) (sorted : Sorted (rootFields root))
    (members : ∀ field ∈ rootFields root, field.2.WellFormed)
    (untagged : UntaggedFields fp (rootFields root)) :
    parseXmlBasic stod (xmlDumpString fp root) =
      .ok (.object (xmlFields fp stod (rootFields root))) := by
  obtain ⟨elements, written, built⟩ := xml_fields fp stod _ sorted members untagged
  have read := parseXmlBasic_elements stod elements
  rw [written, built [] fun _ _ _ inside => absurd inside List.not_mem_nil, List.nil_append] at read
  rw [xmlDumpString_eq, read]

end Emit

end Nuperf.Serdetk
