import Nuperf.SchemaConformance
import Nuperf.ValidatorJudgement

set_option autoImplicit false

namespace Nuperf.Serdetk

open ByteString CStandard OrderedMap JsonSchema

section Judgement

variable (p : Platform)

/-- `Validator::validate`: a report is good exactly where it holds no complaint, and that is where
the schema admits the document. Every complaint starts with the path of the root. -/
theorem validator_judges (schema : Fields) (root : Value) (report : ValidationReport)
    (validated : validatorValidate p (.object schema) root = .ok report) :
    (report.success = true ↔ Admits p schema root) ∧
      (report.success = true ↔ report.errors = []) ∧
      ∀ message ∈ report.errors, ascii "$" <+: message :=
  (judged_validateNode p _ schema (by simp only [Value.depth]; omega) root _ _ _ validated).success

/-- A schema of lists of texts. -/
def textsKeywords : Fields :=
  [(ascii "items", .object [(ascii "type", .string (ascii "string"))]),
    (ascii "type", .string (ascii "array"))]

theorem validator_judges_texts : ∃ report,
    validatorValidate Cli.jsonOnly.toPlatform (.object textsKeywords) (.array [.null]) =
        .ok report ∧
      (report.success = true ↔ report.errors = []) ∧
      ∀ message ∈ report.errors, ascii "$" <+: message :=
  ⟨⟨false, [ascii "$[0]: type mismatch"]⟩, rfl,
    (validator_judges Cli.jsonOnly.toPlatform textsKeywords (.array [.null]) _ rfl).2⟩

end Judgement

section Fragment

/-- No number in the value has a fraction that is nothing. -/
inductive Value.Exact (fp : Floating) : Value → Prop
  | null : Exact fp .null
  | bool (value : Bool) : Exact fp (.bool value)
  | int (value : Int64) : Exact fp (.int value)
  | uint (value : UInt64) : Exact fp (.uint value)
  | double (bits : UInt64) (fraction : fp.integral bits = false) : Exact fp (.double bits)
  | string (text : Bytes) : Exact fp (.string text)
  | binary (bytes : List UInt8) : Exact fp (.binary bytes)
  | array (items : List Value) (members : ∀ item ∈ items, item.Exact fp) : Exact fp (.array items)
  | object (fields : Fields) (members : ∀ field ∈ fields, field.2.Exact fp) :
      Exact fp (.object fields)

/-- The keywords that the validator reads as JSON Schema does, and annotations. -/
def portableKeywords : List Bytes :=
  [ascii "type", ascii "required", ascii "properties", ascii "additionalProperties", ascii "items",
    ascii "allOf", ascii "$schema", ascii "title", ascii "description"]

/-- The schemas of these keywords. Members are closed next to `properties` only. -/
inductive Portable : Value → Prop
  | anything : Portable (.bool true)
  | object (keywords : Fields) (sorted : Sorted keywords)
      (known : ∀ keyword ∈ keywords, keyword.1 ∈ portableKeywords)
      (required : ∀ names, keywords.lookup (ascii "required") = some names →
        ∃ items, names = .array items)
      (properties : ∀ props, keywords.lookup (ascii "properties") = some props →
        ∃ members, props = .object members)
      (members : ∀ members, keywords.lookup (ascii "properties") = some (.object members) →
        ∀ member ∈ members, Portable member.2)
      (additional : ∀ v, keywords.lookup (ascii "additionalProperties") = some v →
        v = .bool true ∨ v = .bool false ∧ (keywords.lookup (ascii "properties")).isSome = true)
      (items : ∀ sub, keywords.lookup (ascii "items") = some sub → Portable sub)
      (allOf : ∀ subs, keywords.lookup (ascii "allOf") = some (.array subs) →
        ∀ sub ∈ subs, Portable sub) :
      Portable (.object keywords)

end Fragment

section Types

variable (fp : Floating) {v : Value}

theorem hasType_exact (exact : v.Exact fp) (name : Bytes) : hasType fp name v = isType v name := by
  cases exact with
  | double bits fraction => simp [hasType, isType, isInteger, fraction]
  | array items members =>
      by_cases array : name = ascii "array"
      · subst array
        rfl
      · simp [hasType, isType, isInteger, array]
  | object fields members =>
      by_cases object : name = ascii "object"
      · subst object
        rfl
      · simp [hasType, isType, isInteger, object]
  | _ => simp [hasType, isType, isInteger]

theorem typeHolds_exact (exact : v.Exact fp) (t : Value) :
    typeHolds fp t v = true ↔
      isTypeNamed v t = true ∨
        ∃ names, t = .array names ∧ ∃ name ∈ names, isTypeNamed v name = true := by
  cases t with
  | string name =>
      rw [typeHolds, hasType_exact fp exact]
      simp [isTypeNamed]
  | array names =>
      have each : typeHolds fp (.array names) v = names.any (isTypeNamed v) := by
        refine congrArg (List.any names) (funext fun name => ?_)
        cases name with
        | string name => exact hasType_exact fp exact name
        | _ => rfl
      rw [each, List.any_eq_true]
      constructor
      · intro named
        exact .inr ⟨names, rfl, named⟩
      · rintro (typed | ⟨_, ⟨⟩, named⟩)
        · cases typed
        · exact named
  | _ => simp [typeHolds, isTypeNamed]

end Types

section Keywords

variable (fp : Floating) (described : List Bytes) (keywords : Fields) (v : Value)

theorem keywordsHold_cons (keyword : Bytes × Value) :
    keywordsHold fp described (keyword :: keywords) v =
      (keywordsHold fp described [keyword] v && keywordsHold fp described keywords v) := by
  obtain ⟨name, argument⟩ := keyword
  cases v <;> simp only [keywordsHold, Bool.and_true]

theorem keywordsHold_iff :
    keywordsHold fp described keywords v = true ↔
      ∀ keyword ∈ keywords, keywordsHold fp described [keyword] v = true := by
  induction keywords with
  | nil => exact iff_of_true rfl fun _ member => absurd member List.not_mem_nil
  | cons keyword rest ih =>
      rw [keywordsHold_cons, Bool.and_eq_true, ih, List.forall_mem_cons]

theorem keywordsHold_lookup (sorted : Sorted keywords) :
    keywordsHold fp described keywords v = true ↔
      ∀ name argument, keywords.lookup name = some argument →
        keywordsHold fp described [(name, argument)] v = true := by
  rw [keywordsHold_iff]
  constructor
  · intro each name argument found
    exact each _ (mem_of_lookup keywords name argument found)
  · rintro each ⟨name, argument⟩ member
    have distinct := keys_nodup keywords sorted
    exact each name argument ((lookup_eq_some_iff_mem keywords name distinct argument).mpr member)

variable (argument : Value)

theorem type_single : keywordsHold fp described [(ascii "type", argument)] v =
    typeHolds fp argument v := Bool.and_true _

theorem required_single : keywordsHold fp described [(ascii "required", argument)] v =
    requiredHolds argument v := Bool.and_true _

theorem mem_describedBy {keywords : Fields} (props : Fields)
    (listed : keywords.lookup (ascii "properties") = some (.object props)) (name : Bytes) :
    name ∈ describedBy keywords ↔ (props.lookup name).isSome = true := by
  rw [describedBy, listed, List.mem_map, List.lookup_isSome_iff]
  constructor
  · rintro ⟨member, inside, rfl⟩
    exact ⟨member, inside, beq_self_eq_true _⟩
  · rintro ⟨member, inside, same⟩
    exact ⟨member, inside, (eq_of_beq same).symm⟩

theorem requiredHolds_object (names : List Value) (fields : Fields) :
    requiredHolds (.array names) (.object fields) = true ↔
      ∀ name ∈ names, ∃ text, name = .string text ∧ (fields.lookup text).isSome = true := by
  rw [requiredHolds, List.all_eq_true]
  refine forall₂_congr fun name _ => ?_
  cases name with
  | string text => simp
  | _ => simp

theorem properties_single (members fields : Fields) :
    keywordsHold fp described [(ascii "properties", .object members)] (.object fields) = true ↔
      ∀ member ∈ members, ∀ value, fields.lookup member.1 = some value →
        conforms fp member.2 value = true := by
  rw [keywordsHold_properties, keywordsHold, Bool.and_true, describedConform]
  induction members with
  | nil => exact iff_of_true rfl fun _ member => absurd member List.not_mem_nil
  | cons member rest ih =>
      obtain ⟨name, schema⟩ := member
      rw [memberConforms_cons, Bool.and_eq_true, ih, List.forall_mem_cons, Option.all_eq_true]

theorem additional_single (allowed : Bool) (fields : Fields) :
    keywordsHold fp described [(ascii "additionalProperties", .bool allowed)] (.object fields) =
        true ↔ ∀ field ∈ fields, field.1 ∈ described ∨ allowed = true := by
  rw [keywordsHold_additionalProperties, keywordsHold, Bool.and_true, List.all_eq_true]
  simp [conforms]

theorem items_single (sub : Value) (items : List Value) :
    keywordsHold fp described [(ascii "items", sub)] (.array items) = true ↔
      ∀ item ∈ items, conforms fp sub item = true := by
  rw [keywordsHold_items, keywordsHold, Bool.and_true, List.all_eq_true]

theorem allOf_single (subs : List Value) :
    keywordsHold fp described [(ascii "allOf", .array subs)] v = true ↔
      ∀ sub ∈ subs, conforms fp sub v = true := by
  show ((verdicts fp (.array subs) v).all id && true) = true ↔ _
  rw [Bool.and_true, verdicts]
  induction subs with
  | nil => exact iff_of_true rfl fun _ member => absurd member List.not_mem_nil
  | cons sub rest ih =>
      rw [listVerdicts, List.all_cons, Bool.and_eq_true, ih, List.forall_mem_cons, id]

end Keywords

section Conformance

variable (p : Platform)

/-- On exact documents, a portable schema demands what JSON Schema says that it does. -/
theorem conforms_iff_admits (schema : Value) (portable : Portable schema) (v : Value)
    (exact : v.Exact p.toFloating) :
    conforms p.toFloating schema v = true ↔
      ∀ keywords, schema = .object keywords → Admits p keywords v := by
  induction portable generalizing v with
  | anything => exact iff_of_true rfl fun _ same => by cases same
  | object keywords sorted known required properties members additional items allOf membersIH
      itemsIH allOfIH =>
      have unknown (name : Bytes) (other : name ∉ portableKeywords) :
          keywords.lookup name = none := by
        cases found : keywords.lookup name with
        | none => rfl
        | some argument => exact absurd (known _ (mem_of_lookup keywords name argument found)) other
      rw [conforms, keywordsHold_lookup _ _ _ _ sorted]
      constructor
      · rintro each _ ⟨⟩
        have here : AdmitsHere p keywords v :=
          { type := ?type
            enum := by simp [unknown (ascii "enum") (by decide)]
            const := by simp [unknown (ascii "const") (by decide)]
            minLength := by simp [unknown (ascii "minLength") (by decide)]
            maxLength := by simp [unknown (ascii "maxLength") (by decide)]
            pattern := by simp [unknown (ascii "pattern") (by decide)]
            required := ?required
            additional := ?additional
            minItems := by simp [unknown (ascii "minItems") (by decide)]
            maxItems := by simp [unknown (ascii "maxItems") (by decide)]
            minimum := by simp [unknown (ascii "minimum") (by decide)]
            maximum := by simp [unknown (ascii "maximum") (by decide)] }
        · refine .node keywords v here ?_ ?_ ?_ ?_
          · rintro props fields listed rfl name sub member inside found
            cases exact with
            | object _ parts =>
                have holds := (properties_single _ _ _ _).mp (each _ _ listed) _ inside member found
                have part := parts _ (mem_of_lookup fields name member found)
                exact (membersIH props listed _ inside member part).mp holds sub rfl
          · rintro sub parts listed rfl item member
            cases exact with
            | array _ exact =>
                have holds := (items_single _ _ _ _).mp (each _ _ listed) item member
                exact (itemsIH _ listed item (exact item member)).mp holds sub rfl
          · rintro subs parts listed rfl sub item member
            cases items _ listed
          · intro subs listed sub member
            have holds := (allOf_single _ _ _ _).mp (each _ _ listed) _ member
            exact (allOfIH subs listed _ member v exact).mp holds sub rfl
        · intro t listed
          have holds := each _ t listed
          rw [type_single] at holds
          exact (typeHolds_exact p.toFloating exact t).mp holds
        · rintro names fields listed rfl
          have holds := each _ _ listed
          rw [required_single] at holds
          exact (requiredHolds_object names fields).mp holds
        · rintro props fields listed rfl closed field member
          have holds := (additional_single _ _ _ _).mp (each _ _ closed) field member
          rw [mem_describedBy props listed] at holds
          exact holds.resolve_right Bool.false_ne_true
      · intro admits name argument found
        obtain ⟨_, _, here, inside, single, several, all⟩ := admits keywords rfl
        have one := known _ (mem_of_lookup keywords name argument found)
        simp only [portableKeywords, List.mem_cons, List.not_mem_nil, or_false] at one
        rcases one with rfl | rfl | rfl | rfl | rfl | rfl | rfl | rfl | rfl
        · rw [type_single]
          exact (typeHolds_exact p.toFloating exact argument).mpr (here.type argument found)
        · obtain ⟨names, rfl⟩ := required argument found
          rw [required_single]
          cases v with
          | object fields =>
              exact (requiredHolds_object names fields).mpr (here.required names fields found rfl)
          | _ => rfl
        · obtain ⟨props, rfl⟩ := properties argument found
          cases exact with
          | object fields parts =>
              rw [properties_single]
              rintro ⟨name, schema⟩ listed value there
              have part := parts _ (mem_of_lookup fields name value there)
              refine (membersIH props found _ listed value part).mpr ?_
              rintro sub rfl
              exact inside props fields found rfl name sub value listed there
          | _ => rfl
        · cases v with
          | object fields =>
              rcases additional argument found with rfl | ⟨rfl, given⟩
              · rw [additional_single]
                exact fun _ _ => .inr rfl
              · obtain ⟨props, listed⟩ := Option.isSome_iff_exists.mp given
                obtain ⟨members, rfl⟩ := properties props listed
                rw [additional_single]
                intro field member
                rw [mem_describedBy members listed]
                exact .inl (here.additional members fields listed rfl found field member)
          | _ => rfl
        · cases exact with
          | array parts exact =>
              rw [items_single]
              intro item member
              refine (itemsIH argument found item (exact item member)).mpr ?_
              rintro sub rfl
              exact single sub parts found rfl item member
          | _ => rfl
        · cases argument with
          | array subs =>
              rw [allOf_single]
              intro schema member
              refine (allOfIH subs found schema member v exact).mpr ?_
              rintro sub rfl
              exact all subs found sub member
          | _ => cases v <;> rfl
        · cases v <;> rfl
        · cases v <;> rfl
        · cases v <;> rfl

theorem foldlM_returns {α : Type} (items : List α)
    (check : ValidationReport → α → Except CxxException ValidationReport) (r : ValidationReport)
    (each : ∀ item ∈ items, ∀ r, ∃ s, check r item = .ok s) :
    ∃ s, items.foldlM check r = .ok s := by
  induction items generalizing r with
  | nil => exact ⟨r, rfl⟩
  | cons item rest ih =>
      obtain ⟨next, now⟩ := each item List.mem_cons_self r
      obtain ⟨last, later⟩ :=
        ih next fun other member => each other (List.mem_cons_of_mem item member)
      refine ⟨last, ?_⟩
      rw [List.foldlM_cons, now]
      exact later

/-- The validator throws at nothing that a portable schema says. -/
theorem validateNode_returns (fuel : Nat) (keywords : Fields)
    (portable : Portable (.object keywords))
    (node : Value) (path : Bytes) (r : ValidationReport) :
    ∃ s, validateNode p fuel keywords node path r = .ok s := by
  induction fuel generalizing keywords node path r with
  | zero => exact ⟨r, rfl⟩
  | succ fuel ih =>
      cases portable with
      | object _ sorted known required properties members additional items allOf =>
          have unknown (name : Bytes) (other : name ∉ portableKeywords) :
              keywords.lookup name = none := by
            cases found : keywords.lookup name with
            | none => rfl
            | some argument =>
                exact absurd (known _ (mem_of_lookup keywords name argument found)) other
          have strings (r : ValidationReport) :
              ∃ s, checkString p keywords node path r = .ok s := by
            cases node with
            | string text =>
                rw [checkString, unknown (ascii "pattern") (by decide)]
                exact ⟨_, rfl⟩
            | _ => exact ⟨r, rfl⟩
          have numbers (r : ValidationReport) :
              ∃ s, checkNumber p keywords node path r = .ok s := by
            unfold checkNumber
            cases asDouble p.toFloating node with
            | none => exact ⟨r, rfl⟩
            | some v =>
                rw [unknown (ascii "uniqueItems") (by decide)]
                exact ⟨_, rfl⟩
          have inside (r : ValidationReport) :
              ∃ s, checkProperties (validateNode p fuel) keywords node path r = .ok s := by
            unfold checkProperties
            split
            · rename_i props fields listed
              have each :=
                foldlM_returns props (checkProperty (validateNode p fuel) path fields) r ?_
              · obtain ⟨s, ran⟩ := each
                rw [ran]
                exact ⟨_, rfl⟩
              · rintro ⟨name, schema⟩ member r
                have below := members props listed _ member
                unfold checkProperty
                split
                · rename_i sub value shape found
                  cases shape
                  exact ih sub below _ _ r
                · exact ⟨r, rfl⟩
            · exact ⟨r, rfl⟩
          have elements (r : ValidationReport) :
              ∃ s, checkItems (validateNode p fuel) keywords node path r = .ok s := by
            unfold checkItems
            split
            · rename_i sub parts listed
              exact foldlM_returns _ _ r fun item _ r => ih sub (items _ listed) _ _ r
            · rename_i subs parts listed
              cases items _ listed
            · exact ⟨r, rfl⟩
          have all (r : ValidationReport) :
              ∃ s, checkAllOf (validateNode p fuel) keywords node path r = .ok s := by
            unfold checkAllOf
            split
            · rename_i subs listed
              refine foldlM_returns _ _ r ?_
              intro schema member r
              have below := allOf subs listed schema member
              split
              · rename_i sub
                exact ih sub below _ _ r
              · exact ⟨r, rfl⟩
            · exact ⟨r, rfl⟩
          obtain ⟨r1, strings⟩ := strings _
          obtain ⟨r2, inside⟩ := inside (checkRequired keywords node path r1)
          obtain ⟨r3, elements⟩ := elements r2
          obtain ⟨r4, numbers⟩ := numbers (checkItemCount keywords node path r3)
          obtain ⟨r5, all⟩ := all r4
          refine ⟨r5, ?_⟩
          rw [validateNode, strings]
          show (checkProperties _ _ _ _ (checkRequired keywords node path r1) >>= _) = _
          rw [inside]
          show (checkItems _ _ _ _ r2 >>= _) = _
          rw [elements]
          show (checkNumber _ _ _ _ (checkItemCount keywords node path r3) >>= _) = _
          rw [numbers]
          exact all

end Conformance

end Nuperf.Serdetk
