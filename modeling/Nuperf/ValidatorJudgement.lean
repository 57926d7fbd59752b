import Nuperf.JsonTotal
import Nuperf.SerdeValidator

set_option autoImplicit false

namespace Nuperf.Serdetk

open ByteString Numeral CStandard

section Judged

/-- The report with more complaints. -/
def ValidationReport.extend (r : ValidationReport) (complaints : List Bytes) : ValidationReport :=
  ⟨r.success && complaints.isEmpty, r.errors ++ complaints⟩

/-- What a check does to a report. It complains of the node at the path and of nodes inside it
only, and it complains unless `holds`. -/
def Judged (path : Bytes) (holds : Prop) (r s : ValidationReport) : Prop :=
  ∃ complaints, s = r.extend complaints ∧ (∀ message ∈ complaints, path <+: message) ∧
    (complaints = [] ↔ holds)

variable {path : Bytes} {first second : Prop} {r s t : ValidationReport}

theorem ValidationReport.extend_nil (r : ValidationReport) : r.extend [] = r := by
  rw [extend, List.isEmpty_nil, Bool.and_true, List.append_nil]

theorem ValidationReport.extend_extend (r : ValidationReport) (front back : List Bytes) :
    (r.extend front).extend back = r.extend (front ++ back) := by
  have both : (front ++ back).isEmpty = (front.isEmpty && back.isEmpty) := by
    cases front with
    | nil => rfl
    | cons _ _ => rfl
  rw [extend, extend, extend, List.append_assoc, Bool.and_assoc, both]

theorem judged_pass (holds : first) : Judged path first r r :=
  ⟨[], r.extend_nil.symm, fun _ member => absurd member List.not_mem_nil,
    iff_of_true rfl holds⟩

theorem judged_fail (message : Bytes) (broken : ¬ first) :
    Judged path first r (fail r (path ++ message)) := by
  refine ⟨[path ++ message], ?_, ?_, iff_of_false (List.cons_ne_nil _ _) broken⟩
  · rw [fail, ValidationReport.extend, List.isEmpty_cons, Bool.and_false]
  · intro other member
    rw [List.mem_singleton.mp member]
    exact List.prefix_append path message

theorem judged_ite (holds : Bool) (message : Bytes) :
    Judged path (holds = true) r (if holds then r else fail r (path ++ message)) := by
  cases holds with
  | true => exact judged_pass rfl
  | false => exact judged_fail message Bool.false_ne_true

theorem judged_unless (broken : Bool) (message : Bytes) :
    Judged path (broken = false) r (if broken then fail r (path ++ message) else r) := by
  cases broken with
  | true => exact judged_fail message (by simp)
  | false => exact judged_pass rfl

theorem Judged.trans (one : Judged path first r s) (two : Judged path second s t) :
    Judged path (first ∧ second) r t := by
  obtain ⟨front, rfl, below, none⟩ := one
  obtain ⟨back, rfl, further, last⟩ := two
  refine ⟨front ++ back, r.extend_extend front back, ?_, ?_⟩
  · intro message member
    rcases List.mem_append.mp member with member | member
    · exact below message member
    · exact further message member
  · rw [List.append_eq_nil_iff, none, last]

theorem Judged.congr (judged : Judged path first r s) (same : first ↔ second) :
    Judged path second r s := by
  obtain ⟨complaints, extended, below, none⟩ := judged
  exact ⟨complaints, extended, below, none.trans same⟩

/-- A node inside the node at the path. -/
theorem Judged.inside {rest : Bytes} (judged : Judged (path ++ rest) first r s) :
    Judged path first r s := by
  obtain ⟨complaints, extended, below, none⟩ := judged
  exact ⟨complaints, extended,
    fun message member => (List.prefix_append path rest).trans (below message member), none⟩

theorem judged_foldl {α : Type} (holds : α → Prop) (check : ValidationReport → α → ValidationReport)
    (items : List α) (each : ∀ item ∈ items, ∀ r, Judged path (holds item) r (check r item)) :
    Judged path (∀ item ∈ items, holds item) r (items.foldl check r) := by
  induction items generalizing r with
  | nil => exact judged_pass fun _ member => absurd member List.not_mem_nil
  | cons item rest ih =>
      have here := each item List.mem_cons_self r
      have later := ih (r := check r item) fun other member =>
        each other (List.mem_cons_of_mem item member)
      rw [List.foldl_cons]
      exact (here.trans later).congr List.forall_mem_cons.symm

theorem judged_foldlM {α : Type} (holds : α → Prop)
    (check : ValidationReport → α → Except CxxException ValidationReport) (items : List α)
    (each : ∀ item ∈ items, ∀ r s, check r item = .ok s → Judged path (holds item) r s)
    (checked : items.foldlM check r = .ok s) :
    Judged path (∀ item ∈ items, holds item) r s := by
  induction items generalizing r with
  | nil =>
      cases checked
      exact judged_pass fun _ member => absurd member List.not_mem_nil
  | cons item rest ih =>
      rw [List.foldlM_cons] at checked
      obtain ⟨middle, now, later⟩ := ok_of_bind _ _ _ checked
      have here := each item List.mem_cons_self r middle now
      have after := ih (fun other member => each other (List.mem_cons_of_mem item member)) later
      exact (here.trans after).congr List.forall_mem_cons.symm

theorem forall_mem_zipIdx {α : Type} (items : List α) (holds : α → Prop) :
    (∀ entry ∈ items.zipIdx, holds entry.1) ↔ ∀ item ∈ items, holds item := by
  conv_rhs => rw [← List.zipIdx_map_fst 0 items]
  exact List.forall_mem_map.symm

/-- Nothing was complained of exactly where the report stays good. -/
theorem Judged.success (judged : Judged path first {} s) :
    (s.success = true ↔ first) ∧ (s.success = true ↔ s.errors = []) ∧
      ∀ message ∈ s.errors, path <+: message := by
  obtain ⟨complaints, rfl, below, none⟩ := judged
  have good : (ValidationReport.extend {} complaints).success = true ↔ complaints = [] := by
    rw [ValidationReport.extend, Bool.true_and, List.isEmpty_iff]
  have errors : (ValidationReport.extend {} complaints).errors = complaints := List.nil_append _
  rw [errors]
  exact ⟨good.trans none, good, below⟩

end Judged

/-- What the keywords that look at one node alone demand of it. There is no `uniqueItems` among
them. -/
structure AdmitsHere (p : Platform) (schema : Fields) (node : Value) : Prop where
  type : ∀ t, schema.lookup (ascii "type") = some t →
    isTypeNamed node t = true ∨
      ∃ names, t = .array names ∧ ∃ name ∈ names, isTypeNamed node name = true
  enum : ∀ e, schema.lookup (ascii "enum") = some e →
    ∃ items, e = .array items ∧ ∃ v ∈ items, valueEquals p.toFloating v node = true
  const : ∀ v, schema.lookup (ascii "const") = some v → valueEquals p.toFloating v node = true
  minLength : ∀ text, node = .string text → ∀ bound,
    (schema.lookup (ascii "minLength")).bind asSize = some bound → bound ≤ text.length
  maxLength : ∀ text, node = .string text → ∀ bound,
    (schema.lookup (ascii "maxLength")).bind asSize = some bound → text.length ≤ bound
  pattern : ∀ text, node = .string text → ∀ pattern,
    schema.lookup (ascii "pattern") = some (.string pattern) → p.regexSearch pattern text = .ok true
  required : ∀ names fields, schema.lookup (ascii "required") = some (.array names) →
    node = .object fields → ∀ name ∈ names, ∃ text, name = .string text ∧
      (fields.lookup text).isSome = true
  additional : ∀ props fields, schema.lookup (ascii "properties") = some (.object props) →
    node = .object fields → schema.lookup (ascii "additionalProperties") = some (.bool false) →
    ∀ field ∈ fields, (props.lookup field.1).isSome = true
  minItems : ∀ items, node = .array items → ∀ bound,
    (schema.lookup (ascii "minItems")).bind asSize = some bound → bound ≤ items.length
  maxItems : ∀ items, node = .array items → ∀ bound,
    (schema.lookup (ascii "maxItems")).bind asSize = some bound → items.length ≤ bound
  minimum : ∀ v, asDouble p.toFloating node = some v → ∀ m,
    (schema.lookup (ascii "minimum")).bind (asDouble p.toFloating) = some m → p.less v m = false
  maximum : ∀ v, asDouble p.toFloating node = some v → ∀ m,
    (schema.lookup (ascii "maximum")).bind (asDouble p.toFloating) = some m → p.less m v = false

/-- What a schema demands of a node, with what its sub-schemas demand of the nodes inside. -/
inductive Admits (p : Platform) : Fields → Value → Prop
  | node (schema : Fields) (node : Value) (here : AdmitsHere p schema node)
      (properties : ∀ props fields, schema.lookup (ascii "properties") = some (.object props) →
        node = .object fields → ∀ name sub member, (name, Value.object sub) ∈ props →
        fields.lookup name = some member → Admits p sub member)
      (items : ∀ sub items, schema.lookup (ascii "items") = some (.object sub) →
        node = .array items → ∀ item ∈ items, Admits p sub item)
      (tuple : ∀ subs items, schema.lookup (ascii "items") = some (.array subs) →
        node = .array items → ∀ sub item, (Value.object sub, item) ∈ subs.zip items →
        Admits p sub item)
      (allOf : ∀ subs, schema.lookup (ascii "allOf") = some (.array subs) →
        ∀ sub, Value.object sub ∈ subs → Admits p sub node) :
      Admits p schema node

section Checks

variable (p : Platform) (schema : Fields) (node : Value) (path : Bytes) (r : ValidationReport)

theorem judged_checkType :
    Judged path (∀ t, schema.lookup (ascii "type") = some t →
      isTypeNamed node t = true ∨
        ∃ names, t = .array names ∧ ∃ name ∈ names, isTypeNamed node name = true)
      r (checkType schema node path r) := by
  unfold checkType
  cases schema.lookup (ascii "type") with
  | none => exact judged_pass (by simp)
  | some t =>
      cases t with
      | string name => exact (judged_ite (isType node name) _).congr (by simp [isTypeNamed])
      | array names =>
          exact (judged_ite (names.any (isTypeNamed node)) _).congr (by simp [isTypeNamed])
      | _ =>
          have one : Judged path False r
              (fail r (path ++ ascii ": schema.type must be string or string[]")) :=
            judged_fail _ not_false
          exact (one.trans (judged_fail _ not_false)).congr (by simp [isTypeNamed])

theorem judged_checkEnum :
    Judged path (∀ e, schema.lookup (ascii "enum") = some e →
      ∃ items, e = .array items ∧ ∃ v ∈ items, valueEquals p.toFloating v node = true)
      r (checkEnum p schema node path r) := by
  unfold checkEnum
  cases schema.lookup (ascii "enum") with
  | none => exact judged_pass (by simp)
  | some e =>
      refine (judged_ite _ _).congr ?_
      cases e with
      | array items => simp
      | _ => simp

theorem judged_checkConst :
    Judged path (∀ v, schema.lookup (ascii "const") = some v →
      valueEquals p.toFloating v node = true) r (checkConst p schema node path r) := by
  unfold checkConst
  cases schema.lookup (ascii "const") with
  | none => exact judged_pass (by simp)
  | some v => exact (judged_ite _ _).congr (by simp)

theorem judged_checkCount (keyword : Bytes) (violated : Nat → Nat → Bool) (message : Bytes)
    (count : Nat) :
    Judged path (∀ bound, (schema.lookup keyword).bind asSize = some bound →
      violated count bound = false) r
      (checkCount schema path r keyword violated message count) := by
  unfold checkCount
  cases (schema.lookup keyword).bind asSize with
  | none => exact judged_pass (by simp)
  | some bound => exact (judged_unless (violated count bound) message).congr (by simp)

theorem judged_checkBound (keyword : Bytes) (violated : UInt64 → UInt64 → Bool) (message : Bytes)
    (v : UInt64) :
    Judged path (∀ m, (schema.lookup keyword).bind (asDouble p.toFloating) = some m →
      violated v m = false) r (checkBound p schema path keyword violated message v r) := by
  unfold checkBound
  cases (schema.lookup keyword).bind (asDouble p.toFloating) with
  | none => exact judged_pass (by simp)
  | some m => exact (judged_unless (violated v m) message).congr (by simp)

theorem judged_checkRequired :
    Judged path (∀ names fields, schema.lookup (ascii "required") = some (.array names) →
      node = .object fields → ∀ name ∈ names, ∃ text, name = .string text ∧
        (fields.lookup text).isSome = true) r (checkRequired schema node path r) := by
  unfold checkRequired
  split
  · rename_i names fields listed
    rw [listed]
    have each (name : Value) (r : ValidationReport) :
        Judged path (∃ text, name = .string text ∧ (fields.lookup text).isSome = true) r
          (checkRequiredName path fields r name) := by
      cases name with
      | string text =>
          rw [checkRequiredName, List.append_assoc, List.append_assoc]
          exact (judged_ite _ _).congr (by simp)
      | _ => exact judged_fail _ (by simp)
    exact (judged_foldl _ _ names fun name _ => each name).congr (by simp)
  · rename_i other
    apply judged_pass
    intro names fields listed shape
    exact absurd shape (other names fields listed)

theorem judged_checkAdditional (props fields : Fields) :
    Judged path (schema.lookup (ascii "additionalProperties") = some (.bool false) →
      ∀ field ∈ fields, (props.lookup field.1).isSome = true) r
      (checkAdditional schema path props fields r) := by
  unfold checkAdditional
  split
  · rename_i closed
    rw [closed]
    refine (judged_foldl (fun field => (props.lookup field.1).isSome = true) _ fields ?_).congr
      (by simp)
    intro field _ r
    rw [List.append_assoc, List.append_assoc]
    exact judged_ite _ _
  · rename_i open_
    apply judged_pass
    intro closed
    exact absurd closed open_

theorem judged_checkItemCount :
    Judged path ((∀ items, node = .array items → ∀ bound,
        (schema.lookup (ascii "minItems")).bind asSize = some bound → bound ≤ items.length) ∧
      ∀ items, node = .array items → ∀ bound,
        (schema.lookup (ascii "maxItems")).bind asSize = some bound → items.length ≤ bound)
      r (checkItemCount schema node path r) := by
  cases node with
  | array items =>
      have least := judged_checkCount schema path r (ascii "minItems") (· < ·)
        (ascii ": minItems violated") items.length
      have both := least.trans (judged_checkCount schema path _ (ascii "maxItems") (· > ·)
        (ascii ": maxItems violated") items.length)
      exact both.congr (by simp)
  | _ => exact judged_pass (by simp)

variable {node path r} {s : ValidationReport}

theorem judged_checkString (checked : checkString p schema node path r = .ok s) :
    Judged path ((∀ text, node = .string text → ∀ bound,
        (schema.lookup (ascii "minLength")).bind asSize = some bound → bound ≤ text.length) ∧
      (∀ text, node = .string text → ∀ bound,
        (schema.lookup (ascii "maxLength")).bind asSize = some bound → text.length ≤ bound) ∧
      ∀ text, node = .string text → ∀ pattern,
        schema.lookup (ascii "pattern") = some (.string pattern) →
        p.regexSearch pattern text = .ok true) r s := by
  cases node with
  | string text =>
      have least := judged_checkCount schema path r (ascii "minLength") (· < ·)
        (ascii ": minLength violated") text.length
      have lengths := least.trans (judged_checkCount schema path _ (ascii "maxLength") (· > ·)
        (ascii ": maxLength violated") text.length)
      rw [checkString] at checked
      split at checked
      · rename_i pattern listed
        cases searched : p.regexSearch pattern text with
        | error thrown =>
            rw [searched] at checked
            cases checked
        | ok found =>
            rw [searched] at checked
            cases checked
            have matched := lengths.trans (judged_ite found (ascii ": pattern mismatch"))
            exact matched.congr (by simp [listed, searched, and_assoc])
      · rename_i other
        cases checked
        have unlisted (pattern : Bytes) :
            schema.lookup (ascii "pattern") ≠ some (.string pattern) := other pattern
        exact lengths.congr (by simp [unlisted])
  | _ =>
      cases checked
      exact judged_pass (by simp)

theorem judged_checkNumber (checked : checkNumber p schema node path r = .ok s) :
    Judged path ((∀ v, asDouble p.toFloating node = some v → ∀ m,
        (schema.lookup (ascii "minimum")).bind (asDouble p.toFloating) = some m →
        p.less v m = false) ∧
      ∀ v, asDouble p.toFloating node = some v → ∀ m,
        (schema.lookup (ascii "maximum")).bind (asDouble p.toFloating) = some m →
        p.less m v = false) r s := by
  unfold checkNumber at checked
  cases number : asDouble p.toFloating node with
  | none =>
      rw [number] at checked
      cases checked
      exact judged_pass (by simp)
  | some v =>
      rw [number] at checked
      have least := judged_checkBound p schema path r (ascii "minimum") p.less
        (ascii ": minimum violated") v
      have both := least.trans (judged_checkBound p schema path _ (ascii "maximum")
        (fun v m => p.less m v) (ascii ": maximum violated") v)
      dsimp only at checked
      split at checked
      · cases checked
      · cases checked
        exact both.congr (by simp)

end Checks

section Nested

variable (p : Platform) (validate : NodeCheck) (schema : Fields)

/-- A check of sub-schemas that is right about the schemas inside this one. -/
def JudgesBelow : Prop :=
  ∀ sub : Fields, fieldsDepth sub < fieldsDepth schema → ∀ node path r s,
    validate sub node path r = .ok s → Judged path (Admits p sub node) r s

variable {p validate schema} (below : JudgesBelow p validate schema) {node : Value} {path : Bytes}
  {r s : ValidationReport}

include below

theorem judged_checkProperties (checked : checkProperties validate schema node path r = .ok s) :
    Judged path ((∀ props fields, schema.lookup (ascii "properties") = some (.object props) →
        node = .object fields → ∀ name sub member, (name, Value.object sub) ∈ props →
        fields.lookup name = some member → Admits p sub member) ∧
      ∀ props fields, schema.lookup (ascii "properties") = some (.object props) →
        node = .object fields → schema.lookup (ascii "additionalProperties") = some (.bool false) →
        ∀ field ∈ fields, (props.lookup field.1).isSome = true) r s := by
  unfold checkProperties at checked
  split at checked
  · rename_i props fields listed
    have outer := lookup_depth schema _ _ listed
    cases ran : props.foldlM (checkProperty validate path fields) r with
    | error thrown =>
        rw [ran] at checked
        cases checked
    | ok middle =>
        rw [ran] at checked
        cases checked
        have members : Judged path (∀ property ∈ props, ∀ sub member, property.2 = .object sub →
            fields.lookup property.1 = some member → Admits p sub member) r middle := by
          refine judged_foldlM _ _ _ ?_ ran
          rintro ⟨name, value⟩ listed r s checked
          have inner := mem_fieldsDepth props _ listed
          rw [checkProperty] at checked
          split at checked
          · rename_i sub member shape found
            cases shape
            simp only [Value.depth] at outer inner
            rw [List.append_assoc] at checked
            have judged := (below sub (by omega) _ _ _ _ checked).inside
            exact judged.congr (by simp [found])
          · rename_i other
            cases checked
            apply judged_pass
            intro sub member shape found
            exact (other sub member shape found).elim
        have closed := members.trans (judged_checkAdditional schema path middle props fields)
        refine closed.congr ?_
        rw [listed]
        constructor
        · rintro ⟨each, rest⟩
          refine ⟨?_, ?_⟩
          · rintro _ _ ⟨⟩ ⟨⟩ name sub member listed found
            exact each _ listed sub member rfl found
          · rintro _ _ ⟨⟩ ⟨⟩
            exact rest
        · rintro ⟨each, rest⟩
          refine ⟨?_, rest props fields rfl rfl⟩
          rintro ⟨name, value⟩ listed sub member ⟨⟩ found
          exact each props fields rfl rfl name sub member listed found
  · rename_i other
    cases checked
    apply judged_pass
    refine ⟨?_, ?_⟩
    · intro props fields listed shape
      exact (other props fields listed shape).elim
    · intro props fields listed shape
      exact (other props fields listed shape).elim

theorem judged_checkItems (checked : checkItems validate schema node path r = .ok s) :
    Judged path ((∀ sub items, schema.lookup (ascii "items") = some (.object sub) →
        node = .array items → ∀ item ∈ items, Admits p sub item) ∧
      ∀ subs items, schema.lookup (ascii "items") = some (.array subs) →
        node = .array items → ∀ sub item, (Value.object sub, item) ∈ subs.zip items →
        Admits p sub item) r s := by
  unfold checkItems at checked
  split at checked
  · rename_i sub items listed
    have outer := lookup_depth schema _ _ listed
    simp only [Value.depth] at outer
    have each : Judged path (∀ item ∈ items.zipIdx, Admits p sub item.1) r s := by
      refine judged_foldlM _ _ _ ?_ checked
      intro item _ r s checked
      rw [itemPath, List.append_assoc, List.append_assoc] at checked
      exact (below sub (by omega) _ _ _ _ checked).inside
    rw [forall_mem_zipIdx] at each
    exact each.congr (by simp [listed])
  · rename_i subs items listed
    have outer := lookup_depth schema _ _ listed
    have each : Judged path (∀ entry ∈ (subs.zip items).zipIdx,
        ∀ sub, entry.1.1 = .object sub → Admits p sub entry.1.2) r s := by
      refine judged_foldlM _ _ _ ?_ checked
      intro entry member r s checked
      have paired := List.fst_mem_of_mem_zipIdx member
      have inner := mem_itemsDepth subs entry.1.1 (List.of_mem_zip paired).1
      split at checked
      · rename_i sub shape
        rw [shape] at inner
        simp only [Value.depth] at outer inner
        rw [itemPath, List.append_assoc, List.append_assoc] at checked
        have judged := (below sub (by omega) _ _ _ _ checked).inside
        exact judged.congr (by simp [shape])
      · rename_i other
        cases checked
        apply judged_pass
        intro sub shape
        exact (other sub shape).elim
    rw [forall_mem_zipIdx _ fun pair : Value × Value =>
      ∀ sub, pair.1 = .object sub → Admits p sub pair.2] at each
    refine each.congr ?_
    rw [listed]
    constructor
    · intro each
      refine ⟨by simp, ?_⟩
      rintro _ _ ⟨⟩ ⟨⟩ sub item member
      exact each _ member sub rfl
    · rintro ⟨-, each⟩ ⟨_, item⟩ member sub ⟨⟩
      exact each subs items rfl rfl sub item member
  · rename_i single several
    cases checked
    apply judged_pass
    refine ⟨?_, ?_⟩
    · intro sub items listed shape
      exact (single sub items listed shape).elim
    · intro subs items listed shape
      exact (several subs items listed shape).elim

theorem judged_checkAllOf (checked : checkAllOf validate schema node path r = .ok s) :
    Judged path (∀ subs, schema.lookup (ascii "allOf") = some (.array subs) →
      ∀ sub, Value.object sub ∈ subs → Admits p sub node) r s := by
  unfold checkAllOf at checked
  split at checked
  · rename_i subs listed
    have outer := lookup_depth schema _ _ listed
    have each : Judged path (∀ item ∈ subs, ∀ sub, item = .object sub → Admits p sub node) r s := by
      refine judged_foldlM _ _ _ ?_ checked
      intro item member r s checked
      have inner := mem_itemsDepth subs item member
      split at checked
      · rename_i sub
        simp only [Value.depth] at outer inner
        exact (below sub (by omega) _ _ _ _ checked).congr (by simp)
      · rename_i other
        cases checked
        apply judged_pass
        intro sub shape
        exact (other sub shape).elim
    refine each.congr ?_
    rw [listed]
    constructor
    · rintro each _ ⟨⟩ sub member
      exact each _ member sub rfl
    · rintro each _ member sub ⟨⟩
      exact each subs rfl sub member
  · rename_i other
    cases checked
    apply judged_pass
    intro subs listed
    exact (other subs listed).elim

end Nested

section Validator

variable (p : Platform)

/-- `validate_node`: where it returns, it complains unless the schema admits the node. -/
theorem judged_validateNode (fuel : Nat) (schema : Fields) (enough : fieldsDepth schema < fuel)
    (node : Value) (path : Bytes) (r s : ValidationReport)
    (checked : validateNode p fuel schema node path r = .ok s) :
    Judged path (Admits p schema node) r s := by
  induction fuel generalizing schema node path r s with
  | zero => omega
  | succ fuel ih =>
      have below : JudgesBelow p (validateNode p fuel) schema :=
        fun sub inside node path r s => ih sub (by omega) node path r s
      rw [validateNode] at checked
      obtain ⟨r1, strings, checked⟩ := ok_of_bind _ _ _ checked
      obtain ⟨r2, properties, checked⟩ := ok_of_bind _ _ _ checked
      obtain ⟨r3, items, checked⟩ := ok_of_bind _ _ _ checked
      obtain ⟨r4, numbers, checked⟩ := ok_of_bind _ _ _ checked
      have type := judged_checkType schema node path r
      have enum := type.trans (judged_checkEnum p schema node path _)
      have const := enum.trans (judged_checkConst p schema node path _)
      have string := const.trans (judged_checkString p schema strings)
      have required := string.trans (judged_checkRequired schema node path r1)
      have property := required.trans (judged_checkProperties below properties)
      have item := property.trans (judged_checkItems below items)
      have count := item.trans (judged_checkItemCount schema node path r3)
      have number := count.trans (judged_checkNumber p schema numbers)
      have all := number.trans (judged_checkAllOf below checked)
      refine all.congr ?_
      constructor
      · rintro ⟨⟨⟨⟨⟨⟨⟨⟨⟨type, enum⟩, const⟩, least, most, pattern⟩, required⟩, members, closed⟩,
          single, several⟩, fewest, largest⟩, minimum, maximum⟩, all⟩
        exact .node schema node
          ⟨type, enum, const, least, most, pattern, required, closed, fewest, largest, minimum,
            maximum⟩ members single several all
      · rintro ⟨_, _, here, members, single, several, all⟩
        exact ⟨⟨⟨⟨⟨⟨⟨⟨⟨here.type, here.enum⟩, here.const⟩, here.minLength, here.maxLength,
          here.pattern⟩, here.required⟩, members, here.additional⟩, single, several⟩,
          here.minItems, here.maxItems⟩, here.minimum, here.maximum⟩, all⟩

end Validator

end Nuperf.Serdetk
