import Nuperf.SerdeJson

set_option autoImplicit false

namespace Nuperf.Serdetk

open ByteString Numeral CStandard

/-- What the C++ standard library does behind the validator and the loaders: its
floating-point arithmetic, and `std::regex` with `std::regex_search`. -/
structure Platform extends Floating where
  regexSearch : Bytes → Bytes → Except CxxException Bool

/-- `ValidationReport`, whose warnings no one adds and whose diagnostics no one reads. -/
structure ValidationReport where
  success : Bool := true
  errors : List Bytes := []
  deriving DecidableEq

/-- `ValidationReport::add_error`, through `fail`. -/
def fail (r : ValidationReport) (message : Bytes) : ValidationReport :=
  ⟨false, r.errors ++ [message]⟩

/-- `ValidationReport::print`. -/
def ValidationReport.print (r : ValidationReport) : Bytes :=
  (if r.success then ascii "valid" else ascii "invalid") ++ ascii "\n" ++
    r.errors.flatMap fun e => ascii "error: " ++ e ++ ascii "\n"

mutual

/-- `value_equals`. -/
def valueEquals (fp : Floating) : Value → Value → Bool
  | .null, .null => true
  | .bool a, .bool b => a == b
  | .int a, .int b => a == b
  | .uint a, .uint b => a == b
  | .double a, .double b => fp.equal a b
  | .string a, .string b => a == b
  | .binary a, .binary b => a == b
  | .array x, .array y => itemsEqual fp x y
  | .object x, .object y => x.length == y.length && fieldsEqual fp x y
  | _, _ => false

def itemsEqual (fp : Floating) : List Value → List Value → Bool
  | [], [] => true
  | a :: x, b :: y => valueEquals fp a b && itemsEqual fp x y
  | _, _ => false

def fieldsEqual (fp : Floating) : List (Bytes × Value) → List (Bytes × Value) → Bool
  | [], _ => true
  | (key, a) :: rest, y =>
      (match y.lookup key with
        | some b => valueEquals fp a b
        | none => false) && fieldsEqual fp rest y

end

/-- `is_type`. -/
def isType (v : Value) (t : Bytes) : Bool :=
  if t = ascii "null" then v matches .null
  else if t = ascii "boolean" then v matches .bool _
  else if t = ascii "integer" then v matches .int _ | .uint _
  else if t = ascii "number" then v matches .int _ | .uint _ | .double _
  else if t = ascii "string" then v matches .string _
  else if t = ascii "object" then v matches .object _
  else if t = ascii "array" then v matches .array _
  else false

def isTypeNamed (v : Value) : Value → Bool
  | .string t => isType v t
  | _ => false

/-- A bound given as an integer, converted to `size_t`. -/
def asSize : Value → Option Nat
  | .int n => some (n.toInt % 2 ^ 64).toNat
  | .uint n => some n.toNat
  | _ => none

/-- A number converted to `double`. -/
def asDouble (fp : Floating) : Value → Option UInt64
  | .double bits => some bits
  | .int n => some (fp.ofInt64 n)
  | .uint n => some (fp.ofUInt64 n)
  | _ => none

/-- The sub-schema check that the keywords below call back. -/
abbrev NodeCheck := Fields → Value → Bytes → ValidationReport → Except CxxException ValidationReport

section Keywords

variable (p : Platform) (validate : NodeCheck) (schema : Fields) (node : Value) (path : Bytes)
  (r : ValidationReport)

def checkType : ValidationReport :=
  match schema.lookup (ascii "type") with
  | none => r
  | some (.string t) => if isType node t then r else fail r (path ++ ascii ": type mismatch")
  | some (.array items) =>
      if items.any (isTypeNamed node) then r else fail r (path ++ ascii ": type mismatch")
  | some _ =>
      fail (fail r (path ++ ascii ": schema.type must be string or string[]"))
        (path ++ ascii ": type mismatch")

def checkEnum : ValidationReport :=
  match schema.lookup (ascii "enum") with
  | none => r
  | some e =>
      let found := match e with
        | .array items => items.any fun v => valueEquals p.toFloating v node
        | _ => false
      if found then r else fail r (path ++ ascii ": enum mismatch")

def checkConst : ValidationReport :=
  match schema.lookup (ascii "const") with
  | none => r
  | some v =>
      if valueEquals p.toFloating v node then r else fail r (path ++ ascii ": const mismatch")

/-- A bound on a count, given by a keyword that is ignored unless it is an integer. -/
def checkCount (keyword : Bytes) (violated : Nat → Nat → Bool) (message : Bytes) (count : Nat) :
    ValidationReport :=
  match (schema.lookup keyword).bind asSize with
  | none => r
  | some bound => if violated count bound then fail r (path ++ message) else r

def checkString : Except CxxException ValidationReport :=
  match node with
  | .string text =>
      let r := checkCount schema path r (ascii "minLength") (· < ·) (ascii ": minLength violated")
        text.length
      let r := checkCount schema path r (ascii "maxLength") (· > ·) (ascii ": maxLength violated")
        text.length
      match schema.lookup (ascii "pattern") with
      | some (.string pattern) =>
          (p.regexSearch pattern text).map fun found =>
            if found then r else fail r (path ++ ascii ": pattern mismatch")
      | _ => .ok r
  | _ => .ok r

def checkRequiredName (fields : Fields) (r : ValidationReport) (name : Value) : ValidationReport :=
  match name with
  | .string name =>
      if (fields.lookup name).isSome then r
      else fail r (path ++ ascii "." ++ name ++ ascii ": missing required property")
  | _ => fail r (path ++ ascii ": required entry must be string")

def checkRequired : ValidationReport :=
  match schema.lookup (ascii "required"), node with
  | some (.array names), .object fields => names.foldl (checkRequiredName path fields) r
  | _, _ => r

/-- One entry of `properties`. -/
def checkProperty (fields : Fields) (r : ValidationReport) (property : Bytes × Value) :
    Except CxxException ValidationReport :=
  match property.2, fields.lookup property.1 with
  | .object sub, some member => validate sub member (path ++ ascii "." ++ property.1) r
  | _, _ => .ok r

def checkAdditional (props fields : Fields) (r : ValidationReport) : ValidationReport :=
  match schema.lookup (ascii "additionalProperties") with
  | some (.bool false) =>
      fields.foldl (fun r field =>
        if (props.lookup field.1).isSome then r
        else fail r (path ++ ascii "." ++ field.1 ++ ascii ": additional property not allowed")) r
  | _ => r

/-- `properties`, and with it `additionalProperties`. -/
def checkProperties : Except CxxException ValidationReport :=
  match schema.lookup (ascii "properties"), node with
  | some (.object props), .object fields =>
      (props.foldlM (checkProperty validate path fields) r).map
        (checkAdditional schema path props fields)
  | _, _ => .ok r

def itemPath (index : Nat) : Bytes := path ++ ascii "[" ++ decimal index ++ ascii "]"

/-- `items`, one schema for all items or one for each position. -/
def checkItems : Except CxxException ValidationReport :=
  match schema.lookup (ascii "items"), node with
  | some (.object sub), .array items =>
      items.zipIdx.foldlM (fun r item => validate sub item.1 (itemPath path item.2) r) r
  | some (.array subs), .array items =>
      (subs.zip items).zipIdx.foldlM (fun r entry =>
        match entry.1.1 with
        | .object sub => validate sub entry.1.2 (itemPath path entry.2) r
        | _ => .ok r) r
  | _, _ => .ok r

def checkItemCount : ValidationReport :=
  match node with
  | .array items =>
      let r := checkCount schema path r (ascii "minItems") (· < ·) (ascii ": minItems violated")
        items.length
      checkCount schema path r (ascii "maxItems") (· > ·) (ascii ": maxItems violated") items.length
  | _ => r

def checkBound (keyword : Bytes) (violated : UInt64 → UInt64 → Bool) (message : Bytes)
    (v : UInt64) (r : ValidationReport) : ValidationReport :=
  match (schema.lookup keyword).bind (asDouble p.toFloating) with
  | none => r
  | some m => if violated v m then fail r (path ++ message) else r

/-- The checks on numbers. `uniqueItems` stands here, and reads the number as an array. -/
def checkNumber : Except CxxException ValidationReport :=
  match asDouble p.toFloating node with
  | none => .ok r
  | some v =>
      let r := checkBound p schema path (ascii "minimum") p.less (ascii ": minimum violated") v r
      let r := checkBound p schema path (ascii "maximum") (fun v m => p.less m v)
        (ascii ": maximum violated") v r
      match schema.lookup (ascii "uniqueItems") with
      | some (.bool true) => .error (.standard (ascii "std::get: wrong index for variant"))
      | _ => .ok r

def checkAllOf : Except CxxException ValidationReport :=
  match schema.lookup (ascii "allOf") with
  | some (.array subs) =>
      subs.foldlM (fun r sub =>
        match sub with
        | .object sub => validate sub node path r
        | _ => .ok r) r
  | _ => .ok r

end Keywords

/-- `validate_node`, with a bound on the depth of calls. The depth of the schema is never
used up. -/
def validateNode (p : Platform) : Nat → NodeCheck
  | 0, _, _, _, r => .ok r
  | fuel + 1, schema, node, path, r => do
      let r := checkType schema node path r
      let r := checkEnum p schema node path r
      let r := checkConst p schema node path r
      let r ← checkString p schema node path r
      let r := checkRequired schema node path r
      let r ← checkProperties (validateNode p fuel) schema node path r
      let r ← checkItems (validateNode p fuel) schema node path r
      let r := checkItemCount schema node path r
      let r ← checkNumber p schema node path r
      checkAllOf (validateNode p fuel) schema node path r

mutual

def Value.depth : Value → Nat
  | .array items => itemsDepth items + 1
  | .object fields => fieldsDepth fields + 1
  | _ => 0

def itemsDepth : List Value → Nat
  | [] => 0
  | item :: rest => max item.depth (itemsDepth rest)

def fieldsDepth : List (Bytes × Value) → Nat
  | [] => 0
  | (_, value) :: rest => max value.depth (fieldsDepth rest)

end

/-- `Validator::validate`. -/
def validatorValidate (p : Platform) (schema root : Value) : Except CxxException ValidationReport :=
  match schema with
  | .object fields => validateNode p schema.depth fields root (ascii "$") {}
  | _ => .ok ⟨false, [ascii "Schema root must be object"]⟩

theorem lookup_depth (fields : Fields) (key : Bytes) (value : Value)
    (found : fields.lookup key = some value) : value.depth ≤ fieldsDepth fields := by
  induction fields with
  | nil => cases found
  | cons field rest ih =>
      obtain ⟨name, member⟩ := field
      rw [fieldsDepth]
      rw [List.lookup_cons] at found
      by_cases same : (key == name) = true
      · simp only [same, Option.some.injEq] at found
        rw [found]
        exact Nat.le_max_left _ _
      · simp only [same] at found
        exact Nat.le_trans (ih found) (Nat.le_max_right _ _)

theorem mem_fieldsDepth (fields : Fields) (field : Bytes × Value) (member : field ∈ fields) :
    field.2.depth ≤ fieldsDepth fields := by
  induction fields with
  | nil => cases member
  | cons first rest ih =>
      rw [fieldsDepth]
      rcases List.mem_cons.mp member with rfl | later
      · exact Nat.le_max_left _ _
      · exact Nat.le_trans (ih later) (Nat.le_max_right _ _)

theorem mem_itemsDepth (items : List Value) (item : Value) (member : item ∈ items) :
    item.depth ≤ itemsDepth items := by
  induction items with
  | nil => cases member
  | cons first rest ih =>
      rw [itemsDepth]
      rcases List.mem_cons.mp member with rfl | later
      · exact Nat.le_max_left _ _
      · exact Nat.le_trans (ih later) (Nat.le_max_right _ _)

theorem foldlM_congr {ε α β : Type} (items : List α) (f g : β → α → Except ε β)
    (same : ∀ item ∈ items, ∀ r, f r item = g r item) (r : β) :
    items.foldlM f r = items.foldlM g r := by
  induction items generalizing r with
  | nil => rfl
  | cons item rest ih =>
      rw [List.foldlM_cons, List.foldlM_cons, same item List.mem_cons_self r]
      exact bind_congr fun next =>
        ih (fun later member => same later (List.mem_cons_of_mem item member)) next

section Fuel

variable (p : Platform) (left right : NodeCheck) (schema : Fields) (node : Value) (path : Bytes)
  (r : ValidationReport)

/-- Two sub-schema checks that agree on the schemas inside this one. -/
def AgreeBelow : Prop :=
  ∀ sub : Fields, fieldsDepth sub < fieldsDepth schema → left sub = right sub

variable {left right schema} (agree : AgreeBelow left right schema)

include agree

theorem checkProperties_congr :
    checkProperties left schema node path r = checkProperties right schema node path r := by
  unfold checkProperties
  cases found : schema.lookup (ascii "properties") with
  | none => rfl
  | some props =>
      have outer := lookup_depth schema _ props found
      cases props with
      | object props =>
          cases node with
          | object fields =>
              apply congrArg (Except.map _)
              apply foldlM_congr
              intro property member r
              have inner := mem_fieldsDepth props property member
              unfold checkProperty
              obtain ⟨name, sub⟩ := property
              cases sub with
              | object sub =>
                  simp only [Value.depth] at outer inner
                  have same : left sub = right sub := agree sub (by omega)
                  cases fields.lookup name with
                  | none => rfl
                  | some value => simp only [same]
              | _ => rfl
          | _ => rfl
      | _ => rfl

theorem checkItems_congr :
    checkItems left schema node path r = checkItems right schema node path r := by
  unfold checkItems
  cases found : schema.lookup (ascii "items") with
  | none => rfl
  | some items =>
      have outer := lookup_depth schema _ items found
      cases items with
      | object sub =>
          simp only [Value.depth] at outer
          have same : left sub = right sub := agree sub (by omega)
          cases node with
          | array items => simp only [same]
          | _ => rfl
      | array subs =>
          cases node with
          | array items =>
              apply foldlM_congr
              intro entry member r
              have paired := List.fst_mem_of_mem_zipIdx member
              have inner := mem_itemsDepth subs entry.1.1 (List.of_mem_zip paired).1
              cases shape : entry.1.1 with
              | object sub =>
                  simp only [shape, Value.depth] at outer inner
                  have same : left sub = right sub := agree sub (by omega)
                  simp only [same]
              | _ => rfl
          | _ => rfl
      | _ => rfl

theorem checkAllOf_congr :
    checkAllOf left schema node path r = checkAllOf right schema node path r := by
  unfold checkAllOf
  cases found : schema.lookup (ascii "allOf") with
  | none => rfl
  | some subs =>
      have outer := lookup_depth schema _ subs found
      cases subs with
      | array subs =>
          apply foldlM_congr
          intro sub member r
          have inner := mem_itemsDepth subs sub member
          cases sub with
          | object sub =>
              simp only [Value.depth] at outer inner
              have same : left sub = right sub := agree sub (by omega)
              simp only [same]
          | _ => rfl
      | _ => rfl

end Fuel

/-- Above the depth of the schema, the bound on the depth of calls does not matter. -/
theorem validateNode_fuel (p : Platform) (fuel other : Nat) (schema : Fields)
    (enough : fieldsDepth schema < fuel) (otherEnough : fieldsDepth schema < other) :
    validateNode p fuel schema = validateNode p other schema := by
  induction fuel generalizing other schema with
  | zero => omega
  | succ fuel ih =>
      obtain ⟨other, rfl⟩ := Nat.exists_eq_add_of_le' (show 1 ≤ other by omega)
      have agree : AgreeBelow (validateNode p fuel) (validateNode p other) schema :=
        fun sub below => ih other sub (by omega) (by omega)
      funext node path r
      simp only [validateNode, checkProperties_congr _ _ _ agree, checkItems_congr _ _ _ agree,
        checkAllOf_congr _ _ _ agree]

section Ignored

/-- The keywords that are read at a node. `additionalProperties` is read next to `properties`
only. -/
def interpretedKeywords : List Bytes :=
  [ascii "type", ascii "enum", ascii "const", ascii "minLength", ascii "maxLength",
    ascii "pattern", ascii "required", ascii "properties", ascii "items", ascii "minItems",
    ascii "maxItems", ascii "minimum", ascii "maximum", ascii "uniqueItems", ascii "allOf"]

variable (p : Platform) (schema : Fields) (node : Value) (path : Bytes) (r : ValidationReport)

theorem checkCount_absent (keyword : Bytes) (violated : Nat → Nat → Bool) (message : Bytes)
    (count : Nat) (absent : schema.lookup keyword = none) :
    checkCount schema path r keyword violated message count = r := by
  rw [checkCount, absent, Option.bind_none]

theorem checkBound_absent (keyword : Bytes) (violated : UInt64 → UInt64 → Bool) (message : Bytes)
    (v : UInt64) (absent : schema.lookup keyword = none) :
    checkBound p schema path keyword violated message v r = r := by
  rw [checkBound, absent, Option.bind_none]

variable {schema} (absent : ∀ keyword ∈ interpretedKeywords, schema.lookup keyword = none)

include absent

theorem checkString_absent : checkString p schema node path r = .ok r := by
  have noMinimum := absent (ascii "minLength") (by decide)
  have noMaximum := absent (ascii "maxLength") (by decide)
  have noPattern := absent (ascii "pattern") (by decide)
  cases node with
  | string text =>
      simp only [checkString, noPattern, checkCount_absent _ _ _ _ _ _ _ noMinimum,
        checkCount_absent _ _ _ _ _ _ _ noMaximum]
  | _ => rfl

theorem checkItemCount_absent : checkItemCount schema node path r = r := by
  have noMinimum := absent (ascii "minItems") (by decide)
  have noMaximum := absent (ascii "maxItems") (by decide)
  cases node with
  | array items =>
      simp only [checkItemCount, checkCount_absent _ _ _ _ _ _ _ noMinimum,
        checkCount_absent _ _ _ _ _ _ _ noMaximum]
  | _ => rfl

theorem checkNumber_absent : checkNumber p schema node path r = .ok r := by
  have noMinimum := absent (ascii "minimum") (by decide)
  have noMaximum := absent (ascii "maximum") (by decide)
  have noUnique := absent (ascii "uniqueItems") (by decide)
  unfold checkNumber
  cases asDouble p.toFloating node with
  | none => rfl
  | some v =>
      simp only [noUnique, checkBound_absent _ _ _ _ _ _ _ _ noMinimum,
        checkBound_absent _ _ _ _ _ _ _ _ noMaximum]

/-- A node whose schema has none of these keywords passes. -/
theorem validateNode_ignores (fuel : Nat) :
    validateNode p (fuel + 1) schema node path r = .ok r := by
  have noType := absent (ascii "type") (by decide)
  have noEnum := absent (ascii "enum") (by decide)
  have noConst := absent (ascii "const") (by decide)
  have noRequired := absent (ascii "required") (by decide)
  have noProperties := absent (ascii "properties") (by decide)
  have noItems := absent (ascii "items") (by decide)
  have noAllOf := absent (ascii "allOf") (by decide)
  simp only [validateNode, checkType, noType, checkEnum, noEnum, checkConst, noConst,
    checkString_absent p node path _ absent, checkRequired, noRequired, checkProperties,
    noProperties, checkItems, noItems, checkItemCount_absent node path _ absent,
    checkNumber_absent p node path _ absent, checkAllOf, noAllOf, bind, Except.bind]

end Ignored

end Nuperf.Serdetk
