import Nuperf.SerdeValue

set_option autoImplicit false

namespace Nuperf.JsonSchema

open ByteString Serdetk

section Types

variable (fp : Floating)

/-- A number without a fractional part. -/
def isInteger : Value → Bool
  | .int _ => true
  | .uint _ => true
  | .double bits => fp.integral bits
  | _ => false

/-- The types of JSON Schema. -/
def hasType (name : Bytes) (v : Value) : Bool :=
  if name = ascii "null" then v matches .null
  else if name = ascii "boolean" then v matches .bool _
  else if name = ascii "integer" then isInteger fp v
  else if name = ascii "number" then v matches .int _ | .uint _ | .double _
  else if name = ascii "string" then v matches .string _
  else if name = ascii "array" then v matches .array _
  else if name = ascii "object" then v matches .object _
  else false

/-- `type`, one name or a list of names. -/
def typeHolds : Value → Value → Bool
  | .string name, v => hasType fp name v
  | .array names, v => names.any fun name =>
      match name with
      | .string name => hasType fp name v
      | _ => false
  | _, _ => false

/-- `required`, which says something about objects only. -/
def requiredHolds : Value → Value → Bool
  | .array names, .object fields => names.all fun name =>
      match name with
      | .string name => (fields.lookup name).isSome
      | _ => false
  | .array _, _ => true
  | _, _ => false

end Types

/-- The members that the sibling keyword `properties` describes. -/
def describedBy (keywords : Fields) : List Bytes :=
  match keywords.lookup (ascii "properties") with
  | some (.object described) => described.map Prod.fst
  | _ => []

mutual

/-- An instance conforms to a schema, as JSON Schema 2020-12 has it, for the keywords that
apply schemas and for `type` and `required`. `$schema`, `title` and `description` hold of
every instance, and so do the keywords that the published schema does not use. -/
def conforms (fp : Floating) : Value → Value → Bool
  | .bool allowed, _ => allowed
  | .object keywords, v => keywordsHold fp (describedBy keywords) keywords v
  | _, _ => false
termination_by structural schema => schema

def keywordsHold (fp : Floating) (described : List Bytes) : List (Bytes × Value) → Value → Bool
  | [], _ => true
  | (keyword, argument) :: rest, v =>
      (if keyword = ascii "type" then typeHolds fp argument v
        else if keyword = ascii "required" then requiredHolds argument v
        else if keyword = ascii "properties" then
          match v with
          | .object fields => describedConform fp argument fields
          | _ => true
        else if keyword = ascii "additionalProperties" then
          match v with
          | .object fields => fields.all fun field =>
              decide (field.1 ∈ described) || conforms fp argument field.2
          | _ => true
        else if keyword = ascii "items" then
          match v with
          | .array items => items.all fun item => conforms fp argument item
          | _ => true
        else if keyword = ascii "allOf" then (verdicts fp argument v).all id
        else if keyword = ascii "anyOf" then (verdicts fp argument v).any id
        else if keyword = ascii "oneOf" then (verdicts fp argument v).count true == 1
        else if keyword = ascii "not" then !conforms fp argument v
        else true) &&
      keywordsHold fp described rest v
termination_by structural keywords => keywords

/-- The members that `properties` describes conform to their schemas. -/
def describedConform (fp : Floating) : Value → Fields → Bool
  | .object schemas, fields => memberConforms fp schemas fields
  | _, _ => false
termination_by structural schemas => schemas

def memberConforms (fp : Floating) : List (Bytes × Value) → Fields → Bool
  | [], _ => true
  | (name, schema) :: rest, fields =>
      (match fields.lookup name with
        | some member => conforms fp schema member
        | none => true) &&
      memberConforms fp rest fields
termination_by structural schemas => schemas

/-- Which of the listed schemas the instance conforms to. -/
def verdicts (fp : Floating) : Value → Value → List Bool
  | .array schemas, v => listVerdicts fp schemas v
  | _, _ => []
termination_by structural schemas => schemas

def listVerdicts (fp : Floating) : List Value → Value → List Bool
  | [], _ => []
  | schema :: rest, v => conforms fp schema v :: listVerdicts fp rest v
termination_by structural schemas => schemas

end

section Keywords

variable (fp : Floating) (described : List Bytes) (argument : Value) (rest : Fields) (v : Value)

theorem keywordsHold_required :
    keywordsHold fp described ((ascii "required", argument) :: rest) v =
      (requiredHolds argument v && keywordsHold fp described rest v) := rfl

theorem keywordsHold_properties (fields : Fields) :
    keywordsHold fp described ((ascii "properties", argument) :: rest) (.object fields) =
      (describedConform fp argument fields &&
        keywordsHold fp described rest (.object fields)) := rfl

theorem keywordsHold_additionalProperties (fields : Fields) :
    keywordsHold fp described ((ascii "additionalProperties", argument) :: rest) (.object fields) =
      ((fields.all fun field => decide (field.1 ∈ described) || conforms fp argument field.2) &&
        keywordsHold fp described rest (.object fields)) := rfl

theorem keywordsHold_items (items : List Value) :
    keywordsHold fp described ((ascii "items", argument) :: rest) (.array items) =
      ((items.all fun item => conforms fp argument item) &&
        keywordsHold fp described rest (.array items)) := rfl

theorem memberConforms_cons (name : Bytes) (schema : Value) (fields : Fields) :
    memberConforms fp ((name, schema) :: rest) fields =
      ((fields.lookup name).all (conforms fp schema) && memberConforms fp rest fields) := by
  rw [memberConforms]
  cases fields.lookup name <;> rfl

end Keywords

end Nuperf.JsonSchema
