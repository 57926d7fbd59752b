import Nuperf.SerdeXml

set_option autoImplicit false

namespace Nuperf.Serdetk

open ByteString Numeral CStandard TextReader OrderedMap

/-- `split_lines`. A `\r` that ends a line is dropped. -/
def splitLines (text : Bytes) : List Bytes :=
  (lines text).map fun line => if line.getLast? = some 13 then line.dropLast else line

/-- `leading_spaces`. -/
def leadingSpaces (s : Bytes) : Nat := (s.takeWhile (· == 32)).length

/-- What `skip_ignorable` passes over: blank lines and comments. -/
def isIgnorable (line : Bytes) : Bool :=
  decide (trimCopy line = [] ∨ ascii "#" <+: trimCopy line)

/-- `skip_ignorable`, on the lines from `i` on. -/
def skipIgnorable (lines : List Bytes) : List Bytes := lines.dropWhile isIgnorable

/-- `rfind("- ", 0) == 0`. -/
def isItem (text : Bytes) : Bool := decide (ascii "- " <+: text)

/-- What a turn of `parse_sequence` makes of its line: the text of an item, or none where the
sequence ends. -/
def sequenceEntry (indent : Nat) (line : Bytes) : Except CxxException (Option Bytes) :=
  let curIndent := leadingSpaces line
  if curIndent < indent then .ok none
  else if curIndent ≠ indent then .error (parseError "Invalid YAML indentation in sequence")
  else
    let item := trimCopy (line.drop curIndent)
    if isItem item then .ok (some (trimCopy (item.drop 2))) else .ok none

/-- What a turn of `parse_mapping` makes of its line: a key and the text behind its colon, or none
where the mapping ends. -/
def mappingEntry (indent : Nat) (line : Bytes) : Except CxxException (Option (Bytes × Bytes)) :=
  let curIndent := leadingSpaces line
  if curIndent < indent then .ok none
  else if curIndent ≠ indent then .error (parseError "Invalid YAML indentation in mapping")
  else
    let body := trimCopy (line.drop curIndent)
    if isItem body then .ok none
    else
      match seek [colon] body with
      | none => .error (parseError "Invalid YAML mapping entry")
      | some (key, rhs) => .ok (some (trimCopy key, trimCopy rhs))

mutual

/-- `parse_block`, with a bound on the depth of calls and the turns of loops. Twice the number of
the lines is never used up. Each part returns the lines that are left. -/
def parseBlock (stod : StodIndex) :
    Nat → Nat → List Bytes → Except CxxException (Value × List Bytes)
  | 0, _, _ => .error .foreign
  | fuel + 1, indent, lines =>
      match skipIgnorable lines with
      | [] => .ok (.null, [])
      | line :: rest =>
          if isItem (trimCopy line) then parseSequence stod fuel indent [] (line :: rest)
          else parseMapping stod fuel indent [] (line :: rest)

/-- The loop of `parse_sequence`. -/
def parseSequence (stod : StodIndex) :
    Nat → Nat → List Value → List Bytes → Except CxxException (Value × List Bytes)
  | 0, _, _, _ => .error .foreign
  | fuel + 1, indent, items, lines =>
      match skipIgnorable lines with
      | [] => .ok (.array items, [])
      | line :: rest => do
          match ← sequenceEntry indent line with
          | none => .ok (.array items, line :: rest)
          | some rhs =>
              if rhs = [] then do
                let (value, rest) ← parseBlock stod fuel (indent + 2) rest
                parseSequence stod fuel indent (items ++ [value]) rest
              else parseSequence stod fuel indent (items ++ [parseScalarToken stod rhs]) rest

/-- The loop of `parse_mapping`. -/
def parseMapping (stod : StodIndex) :
    Nat → Nat → Fields → List Bytes → Except CxxException (Value × List Bytes)
  | 0, _, _, _ => .error .foreign
  | fuel + 1, indent, obj, lines =>
      match skipIgnorable lines with
      | [] => .ok (.object obj, [])
      | line :: rest => do
          match ← mappingEntry indent line with
          | none => .ok (.object obj, line :: rest)
          | some (key, rhs) =>
              if rhs = [] then
                match skipIgnorable rest with
                | [] => parseMapping stod fuel indent (insert key .null obj) []
                | next :: more => do
                    let (value, rest) ←
                      if isItem (trimCopy next) ∧ leadingSpaces next = indent then
                        parseSequence stod fuel indent [] (next :: more)
                      else parseBlock stod fuel (indent + 2) (next :: more)
                    parseMapping stod fuel indent (insert key value obj) rest
              else
                parseMapping stod fuel indent (insert key (parseScalarToken stod rhs) obj) rest

end

/-- `parse_yaml_basic`. The lines that are left are not looked at. -/
def parseYamlBasic (stod : StodIndex) (text : Bytes) : Except CxxException Value := do
  let lines := splitLines text
  let (root, _) ← parseBlock stod (2 * lines.length + 2) 0 lines
  .ok root

def yamlIndent (depth : Nat) : Bytes := (List.replicate depth (ascii "  ")).flatten

def isNested : Value → Bool
  | .object _ => true
  | .array _ => true
  | _ => false

mutual

/-- `emit_yaml_value`. -/
def emitYamlValue (fp : Floating) : Value → Nat → Bytes
  | .null, _ => ascii "null"
  | .bool value, _ => if value then ascii "true" else ascii "false"
  | .int value, _ => signedDecimal value.toInt
  | .uint value, _ => decimal value.toNat
  | .double bits, _ => fp.print bits
  | .string text, _ => text
  | .binary bytes, _ => ascii "<binary:" ++ decimal bytes.length ++ ascii ">"
  | .array items, depth => emitYamlItems fp items depth
  | .object fields, depth => emitYamlFields fp fields depth

def emitYamlItems (fp : Floating) : List Value → Nat → Bytes
  | [], _ => []
  | item :: rest, depth =>
      yamlIndent depth ++ ascii "- " ++
        (if isNested item then 10 :: emitYamlValue fp item (depth + 1)
        else emitYamlValue fp item depth ++ [10]) ++ emitYamlItems fp rest depth

def emitYamlFields (fp : Floating) : List (Bytes × Value) → Nat → Bytes
  | [], _ => []
  | (name, value) :: rest, depth =>
      yamlIndent depth ++ name ++ [colon] ++
        (if isNested value then 10 :: emitYamlValue fp value (depth + 1)
        else 32 :: emitYamlValue fp value depth ++ [10]) ++ emitYamlFields fp rest depth

end

end Nuperf.Serdetk
