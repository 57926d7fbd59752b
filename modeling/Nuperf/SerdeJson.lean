import Nuperf.Library.TextReader
import Nuperf.SerdeValue

set_option autoImplicit false

namespace Nuperf.Serdetk

open ByteString Numeral CStandard TextReader OrderedMap

def quote : UInt8 := 34
def comma : UInt8 := 44
def minus : UInt8 := 45
def dot : UInt8 := 46
def zero : UInt8 := 48
def colon : UInt8 := 58
def openBracket : UInt8 := 91
def backslash : UInt8 := 92
def closeBracket : UInt8 := 93
def openBrace : UInt8 := 123
def closeBrace : UInt8 := 125

def parseError (what : String) : CxxException := .standard (ascii what)

/-- `skip_ws`. -/
def skipWs (text : Bytes) : Bytes := text.dropWhile isSpace

/-- `consume`. -/
def consume (expected : UInt8) (text : Bytes) : Except CxxException Bytes :=
  match literal [expected] text with
  | some rest => .ok rest
  | none => .error (parseError "Unexpected JSON character")

/-- `hexv`, where `-1` is none. -/
def hexv (c : UInt8) : Option Nat :=
  if isDigit c then some (c.toNat - 48)
  else if 97 ≤ c ∧ c ≤ 102 then some (10 + (c.toNat - 97))
  else if 65 ≤ c ∧ c ≤ 70 then some (10 + (c.toNat - 65))
  else none

/-- `append_utf8`. -/
def utf8 (code : Nat) : Bytes :=
  if code ≤ 0x7F then [UInt8.ofNat code]
  else if code ≤ 0x7FF then [UInt8.ofNat (0xC0 + code / 64), UInt8.ofNat (0x80 + code % 64)]
  else if code ≤ 0xFFFF then
    [UInt8.ofNat (0xE0 + code / 4096), UInt8.ofNat (0x80 + code / 64 % 64),
      UInt8.ofNat (0x80 + code % 64)]
  else
    [UInt8.ofNat (0xF0 + code / 262144), UInt8.ofNat (0x80 + code / 4096 % 64),
      UInt8.ofNat (0x80 + code / 64 % 64), UInt8.ofNat (0x80 + code % 64)]

/-- The bytes an escape other than `\u` stands for. -/
def simpleEscape (e : UInt8) : Option UInt8 :=
  if e = quote ∨ e = backslash ∨ e = 47 then some e
  else if e = 98 then some 8
  else if e = 102 then some 12
  else if e = 110 then some 10
  else if e = 114 then some 13
  else if e = 116 then some 9
  else none

/-- `parse_string` past its opening quote. -/
def parseString : Bytes → Except CxxException (Bytes × Bytes)
  | [] => .error (parseError "Unterminated string")
  | [c] =>
      if c = quote then .ok ([], [])
      else if c = backslash then .error (parseError "Invalid escape")
      else .error (parseError "Unterminated string")
  | c :: e :: rest =>
      if c = quote then .ok ([], e :: rest)
      else if c = backslash then
        if e = 117 then
          match rest with
          | h1 :: h2 :: h3 :: h4 :: rest =>
              match hexv h1, hexv h2, hexv h3, hexv h4 with
              | some d1, some d2, some d3, some d4 => do
                  let (text, rest) ← parseString rest
                  .ok (utf8 (4096 * d1 + 256 * d2 + 16 * d3 + d4) ++ text, rest)
              | _, _, _, _ => .error (parseError "Invalid unicode escape")
          | _ => .error (parseError "Invalid unicode escape")
        else
          match simpleEscape e with
          | some byte => do
              let (text, rest) ← parseString rest
              .ok (byte :: text, rest)
          | none => .error (parseError "Unsupported JSON escape")
      else do
        let (text, rest) ← parseString (e :: rest)
        .ok (c :: text, rest)

/-- A run of digits that must not be empty. -/
def someDigits (what : String) (text : Bytes) : Except CxxException (Bytes × Bytes) :=
  let (digits, rest) := readRun isDigit text
  if digits = [] then .error (parseError what) else .ok (digits, rest)

/-- An optional byte of a number. -/
def optional (accepts : UInt8 → Bool) : Bytes → Bytes × Bytes
  | [] => ([], [])
  | c :: rest => if accepts c then ([c], rest) else ([], c :: rest)

/-- The digits in front of the point. A `0` stands alone. -/
def scanWhole (text : Bytes) : Except CxxException (Bytes × Bytes) :=
  let (leading, rest) := optional (· == zero) text
  if leading = [] then someDigits "Invalid number" rest else .ok (leading, rest)

def scanFraction (text : Bytes) : Except CxxException (Bytes × Bytes) :=
  let (point, rest) := optional (· == dot) text
  if point = [] then .ok ([], rest)
  else (someDigits "Invalid number fraction" rest).map fun (digits, rest) => (point ++ digits, rest)

def scanExponent (text : Bytes) : Except CxxException (Bytes × Bytes) :=
  let (mark, rest) := optional (fun c => c == 101 || c == 69) text
  if mark = [] then .ok ([], rest)
  else
    let (sign, rest) := optional (fun c => c == 43 || c == minus) rest
    (someDigits "Invalid exponent" rest).map fun (digits, rest) => (mark ++ sign ++ digits, rest)

/-- The token of `parse_number`, and whether it is a float. -/
def scanNumber (text : Bytes) : Except CxxException (Bytes × Bool × Bytes) := do
  let (sign, text) := optional (· == minus) text
  let (whole, text) ← scanWhole text
  let (fraction, text) ← scanFraction text
  let (exponent, text) ← scanExponent text
  .ok (sign ++ whole ++ fraction ++ exponent, fraction ≠ [] || exponent ≠ [], text)

/-- The conversion at the end of `parse_number`. -/
def numberValue (fp : Floating) (token : Bytes) (isFloat : Bool) : Except CxxException Value :=
  if isFloat then (fp.stod token).map .double
  else
    match literal [minus] token with
    | some digits =>
        if value digits ≤ 2 ^ 63 then .ok (.int (Int64.ofInt (-(value digits : Int))))
        else .error (.standard (ascii "stoll"))
    | none =>
        if value token < 2 ^ 64 then .ok (.uint (UInt64.ofNat (value token)))
        else .error (.standard (ascii "stoull"))

def parseLiteral (text : String) (value : Value) (input : Bytes) :
    Except CxxException (Value × Bytes) :=
  match literal (ascii text) input with
  | some rest => .ok (value, rest)
  | none => .error (parseError "Invalid JSON literal")

mutual

/-- `parse_value`, with a bound on the depth of calls. Twice the length of the text and
one more is never used up. -/
def parseValue (fp : Floating) : Nat → Bytes → Except CxxException (Value × Bytes)
  | 0, _ => .error .foreign
  | fuel + 1, text =>
      match skipWs text with
      | [] => .error (parseError "Unexpected end of JSON")
      | c :: rest =>
          if c = openBrace then
            match literal [closeBrace] (skipWs rest) with
            | some rest => .ok (.object [], rest)
            | none => parseMembers fp fuel [] rest
          else if c = openBracket then
            match literal [closeBracket] (skipWs rest) with
            | some rest => .ok (.array [], rest)
            | none => parseElements fp fuel [] rest
          else if c = quote then do
            let (text, rest) ← parseString rest
            .ok (.string text, rest)
          else if c = 116 then parseLiteral "true" (.bool true) (c :: rest)
          else if c = 102 then parseLiteral "false" (.bool false) (c :: rest)
          else if c = 110 then parseLiteral "null" .null (c :: rest)
          else if c = minus ∨ isDigit c = true then do
            let (token, isFloat, rest) ← scanNumber (c :: rest)
            let number ← numberValue fp token isFloat
            .ok (number, rest)
          else .error (parseError "Invalid JSON token")

/-- The loop of `parse_object`. -/
def parseMembers (fp : Floating) : Nat → Fields → Bytes → Except CxxException (Value × Bytes)
  | 0, _, _ => .error .foreign
  | fuel + 1, obj, text =>
      match literal [quote] (skipWs text) with
      | none => .error (parseError "Expected object key string")
      | some text => do
          let (key, text) ← parseString text
          let text ← consume colon (skipWs text)
          let (value, text) ← parseValue fp fuel text
          let obj := insert key value obj
          match literal [closeBrace] (skipWs text) with
          | some rest => .ok (.object obj, rest)
          | none => do
              let text ← consume comma (skipWs text)
              parseMembers fp fuel obj text

/-- The loop of `parse_array`. -/
def parseElements (fp : Floating) : Nat → List Value → Bytes → Except CxxException (Value × Bytes)
  | 0, _, _ => .error .foreign
  | fuel + 1, arr, text => do
      let (value, text) ← parseValue fp fuel text
      let arr := arr ++ [value]
      match literal [closeBracket] (skipWs text) with
      | some rest => .ok (.array arr, rest)
      | none => do
          let text ← consume comma (skipWs text)
          parseElements fp fuel arr text

end

/-- `builtins::json().load_string`. -/
def jsonLoadString (fp : Floating) (text : Bytes) : Except CxxException Value := do
  let (root, rest) ← parseValue fp (2 * text.length + 1) text
  if skipWs rest = [] then .ok root else .error (parseError "Trailing JSON content")

/-- `formatting::Options`. `sort_keys` is read by no emitter. -/
structure FormattingOptions where
  indent : Bytes := ascii "  "
  newline : Bytes := ascii "\n"
  pretty : Bool := true
  spaceAfterColon : Bool := true
  spaceAfterComma : Bool := true
  trailingNewline : Bool := true

def escape (c : UInt8) : Bytes :=
  if c = quote then [backslash, quote]
  else if c = backslash then [backslash, backslash]
  else if c = 10 then [backslash, 110]
  else if c = 13 then [backslash, 114]
  else if c = 9 then [backslash, 116]
  else [c]

/-- `emit_json_string`. -/
def emitString (text : Bytes) : Bytes := quote :: (text.flatMap escape ++ [quote])

def indentation (opt : FormattingOptions) (depth : Nat) : Bytes :=
  (List.replicate depth opt.indent).flatten

/-- What stands in front of an item besides the comma. -/
def leadingGap (opt : FormattingOptions) (depth : Nat) (first : Bool) : Bytes :=
  (if !first && opt.pretty && opt.spaceAfterComma then [32] else []) ++
    (if opt.pretty then opt.newline ++ indentation opt (depth + 1) else [])

/-- What stands in front of a closing bracket. -/
def closingGap (opt : FormattingOptions) (depth : Nat) (empty : Bool) : Bytes :=
  if opt.pretty && !empty then opt.newline ++ indentation opt depth else []

def separator (first : Bool) : Bytes := if first then [] else [comma]

mutual

/-- `emit_json_value`. -/
def emitValue (fp : Floating) (opt : FormattingOptions) : Value → Nat → Except CxxException Bytes
  | .null, _ => .ok (ascii "null")
  | .bool value, _ => .ok (if value then ascii "true" else ascii "false")
  | .int value, _ => .ok (signedDecimal value.toInt)
  | .uint value, _ => .ok (decimal value.toNat)
  | .double bits, _ => .ok (fp.print bits)
  | .string text, _ => .ok (emitString text)
  | .binary _, _ => .error (.standard (ascii "JSON cannot emit binary values"))
  | .array items, depth => do
      let inner ← emitItems fp opt items depth true
      .ok (openBracket :: (inner ++ closingGap opt depth items.isEmpty ++ [closeBracket]))
  | .object fields, depth => do
      let inner ← emitFields fp opt fields depth true
      .ok (openBrace :: (inner ++ closingGap opt depth fields.isEmpty ++ [closeBrace]))

def emitItems (fp : Floating) (opt : FormattingOptions) :
    List Value → Nat → Bool → Except CxxException Bytes
  | [], _, _ => .ok []
  | item :: rest, depth, first => do
      let text ← emitValue fp opt item (depth + 1)
      let later ← emitItems fp opt rest depth false
      .ok (separator first ++ leadingGap opt depth first ++ text ++ later)

def emitFields (fp : Floating) (opt : FormattingOptions) :
    List (Bytes × Value) → Nat → Bool → Except CxxException Bytes
  | [], _, _ => .ok []
  | (key, value) :: rest, depth, first => do
      let text ← emitValue fp opt value (depth + 1)
      let later ← emitFields fp opt rest depth false
      .ok (separator first ++ leadingGap opt depth first ++ emitString key ++ [colon] ++
        (if opt.spaceAfterColon then [32] else []) ++ text ++ later)

end

/-- `builtins::json().dump_string`. -/
def jsonDumpString (fp : Floating) (root : Value) (opt : FormattingOptions) :
    Except CxxException Bytes := do
  let text ← emitValue fp opt root 0
  .ok (text ++ if opt.trailingNewline then opt.newline else [])

end Nuperf.Serdetk
