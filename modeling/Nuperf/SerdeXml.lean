import Nuperf.SerdeJson

set_option autoImplicit false

namespace Nuperf.Serdetk

open ByteString Numeral CStandard TextReader OrderedMap

def apostrophe : UInt8 := 39
def slash : UInt8 := 47
def openAngle : UInt8 := 60
def closeAngle : UInt8 := 62

/-- `std::stod(token, &idx)`: the bits of the value, and the number of bytes it is read from. -/
abbrev StodIndex := Bytes → Except CxxException (UInt64 × Nat)

/-- `trim_copy`. -/
def trimCopy (s : Bytes) : Bytes := (s.dropWhile isSpace).rdropWhile isSpace

/-- The last two lines of `parse_scalar_token`. -/
def realToken (stod : StodIndex) (token : Bytes) : Value :=
  match stod token with
  | .ok (bits, index) => if index = token.length then .double bits else .string token
  | .error _ => .string token

/-- `parse_scalar_token`. A conversion that throws, or that leaves some of the token, is passed
over. -/
def parseScalarToken (stod : StodIndex) (token : Bytes) : Value :=
  let token := trimCopy token
  if token = ascii "null" ∨ token = ascii "~" then .null
  else if token = ascii "true" then .bool true
  else if token = ascii "false" then .bool false
  else if token.head? = some quote ∧ token.getLast? = some quote ∧ 2 ≤ token.length then
    .string ((token.drop 1).take (token.length - 2))
  else
    match stoll token with
    | .ok (n, index) =>
        if index = token.length then .int (Int64.ofInt n) else realToken stod token
    | .error _ => realToken stod token

/-- `consume` of the XML parser. -/
def consumeXml (c : UInt8) (text : Bytes) : Except CxxException Bytes :=
  match literal [c] text with
  | some rest => .ok rest
  | none => .error (parseError "Invalid XML syntax")

/-- `s.find(token, pos)`, with the error where there is none: the text up to the token, and the
text behind it. -/
def past (token what : String) (text : Bytes) : Except CxxException (Bytes × Bytes) :=
  match seek (ascii token) text with
  | some found => .ok found
  | none => .error (parseError what)

/-- `skip_misc`, with a bound on the turns of its loop. -/
def skipMisc : Nat → Bytes → Except CxxException Bytes
  | 0, _ => .error .foreign
  | fuel + 1, text =>
      let text := skipWs text
      match literal (ascii "<?") text with
      | some body => do
          let (_, rest) ← past "?>" "Unterminated XML declaration" body
          skipMisc fuel rest
      | none =>
          match literal (ascii "<!--") text with
          | some body => do
              let (_, rest) ← past "-->" "Unterminated XML comment" body
              skipMisc fuel rest
          | none =>
              if ascii "<!DOCTYPE" <+: text then do
                let (_, rest) ← past ">" "Unterminated XML doctype" text
                skipMisc fuel rest
              else .ok text

/-- `skip_tag_tail`, with the quote that is open. -/
def skipTagTail : Option UInt8 → Bytes → Bytes
  | _, [] => []
  | some mark, c :: rest => skipTagTail (if c = mark then none else some mark) rest
  | none, c :: rest =>
      if c = quote ∨ c = apostrophe then skipTagTail (some c) rest
      else if c = closeAngle ∨ c = slash then c :: rest
      else skipTagTail none rest

/-- What the name of a tag is read up to. -/
def isNameByte (c : UInt8) : Bool := !(isSpace c || c == slash || c == closeAngle)

/-- A child becomes a field, and children of one name become an array. -/
def addChild (obj : Fields) (name : Bytes) (value : Value) : Fields :=
  match obj.lookup name with
  | some (.array items) => insert name (.array (items ++ [value])) obj
  | some slot => insert name (.array [slot, value]) obj
  | none => insert name value obj

/-- What `parse_node` returns of an element with a content. -/
def nodeValue (stod : StodIndex) (obj : Fields) (textNode : Bytes) : Value :=
  if obj.isEmpty then parseScalarToken stod (trimCopy textNode) else .object obj

/-- The end of `parse_node`: the closing tag has to have the name of the opening one. -/
def parseClosing (name text : Bytes) : Except CxxException Bytes :=
  match literal (ascii "</") text with
  | none => .error (parseError "Missing XML closing tag")
  | some text => do
      let (close, text) := readRun (fun c => c != closeAngle) text
      let rest ← consumeXml closeAngle text
      if trimCopy close = name then .ok rest else .error (parseError "XML tag mismatch")

mutual

/-- `parse_node`, with a bound on the depth of calls and the turns of loops. The length of the
text is never used up. -/
def parseNode (stod : StodIndex) : Nat → Bytes → Except CxxException (Bytes × Value × Bytes)
  | 0, _ => .error .foreign
  | fuel + 1, text => do
      let text ← consumeXml openAngle text
      if text.head? = some slash then .error (parseError "Unexpected closing tag")
      else
        let (name, text) := readRun isNameByte text
        if name = [] then .error (parseError "Invalid XML tag name")
        else
          let text := skipTagTail none text
          match literal (ascii "/>") text with
          | some rest => .ok (name, .null, rest)
          | none => do
              let text ← consumeXml closeAngle text
              let (obj, textNode, text) ← parseContent stod fuel [] [] text
              let rest ← parseClosing name text
              .ok (name, nodeValue stod obj textNode, rest)

/-- The loop of `parse_node` over the content of an element. -/
def parseContent (stod : StodIndex) :
    Nat → Fields → Bytes → Bytes → Except CxxException (Fields × Bytes × Bytes)
  | 0, _, _, _ => .error .foreign
  | _ + 1, obj, textNode, [] => .ok (obj, textNode, [])
  | fuel + 1, obj, textNode, c :: rest =>
      let text := c :: rest
      if ascii "</" <+: text then .ok (obj, textNode, text)
      else if ascii "<!--" <+: text then do
        let text ← skipMisc (text.length + 1) text
        parseContent stod fuel obj textNode text
      else
        match literal (ascii "<![CDATA[") text with
        | some body => do
            let (cdata, text) ← past "]]>" "Unterminated XML CDATA" body
            parseContent stod fuel obj (textNode ++ cdata) text
        | none =>
            if ascii "<?" <+: text then do
              let (_, text) ← past "?>" "Unterminated XML processing instruction" text
              parseContent stod fuel obj textNode text
            else if c = openAngle then do
              let (name, value, text) ← parseNode stod fuel text
              parseContent stod fuel (addChild obj name value) textNode text
            else parseContent stod fuel obj (textNode ++ [c]) rest

end

/-- The loop of `parse_xml_basic` over the elements of a text, of which it takes any number. -/
def parseRoots (stod : StodIndex) : Nat → Fields → Bytes → Except CxxException Fields
  | 0, _, _ => .error .foreign
  | _ + 1, root, [] => .ok root
  | fuel + 1, root, c :: rest => do
      let text ← skipMisc ((c :: rest).length + 1) (c :: rest)
      if text = [] then .ok root
      else if text.head? = some openAngle then do
        let (name, value, text) ← parseNode stod (text.length + 1) text
        parseRoots stod fuel (addChild root name value) text
      else .error (parseError "Invalid XML content")

/-- `parse_xml_basic`. -/
def parseXmlBasic (stod : StodIndex) (text : Bytes) : Except CxxException Value := do
  let text ← skipMisc (text.length + 1) text
  let root ← parseRoots stod (text.length + 1) [] text
  .ok (.object root)

def xmlTag (name : Bytes) : Bytes := openAngle :: (name ++ [closeAngle])

def xmlClosingTag (name : Bytes) : Bytes := ascii "</" ++ (name ++ [closeAngle])

/-- What `emit_xml_node` puts between the tags of a scalar. -/
def xmlText (fp : Floating) : Value → Bytes
  | .string text => text
  | .null => ascii "null"
  | .bool value => if value then ascii "true" else ascii "false"
  | .int value => signedDecimal value.toInt
  | .uint value => decimal value.toNat
  | .double bits => fp.print bits
  | _ => ascii "<binary>"

mutual

/-- `emit_xml_node`. -/
def emitXmlNode (fp : Floating) (name : Bytes) : Value → Bytes
  | .object fields => xmlTag name ++ (emitXmlFields fp fields ++ xmlClosingTag name)
  | .array items => emitXmlItems fp name items
  | scalar => xmlTag name ++ (xmlText fp scalar ++ xmlClosingTag name)

def emitXmlItems (fp : Floating) (name : Bytes) : List Value → Bytes
  | [] => []
  | item :: rest => emitXmlNode fp name item ++ emitXmlItems fp name rest

def emitXmlFields (fp : Floating) : List (Bytes × Value) → Bytes
  | [] => []
  | (name, value) :: rest => emitXmlNode fp name value ++ emitXmlFields fp rest

end

/-- The dumper of XML. -/
def xmlDumpString (fp : Floating) : Value → Bytes
  | .object fields => emitXmlFields fp fields
  | root => emitXmlNode fp (ascii "root") root

end Nuperf.Serdetk
