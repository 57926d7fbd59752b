import Nuperf.Library.NestedList
import Nuperf.SerdeXml

set_option autoImplicit false

namespace Nuperf.Serdetk

open ByteString Numeral CStandard NestedList

def openParen : UInt8 := 40
def closeParen : UInt8 := 41

/-- The locals of `parse_sexpr_basic`: `tok`, and the items of the arrays on `stack`. -/
structure SexprState where
  tok : Bytes := []
  stack : Pending Value := {}

section Parse

variable (stod : StodIndex)

/-- `flush_tok`. -/
def flushTok (state : SexprState) : SexprState :=
  if state.tok = [] then state
  else { tok := [], stack := state.stack.push (parseScalarToken stod state.tok) }

/-- One turn of the loop of `parse_sexpr_basic`. -/
def sexprStep (state : SexprState) (c : UInt8) : SexprState :=
  if isSpace c then flushTok stod state
  else if c = openParen then
    ⟨(flushTok stod state).tok, step .array (flushTok stod state).stack .opening⟩
  else if c = closeParen then
    ⟨(flushTok stod state).tok, step .array (flushTok stod state).stack .closing⟩
  else { state with tok := state.tok ++ [c] }

/-- The root is the list in the text when there is nothing else at the top. -/
def sexprRoot : List Value → Value
  | [.array items] => .array items
  | items => .array items

/-- `parse_sexpr_basic`. -/
def parseSexprBasic (text : Bytes) : Value :=
  sexprRoot (finish .array (flushTok stod (text.foldl (sexprStep stod) {})).stack)

end Parse

mutual

/-- `emit_sexpr_value`. -/
def emitSexprValue (fp : Floating) : Value → Bytes
  | .array items => openParen :: (emitSexprItems fp items true ++ [closeParen])
  | .object fields => openParen :: (emitSexprFields fp fields true ++ [closeParen])
  | .string text => quote :: (text ++ [quote])
  | .null => ascii "nil"
  | .bool value => if value then ascii "true" else ascii "false"
  | .int value => signedDecimal value.toInt
  | .uint value => decimal value.toNat
  | .double bits => fp.print bits
  | .binary _ => ascii "<binary>"

def emitSexprItems (fp : Floating) : List Value → Bool → Bytes
  | [], _ => []
  | item :: rest, first =>
      (if first then [] else [32]) ++ emitSexprValue fp item ++ emitSexprItems fp rest false

def emitSexprFields (fp : Floating) : List (Bytes × Value) → Bool → Bytes
  | [], _ => []
  | (name, value) :: rest, first =>
      (if first then [] else [32]) ++ (openParen :: (name ++ [32] ++ emitSexprValue fp value ++
        [closeParen])) ++ emitSexprFields fp rest false

end

end Nuperf.Serdetk
