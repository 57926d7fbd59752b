import Nuperf.ScalarToken
import Nuperf.SexprLayout

set_option autoImplicit false

namespace Nuperf.Serdetk

open ByteString Numeral CStandard NestedList

section Emit

variable (fp : Floating) (stod : StodIndex)

def gapBefore (first : Bool) : Bytes := if first then [] else [32]

mutual

/-- The tokens that `emit_sexpr_value` writes of a value. -/
def valuePieces (gap : Bytes) : Value → List SexprPiece
  | .array items => ⟨gap, .opening⟩ :: (itemPieces items true ++ [⟨[], .closing⟩])
  | .object fields => ⟨gap, .opening⟩ :: (fieldPieces fields true ++ [⟨[], .closing⟩])
  | leaf => [⟨gap, .atom (emitSexprValue fp leaf)⟩]

def itemPieces : List Value → Bool → List SexprPiece
  | [], _ => []
  | item :: rest, first => valuePieces (gapBefore first) item ++ itemPieces rest false

def fieldPieces : List (Bytes × Value) → Bool → List SexprPiece
  | [], _ => []
  | (name, value) :: rest, first =>
      ⟨gapBefore first, .opening⟩ :: ⟨[], .atom name⟩ :: (valuePieces [32] value ++
        (⟨[], .closing⟩ :: fieldPieces rest false))

end

mutual

/-- The texts in a value are whole words: nothing in them ends a token. -/
def Value.Unbroken : Value → Prop
  | .string text => ∀ c ∈ text, isWordByte c = true
  | .double bits => IsBareWord (fp.print bits)
  | .array items => UnbrokenItems items
  | .object fields => UnbrokenFields fields
  | _ => True

def UnbrokenItems : List Value → Prop
  | [] => True
  | item :: rest => item.Unbroken ∧ UnbrokenItems rest

def UnbrokenFields : List (Bytes × Value) → Prop
  | [] => True
  | (name, value) :: rest => IsBareWord name ∧ value.Unbroken ∧ UnbrokenFields rest

end

mutual

/-- What is left of a value in a nested list: an object is the list of its fields, each a list of
its name and its value. -/
def sexprImage : Value → Value
  | .array items => .array (sexprImages items)
  | .object fields => .array (sexprPairs fields)
  | .string text => .string text
  | .null => parseScalarToken stod (ascii "nil")
  | .bool value => .bool value
  | .int value => .int value
  | .uint value => unsignedToken stod value
  | .double bits => parseScalarToken stod (fp.print bits)
  | .binary _ => parseScalarToken stod (ascii "<binary>")

def sexprImages : List Value → List Value
  | [] => []
  | item :: rest => sexprImage item :: sexprImages rest

def sexprPairs : List (Bytes × Value) → List Value
  | [] => []
  | (name, value) :: rest =>
      .array [parseScalarToken stod name, sexprImage value] :: sexprPairs rest

end

theorem writePieces_cons (piece : SexprPiece) (rest : List SexprPiece) :
    writePieces (piece :: rest) = piece.gap ++ tokenText piece.token ++ writePieces rest := rfl

theorem writePieces_append (front back : List SexprPiece) :
    writePieces (front ++ back) = writePieces front ++ writePieces back := List.flatMap_append

theorem writePieces_closing : writePieces [⟨[], .closing⟩] = [closeParen] := rfl

mutual

theorem writePieces_value (gap : Bytes) (value : Value) :
    writePieces (valuePieces fp gap value) = gap ++ emitSexprValue fp value := by
  cases value with
  | array items =>
      have inside := writePieces_items items true
      rw [valuePieces, writePieces_cons, writePieces_append, inside, writePieces_closing,
        emitSexprValue]
      simp only [tokenText, List.append_assoc, List.singleton_append]
  | object fields =>
      have inside := writePieces_fields fields true
      rw [valuePieces, writePieces_cons, writePieces_append, inside, writePieces_closing,
        emitSexprValue]
      simp only [tokenText, List.append_assoc, List.singleton_append]
  | _ =>
      rw [valuePieces, writePieces_cons, tokenText, writePieces, List.flatMap_nil, List.append_nil]
      all_goals
        intro _ same
        cases same

theorem writePieces_items (items : List Value) (first : Bool) :
    writePieces (itemPieces fp items first) = emitSexprItems fp items first := by
  cases items with
  | nil => rfl
  | cons item rest =>
      have here := writePieces_value (gapBefore first) item
      have later := writePieces_items rest false
      rw [itemPieces, writePieces_append, here, later, emitSexprItems, gapBefore]

theorem writePieces_fields (fields : List (Bytes × Value)) (first : Bool) :
    writePieces (fieldPieces fp fields first) = emitSexprFields fp fields first := by
  cases fields with
  | nil => rfl
  | cons field rest =>
      obtain ⟨name, value⟩ := field
      have here := writePieces_value [32] value
      have later := writePieces_fields rest false
      rw [fieldPieces, writePieces_cons, writePieces_cons, writePieces_append, writePieces_cons,
        here, later, emitSexprFields, gapBefore]
      simp only [tokenText, List.append_assoc, List.nil_append, List.cons_append]

end

theorem laid_of_behind (pieces : List SexprPiece) (laid : Laid true pieces) (behind : Bool) :
    Laid behind pieces := by
  cases laid with
  | nil => exact .nil behind
  | opening _ gap rest blank laid => exact .opening behind gap rest blank laid
  | closing _ gap rest blank laid => exact .closing behind gap rest blank laid
  | word _ gap word rest blank proper apart laid =>
      exact .word behind gap word rest blank proper (fun _ => apart rfl) laid

theorem gapBefore_blank (first : Bool) : Blank (gapBefore first) := by
  cases first
  · exact blank_space
  · exact blank_nil

theorem isWordByte_digit (c : UInt8) (digit : isDigit c = true) : isWordByte c = true := by
  rw [isWordByte_iff]
  refine ⟨isDigit_not_isSpace c digit, ?_, ?_⟩ <;> rintro rfl <;> cases digit

theorem signedDecimal_isBareWord (n : Int) : IsBareWord (signedDecimal n) := by
  constructor
  · unfold signedDecimal
    split_ifs
    · exact List.cons_ne_nil _ _
    · exact decimal_ne_nil _
  · intro c member
    rcases signedDecimal_bytes n c member with rfl | digit
    · rfl
    · exact isWordByte_digit c digit

theorem decimal_isBareWord (n : Nat) : IsBareWord (decimal n) :=
  ⟨decimal_ne_nil n, fun c member => isWordByte_digit c (decimal_digits n c member)⟩

theorem isBareWord_of_all (word : Bytes) (nonempty : word ≠ []) (all : word.all isWordByte = true) :
    IsBareWord word := ⟨nonempty, List.all_eq_true.mp all⟩

theorem quoted_isBareWord (text : Bytes) (unbroken : ∀ c ∈ text, isWordByte c = true) :
    IsBareWord (quote :: (text ++ [quote])) := by
  refine ⟨List.cons_ne_nil _ _, List.forall_mem_cons.mpr ⟨rfl, ?_⟩⟩
  intro c member
  rcases List.mem_append.mp member with inside | last
  · exact unbroken c inside
  · rw [List.mem_singleton.mp last]
    rfl

mutual

theorem laid_value (value : Value) (unbroken : value.Unbroken fp) (behind : Bool) (gap : Bytes)
    (blank : Blank gap) (apart : behind = true → gap ≠ []) (rest : List SexprPiece)
    (laid : Laid true rest) : Laid behind (valuePieces fp gap value ++ rest) := by
  have closed : Laid true (⟨[], .closing⟩ :: rest) :=
    .closing true [] rest blank_nil (laid_of_behind rest laid false)
  cases value with
  | null =>
      have bare : IsBareWord (ascii "nil") := isBareWord_of_all _ (List.cons_ne_nil _ _) rfl
      exact .word behind gap _ rest blank bare apart laid
  | bool value =>
      cases value
      · have bare : IsBareWord (ascii "false") := isBareWord_of_all _ (List.cons_ne_nil _ _) rfl
        exact .word behind gap _ rest blank bare apart laid
      · have bare : IsBareWord (ascii "true") := isBareWord_of_all _ (List.cons_ne_nil _ _) rfl
        exact .word behind gap _ rest blank bare apart laid
  | int value => exact .word behind gap _ rest blank (signedDecimal_isBareWord _) apart laid
  | uint value => exact .word behind gap _ rest blank (decimal_isBareWord _) apart laid
  | double bits => exact .word behind gap _ rest blank unbroken apart laid
  | string text => exact .word behind gap _ rest blank (quoted_isBareWord text unbroken) apart laid
  | binary bytes =>
      have bare : IsBareWord (ascii "<binary>") := isBareWord_of_all _ (List.cons_ne_nil _ _) rfl
      exact .word behind gap _ rest blank bare apart laid
  | array items =>
      have inside := laid_items items unbroken true false
        (fun behind => absurd behind Bool.false_ne_true) _ closed
      rw [valuePieces, List.cons_append, List.append_assoc]
      exact .opening behind gap _ blank inside
  | object fields =>
      have inside := laid_fields fields unbroken true false _ closed
      rw [valuePieces, List.cons_append, List.append_assoc]
      exact .opening behind gap _ blank inside

theorem laid_items (items : List Value) (unbroken : UnbrokenItems fp items) (first behind : Bool)
    (apart : behind = true → first = false) (rest : List SexprPiece) (laid : Laid true rest) :
    Laid behind (itemPieces fp items first ++ rest) := by
  cases items with
  | nil => exact laid_of_behind rest laid behind
  | cons item items =>
      have later := laid_items items unbroken.2 false true (fun _ => rfl) rest laid
      rw [itemPieces, List.append_assoc]
      apply laid_value item unbroken.1 behind _ (gapBefore_blank first) _ _ later
      intro isBehind
      rw [apart isBehind]
      exact List.cons_ne_nil _ _

theorem laid_fields (fields : List (Bytes × Value)) (unbroken : UnbrokenFields fp fields)
    (first behind : Bool) (rest : List SexprPiece) (laid : Laid true rest) :
    Laid behind (fieldPieces fp fields first ++ rest) := by
  cases fields with
  | nil => exact laid_of_behind rest laid behind
  | cons field fields =>
      obtain ⟨name, value⟩ := field
      have later := laid_fields fields unbroken.2.2 false false rest laid
      have closed : Laid true (⟨[], .closing⟩ :: (fieldPieces fp fields false ++ rest)) :=
        .closing true [] _ blank_nil later
      have here := laid_value value unbroken.2.1 true [32] blank_space
        (fun _ => List.cons_ne_nil _ _) _ closed
      rw [fieldPieces, List.cons_append, List.cons_append, List.append_assoc, List.cons_append]
      exact .opening behind _ _ (gapBefore_blank first)
        (.word false [] name _ blank_nil unbroken.1 (not_behind _) here)

end

theorem scalarTokens_cons (piece : SexprPiece) (rest : List SexprPiece) :
    scalarTokens stod (piece :: rest) =
      piece.token.map (parseScalarToken stod) :: scalarTokens stod rest := rfl

theorem scalarTokens_append (front back : List SexprPiece) :
    scalarTokens stod (front ++ back) = scalarTokens stod front ++ scalarTokens stod back :=
  List.map_append

/-- One word spells the scalar it is read as. -/
theorem spells_scalar (gap word : Bytes) (value : Value)
    (scalar : parseScalarToken stod word = value) :
    Spells Value.array (scalarTokens stod [⟨gap, .atom word⟩]) [value] := by
  rw [← scalar]
  exact spells_atom Value.array _

theorem spells_bracketed (gap : Bytes) (pieces : List SexprPiece) (items : List Value)
    (inside : Spells Value.array (scalarTokens stod pieces) items) :
    Spells Value.array (scalarTokens stod (⟨gap, .opening⟩ :: (pieces ++ [⟨[], .closing⟩])))
      [.array items] := by
  rw [scalarTokens_cons, scalarTokens_append]
  exact spells_list Value.array inside

mutual

/-- The tokens of a value spell its image. -/
theorem spells_value (gap : Bytes) (value : Value) :
    Spells Value.array (scalarTokens stod (valuePieces fp gap value))
      [sexprImage fp stod value] := by
  cases value with
  | null => exact spells_scalar stod gap _ _ rfl
  | bool value => exact spells_scalar stod gap _ _ (parseScalarToken_bool stod value)
  | int value => exact spells_scalar stod gap _ _ (parseScalarToken_int stod value)
  | uint value => exact spells_scalar stod gap _ _ (parseScalarToken_uint stod value)
  | double bits => exact spells_scalar stod gap _ _ rfl
  | string text => exact spells_scalar stod gap _ _ (parseScalarToken_quoted stod text)
  | binary bytes => exact spells_scalar stod gap _ _ rfl
  | array items =>
      rw [valuePieces, sexprImage]
      exact spells_bracketed stod gap _ _ (spells_items items true)
  | object fields =>
      rw [valuePieces, sexprImage]
      exact spells_bracketed stod gap _ _ (spells_fields fields true)

theorem spells_items (items : List Value) (first : Bool) :
    Spells Value.array (scalarTokens stod (itemPieces fp items first))
      (sexprImages fp stod items) := by
  cases items with
  | nil => exact spells_nil Value.array
  | cons item rest =>
      have here := spells_value (gapBefore first) item
      have later := spells_items rest false
      rw [itemPieces, scalarTokens_append, sexprImages]
      exact spells_append Value.array here later

theorem spells_fields (fields : List (Bytes × Value)) (first : Bool) :
    Spells Value.array (scalarTokens stod (fieldPieces fp fields first))
      (sexprPairs fp stod fields) := by
  cases fields with
  | nil => exact spells_nil Value.array
  | cons field rest =>
      obtain ⟨name, value⟩ := field
      have named := spells_scalar stod [] name _ rfl
      have here := spells_value [32] value
      have later := spells_fields rest false
      have pair := spells_bracketed stod (gapBefore first)
        ([⟨[], .atom name⟩] ++ valuePieces fp [32] value) _ (by
          rw [scalarTokens_append]
          exact spells_append Value.array named here)
      have both := spells_append Value.array pair later
      rw [← scalarTokens_append] at both
      simpa only [fieldPieces, sexprPairs, List.cons_append, List.nil_append, List.append_assoc]
        using both

end

/-- What `dump_string` writes of a value, `load_string` reads as its image. -/
theorem parseSexprBasic_emit (value : Value) (unbroken : value.Unbroken fp) :
    parseSexprBasic stod (emitSexprValue fp value) = sexprRoot [sexprImage fp stod value] := by
  have laid := laid_value fp value unbroken false [] blank_nil (not_behind _) [] (.nil true)
  have parsed := parseSexprBasic_write stod _ laid [] blank_nil
  have written := writePieces_value fp [] value
  rw [List.append_nil, List.append_nil, written, List.nil_append] at parsed
  rw [parsed, read_of_spells Value.array (spells_value fp stod [] value)]

end Emit

end Nuperf.Serdetk
