import Nuperf.SerdeSexpr
import Nuperf.JsonRoundTrip

set_option autoImplicit false

namespace Nuperf.Serdetk

open ByteString Numeral CStandard NestedList

/-- What a token is made of. -/
def isWordByte (c : UInt8) : Bool := !(isSpace c || c == openParen || c == closeParen)

def IsBareWord (word : Bytes) : Prop := word ≠ [] ∧ ∀ c ∈ word, isWordByte c = true

instance (word : Bytes) : Decidable (IsBareWord word) :=
  inferInstanceAs (Decidable (_ ≠ _ ∧ _))

def tokenText : Token Bytes → Bytes
  | .opening => [openParen]
  | .closing => [closeParen]
  | .atom word => word

/-- A token of a text, and the white space in front of it. -/
structure SexprPiece where
  gap : Bytes
  token : Token Bytes

def SexprPiece.write (piece : SexprPiece) : Bytes := piece.gap ++ tokenText piece.token

def writePieces (pieces : List SexprPiece) : Bytes := pieces.flatMap SexprPiece.write

/-- Tokens that are read back as they are written: two words in a row are apart. The flag says
whether a word stands in front. -/
inductive Laid : Bool → List SexprPiece → Prop
  | nil (behind : Bool) : Laid behind []
  | opening (behind : Bool) (gap : Bytes) (rest : List SexprPiece) (blank : Blank gap)
      (laid : Laid false rest) : Laid behind (⟨gap, .opening⟩ :: rest)
  | closing (behind : Bool) (gap : Bytes) (rest : List SexprPiece) (blank : Blank gap)
      (laid : Laid false rest) : Laid behind (⟨gap, .closing⟩ :: rest)
  | word (behind : Bool) (gap word : Bytes) (rest : List SexprPiece) (blank : Blank gap)
      (proper : IsBareWord word) (apart : behind = true → gap ≠ []) (laid : Laid true rest) :
      Laid behind (⟨gap, .atom word⟩ :: rest)

section Lexing

variable (stod : StodIndex)

/-- The tokens of pieces, each word as the scalar it is. -/
def scalarTokens (pieces : List SexprPiece) : List (Token Value) :=
  pieces.map fun piece => piece.token.map (parseScalarToken stod)

theorem flushTok_tok (state : SexprState) : (flushTok stod state).tok = [] := by
  unfold flushTok
  split_ifs with empty
  · exact empty
  · rfl

theorem flushTok_of_empty (state : SexprState) (empty : state.tok = []) :
    flushTok stod state = state := if_pos empty

theorem flushTok_flushTok (state : SexprState) :
    flushTok stod (flushTok stod state) = flushTok stod state :=
  flushTok_of_empty stod _ (flushTok_tok stod state)

theorem isWordByte_iff (c : UInt8) :
    isWordByte c = true ↔ isSpace c = false ∧ c ≠ openParen ∧ c ≠ closeParen := by
  simp only [isWordByte, Bool.not_eq_true', Bool.or_eq_false_iff, beq_eq_false_iff_ne, ne_eq,
    and_assoc]

theorem sexprStep_space (state : SexprState) (c : UInt8) (blank : isSpace c = true) :
    sexprStep stod state c = flushTok stod state := if_pos blank

theorem sexprStep_word (state : SexprState) (c : UInt8) (inside : isWordByte c = true) :
    sexprStep stod state c = { state with tok := state.tok ++ [c] } := by
  obtain ⟨solid, notOpen, notClose⟩ := (isWordByte_iff c).mp inside
  simp only [sexprStep, solid, notOpen, notClose, Bool.false_eq_true, ↓reduceIte]

theorem foldl_word (word : Bytes) (inside : ∀ c ∈ word, isWordByte c = true) (state : SexprState) :
    word.foldl (sexprStep stod) state = { state with tok := state.tok ++ word } := by
  induction word generalizing state with
  | nil => simp only [List.foldl_nil, List.append_nil]
  | cons c word ih =>
      rw [List.foldl_cons, sexprStep_word stod state c (inside c List.mem_cons_self),
        ih fun next member => inside next (List.mem_cons_of_mem c member)]
      simp only [List.append_assoc, List.singleton_append]

/-- White space ends a word, and more of it does nothing. -/
theorem foldl_gap (gap : Bytes) (blank : Blank gap) (nonempty : gap ≠ []) (state : SexprState) :
    gap.foldl (sexprStep stod) state = flushTok stod state := by
  induction gap generalizing state with
  | nil => exact absurd rfl nonempty
  | cons c gap ih =>
      rw [List.foldl_cons, sexprStep_space stod state c (blank c List.mem_cons_self)]
      by_cases last : gap = []
      · rw [last, List.foldl_nil]
      · rw [ih (fun next member => blank next (List.mem_cons_of_mem c member)) last,
          flushTok_flushTok]

theorem flushTok_foldl_gap (gap : Bytes) (blank : Blank gap) (state : SexprState) :
    flushTok stod (gap.foldl (sexprStep stod) state) = flushTok stod state := by
  by_cases empty : gap = []
  · rw [empty, List.foldl_nil]
  · rw [foldl_gap stod gap blank empty, flushTok_flushTok]

/-- A bracket, with the white space in front of it. -/
theorem foldl_bracket (gap : Bytes) (blank : Blank gap) (bracket : UInt8) (token : Token Value)
    (turn : ∀ state, sexprStep stod state bracket =
      ⟨(flushTok stod state).tok, step .array (flushTok stod state).stack token⟩)
    (state : SexprState) :
    (gap ++ [bracket]).foldl (sexprStep stod) state =
      { tok := [], stack := step .array (flushTok stod state).stack token } := by
  rw [List.foldl_append, List.foldl_cons, List.foldl_nil, turn, flushTok_foldl_gap stod gap blank,
    flushTok_tok]

theorem sexprStep_openParen (state : SexprState) : sexprStep stod state openParen =
    ⟨(flushTok stod state).tok, step .array (flushTok stod state).stack .opening⟩ := rfl

theorem sexprStep_closeParen (state : SexprState) : sexprStep stod state closeParen =
    ⟨(flushTok stod state).tok, step .array (flushTok stod state).stack .closing⟩ := rfl

theorem foldl_piece (piece : SexprPiece) (rest : List SexprPiece) (state after : SexprState)
    (here : piece.write.foldl (sexprStep stod) state = after) :
    (writePieces (piece :: rest)).foldl (sexprStep stod) state =
      (writePieces rest).foldl (sexprStep stod) after := by
  rw [writePieces, List.flatMap_cons, List.foldl_append, here]
  rfl

/-- The loop over bytes does with a text what the machine does with its tokens. -/
theorem foldl_pieces (behind : Bool) (pieces : List SexprPiece) (laid : Laid behind pieces)
    (state : SexprState) (empty : behind = false → state.tok = []) :
    flushTok stod ((writePieces pieces).foldl (sexprStep stod) state) =
      { tok := [],
        stack := run .array (flushTok stod state).stack (scalarTokens stod pieces) } := by
  induction laid generalizing state with
  | nil behind =>
      rw [writePieces, List.flatMap_nil, List.foldl_nil, scalarTokens, List.map_nil, run_nil,
        ← flushTok_tok stod state]
  | opening behind gap rest blank laid ih =>
      have here := foldl_bracket stod gap blank openParen .opening (sexprStep_openParen stod) state
      rw [foldl_piece stod ⟨gap, .opening⟩ rest state _ here]
      exact ih _ fun _ => rfl
  | closing behind gap rest blank laid ih =>
      have here :=
        foldl_bracket stod gap blank closeParen .closing (sexprStep_closeParen stod) state
      rw [foldl_piece stod ⟨gap, .closing⟩ rest state _ here]
      exact ih _ fun _ => rfl
  | word behind gap word rest blank proper apart laid ih =>
      have flushed : gap.foldl (sexprStep stod) state = flushTok stod state := by
        by_cases none : gap = []
        · have start : behind = false := by
            cases behind
            · rfl
            · exact absurd none (apart rfl)
          rw [none, List.foldl_nil, flushTok_of_empty stod state (empty start)]
        · exact foldl_gap stod gap blank none state
      have here : (gap ++ word).foldl (sexprStep stod) state =
          ⟨word, (flushTok stod state).stack⟩ := by
        rw [List.foldl_append, flushed, foldl_word stod word proper.2, flushTok_tok,
          List.nil_append]
      have pushed : (flushTok stod ⟨word, (flushTok stod state).stack⟩).stack =
          step .array (flushTok stod state).stack (.atom (parseScalarToken stod word)) := by
        rw [flushTok, if_neg proper.1]
        rfl
      rw [foldl_piece stod ⟨gap, .atom word⟩ rest state _ here, ih _ (fun same => by cases same),
        pushed]
      rfl

/-- A text is read as its tokens are. -/
theorem parseSexprBasic_write (pieces : List SexprPiece) (laid : Laid false pieces) (tail : Bytes)
    (blank : Blank tail) :
    parseSexprBasic stod (writePieces pieces ++ tail) =
      sexprRoot (read .array (scalarTokens stod pieces)) := by
  have scanned := foldl_pieces stod false pieces laid {} fun _ => rfl
  rw [parseSexprBasic, List.foldl_append, flushTok_foldl_gap stod tail blank, scanned]
  rfl

theorem not_behind (gap : Bytes) : false = true → gap ≠ [] :=
  fun behind => absurd behind Bool.false_ne_true

/-- A byte of a word, in front of pieces that a word may stand before. -/
theorem laid_wordByte (c : UInt8) (inside : isWordByte c = true) (pieces : List SexprPiece)
    (laid : Laid false pieces) :
    ∃ joined, Laid false joined ∧ c :: writePieces pieces = writePieces joined := by
  have single : IsBareWord [c] := ⟨List.cons_ne_nil _ _, List.forall_mem_singleton.mpr inside⟩
  cases laid with
  | nil => exact ⟨_, .word false [] [c] [] blank_nil single (not_behind _) (.nil true), rfl⟩
  | opening _ gap rest blank laid =>
      exact ⟨_, .word false [] [c] _ blank_nil single (not_behind _)
        (.opening true gap rest blank laid), rfl⟩
  | closing _ gap rest blank laid =>
      exact ⟨_, .word false [] [c] _ blank_nil single (not_behind _)
        (.closing true gap rest blank laid), rfl⟩
  | word _ gap word rest blank proper apart laid =>
      by_cases none : gap = []
      · subst none
        have longer : IsBareWord (c :: word) :=
          ⟨List.cons_ne_nil _ _, List.forall_mem_cons.mpr ⟨inside, proper.2⟩⟩
        exact ⟨_, .word false [] (c :: word) rest blank longer (not_behind _) laid, rfl⟩
      · exact ⟨_, .word false [] [c] _ blank_nil single (not_behind _)
          (.word true gap word rest blank proper (fun _ => none) laid), rfl⟩

/-- White space, in front of pieces. -/
theorem laid_space (c : UInt8) (space : isSpace c = true) (piece : SexprPiece)
    (rest : List SexprPiece) (laid : Laid false (piece :: rest)) :
    Laid false ({ piece with gap := c :: piece.gap } :: rest) := by
  have wider (gap : Bytes) (blank : Blank gap) : Blank (c :: gap) :=
    List.forall_mem_cons.mpr ⟨space, blank⟩
  cases laid with
  | opening _ gap _ blank laid => exact .opening false _ rest (wider gap blank) laid
  | closing _ gap _ blank laid => exact .closing false _ rest (wider gap blank) laid
  | word _ gap word _ blank proper apart laid =>
      exact .word false _ word rest (wider gap blank) proper (not_behind _) laid

/-- Every text has tokens. -/
theorem exists_pieces (text : Bytes) :
    ∃ pieces tail, Laid false pieces ∧ Blank tail ∧ text = writePieces pieces ++ tail := by
  induction text with
  | nil => exact ⟨[], [], .nil false, blank_nil, rfl⟩
  | cons c text ih =>
      obtain ⟨pieces, tail, laid, blank, rfl⟩ := ih
      cases space : isSpace c with
      | true =>
          cases pieces with
          | nil =>
              exact ⟨[], c :: tail, laid, List.forall_mem_cons.mpr ⟨space, blank⟩, rfl⟩
          | cons piece rest => exact ⟨_, tail, laid_space c space piece rest laid, blank, rfl⟩
      | false =>
          by_cases isOpen : c = openParen
          · subst isOpen
            exact ⟨_, tail, .opening false [] pieces blank_nil laid, blank, rfl⟩
          · by_cases isClose : c = closeParen
            · subst isClose
              exact ⟨_, tail, .closing false [] pieces blank_nil laid, blank, rfl⟩
            · have inside : isWordByte c = true := (isWordByte_iff c).mpr ⟨space, isOpen, isClose⟩
              obtain ⟨joined, proper, same⟩ := laid_wordByte c inside pieces laid
              exact ⟨joined, tail, proper, blank, by rw [← List.cons_append, same]⟩

end Lexing

end Nuperf.Serdetk
