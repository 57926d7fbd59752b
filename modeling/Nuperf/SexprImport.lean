import Nuperf.FormatAgreement

set_option autoImplicit false

namespace Nuperf.Cli

open ByteString CStandard NestedList Serdetk

section Words

variable (stod : StodIndex)

/-- Tokens that are a row of words, in a list or not, and closing brackets behind them. -/
structure IsWordRow (words : List Bytes) (tokens : List (Token Bytes)) : Prop where
  row : ∃ (front : List (Token Bytes)) (count : Nat), (front = [] ∨ front = [.opening]) ∧
    tokens = front ++ words.map .atom ++ List.replicate count .closing

theorem sexprRoot_scalars (items : List Value) (scalars : ∀ item ∈ items, ¬ IsArray item) :
    sexprRoot items = .array items := by
  unfold sexprRoot
  split
  · rename_i inner
    exact absurd ⟨inner, rfl⟩ (scalars _ List.mem_cons_self)
  · rfl

/-- The brackets around a row of words make no difference. -/
theorem parseSexprBasic_words (pieces : List SexprPiece) (laid : Laid false pieces) (tail : Bytes)
    (blank : Blank tail) (words : List Bytes)
    (row : IsWordRow words (pieces.map SexprPiece.token)) :
    parseSexprBasic stod (writePieces pieces ++ tail) =
      .array (words.map (parseScalarToken stod)) := by
  obtain ⟨front, count, bare, shape⟩ := row.row
  have scalars : ∀ item ∈ words.map (parseScalarToken stod), ¬ IsArray item := by
    intro item member
    obtain ⟨word, -, rfl⟩ := List.mem_map.mp member
    exact parseScalarToken_single stod word
  have atoms := spells_atoms Value.array (words.map (parseScalarToken stod))
  have tokens : scalarTokens stod pieces = front.map (Token.map (parseScalarToken stod)) ++
      (words.map (parseScalarToken stod)).map .atom ++ List.replicate count .closing := by
    have mapped := congrArg (List.map (Token.map (parseScalarToken stod))) shape
    rw [List.map_map] at mapped
    rw [scalarTokens]
    refine mapped.trans ?_
    rw [List.map_append, List.map_append, List.map_map, List.map_map, List.map_replicate]
    rfl
  rw [parseSexprBasic_write stod pieces laid tail blank, tokens, read_closings]
  rcases bare with rfl | rfl
  · rw [List.map_nil, List.nil_append, read_of_spells Value.array atoms]
    exact sexprRoot_scalars _ scalars
  · have listed := read_of_spells Value.array (spells_list Value.array atoms)
    rw [← List.cons_append, read_closing] at listed
    rw [List.map_singleton, Token.map, List.singleton_append, listed]
    rfl

end Words

section Import

variable (env : Loaders) (stod : StodIndex) (fs : FileSystem)

end Import

end Nuperf.Cli
