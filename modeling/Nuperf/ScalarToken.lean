import Nuperf.JsonRoundTrip
import Nuperf.XmlTotal
import Nuperf.XmlLayout

set_option autoImplicit false

namespace Nuperf.Serdetk

open ByteString Numeral CStandard

section Numerals

theorem splitSign_signedDecimal (n : Int) :
    splitSign (signedDecimal n) = (decide (n < 0), decimal n.natAbs) := by
  unfold signedDecimal
  split_ifs with negative
  · rw [splitSign, if_pos rfl, decide_eq_true negative]
  · rw [decide_eq_false negative]
    cases shape : decimal n.natAbs with
    | nil => exact absurd shape (decimal_ne_nil _)
    | cons byte rest =>
        exact splitSign_digit byte rest (decimal_digits n.natAbs byte (by simp [shape]))

/-- A numeral that `std::to_string` writes is converted whole, when it fits. -/
theorem stoll_signedDecimal (n : Int) : stoll (signedDecimal n) =
    if longMin ≤ n ∧ n ≤ longMax then .ok (n, (signedDecimal n).length)
    else .error (.standard (ascii "stoll")) := by
  have digits : ∀ byte ∈ decimal n.natAbs, isDigit byte = true := decimal_digits n.natAbs
  have whole : (signedDecimal n).dropWhile isSpace = signedDecimal n :=
    dropWhile_isSpace_of_whole _ _ _ (splitSign_signedDecimal n) (decimal_ne_nil _)
      (List.all_eq_true.mpr digits)
  have run : (decimal n.natAbs).takeWhile isDigit = decimal n.natAbs :=
    List.takeWhile_eq_self_iff.mpr digits
  have rest : (decimal n.natAbs).dropWhile isDigit = [] := List.dropWhile_eq_nil_iff.mpr digits
  have number : signed (decide (n < 0)) n.natAbs = n := by
    unfold signed
    split_ifs with negative
    · have below : n < 0 := of_decide_eq_true negative
      omega
    · have above : ¬ n < 0 := fun below => negative (decide_eq_true below)
      omega
  simp only [stoll, subjectNumeral, whole, splitSign_signedDecimal, run, decimal_ne_nil,
    ↓reduceIte, value_decimal, number, rest, List.length_nil, Nat.sub_zero]

end Numerals

section Tokens

variable (stod : StodIndex)

/-- No white space at either end. -/
def Solid (text : Bytes) : Prop :=
  text.head?.all (fun c => !isSpace c) = true ∧ text.getLast?.all (fun c => !isSpace c) = true

instance (text : Bytes) : Decidable (Solid text) := inferInstanceAs (Decidable (_ ∧ _))

theorem dropWhile_gap (gap text : Bytes) (blank : Blank gap)
    (solid : text.head?.all (fun c => !isSpace c) = true) :
    (gap ++ text).dropWhile isSpace = text := by
  rw [List.dropWhile_append_of_pos blank]
  cases text with
  | nil => rfl
  | cons c text =>
      rw [List.head?_cons, Option.all_some, Bool.not_eq_true'] at solid
      rw [List.dropWhile_cons_of_neg (by rw [solid]; exact Bool.false_ne_true)]

/-- The white space around a text is trimmed. -/
theorem trimCopy_gaps (front text back : Bytes) (blankFront : Blank front) (blankBack : Blank back)
    (solid : Solid text) : trimCopy (front ++ (text ++ back)) = text := by
  by_cases empty : text = []
  · subst empty
    have blank : (front ++ ([] ++ back)).dropWhile isSpace = [] := by
      rw [List.nil_append, List.dropWhile_eq_nil_iff]
      intro c member
      rcases List.mem_append.mp member with inFront | inBack
      · exact blankFront c inFront
      · exact blankBack c inBack
    rw [trimCopy, blank]
    rfl
  · have head : (text ++ back).head?.all (fun c => !isSpace c) = true := by
      rw [List.head?_append_of_ne_nil _ empty]
      exact solid.1
    rw [trimCopy, dropWhile_gap front _ blankFront head, rdropWhile_gap text back blankBack solid.2]

theorem trimCopy_of_solid (text : Bytes) (solid : Solid text) : trimCopy text = text := by
  have trimmed := trimCopy_gaps [] text [] blank_nil blank_nil solid
  rwa [List.append_nil, List.nil_append] at trimmed

theorem solid_of_forall (text : Bytes) (all : ∀ c ∈ text, isSpace c = false) : Solid text := by
  constructor
  · rw [Option.all_eq_true]
    intro c first
    rw [all c (List.mem_of_mem_head? first)]
    rfl
  · rw [Option.all_eq_true]
    intro c last
    rw [all c (List.mem_of_getLast? last)]
    rfl

theorem trimCopy_solid (s : Bytes) : Solid (trimCopy s) := by
  constructor
  · rw [Option.all_eq_true]
    intro c first
    obtain ⟨back, split⟩ : trimCopy s <+: s.dropWhile isSpace := List.rdropWhile_prefix isSpace _
    have head := List.head?_dropWhile_not isSpace s
    rw [← split, List.head?_append, first] at head
    simpa using head
  · rw [Option.all_eq_true]
    intro c last
    have nonempty : trimCopy s ≠ [] := by
      intro empty
      rw [empty] at last
      cases last
    have stop : ¬ isSpace ((trimCopy s).getLast nonempty) :=
      List.rdropWhile_last_not isSpace (s.dropWhile isSpace) nonempty
    rw [List.getLast?_eq_some_getLast nonempty] at last
    rw [← Option.some.inj last]
    simpa using stop

/-- A quoted text is taken as it stands, with whatever is between its quotes. -/
theorem parseScalarToken_quoted (text : Bytes) :
    parseScalarToken stod (quote :: (text ++ [quote])) = .string text := by
  have last : (quote :: (text ++ [quote])).getLast? = some quote := by
    rw [← List.cons_append, List.getLast?_concat]
  have solid : Solid (quote :: (text ++ [quote])) := by
    refine ⟨rfl, ?_⟩
    rw [last]
    rfl
  have other (word : Bytes) (apart : word.head? ≠ some quote) :
      quote :: (text ++ [quote]) ≠ word := by
    rintro rfl
    exact apart rfl
  have long : 2 ≤ (quote :: (text ++ [quote])).length := by simp
  unfold parseScalarToken
  rw [trimCopy_of_solid _ solid]
  simp only [other (ascii "null") (by decide), other (ascii "~") (by decide),
    other (ascii "true") (by decide), other (ascii "false") (by decide), or_self, ↓reduceIte,
    List.head?_cons, last, long, and_self, Value.string.injEq]
  simp

theorem decimal_solid (n : Nat) : ∀ c ∈ decimal n, isSpace c = false := fun c member =>
  isDigit_not_isSpace c (decimal_digits n c member)

theorem signedDecimal_bytes (n : Int) : ∀ c ∈ signedDecimal n, c = 45 ∨ isDigit c = true := by
  unfold signedDecimal
  intro c member
  split_ifs at member
  · rcases List.mem_cons.mp member with rfl | digit
    · exact Or.inl rfl
    · exact Or.inr (decimal_digits _ c digit)
  · exact Or.inr (decimal_digits _ c member)

theorem signedDecimal_solid (n : Int) : ∀ c ∈ signedDecimal n, isSpace c = false := by
  intro c member
  rcases signedDecimal_bytes n c member with rfl | digit
  · rfl
  · exact isDigit_not_isSpace c digit

/-- A numeral is an integer when it fits, and otherwise what `std::stod` makes of it. -/
theorem parseScalarToken_signedDecimal (n : Int) :
    parseScalarToken stod (signedDecimal n) =
      if longMin ≤ n ∧ n ≤ longMax then .int (Int64.ofInt n)
      else realToken stod (signedDecimal n) := by
  have solid := solid_of_forall _ (signedDecimal_solid n)
  have other (word : Bytes) (foreign_ : ∃ c ∈ word, ¬ (c = 45 ∨ isDigit c = true)) :
      signedDecimal n ≠ word := by
    rintro rfl
    obtain ⟨c, member, apart⟩ := foreign_
    exact apart (signedDecimal_bytes n c member)
  have unquoted : (signedDecimal n).head? ≠ some quote := by
    intro first
    have here := signedDecimal_bytes n quote (List.mem_of_mem_head? first)
    exact absurd here (by decide)
  unfold parseScalarToken
  rw [trimCopy_of_solid _ solid]
  simp only [other (ascii "null") (by decide), other (ascii "~") (by decide),
    other (ascii "true") (by decide), other (ascii "false") (by decide), or_self, ↓reduceIte,
    unquoted, false_and, stoll_signedDecimal]
  split_ifs <;> simp only [↓reduceIte]

theorem parseScalarToken_int (n : Int64) :
    parseScalarToken stod (signedDecimal n.toInt) = .int n := by
  have lower := n.le_toInt
  have upper := n.toInt_lt
  rw [parseScalarToken_signedDecimal, if_pos, Int64.ofInt_toInt]
  unfold longMin longMax
  omega

/-- An unsigned number is read as a signed one, as far as it fits. -/
def unsignedToken (n : UInt64) : Value :=
  if n.toNat < 2 ^ 63 then .int (Int64.ofNat n.toNat) else realToken stod (decimal n.toNat)

theorem parseScalarToken_uint (n : UInt64) :
    parseScalarToken stod (decimal n.toNat) = unsignedToken stod n := by
  have same : decimal n.toNat = signedDecimal (n.toNat : Int) := by
    rw [signedDecimal, if_neg (by omega), Int.natAbs_natCast]
  rw [unsignedToken, same, parseScalarToken_signedDecimal]
  unfold longMin longMax
  by_cases fits : n.toNat < 2 ^ 63
  · rw [if_pos (by omega), if_pos fits]
    rfl
  · rw [if_neg (by omega), if_neg fits]

theorem parseScalarToken_bool (value : Bool) :
    parseScalarToken stod (if value then ascii "true" else ascii "false") = .bool value := by
  cases value <;> rfl

end Tokens

end Nuperf.Serdetk
