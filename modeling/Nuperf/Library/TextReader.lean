import Nuperf.Library.ByteString

set_option autoImplicit false

/- Readers for byte text: each takes the text that is left and returns what it made of
the front and what follows it. -/
namespace TextReader

open ByteString

/-- The text behind `token`, when the text starts with it. -/
def literal (token text : Bytes) : Option Bytes :=
  if token <+: text then some (text.drop token.length) else none

theorem literal_eq_some_iff (token text rest : Bytes) :
    literal token text = some rest ↔ text = token ++ rest := by
  unfold literal
  constructor
  · intro found
    by_cases front : token <+: text
    · obtain ⟨back, rfl⟩ := front
      simp only [List.prefix_append, ↓reduceIte, List.drop_left, Option.some.injEq] at found
      rw [found]
    · simp only [front, ↓reduceIte, reduceCtorEq] at found
  · rintro rfl
    simp only [List.prefix_append, ↓reduceIte, List.drop_left]

@[simp] theorem literal_append (token rest : Bytes) : literal token (token ++ rest) = some rest :=
  (literal_eq_some_iff token _ rest).mpr rfl

theorem literal_eq_none (token text : Bytes) (other : ¬ token <+: text) :
    literal token text = none := by
  rw [literal, if_neg other]

theorem literal_cons (c : UInt8) (rest : Bytes) : literal [c] (c :: rest) = some rest :=
  literal_append [c] rest

theorem not_prefix_of_ne (c d : UInt8) (token rest : Bytes) (apart : c ≠ d) :
    ¬ c :: token <+: d :: rest := by
  intro front
  exact apart (List.cons_prefix_cons.mp front).1

theorem literal_cons_ne (c d : UInt8) (token rest : Bytes) (apart : c ≠ d) :
    literal (c :: token) (d :: rest) = none :=
  literal_eq_none _ _ (not_prefix_of_ne c d token rest apart)

/-- The longest run of bytes with a property, and what follows it. -/
def readRun (p : UInt8 → Bool) (text : Bytes) : Bytes × Bytes :=
  (text.takeWhile p, text.dropWhile p)

/-- A run ends where the first byte without the property stands. -/
theorem readRun_append (p : UInt8 → Bool) (run rest : Bytes) (all : ∀ byte ∈ run, p byte = true)
    (stops : rest.head?.all (fun byte => !p byte) = true) :
    readRun p (run ++ rest) = (run, rest) := by
  rw [readRun, List.takeWhile_append_of_pos all, List.dropWhile_append_of_pos all]
  cases rest with
  | nil => simp
  | cons byte rest =>
      simp only [List.head?_cons, Option.all_some, Bool.not_eq_true'] at stops
      simp [stops]

theorem readRun_spec (p : UInt8 → Bool) (text : Bytes) :
    text = (readRun p text).1 ++ (readRun p text).2 ∧ ∀ byte ∈ (readRun p text).1, p byte = true :=
  ⟨List.takeWhile_append_dropWhile.symm, fun _ member => List.mem_takeWhile_imp member⟩

/-- The text in front of the first occurrence of `token`, and the text behind it. -/
def seek (token : Bytes) : Bytes → Option (Bytes × Bytes)
  | [] => (literal token []).map fun rest => ([], rest)
  | byte :: text =>
      match literal token (byte :: text) with
      | some rest => some ([], rest)
      | none => (seek token text).map fun (before, rest) => (byte :: before, rest)

theorem seek_sound (token text before rest : Bytes)
    (found : seek token text = some (before, rest)) : text = before ++ (token ++ rest) := by
  induction text generalizing before with
  | nil =>
      obtain ⟨after, here, same⟩ := Option.map_eq_some_iff.mp found
      cases same
      exact (literal_eq_some_iff token [] rest).mp here
  | cons byte text ih =>
      rw [seek] at found
      cases here : literal token (byte :: text) with
      | some after =>
          rw [here] at found
          cases found
          exact (literal_eq_some_iff token _ rest).mp here
      | none =>
          rw [here] at found
          obtain ⟨⟨later, after⟩, there, same⟩ := Option.map_eq_some_iff.mp found
          cases same
          rw [ih later there, List.cons_append]

/-- `token` is not met before the end of `before`, even where it begins in `before`. -/
def Ends (token before : Bytes) : Prop := seek token (before ++ token) = some (before, [])

instance (token before : Bytes) : Decidable (Ends token before) :=
  inferInstanceAs (Decidable (_ = _))

theorem ends_cons (token : Bytes) (c : UInt8) (before : Bytes) (ends : Ends token (c :: before)) :
    literal token (c :: (before ++ token)) = none ∧ Ends token before := by
  rw [Ends, List.cons_append, seek] at ends
  cases here : literal token (c :: (before ++ token)) with
  | some after =>
      rw [here] at ends
      cases ends
  | none =>
      rw [here] at ends
      obtain ⟨⟨later, after⟩, there, same⟩ := Option.map_eq_some_iff.mp ends
      cases same
      exact ⟨rfl, there⟩

theorem ends_single (c : UInt8) (before : Bytes) (inside : c ∉ before) : Ends [c] before := by
  induction before with
  | nil =>
      rw [Ends, List.nil_append, seek, literal_cons]
  | cons byte before ih =>
      have other : c ≠ byte := fun same => inside (by simp [same])
      have later := ih fun member => inside (List.mem_cons_of_mem _ member)
      rw [Ends, List.cons_append, seek, literal_cons_ne c byte _ _ other, later]
      rfl

theorem seek_append (token before rest : Bytes) (ends : Ends token before) :
    seek token (before ++ (token ++ rest)) = some (before, rest) := by
  induction before with
  | nil =>
      cases token with
      | nil => cases rest <;> rfl
      | cons first token =>
          rw [List.nil_append, List.cons_append, seek, ← List.cons_append, literal_append]
  | cons byte before ih =>
      obtain ⟨here, there⟩ := ends_cons token byte before ends
      have absent : literal token (byte :: (before ++ (token ++ rest))) = none := by
        apply literal_eq_none
        intro front
        have inside : token <+: byte :: (before ++ token) := by
          apply List.prefix_of_prefix_length_le front
          · exact ⟨rest, by simp only [List.cons_append, List.append_assoc]⟩
          · simp only [List.length_cons, List.length_append]
            omega
        obtain ⟨after, split⟩ := inside
        rw [← split, literal_append] at here
        cases here
      rw [List.cons_append, seek, absent, ih there]
      rfl

/-- The text from the first line that starts with `token`. The flag says whether the
text begins a line. -/
def seekLine (token : Bytes) : Bool → Bytes → Option Bytes
  | _, [] => none
  | atStart, byte :: rest =>
      if atStart ∧ token <+: byte :: rest then some (byte :: rest)
      else seekLine token (byte == 10) rest

theorem seekLine_inside (token line rest : Bytes) (single : 10 ∉ line) :
    seekLine token false (line ++ 10 :: rest) = seekLine token true rest := by
  induction line with
  | nil => rfl
  | cons byte line ih =>
      simp only [List.mem_cons, not_or] at single
      have within : (byte == 10) = false := beq_eq_false_iff_ne.mpr (Ne.symm single.1)
      simp only [List.cons_append, seekLine, Bool.false_eq_true, false_and, ↓reduceIte, within]
      exact ih single.2

/-- A line that starts differently is passed over. -/
theorem seekLine_other (first : UInt8) (token line rest : Bytes) (single : 10 ∉ line)
    (other : (line ++ [10]).head? ≠ some first) :
    seekLine (first :: token) true (line ++ 10 :: rest) = seekLine (first :: token) true rest := by
  cases line with
  | nil =>
      have apart : first ≠ 10 := fun same => other (by rw [same]; rfl)
      simp only [List.nil_append, seekLine, List.cons_prefix_cons, apart, false_and, and_false,
        ↓reduceIte, beq_self_eq_true]
  | cons byte line =>
      simp only [List.mem_cons, not_or] at single
      have within : (byte == 10) = false := beq_eq_false_iff_ne.mpr (Ne.symm single.1)
      have apart : first ≠ byte := fun same => other (by rw [same]; rfl)
      simp only [List.cons_append, seekLine, List.cons_prefix_cons, apart, false_and, and_false,
        ↓reduceIte, within]
      exact seekLine_inside _ line rest single.2

theorem seekLine_found (first : UInt8) (token rest : Bytes) :
    seekLine (first :: token) true (first :: token ++ rest) = some (first :: token ++ rest) := by
  have front : first :: token <+: first :: (token ++ rest) := List.prefix_append _ _
  simp only [List.cons_append, seekLine, front, and_self, ↓reduceIte]

/-- Several lines, each ended by a newline. -/
def unlines (lines : List Bytes) : Bytes := lines.flatMap fun line => line ++ [10]

theorem seekLine_unlines (first : UInt8) (token : Bytes) (lines : List Bytes) (rest : Bytes)
    (others : ∀ line ∈ lines, 10 ∉ line ∧ (line ++ [10]).head? ≠ some first) :
    seekLine (first :: token) true (unlines lines ++ rest) =
      seekLine (first :: token) true rest := by
  induction lines with
  | nil => rfl
  | cons line lines ih =>
      obtain ⟨single, other⟩ := others line List.mem_cons_self
      have later := ih (fun next member => others next (List.mem_cons_of_mem _ member))
      have shape : unlines (line :: lines) ++ rest = line ++ 10 :: (unlines lines ++ rest) := by
        simp only [unlines, List.flatMap_cons, List.append_assoc, List.cons_append, List.nil_append]
      rw [shape, seekLine_other first token line _ single other, later]

/-- The lines of a text. A last line need not be ended. -/
def lines : Bytes → List Bytes
  | [] => []
  | byte :: rest =>
      if byte = 10 then [] :: lines rest
      else
        match lines rest with
        | [] => [[byte]]
        | line :: later => (byte :: line) :: later

theorem lines_ended (line rest : Bytes) (single : 10 ∉ line) :
    lines (line ++ 10 :: rest) = line :: lines rest := by
  induction line with
  | nil => rfl
  | cons byte line ih =>
      simp only [List.mem_cons, not_or] at single
      rw [List.cons_append, lines, if_neg (Ne.symm single.1), ih single.2]

theorem lines_last (byte : UInt8) (line : Bytes) (single : 10 ∉ byte :: line) :
    lines (byte :: line) = [byte :: line] := by
  induction line generalizing byte with
  | nil =>
      simp only [List.mem_cons, not_or] at single
      rw [lines, if_neg (Ne.symm single.1), lines]
  | cons next line ih =>
      rw [List.mem_cons, not_or] at single
      rw [lines, if_neg (Ne.symm single.1), ih next single.2]

/-- Every text is made of ended lines and a last one, and these are its lines. -/
theorem lines_unlines (ended : List Bytes) (last : Bytes) (single : ∀ line ∈ ended, 10 ∉ line)
    (lastSingle : 10 ∉ last) :
    lines (unlines ended ++ last) = if last = [] then ended else ended ++ [last] := by
  induction ended with
  | nil =>
      cases last with
      | nil => rfl
      | cons byte line => exact lines_last byte line lastSingle
  | cons line ended ih =>
      have later := ih fun next member => single next (List.mem_cons_of_mem _ member)
      have shape : unlines (line :: ended) ++ last = line ++ 10 :: (unlines ended ++ last) := by
        simp only [unlines, List.flatMap_cons, List.append_assoc, List.cons_append, List.nil_append]
      rw [shape, lines_ended line _ (single line List.mem_cons_self), later]
      split_ifs <;> rfl

/-- A text found in front of a cut that a foreign byte follows lies before the cut. -/
theorem prefix_of_cut (found front rest : Bytes) (byte : UInt8)
    (inside : found <+: front ++ byte :: rest) (foreign_ : byte ∉ found) : found <+: front := by
  rcases List.prefix_or_prefix_of_prefix inside (List.prefix_append front (byte :: rest)) with
    before | ⟨beyond, rfl⟩
  · exact before
  · rw [List.prefix_append_right_inj] at inside
    cases beyond with
    | nil => simp
    | cons next beyond =>
        rw [List.cons_prefix_cons] at inside
        rw [inside.1] at foreign_
        exact absurd (List.mem_append_right front List.mem_cons_self) foreign_

end TextReader
