import Nuperf.ScalarToken
import Nuperf.SerdeYaml

set_option autoImplicit false

namespace Nuperf.Serdetk

open ByteString CStandard TextReader OrderedMap

section Entries

theorem skipIgnorable_length (lines : List Bytes) :
    (skipIgnorable lines).length ≤ lines.length := (List.dropWhile_sublist _).length_le

theorem skipIgnorable_cons_length (lines rest : List Bytes) (line : Bytes)
    (found : skipIgnorable lines = line :: rest) : rest.length < lines.length := by
  have shorter := skipIgnorable_length lines
  rw [found, List.length_cons] at shorter
  omega

/-- White space only is trimmed to nothing. -/
theorem trimCopy_eq_nil (s : Bytes) (empty : trimCopy s = []) : Blank s := by
  have inside : ∀ c ∈ s.dropWhile isSpace, isSpace c = true := List.rdropWhile_eq_nil_iff.mp empty
  have none : s.dropWhile isSpace = [] := by
    cases shape : s.dropWhile isSpace with
    | nil => rfl
    | cons c rest =>
        have head := List.head?_dropWhile_not isSpace s
        have space := inside c (by simp [shape])
        rw [shape] at head
        exact absurd space (by simpa using head)
  exact List.dropWhile_eq_nil_iff.mp none

/-- An item has a text: white space behind the `-` is trimmed away with it. -/
theorem sequenceEntry_nonempty (indent : Nat) (line rhs : Bytes)
    (found : sequenceEntry indent line = .ok (some rhs)) : rhs ≠ [] := by
  unfold sequenceEntry at found
  dsimp only at found
  split_ifs at found with _ _ item
  · cases found
  · rw [Except.ok.injEq, Option.some.injEq] at found
    rw [← found]
    intro empty
    obtain ⟨text, split⟩ := of_decide_eq_true item
    have solid := (trimCopy_solid (line.drop (leadingSpaces line))).2
    rw [← split] at solid empty
    have blank : Blank (32 :: text) :=
      List.forall_mem_cons.mpr ⟨rfl, trimCopy_eq_nil text empty⟩
    have last : (ascii "- " ++ text).getLast? = (32 :: text).getLast? := rfl
    rw [last, List.getLast?_eq_some_getLast (List.cons_ne_nil _ _), Option.all_some,
      blank _ (List.getLast_mem _)] at solid
    cases solid
  · cases found

end Entries

section Reading

variable (stod : StodIndex) (fuel indent : Nat)

/-- A sequence is read item by item, and its items are scalars. -/
theorem parseSequence_read (items : List Value) (lines rest : List Bytes) (value : Value)
    (found : parseSequence stod (fuel + 1) indent items lines = .ok (value, rest)) :
    (value = .array items ∧ rest = skipIgnorable lines) ∨
      ∃ line more rhs, skipIgnorable lines = line :: more ∧
        parseSequence stod fuel indent (items ++ [parseScalarToken stod rhs]) more =
          .ok (value, rest) := by
  rw [parseSequence] at found
  cases shape : skipIgnorable lines with
  | nil =>
      rw [shape] at found
      cases found
      exact .inl ⟨rfl, rfl⟩
  | cons line more =>
      rw [shape] at found
      obtain ⟨entry, here, found⟩ := ok_of_bind _ _ _ found
      cases entry with
      | none =>
          cases found
          exact .inl ⟨rfl, rfl⟩
      | some rhs =>
          dsimp only at found
          rw [if_neg (sequenceEntry_nonempty indent line rhs here)] at found
          exact .inr ⟨line, more, rhs, rfl, found⟩

/-- What is read as the value of a key: the text behind the colon, nothing at the end of the text,
a sequence that is not indented, or a block that is. -/
inductive EntryRead (rhs : Bytes) (lines : List Bytes) : Value → List Bytes → Prop
  | scalar : EntryRead rhs lines (parseScalarToken stod rhs) lines
  | null : EntryRead rhs lines .null []
  | sequence (next : Bytes) (more rest : List Bytes) (value : Value)
      (shape : skipIgnorable lines = next :: more)
      (read : parseSequence stod fuel indent [] (next :: more) = .ok (value, rest)) :
      EntryRead rhs lines value rest
  | block (next : Bytes) (more rest : List Bytes) (value : Value)
      (shape : skipIgnorable lines = next :: more)
      (read : parseBlock stod fuel (indent + 2) (next :: more) = .ok (value, rest)) :
      EntryRead rhs lines value rest

theorem parseMapping_read (obj : Fields) (lines rest : List Bytes) (value : Value)
    (found : parseMapping stod (fuel + 1) indent obj lines = .ok (value, rest)) :
    (value = .object obj ∧ rest = skipIgnorable lines) ∨
      ∃ line more key rhs field later, skipIgnorable lines = line :: more ∧
        EntryRead stod fuel indent rhs more field later ∧
        parseMapping stod fuel indent (insert key field obj) later = .ok (value, rest) := by
  rw [parseMapping] at found
  cases shape : skipIgnorable lines with
  | nil =>
      rw [shape] at found
      cases found
      exact .inl ⟨rfl, rfl⟩
  | cons line more =>
      rw [shape] at found
      obtain ⟨entry, here, found⟩ := ok_of_bind _ _ _ found
      cases entry with
      | none =>
          cases found
          exact .inl ⟨rfl, rfl⟩
      | some entry =>
          obtain ⟨key, rhs⟩ := entry
          refine .inr ⟨line, more, key, rhs, ?_⟩
          dsimp only at found
          split_ifs at found with empty
          · cases below : skipIgnorable more with
            | nil =>
                rw [below] at found
                exact ⟨_, _, rfl, .null, found⟩
            | cons next behind =>
                rw [below] at found
                dsimp only at found
                split_ifs at found
                · obtain ⟨⟨field, later⟩, read, found⟩ := ok_of_bind _ _ _ found
                  exact ⟨_, _, rfl, .sequence next behind later field below read, found⟩
                · obtain ⟨⟨field, later⟩, read, found⟩ := ok_of_bind _ _ _ found
                  exact ⟨_, _, rfl, .block next behind later field below read, found⟩
          · exact ⟨_, _, rfl, .scalar, found⟩

theorem parseBlock_read (lines rest : List Bytes) (value : Value)
    (found : parseBlock stod (fuel + 1) indent lines = .ok (value, rest)) :
    (value = .null ∧ rest = []) ∨
      parseSequence stod fuel indent [] (skipIgnorable lines) = .ok (value, rest) ∨
      parseMapping stod fuel indent [] (skipIgnorable lines) = .ok (value, rest) := by
  rw [parseBlock] at found
  cases shape : skipIgnorable lines with
  | nil =>
      rw [shape] at found
      cases found
      exact .inl ⟨rfl, rfl⟩
  | cons line more =>
      rw [shape] at found
      dsimp only at found
      split_ifs at found
      · exact .inr (.inl found)
      · exact .inr (.inr found)

end Reading

section Length

variable (stod : StodIndex)

theorem parseSequence_length (fuel indent : Nat) (items : List Value) (lines rest : List Bytes)
    (value : Value) (found : parseSequence stod fuel indent items lines = .ok (value, rest)) :
    rest.length ≤ lines.length := by
  induction fuel generalizing items lines with
  | zero => cases found
  | succ fuel ih =>
      rcases parseSequence_read stod fuel indent items lines rest value found with
        ⟨-, rfl⟩ | ⟨line, more, rhs, shape, later⟩
      · exact skipIgnorable_length lines
      · have shorter := skipIgnorable_cons_length lines more line shape
        have behind := ih _ _ later
        omega

/-- Every part of the parser that returns leaves no more lines than it was given. -/
theorem yaml_length (fuel : Nat) :
    (∀ indent lines value rest, parseBlock stod fuel indent lines = .ok (value, rest) →
      rest.length ≤ lines.length) ∧
    (∀ indent obj lines value rest, parseMapping stod fuel indent obj lines = .ok (value, rest) →
      rest.length ≤ lines.length) := by
  induction fuel with
  | zero =>
      constructor
      · intro indent lines value rest found
        cases found
      · intro indent obj lines value rest found
        cases found
  | succ fuel ih =>
      obtain ⟨blocks, mappings⟩ := ih
      constructor
      · intro indent lines value rest found
        have shorter := skipIgnorable_length lines
        rcases parseBlock_read stod fuel indent lines rest value found with
          ⟨-, rfl⟩ | sequence | mapping
        · exact Nat.zero_le _
        · have behind := parseSequence_length stod _ _ _ _ _ _ sequence
          omega
        · have behind := mappings _ _ _ _ _ mapping
          omega
      · intro indent obj lines value rest found
        rcases parseMapping_read stod fuel indent obj lines rest value found with
          ⟨-, rfl⟩ | ⟨line, more, key, rhs, field, later, shape, entry, found⟩
        · exact skipIgnorable_length lines
        · have first := skipIgnorable_cons_length lines more line shape
          have last := mappings _ _ _ _ _ found
          cases entry with
          | scalar => omega
          | null =>
              rw [List.length_nil] at last
              omega
          | sequence next behind _ _ below read =>
              have second := skipIgnorable_cons_length more behind next below
              have third := parseSequence_length stod _ _ _ _ _ _ read
              rw [List.length_cons] at third
              omega
          | block next behind _ _ below read =>
              have second := skipIgnorable_cons_length more behind next below
              have third := blocks _ _ _ _ read
              rw [List.length_cons] at third
              omega

end Length

section Fuel

variable (stod : StodIndex) (fuel other indent : Nat)

theorem parseSequence_alike (items : List Value) (lines : List Bytes)
    (sequences : ∀ items later, later.length < lines.length →
      parseSequence stod fuel indent items later = parseSequence stod other indent items later) :
    parseSequence stod (fuel + 1) indent items lines =
      parseSequence stod (other + 1) indent items lines := by
  rw [parseSequence, parseSequence]
  cases shape : skipIgnorable lines with
  | nil => rfl
  | cons line more =>
      have shorter := skipIgnorable_cons_length lines more line shape
      dsimp only
      cases here : sequenceEntry indent line with
      | error thrown => rfl
      | ok entry =>
          cases entry with
          | none => rfl
          | some rhs =>
              simp only [bind, Except.bind, sequenceEntry_nonempty indent line rhs here, ↓reduceIte]
              exact sequences _ more shorter

theorem parseMapping_alike (obj : Fields) (lines : List Bytes)
    (sequences : ∀ later, later.length < lines.length →
      parseSequence stod fuel indent [] later = parseSequence stod other indent [] later)
    (blocks : ∀ later, later.length < lines.length →
      parseBlock stod fuel (indent + 2) later = parseBlock stod other (indent + 2) later)
    (mappings : ∀ obj later, later.length < lines.length →
      parseMapping stod fuel indent obj later = parseMapping stod other indent obj later) :
    parseMapping stod (fuel + 1) indent obj lines =
      parseMapping stod (other + 1) indent obj lines := by
  rw [parseMapping, parseMapping]
  cases shape : skipIgnorable lines with
  | nil => rfl
  | cons line more =>
      have shorter := skipIgnorable_cons_length lines more line shape
      dsimp only
      cases mappingEntry indent line with
      | error thrown => rfl
      | ok entry =>
          cases entry with
          | none => rfl
          | some entry =>
              obtain ⟨key, rhs⟩ := entry
              simp only [bind, Except.bind]
              split_ifs
              · cases below : skipIgnorable more with
                | nil => exact mappings _ [] (by rw [List.length_nil]; omega)
                | cons next behind =>
                    have second := skipIgnorable_cons_length more behind next below
                    have fits : (next :: behind).length < lines.length := by
                      rw [List.length_cons]
                      omega
                    dsimp only
                    split_ifs
                    · rw [sequences _ fits]
                      cases read : parseSequence stod other indent [] (next :: behind) with
                      | error thrown => rfl
                      | ok found =>
                          have third := parseSequence_length stod _ _ _ _ found.2 found.1 read
                          exact mappings _ _ (by omega)
                    · rw [blocks _ fits]
                      cases read : parseBlock stod other (indent + 2) (next :: behind) with
                      | error thrown => rfl
                      | ok found =>
                          have third := (yaml_length stod _).1 _ _ found.1 found.2 read
                          exact mappings _ _ (by omega)
              · exact mappings _ more shorter

theorem parseSequence_fuel (items : List Value) (lines : List Bytes) (enough : lines.length < fuel)
    (otherEnough : lines.length < other) :
    parseSequence stod fuel indent items lines = parseSequence stod other indent items lines := by
  induction fuel generalizing other items lines with
  | zero => omega
  | succ fuel ih =>
      obtain ⟨other, rfl⟩ := Nat.exists_eq_add_of_le' (Nat.one_le_of_lt otherEnough)
      apply parseSequence_alike
      intro items later shorter
      exact ih other items later (by omega) (by omega)

/-- From twice the number of the lines on, the bound on the depth of calls does not matter. -/
theorem yaml_fuel :
    (∀ other indent lines, 2 * lines.length + 1 < fuel → 2 * lines.length + 1 < other →
      parseBlock stod fuel indent lines = parseBlock stod other indent lines) ∧
    (∀ other indent obj lines, 2 * lines.length < fuel → 2 * lines.length < other →
      parseMapping stod fuel indent obj lines = parseMapping stod other indent obj lines) := by
  induction fuel with
  | zero =>
      constructor
      · intro other indent lines enough _
        omega
      · intro other indent obj lines enough _
        omega
  | succ fuel ih =>
      obtain ⟨sameBlock, sameMapping⟩ := ih
      constructor
      · intro other indent lines enough otherEnough
        obtain ⟨other, rfl⟩ := Nat.exists_eq_add_of_le' (show 1 ≤ other by omega)
        have bound := skipIgnorable_length lines
        rw [parseBlock, parseBlock]
        cases shape : skipIgnorable lines with
        | nil => rfl
        | cons line rest =>
            rw [shape] at bound
            dsimp only
            split_ifs
            · exact parseSequence_fuel stod fuel other indent [] _ (by omega) (by omega)
            · exact sameMapping other indent [] _ (by omega) (by omega)
      · intro other indent obj lines enough otherEnough
        obtain ⟨other, rfl⟩ := Nat.exists_eq_add_of_le' (show 1 ≤ other by omega)
        apply parseMapping_alike
        · intro later shorter
          exact parseSequence_fuel stod fuel other indent [] later (by omega) (by omega)
        · intro later shorter
          exact sameBlock other (indent + 2) later (by omega) (by omega)
        · intro obj later shorter
          exact sameMapping other indent obj later (by omega) (by omega)

/-- `parse_yaml_basic` does not depend on the bound it is modelled with. -/
theorem parseYamlBasic_fuel (text : Bytes) (enough : 2 * (splitLines text).length + 1 < fuel) :
    parseYamlBasic stod text =
      (parseBlock stod fuel 0 (splitLines text)).map fun found => found.1 := by
  rw [parseYamlBasic, (yaml_fuel stod _).1 fuel 0 (splitLines text) (by omega) enough]
  cases parseBlock stod fuel 0 (splitLines text) <;> rfl

end Fuel

section Shape

variable (stod : StodIndex)

/-- Neither an array nor an object. -/
def Value.IsScalar (value : Value) : Prop := isNested value = false

/-- Values as they are read from YAML: every array is one of scalars. -/
inductive Value.Flat : Value → Prop
  | scalar (value : Value) (scalar : value.IsScalar) : Flat value
  | object (fields : Fields) (sorted : Sorted fields)
      (members : ∀ field ∈ fields, field.2.Flat) : Flat (.object fields)
  | array (items : List Value) (members : ∀ item ∈ items, item.IsScalar) : Flat (.array items)

/-- The fields of a map, each as it is read from YAML. -/
structure FlatFields (obj : Fields) : Prop where
  sorted : Sorted obj
  members : ∀ field ∈ obj, field.2.Flat

theorem flatFields_nil : FlatFields [] :=
  ⟨List.Pairwise.nil, fun _ inside => absurd inside List.not_mem_nil⟩

theorem FlatFields.insert {obj : Fields} (flat : FlatFields obj) (key : Bytes) (value : Value)
    (here : value.Flat) : FlatFields (insert key value obj) := by
  refine ⟨insert_sorted key value obj flat.sorted, ?_⟩
  intro field inside
  rcases mem_insert key value obj field inside with rfl | earlier
  · exact here
  · exact flat.members field earlier

theorem isScalar_wellFormed (value : Value) (scalar : value.IsScalar) : value.WellFormed := by
  cases value with
  | null => exact .null
  | bool value => exact .bool value
  | int value => exact .int value
  | uint value => exact .uint value
  | double bits => exact .double bits
  | string text => exact .string text
  | binary bytes => exact .binary bytes
  | object fields => cases scalar
  | array items => cases scalar

theorem Value.Flat.wellFormed {value : Value} (flat : value.Flat) : value.WellFormed := by
  induction flat with
  | scalar value scalar => exact isScalar_wellFormed value scalar
  | object fields sorted _ members => exact .object fields sorted members
  | array items members =>
      exact .array items fun item inside => isScalar_wellFormed item (members item inside)

theorem parseScalarToken_isScalar (token : Bytes) : (parseScalarToken stod token).IsScalar := by
  have real (token : Bytes) : (realToken stod token).IsScalar := by
    unfold realToken
    split
    · split_ifs <;> rfl
    · rfl
  unfold parseScalarToken
  dsimp only
  split_ifs
  · rfl
  · rfl
  · rfl
  · rfl
  · split
    · split_ifs
      · rfl
      · exact real _
    · exact real _

/-- A sequence is an array of scalars. -/
theorem parseSequence_flat (fuel indent : Nat) (items : List Value) (lines rest : List Bytes)
    (value : Value) (scalars : ∀ item ∈ items, item.IsScalar)
    (found : parseSequence stod fuel indent items lines = .ok (value, rest)) :
    ∃ all, value = .array all ∧ ∀ item ∈ all, item.IsScalar := by
  induction fuel generalizing items lines with
  | zero => cases found
  | succ fuel ih =>
      rcases parseSequence_read stod fuel indent items lines rest value found with
        ⟨rfl, -⟩ | ⟨line, more, rhs, -, later⟩
      · exact ⟨items, rfl, scalars⟩
      · apply ih _ _ _ later
        intro item inside
        rcases List.mem_append.mp inside with earlier | last
        · exact scalars item earlier
        · rw [List.mem_singleton.mp last]
          exact parseScalarToken_isScalar stod rhs

theorem parseSequence_flat_nil (fuel indent : Nat) (lines rest : List Bytes) (value : Value)
    (found : parseSequence stod fuel indent [] lines = .ok (value, rest)) : value.Flat := by
  obtain ⟨all, rfl, scalars⟩ := parseSequence_flat stod fuel indent [] lines rest value
    (fun _ inside => absurd inside List.not_mem_nil) found
  exact .array all scalars

theorem yaml_flat (fuel : Nat) :
    (∀ indent lines value rest, parseBlock stod fuel indent lines = .ok (value, rest) →
      value.Flat) ∧
    (∀ indent obj lines value rest, FlatFields obj →
      parseMapping stod fuel indent obj lines = .ok (value, rest) → value.Flat) := by
  induction fuel with
  | zero =>
      constructor
      · intro indent lines value rest found
        cases found
      · intro indent obj lines value rest _ found
        cases found
  | succ fuel ih =>
      obtain ⟨blocks, mappings⟩ := ih
      constructor
      · intro indent lines value rest found
        rcases parseBlock_read stod fuel indent lines rest value found with
          ⟨rfl, -⟩ | sequence | mapping
        · exact .scalar _ rfl
        · exact parseSequence_flat_nil stod _ _ _ _ _ sequence
        · exact mappings _ _ _ _ _ flatFields_nil mapping
      · intro indent obj lines value rest flat found
        rcases parseMapping_read stod fuel indent obj lines rest value found with
          ⟨rfl, -⟩ | ⟨line, more, key, rhs, field, later, -, entry, found⟩
        · exact .object obj flat.sorted flat.members
        · apply mappings _ _ _ _ _ (flat.insert key field ?_) found
          cases entry with
          | scalar => exact .scalar _ (parseScalarToken_isScalar stod rhs)
          | null => exact .scalar _ rfl
          | sequence next behind _ _ _ read => exact parseSequence_flat_nil stod _ _ _ _ _ read
          | block next behind _ _ _ read => exact blocks _ _ _ _ read

/-- Whatever the text, an array that is read from it holds scalars only. -/
theorem parseYamlBasic_flat (text : Bytes) (root : Value)
    (loaded : parseYamlBasic stod text = .ok root) : root.Flat := by
  obtain ⟨⟨found, rest⟩, read, same⟩ := ok_of_bind _ _ _ loaded
  cases same
  exact (yaml_flat stod _).1 _ _ _ _ read

end Shape

end Nuperf.Serdetk
