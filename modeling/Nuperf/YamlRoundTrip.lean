import Nuperf.YamlLayout

set_option autoImplicit false

namespace Nuperf.Serdetk

open ByteString Numeral CStandard TextReader OrderedMap

section Emit

variable (fp : Floating) (stod : StodIndex)

/-- A text that a line can end with, as it stands. -/
structure PlainText (text : Bytes) : Prop where
  written : text ≠ []
  solid : Solid text
  single : 10 ∉ text

/-- A text that can stand in front of a colon. -/
structure PlainName (name : Bytes) : Prop extends PlainText name where
  whole : colon ∉ name
  uncommented : name.head? ≠ some 35
  unlisted : ¬ ascii "- " <+: name

mutual

/-- The values that are written as blocks the reader knows: nothing in them is empty, an array is
one of scalars, and every text stands on its own line. -/
def Value.Plain : Value → Prop
  | .array items => items ≠ [] ∧ ∀ item ∈ items, item.IsScalar ∧ PlainText (emitYamlValue fp item 0)
  | .object fields => fields ≠ [] ∧ PlainFields fields
  | scalar => PlainText (emitYamlValue fp scalar 0)

def PlainFields : List (Bytes × Value) → Prop
  | [] => True
  | (name, value) :: rest => PlainName name ∧ value.Plain ∧ PlainFields rest

end

mutual

/-- What a value is read back as: its texts are taken for what they look like. -/
def yamlImage : Value → Value
  | .array items => .array (items.map fun item => parseScalarToken stod (emitYamlValue fp item 0))
  | .object fields => .object (yamlImages fields)
  | scalar => parseScalarToken stod (emitYamlValue fp scalar 0)

def yamlImages : List (Bytes × Value) → List (Bytes × Value)
  | [] => []
  | (name, value) :: rest => (name, yamlImage value) :: yamlImages rest

end

def bareLine : YamlLine where
  skipped := []
  passed := fun _ member => absurd member List.not_mem_nil
  trailing := []
  blank := blank_nil

def PlainName.toYamlName {name : Bytes} (plain : PlainName name) : YamlName where
  name := name
  gap := []
  blank := blank_nil
  solid := plain.solid
  named := plain.toPlainText.written
  single := plain.whole
  uncommented := plain.uncommented
  unlisted := by
    rw [List.append_nil]
    exact plain.unlisted

def PlainText.toYamlText {text : Bytes} (plain : PlainText text) (gap : Bytes) (blank : Blank gap) :
    YamlText where
  gap := gap
  blank := blank
  text := text
  solid := plain.solid
  written := plain.written

/-- A line that is found again behind a newline. -/
def Closed (line : Bytes) : Prop := 10 ∉ line ∧ line.getLast? ≠ some 13

/-- A text of whole lines. -/
def Writes (text : Bytes) (lines : List Bytes) : Prop :=
  text = unlines lines ∧ ∀ line ∈ lines, Closed line

theorem writes_nil : Writes [] [] := ⟨rfl, fun _ member => absurd member List.not_mem_nil⟩

theorem writes_line (line : Bytes) (closed : Closed line) : Writes (line ++ [10]) [line] := by
  refine ⟨?_, List.forall_mem_singleton.mpr closed⟩
  rw [unlines, List.flatMap_singleton]

theorem writes_append {front back : Bytes} {first second : List Bytes} (head : Writes front first)
    (tail : Writes back second) : Writes (front ++ back) (first ++ second) := by
  refine ⟨?_, ?_⟩
  · rw [head.1, tail.1, unlines, unlines, unlines, List.flatMap_append]
  · intro line member
    rcases List.mem_append.mp member with inside | inside
    · exact head.2 line inside
    · exact tail.2 line inside

theorem yamlIndent_eq (depth : Nat) : yamlIndent depth = List.replicate (2 * depth) 32 := by
  rw [yamlIndent]
  induction depth with
  | zero => rfl
  | succ depth ih =>
      rw [List.replicate_succ, List.flatten_cons, ih, Nat.mul_succ, Nat.add_comm,
        List.replicate_add]
      rfl

/-- A line of content is closed when its text is. -/
theorem closed_content (indent : Nat) (body : Bytes) (single : 10 ∉ body) (nonempty : body ≠ [])
    (last : body.getLast? ≠ some 13) : Closed (bareLine.content indent body) := by
  rw [YamlLine.content, bareLine, List.append_nil]
  constructor
  · intro member
    rcases List.mem_append.mp member with space | inside
    · exact absurd (List.eq_of_mem_replicate space) (by decide)
    · exact single inside
  · rw [List.getLast?_append_of_ne_nil _ nonempty]
    exact last

theorem writes_content (depth : Nat) (body : Bytes) (single : 10 ∉ body) (nonempty : body ≠ [])
    (last : body.getLast? ≠ some 13) :
    Writes (yamlIndent depth ++ body ++ [10]) (bareLine.write (2 * depth) body) := by
  have line := writes_line _ (closed_content (2 * depth) body single nonempty last)
  rw [YamlLine.content] at line
  rw [YamlLine.write, YamlLine.content, yamlIndent_eq]
  simpa only [bareLine, List.append_nil, List.nil_append] using line

theorem PlainText.last {text : Bytes} (plain : PlainText text) : text.getLast? ≠ some 13 := by
  intro last
  have solid := plain.solid.2
  rw [last] at solid
  cases solid

theorem emit_scalar (value : Value) (scalar : value.IsScalar) (depth : Nat) :
    emitYamlValue fp value depth = emitYamlValue fp value 0 := by
  cases value <;> first | rfl | cases scalar

def plainItem {text : Bytes} (plain : PlainText text) : YamlItem :=
  ⟨bareLine, plain.toYamlText [] blank_nil⟩

theorem writes_item (depth : Nat) {text : Bytes} (plain : PlainText text) :
    Writes (yamlIndent depth ++ ascii "- " ++ (text ++ [10]))
      ((plainItem plain).lines (2 * depth)) := by
  have single : 10 ∉ ascii "- " ++ text := by
    intro member
    rcases List.mem_append.mp member with mark | inside
    · exact absurd mark (by decide)
    · exact plain.single inside
  have last : (ascii "- " ++ text).getLast? ≠ some 13 := by
    rw [List.getLast?_append_of_ne_nil _ plain.written]
    exact plain.last
  have line := writes_content depth _ single (List.cons_ne_nil _ _) last
  rw [List.append_assoc, List.append_assoc] at line
  rw [List.append_assoc]
  exact line

/-- Items of an array, each on a line of its own. -/
theorem yaml_items (depth : Nat) (items : List Value)
    (plain : ∀ item ∈ items, item.IsScalar ∧ PlainText (emitYamlValue fp item 0)) :
    ∃ written : List YamlItem, written.length = items.length ∧
      Writes (emitYamlItems fp items depth) (written.flatMap (YamlItem.lines (2 * depth))) ∧
      itemScalars stod written =
        items.map fun item => parseScalarToken stod (emitYamlValue fp item 0) := by
  induction items with
  | nil => exact ⟨[], rfl, writes_nil, rfl⟩
  | cons item items ih =>
      obtain ⟨⟨scalar, text⟩, others⟩ := List.forall_mem_cons.mp plain
      obtain ⟨written, count, writes, scalars⟩ := ih others
      have flat : isNested item = false := scalar
      refine ⟨plainItem text :: written, by rw [List.length_cons, List.length_cons, count], ?_, ?_⟩
      · rw [emitYamlItems, flat, if_neg Bool.false_ne_true, emit_scalar fp item scalar depth]
        exact writes_append (writes_item depth text) writes
      · rw [itemScalars, List.map_cons, List.map_cons, ← itemScalars, scalars]
        rfl

/-- The line of a key, with what is behind its colon. -/
theorem writes_name (depth : Nat) {name : Bytes} (plain : PlainName name) (behind : Bytes)
    (single : 10 ∉ behind) (last : behind.getLast? ≠ some 13) :
    Writes (yamlIndent depth ++ name ++ [colon] ++ (behind ++ [10]))
      (bareLine.write (2 * depth) (plain.toYamlName.body behind)) := by
  have body : plain.toYamlName.body behind = name ++ colon :: behind := by
    rw [YamlName.body, PlainName.toYamlName, List.append_nil]
  have whole : 10 ∉ name ++ colon :: behind := by
    intro member
    rcases List.mem_append.mp member with front | inside
    · exact plain.single front
    · rcases List.mem_cons.mp inside with mark | inside
      · exact absurd mark (by decide)
      · exact single inside
  have ended : (name ++ colon :: behind).getLast? ≠ some 13 := by
    rw [List.getLast?_append_of_ne_nil _ (List.cons_ne_nil _ _)]
    cases behind with
    | nil => exact show some colon ≠ some 13 by decide
    | cons c behind =>
        rw [List.getLast?_cons_cons]
        exact last
  have line := writes_content depth _ whole (List.append_ne_nil_of_right_ne_nil _
    (List.cons_ne_nil _ _)) ended
  rw [body]
  simpa only [List.append_assoc, List.singleton_append, List.cons_append, List.nil_append]
    using line

theorem no_last : ([] : Bytes).getLast? ≠ some 13 := by decide

/-- The text of a field. -/
def fieldText (name : Bytes) (value : Value) (depth : Nat) : Bytes :=
  yamlIndent depth ++ name ++ [colon] ++
    (if isNested value then 10 :: emitYamlValue fp value (depth + 1)
    else 32 :: emitYamlValue fp value depth ++ [10])

/-- A field is written as an entry, in front of any others. -/
def FieldWritten (name : Bytes) (value : Value) (depth : Nat) : Prop :=
  ∃ (entry : YamlEntries → YamlEntries) (lines : List Bytes),
    Writes (fieldText fp name value depth) lines ∧ ∀ rest : YamlEntries,
      entry rest ≠ .nil ∧ (rest.Proper → (entry rest).Proper) ∧
      (entry rest).lines (2 * depth) = lines ++ rest.lines (2 * depth) ∧
      ∀ obj, (entry rest).fields stod obj =
        rest.fields stod (insert name (yamlImage fp stod value) obj)

theorem fieldWritten_scalar (name : Bytes) (named : PlainName name) (value : Value)
    (scalar : value.IsScalar) (plain : PlainText (emitYamlValue fp value 0)) (depth : Nat) :
    FieldWritten fp stod name value depth := by
  have flat : isNested value = false := scalar
  have single : 10 ∉ 32 :: emitYamlValue fp value 0 := by
    intro member
    rcases List.mem_cons.mp member with mark | inside
    · exact absurd mark (by decide)
    · exact plain.single inside
  have last : (32 :: emitYamlValue fp value 0).getLast? ≠ some 13 := by
    obtain ⟨c, text, shape⟩ := List.exists_cons_of_ne_nil plain.written
    have ended := plain.last
    rw [shape] at ended ⊢
    rw [List.getLast?_cons_cons]
    exact ended
  have image : yamlImage fp stod value = parseScalarToken stod (emitYamlValue fp value 0) := by
    cases value <;> first | rfl | cases scalar
  refine ⟨.scalar bareLine named.toYamlName (plain.toYamlText [32] blank_space),
    bareLine.write (2 * depth) (named.toYamlName.body (32 :: emitYamlValue fp value 0)), ?_, ?_⟩
  · rw [fieldText, flat, if_neg Bool.false_ne_true, emit_scalar fp value scalar depth]
    exact writes_name depth named _ single last
  · intro rest
    refine ⟨(fun same => by cases same), id, rfl, fun obj => ?_⟩
    rw [YamlEntries.fields, image]
    rfl

theorem fieldText_nested (name : Bytes) (value : Value) (nested : isNested value = true)
    (depth : Nat) :
    fieldText fp name value depth =
      yamlIndent depth ++ name ++ [colon] ++ ([] ++ [10]) ++
        emitYamlValue fp value (depth + 1) := by
  rw [fieldText, if_pos nested, List.nil_append, List.append_assoc _ [10], List.singleton_append]

theorem fieldWritten_array (name : Bytes) (named : PlainName name) (items : List Value)
    (plain : (Value.array items).Plain fp) (depth : Nat) :
    FieldWritten fp stod name (.array items) depth := by
  obtain ⟨nonempty, members⟩ := plain
  obtain ⟨written, count, writes, scalars⟩ := yaml_items fp stod (depth + 1) items members
  obtain ⟨first, later, rfl⟩ : ∃ first later, written = first :: later := by
    apply List.exists_cons_of_ne_nil
    rintro rfl
    exact nonempty (List.eq_nil_of_length_eq_zero count.symm)
  have text := writes_append (writes_name depth named [] List.not_mem_nil no_last) writes
  rw [← emitYamlValue, ← fieldText_nested fp name _ rfl] at text
  refine ⟨.sequence bareLine named.toYamlName true first later, _, text, fun rest => ?_⟩
  refine ⟨(fun same => by cases same), id, ?_, fun obj => ?_⟩
  · rw [YamlEntries.lines, if_pos rfl, List.append_assoc]
    rfl
  · rw [YamlEntries.fields, scalars]
    rfl

theorem yamlImages_eq (fields : List (Bytes × Value)) :
    yamlImages fp stod fields = fields.map fun field => (field.1, yamlImage fp stod field.2) := by
  induction fields with
  | nil => rfl
  | cons field rest ih => rw [yamlImages, ih, List.map_cons]

theorem yamlImages_sorted (fields : List (Bytes × Value)) (sorted : Sorted fields) :
    Sorted (yamlImages fp stod fields) := by
  rw [yamlImages_eq, Sorted, List.pairwise_map]
  exact sorted

mutual

theorem yaml_field (name : Bytes) (named : PlainName name) (value : Value)
    (wellFormed : value.WellFormed) (plain : value.Plain fp) (depth : Nat) :
    FieldWritten fp stod name value depth := by
  cases value with
  | object fields =>
      cases wellFormed with
      | object _ sorted members =>
          obtain ⟨entries, proper, nonempty, writes, built⟩ :=
            yaml_fields fields members plain.2 (depth + 1)
          have image := insertAll_nil (yamlImages fp stod fields)
            (yamlImages_sorted fp stod fields sorted)
          have text := writes_append (writes_name depth named [] List.not_mem_nil no_last) writes
          rw [← emitYamlValue, ← fieldText_nested fp name _ rfl] at text
          refine ⟨.mapping bareLine named.toYamlName entries, _, text, fun rest => ?_⟩
          refine ⟨(fun same => by cases same), fun later => ⟨nonempty plain.1, proper, later⟩, ?_,
            fun obj => ?_⟩
          · rw [YamlEntries.lines, List.append_assoc]
            rfl
          · rw [YamlEntries.fields, built, image]
            rfl
  | array items => exact fieldWritten_array fp stod name named items plain depth
  | null => exact fieldWritten_scalar fp stod name named .null rfl plain depth
  | bool value => exact fieldWritten_scalar fp stod name named (.bool value) rfl plain depth
  | int value => exact fieldWritten_scalar fp stod name named (.int value) rfl plain depth
  | uint value => exact fieldWritten_scalar fp stod name named (.uint value) rfl plain depth
  | double bits => exact fieldWritten_scalar fp stod name named (.double bits) rfl plain depth
  | string text => exact fieldWritten_scalar fp stod name named (.string text) rfl plain depth
  | binary bytes => exact fieldWritten_scalar fp stod name named (.binary bytes) rfl plain depth

/-- Fields are written as entries, in their order. -/
theorem yaml_fields (fields : List (Bytes × Value)) (members : ∀ field ∈ fields, field.2.WellFormed)
    (plain : PlainFields fp fields) (depth : Nat) :
    ∃ entries : YamlEntries, entries.Proper ∧ (fields ≠ [] → entries ≠ .nil) ∧
      Writes (emitYamlFields fp fields depth) (entries.lines (2 * depth)) ∧
      ∀ obj, entries.fields stod obj = insertAll (yamlImages fp stod fields) obj := by
  cases fields with
  | nil => exact ⟨.nil, trivial, fun nonempty => absurd rfl nonempty, writes_nil, fun _ => rfl⟩
  | cons field rest =>
      obtain ⟨name, value⟩ := field
      obtain ⟨named, here, others⟩ := plain
      obtain ⟨entry, lines, text, written⟩ :=
        yaml_field name named value (members (name, value) List.mem_cons_self) here depth
      obtain ⟨entries, proper, -, writes, built⟩ :=
        yaml_fields rest (fun next inside => members next (List.mem_cons_of_mem _ inside)) others
          depth
      obtain ⟨nonempty, kept, placed, inserted⟩ := written entries
      refine ⟨entry entries, kept proper, fun _ => nonempty, ?_, fun obj => ?_⟩
      · rw [placed]
        exact writes_append text writes
      · rw [inserted, built]
        rfl

end

theorem not_mem_empty : ∀ line ∈ ([] : List Bytes), isIgnorable line = true :=
  fun _ inside => absurd inside List.not_mem_nil

/-- Whole lines of a block are read as the block. -/
theorem parseYamlBasic_writes (block : YamlBlock) (text : Bytes)
    (writes : Writes text (block.lines 0)) :
    parseYamlBasic stod text = .ok (block.value stod) := by
  have split := splitLines_unlines _ writes.2
  rw [← writes.1] at split
  apply parseYamlBasic_lines stod ⟨block, [], not_mem_empty⟩
  rw [split, YamlDocument.lines, List.append_nil]

/-- What `dump_string` writes of a value, `load_string` reads as its image. -/
theorem parseYamlBasic_emit (value : Value) (nested : isNested value = true)
    (wellFormed : value.WellFormed) (plain : value.Plain fp) :
    parseYamlBasic stod (emitYamlValue fp value 0) = .ok (yamlImage fp stod value) := by
  cases value with
  | object fields =>
      cases wellFormed with
      | object _ sorted members =>
          obtain ⟨entries, proper, nonempty, writes, built⟩ :=
            yaml_fields fp stod fields members plain.2 0
          have image := insertAll_nil _ (yamlImages_sorted fp stod fields sorted)
          have read := parseYamlBasic_writes stod
            (.mapping entries proper (nonempty plain.1)) _ writes
          rw [emitYamlValue, read, YamlBlock.value, built, image]
          rfl
  | array items =>
      obtain ⟨nonempty, members⟩ := plain
      obtain ⟨written, count, writes, scalars⟩ := yaml_items fp stod 0 items members
      obtain ⟨first, later, rfl⟩ : ∃ first later, written = first :: later := by
        apply List.exists_cons_of_ne_nil
        rintro rfl
        exact nonempty (List.eq_nil_of_length_eq_zero count.symm)
      have read := parseYamlBasic_writes stod (.sequence first later) _ writes
      rw [emitYamlValue, read, YamlBlock.value, scalars]
      rfl
  | _ => cases nested

end Emit

end Nuperf.Serdetk
