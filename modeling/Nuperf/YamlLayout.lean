import Nuperf.YamlTotal

set_option autoImplicit false

namespace Nuperf.Serdetk

open ByteString CStandard TextReader OrderedMap

/-- What stands around the text of a line: the lines in front that are passed over, and the white
space behind. -/
structure YamlLine where
  skipped : List Bytes
  passed : ∀ line ∈ skipped, isIgnorable line = true
  trailing : Bytes
  blank : Blank trailing

/-- A key as it is written, up to its colon. -/
structure YamlName where
  name : Bytes
  gap : Bytes
  blank : Blank gap
  solid : Solid name
  named : name ≠ []
  single : colon ∉ name
  uncommented : name.head? ≠ some 35
  unlisted : ¬ ascii "- " <+: name ++ gap

/-- A scalar as it is written, behind the white space in front of it. -/
structure YamlText where
  gap : Bytes
  blank : Blank gap
  text : Bytes
  solid : Solid text
  written : text ≠ []

structure YamlItem where
  line : YamlLine
  scalar : YamlText

/-- A mapping as it is written. A sequence under a key may be indented or not. -/
inductive YamlEntries
  | nil
  | scalar (line : YamlLine) (name : YamlName) (value : YamlText) (rest : YamlEntries)
  | sequence (line : YamlLine) (name : YamlName) (deeper : Bool) (first : YamlItem)
      (items : List YamlItem) (rest : YamlEntries)
  | mapping (line : YamlLine) (name : YamlName) (nested rest : YamlEntries)

/-- Of a key with nothing below it, the value depends on what follows. -/
def YamlEntries.Proper : YamlEntries → Prop
  | .nil => True
  | .scalar _ _ _ rest => rest.Proper
  | .sequence _ _ _ _ _ rest => rest.Proper
  | .mapping _ _ nested rest => nested ≠ .nil ∧ nested.Proper ∧ rest.Proper

def YamlLine.content (line : YamlLine) (indent : Nat) (body : Bytes) : Bytes :=
  List.replicate indent 32 ++ (body ++ line.trailing)

def YamlLine.write (line : YamlLine) (indent : Nat) (body : Bytes) : List Bytes :=
  line.skipped ++ [line.content indent body]

def YamlName.body (name : YamlName) (behind : Bytes) : Bytes :=
  name.name ++ name.gap ++ colon :: behind

def YamlItem.body (item : YamlItem) : Bytes :=
  ascii "- " ++ (item.scalar.gap ++ item.scalar.text)

def YamlItem.lines (indent : Nat) (item : YamlItem) : List Bytes :=
  item.line.write indent item.body

def YamlEntries.lines : YamlEntries → Nat → List Bytes
  | .nil, _ => []
  | .scalar line name value rest, indent =>
      line.write indent (name.body (value.gap ++ value.text)) ++ rest.lines indent
  | .sequence line name deeper first items rest, indent =>
      line.write indent (name.body []) ++
        ((first :: items).flatMap (YamlItem.lines (if deeper then indent + 2 else indent)) ++
          rest.lines indent)
  | .mapping line name nested rest, indent =>
      line.write indent (name.body []) ++ (nested.lines (indent + 2) ++ rest.lines indent)

def itemScalars (stod : StodIndex) (items : List YamlItem) : List Value :=
  items.map fun item => parseScalarToken stod item.scalar.text

def YamlEntries.fields (stod : StodIndex) : YamlEntries → Fields → Fields
  | .nil, obj => obj
  | .scalar _ name value rest, obj =>
      rest.fields stod (insert name.name (parseScalarToken stod value.text) obj)
  | .sequence _ name _ first items rest, obj =>
      rest.fields stod (insert name.name (.array (itemScalars stod (first :: items))) obj)
  | .mapping _ name nested rest, obj =>
      rest.fields stod (insert name.name (.object (nested.fields stod [])) obj)

section Lines

/-- The text of a line that is not passed over. -/
structure IsContent (body : Bytes) : Prop where
  solid : Solid body
  written : body ≠ []
  uncommented : body.head? ≠ some 35

theorem replicate_blank (indent : Nat) : Blank (List.replicate indent 32) := by
  intro c member
  rw [List.eq_of_mem_replicate member]
  rfl

variable (line : YamlLine) (indent : Nat) {body : Bytes} (content : IsContent body)

include content

theorem trimCopy_content : trimCopy (line.content indent body) = body :=
  trimCopy_gaps _ body line.trailing (replicate_blank indent) line.blank content.solid

theorem leadingSpaces_content : leadingSpaces (line.content indent body) = indent := by
  obtain ⟨c, rest, rfl⟩ := List.exists_cons_of_ne_nil content.written
  have solid := content.solid.1
  rw [List.head?_cons, Option.all_some, Bool.not_eq_true'] at solid
  have stop : (c == 32) = false := by
    rw [beq_eq_false_iff_ne]
    rintro rfl
    cases solid
  have run : ∀ byte ∈ List.replicate indent (32 : UInt8), (byte == 32) = true := by
    intro byte member
    rw [List.eq_of_mem_replicate member]
    rfl
  rw [leadingSpaces, YamlLine.content, List.takeWhile_append_of_pos run, List.cons_append,
    List.takeWhile_cons_of_neg (by rw [stop]; exact Bool.false_ne_true), List.append_nil,
    List.length_replicate]

theorem trimCopy_drop : trimCopy ((line.content indent body).drop indent) = body := by
  have dropped : (line.content indent body).drop indent = body ++ line.trailing := by
    rw [YamlLine.content, List.drop_left' (List.length_replicate)]
  have trimmed := trimCopy_gaps [] body line.trailing blank_nil line.blank content.solid
  rw [dropped]
  exact trimmed

theorem content_not_ignorable : isIgnorable (line.content indent body) = false := by
  rw [isIgnorable, trimCopy_content line indent content, decide_eq_false_iff_not, not_or]
  refine ⟨content.written, ?_⟩
  rintro ⟨rest, rfl⟩
  exact content.uncommented rfl

/-- Of what is written in front of a line, nothing is left. -/
theorem skipIgnorable_write (behind : List Bytes) :
    skipIgnorable (line.write indent body ++ behind) = line.content indent body :: behind := by
  rw [skipIgnorable, YamlLine.write, List.append_assoc,
    List.dropWhile_append_of_pos line.passed, List.singleton_append, List.dropWhile_cons_of_neg]
  rw [content_not_ignorable line indent content]
  exact Bool.false_ne_true

theorem sequenceEntry_content (other : Nat) (bound : indent ≤ other)
    (ends : indent = other → isItem body = false) :
    sequenceEntry other (line.content indent body) = .ok none := by
  unfold sequenceEntry
  rw [leadingSpaces_content line indent content]
  dsimp only
  by_cases same : indent = other
  · rw [if_neg (by omega), if_neg (by omega), trimCopy_drop line indent content, ends same]
    rfl
  · rw [if_pos (by omega)]

end Lines

section Texts

theorem YamlName.head (name : YamlName) (behind : Bytes) :
    (name.body behind).head? = name.name.head? := by
  rw [YamlName.body, List.append_assoc, List.head?_append_of_ne_nil _ name.named]

theorem YamlName.body_content (name : YamlName) (gap text : Bytes) (solid : Solid text)
    (bare : text = [] → gap = []) : IsContent (name.body (gap ++ text)) := by
  refine ⟨⟨?_, ?_⟩, ?_, ?_⟩
  · rw [name.head]
    exact name.solid.1
  · rw [YamlName.body]
    by_cases empty : text = []
    · rw [bare empty, empty, List.append_nil, List.getLast?_concat]
      rfl
    · rw [List.getLast?_append_of_ne_nil _ (List.cons_ne_nil _ _), ← List.cons_append,
        List.getLast?_append_of_ne_nil _ empty]
      exact solid.2
  · rw [YamlName.body]
    exact List.append_ne_nil_of_right_ne_nil _ (List.cons_ne_nil _ _)
  · rw [name.head]
    exact name.uncommented

theorem YamlName.body_not_item (name : YamlName) (behind : Bytes) :
    isItem (name.body behind) = false := by
  rw [isItem, decide_eq_false_iff_not]
  intro item
  exact name.unlisted (prefix_of_cut _ _ _ colon item (by decide))

theorem solid_nil : Solid [] := by decide

/-- The line of an entry is split at its colon. -/
theorem mappingEntry_content (line : YamlLine) (indent : Nat) (name : YamlName) (gap text : Bytes)
    (blank : Blank gap) (solid : Solid text) (bare : text = [] → gap = []) :
    mappingEntry indent (line.content indent (name.body (gap ++ text))) =
      .ok (some (name.name, text)) := by
  have content := name.body_content gap text solid bare
  have split :
      seek [colon] (name.body (gap ++ text)) = some (name.name ++ name.gap, gap ++ text) := by
    have inside : colon ∉ name.name ++ name.gap := by
      intro member
      rcases List.mem_append.mp member with letter | space
      · exact name.single letter
      · exact absurd (name.blank _ space) (by decide)
    exact seek_append [colon] _ _ (ends_single colon _ inside)
  have key : trimCopy (name.name ++ name.gap) = name.name :=
    trimCopy_gaps [] name.name name.gap blank_nil name.blank name.solid
  have rhs : trimCopy (gap ++ text) = text := by
    have trimmed := trimCopy_gaps gap text [] blank blank_nil solid
    rwa [List.append_nil] at trimmed
  unfold mappingEntry
  rw [leadingSpaces_content line indent content]
  dsimp only
  rw [if_neg (by omega), if_neg (by omega), trimCopy_drop line indent content,
    name.body_not_item, if_neg Bool.false_ne_true, split]
  simp only [key, rhs]

theorem YamlItem.body_content (item : YamlItem) : IsContent item.body := by
  refine ⟨⟨rfl, ?_⟩, List.cons_ne_nil _ _, show some (45 : UInt8) ≠ some 35 by decide⟩
  rw [YamlItem.body, ← List.append_assoc, List.getLast?_append_of_ne_nil _ item.scalar.written]
  exact item.scalar.solid.2

theorem YamlItem.body_item (item : YamlItem) : isItem item.body = true :=
  decide_eq_true (List.prefix_append _ _)

/-- The line of an item is read as its text. -/
theorem sequenceEntry_item (item : YamlItem) (indent : Nat) :
    sequenceEntry indent (item.line.content indent item.body) = .ok (some item.scalar.text) := by
  have content := item.body_content
  have rhs : trimCopy (item.body.drop 2) = item.scalar.text := by
    have trimmed := trimCopy_gaps item.scalar.gap item.scalar.text [] item.scalar.blank blank_nil
      item.scalar.solid
    rwa [List.append_nil] at trimmed
  unfold sequenceEntry
  rw [leadingSpaces_content item.line indent content]
  dsimp only
  rw [if_neg (by omega), if_neg (by omega), trimCopy_drop item.line indent content, item.body_item,
    if_pos rfl, rhs]

end Texts

section Read

variable (stod : StodIndex)

theorem skipIgnorable_skipIgnorable (lines : List Bytes) :
    skipIgnorable (skipIgnorable lines) = skipIgnorable lines := List.dropWhile_idempotent _ _

theorem parseMapping_skip (fuel indent : Nat) (obj : Fields) (lines : List Bytes) :
    parseMapping stod fuel indent obj (skipIgnorable lines) =
      parseMapping stod fuel indent obj lines := by
  cases fuel with
  | zero => rfl
  | succ fuel => rw [parseMapping, parseMapping, skipIgnorable_skipIgnorable]

theorem parseSequence_skip (fuel indent : Nat) (items : List Value) (lines : List Bytes) :
    parseSequence stod fuel indent items (skipIgnorable lines) =
      parseSequence stod fuel indent items lines := by
  cases fuel with
  | zero => rfl
  | succ fuel => rw [parseSequence, parseSequence, skipIgnorable_skipIgnorable]

/-- The first line that is not passed over is none of a sequence. -/
def SequenceEnds (indent : Nat) (behind : List Bytes) : Prop :=
  ∀ line more, skipIgnorable behind = line :: more → sequenceEntry indent line = .ok none

def MappingEnds (indent : Nat) (behind : List Bytes) : Prop :=
  ∀ line more, skipIgnorable behind = line :: more → mappingEntry indent line = .ok none

theorem parseSequence_end (fuel indent : Nat) (items : List Value) (behind : List Bytes)
    (ends : SequenceEnds indent behind) :
    parseSequence stod (fuel + 1) indent items behind =
      .ok (.array items, skipIgnorable behind) := by
  rw [parseSequence]
  cases shape : skipIgnorable behind with
  | nil => rfl
  | cons line more =>
      dsimp only
      rw [ends line more shape]
      rfl

theorem parseMapping_end (fuel indent : Nat) (obj : Fields) (behind : List Bytes)
    (ends : MappingEnds indent behind) :
    parseMapping stod (fuel + 1) indent obj behind = .ok (.object obj, skipIgnorable behind) := by
  rw [parseMapping]
  cases shape : skipIgnorable behind with
  | nil => rfl
  | cons line more =>
      dsimp only
      rw [ends line more shape]
      rfl

theorem parseSequence_item (fuel indent : Nat) (items : List Value) (item : YamlItem)
    (behind : List Bytes) :
    parseSequence stod (fuel + 1) indent items (item.lines indent ++ behind) =
      parseSequence stod fuel indent (items ++ [parseScalarToken stod item.scalar.text])
        behind := by
  rw [parseSequence, YamlItem.lines, skipIgnorable_write item.line indent item.body_content]
  dsimp only
  rw [sequenceEntry_item item indent]
  exact if_neg item.scalar.written

theorem parseSequence_items (indent : Nat) (written : List YamlItem) (behind : List Bytes)
    (ends : SequenceEnds indent behind) (fuel : Nat) (items : List Value)
    (enough : (written.flatMap (YamlItem.lines indent) ++ behind).length < fuel) :
    parseSequence stod fuel indent items (written.flatMap (YamlItem.lines indent) ++ behind) =
      .ok (.array (items ++ itemScalars stod written), skipIgnorable behind) := by
  induction written generalizing fuel items with
  | nil =>
      obtain ⟨fuel, rfl⟩ := Nat.exists_eq_add_of_le' (Nat.one_le_of_lt enough)
      rw [itemScalars, List.map_nil, List.append_nil]
      exact parseSequence_end stod fuel indent items behind ends
  | cons item written ih =>
      obtain ⟨fuel, rfl⟩ := Nat.exists_eq_add_of_le' (Nat.one_le_of_lt enough)
      rw [List.flatMap_cons, List.append_assoc] at enough ⊢
      rw [parseSequence_item]
      rw [List.length_append, YamlItem.lines, YamlLine.write, List.length_append,
        List.length_singleton] at enough
      rw [ih _ _ (by omega), itemScalars, itemScalars, List.map_cons, List.append_assoc,
        List.singleton_append]

/-- A line with a value of its own. -/
theorem parseMapping_scalar (fuel indent : Nat) (obj : Fields) (line : YamlLine) (name : YamlName)
    (value : YamlText) (behind : List Bytes) :
    parseMapping stod (fuel + 1) indent obj
        (line.write indent (name.body (value.gap ++ value.text)) ++ behind) =
      parseMapping stod fuel indent (insert name.name (parseScalarToken stod value.text) obj)
        behind := by
  have bare : value.text = [] → value.gap = [] := fun empty => absurd empty value.written
  rw [parseMapping, skipIgnorable_write line indent (name.body_content _ _ value.solid bare)]
  dsimp only
  rw [mappingEntry_content line indent name _ _ value.blank value.solid bare]
  exact if_neg value.written

theorem parseBlock_skip (fuel indent : Nat) (lines : List Bytes) :
    parseBlock stod fuel indent (skipIgnorable lines) = parseBlock stod fuel indent lines := by
  cases fuel with
  | zero => rfl
  | succ fuel => rw [parseBlock, parseBlock, skipIgnorable_skipIgnorable]

section Below

variable (fuel indent : Nat) (obj : Fields) (line : YamlLine) (name : YamlName)
  (behind more rest : List Bytes) (next : Bytes) (value : Value)
  (shape : skipIgnorable behind = next :: more)

include shape

/-- A key with a sequence below it that is not indented. -/
theorem parseMapping_sequence (item : isItem (trimCopy next) = true)
    (level : leadingSpaces next = indent)
    (read : parseSequence stod fuel indent [] behind = .ok (value, rest)) :
    parseMapping stod (fuel + 1) indent obj (line.write indent (name.body []) ++ behind) =
      parseMapping stod fuel indent (insert name.name value obj) rest := by
  have content := name.body_content [] [] solid_nil (fun _ => rfl)
  have entry := mappingEntry_content line indent name [] [] blank_nil solid_nil (fun _ => rfl)
  rw [← parseSequence_skip, shape] at read
  rw [List.append_nil] at content entry
  rw [parseMapping, skipIgnorable_write line indent content]
  dsimp only
  rw [entry]
  simp only [bind, Except.bind, ↓reduceIte, shape, item, level, and_self, read]

/-- A key with a block below it. -/
theorem parseMapping_block (level : leadingSpaces next ≠ indent)
    (read : parseBlock stod fuel (indent + 2) behind = .ok (value, rest)) :
    parseMapping stod (fuel + 1) indent obj (line.write indent (name.body []) ++ behind) =
      parseMapping stod fuel indent (insert name.name value obj) rest := by
  have content := name.body_content [] [] solid_nil (fun _ => rfl)
  have entry := mappingEntry_content line indent name [] [] blank_nil solid_nil (fun _ => rfl)
  rw [← parseBlock_skip, shape] at read
  rw [List.append_nil] at content entry
  rw [parseMapping, skipIgnorable_write line indent content]
  dsimp only
  rw [entry]
  simp only [bind, Except.bind, ↓reduceIte, shape, level, and_false, read]

end Below

/-- A mapping has its first line at its own indentation, and it is no item. -/
theorem YamlEntries.first (entries : YamlEntries) (nonempty : entries ≠ .nil) (indent : Nat)
    (behind : List Bytes) :
    ∃ line body more, IsContent body ∧ isItem body = false ∧
      skipIgnorable (entries.lines indent ++ behind) =
        YamlLine.content line indent body :: more := by
  have starts (line : YamlLine) (name : YamlName) (text : Bytes)
      (content : IsContent (name.body text)) (more : List Bytes) :
      ∃ first body later, IsContent body ∧ isItem body = false ∧
        skipIgnorable (YamlLine.write line indent (name.body text) ++ more) =
          YamlLine.content first indent body :: later :=
    ⟨line, _, more, content, name.body_not_item _, skipIgnorable_write line indent content more⟩
  have bare (name : YamlName) : IsContent (name.body []) :=
    name.body_content [] [] solid_nil (fun _ => rfl)
  cases entries with
  | nil => exact absurd rfl nonempty
  | scalar line name value rest =>
      have content := name.body_content value.gap value.text value.solid
        (fun empty => absurd empty value.written)
      rw [YamlEntries.lines, List.append_assoc]
      exact starts line name _ content _
  | sequence line name deeper first items rest =>
      rw [YamlEntries.lines, List.append_assoc]
      exact starts line name [] (bare name) _
  | mapping line name nested rest =>
      rw [YamlEntries.lines, List.append_assoc]
      exact starts line name [] (bare name) _

/-- The first line that is not passed over is indented less. -/
def BlockEnds (indent : Nat) (behind : List Bytes) : Prop :=
  ∀ line more, skipIgnorable behind = line :: more → leadingSpaces line < indent

theorem BlockEnds.mapping {indent : Nat} {behind : List Bytes} (ends : BlockEnds indent behind) :
    MappingEnds indent behind := by
  intro line more shape
  exact if_pos (ends line more shape)

/-- The entries that follow end a sequence of an entry. -/
theorem YamlEntries.sequenceEnds (entries : YamlEntries) (indent level : Nat)
    (behind : List Bytes) (ends : BlockEnds indent behind) (bound : indent ≤ level) :
    SequenceEnds level (entries.lines indent ++ behind) := by
  intro line more shape
  by_cases empty : entries = .nil
  · subst empty
    have below := ends line more shape
    exact if_pos (by omega)
  · obtain ⟨first, body, rest, content, notItem, here⟩ := entries.first empty indent behind
    rw [here] at shape
    cases shape
    exact sequenceEntry_content first indent content level bound fun _ => notItem

/-- The entries that follow end a block of an entry. -/
theorem YamlEntries.blockEnds (entries : YamlEntries) (indent : Nat) (behind : List Bytes)
    (ends : BlockEnds indent behind) : BlockEnds (indent + 2) (entries.lines indent ++ behind) := by
  intro line more shape
  by_cases empty : entries = .nil
  · subst empty
    have below := ends line more shape
    omega
  · obtain ⟨first, body, rest, content, -, here⟩ := entries.first empty indent behind
    rw [here] at shape
    cases shape
    rw [leadingSpaces_content first indent content]
    omega

theorem YamlItem.first (item : YamlItem) (items : List YamlItem) (indent : Nat)
    (behind : List Bytes) :
    ∃ more, skipIgnorable ((item :: items).flatMap (YamlItem.lines indent) ++ behind) =
      item.line.content indent item.body :: more := by
  rw [List.flatMap_cons, List.append_assoc]
  exact ⟨_, skipIgnorable_write item.line indent item.body_content _⟩

theorem parseBlock_items (fuel indent : Nat) (item : YamlItem) (items : List YamlItem)
    (behind : List Bytes) (ends : SequenceEnds indent behind)
    (enough : ((item :: items).flatMap (YamlItem.lines indent) ++ behind).length < fuel) :
    parseBlock stod (fuel + 1) indent
        ((item :: items).flatMap (YamlItem.lines indent) ++ behind) =
      .ok (.array (itemScalars stod (item :: items)), skipIgnorable behind) := by
  have read := parseSequence_items stod indent (item :: items) behind ends fuel [] enough
  obtain ⟨more, shape⟩ := item.first items indent behind
  rw [← parseSequence_skip, shape] at read
  rw [parseBlock, shape]
  dsimp only
  rw [trimCopy_content item.line indent item.body_content, item.body_item, if_pos rfl, read,
    List.nil_append]

theorem parseBlock_entries (fuel indent : Nat) (entries : YamlEntries) (nonempty : entries ≠ .nil)
    (behind : List Bytes) :
    parseBlock stod (fuel + 1) indent (entries.lines indent ++ behind) =
      parseMapping stod fuel indent [] (entries.lines indent ++ behind) := by
  obtain ⟨line, body, more, content, notItem, shape⟩ := entries.first nonempty indent behind
  rw [← parseMapping_skip, parseBlock, shape]
  dsimp only
  rw [trimCopy_content line indent content, notItem, if_neg Bool.false_ne_true]

/-- A mapping is read as it is written, whatever block follows it. -/
theorem parseMapping_entries (entries : YamlEntries) (proper : entries.Proper) (indent : Nat)
    (obj : Fields) (behind : List Bytes) (ends : BlockEnds indent behind) (fuel : Nat)
    (enough : 2 * (entries.lines indent ++ behind).length < fuel) :
    parseMapping stod fuel indent obj (entries.lines indent ++ behind) =
      .ok (.object (entries.fields stod obj), skipIgnorable behind) := by
  induction entries generalizing indent obj behind fuel with
  | nil =>
      obtain ⟨fuel, rfl⟩ := Nat.exists_eq_add_of_le' (Nat.one_le_of_lt enough)
      exact parseMapping_end stod fuel indent obj behind ends.mapping
  | scalar line name value rest ih =>
      obtain ⟨fuel, rfl⟩ := Nat.exists_eq_add_of_le' (Nat.one_le_of_lt enough)
      rw [YamlEntries.lines, List.append_assoc] at enough ⊢
      rw [YamlLine.write, List.append_assoc, List.length_append, List.length_append,
        List.length_singleton] at enough
      rw [parseMapping_scalar]
      exact ih proper indent _ behind ends fuel (by omega)
  | sequence line name deeper first items rest ih =>
      obtain ⟨fuel, rfl⟩ := Nat.exists_eq_add_of_le' (Nat.one_le_of_lt enough)
      rw [YamlEntries.lines, List.append_assoc, List.append_assoc] at enough ⊢
      rw [YamlLine.write, List.append_assoc, List.length_append, List.length_append,
        List.length_singleton] at enough
      have later := ih proper indent
        (insert name.name (.array (itemScalars stod (first :: items))) obj) behind ends fuel (by
          rw [List.length_append] at enough
          omega)
      rw [← parseMapping_skip] at later
      cases deeper with
      | false =>
          have stop := rest.sequenceEnds indent indent behind ends (Nat.le_refl _)
          have read := parseSequence_items stod indent (first :: items) _ stop fuel [] (by
            simp only [Bool.false_eq_true, ↓reduceIte] at enough
            omega)
          obtain ⟨more, shape⟩ := first.first items indent (rest.lines indent ++ behind)
          have item : isItem (trimCopy (first.line.content indent first.body)) = true := by
            rw [trimCopy_content first.line indent first.body_content, first.body_item]
          have level := leadingSpaces_content first.line indent first.body_content
          exact (parseMapping_sequence stod fuel indent obj line name _ more _ _ _ shape item level
            read).trans later
      | true =>
          have stop := rest.sequenceEnds indent (indent + 2) behind ends (by omega)
          obtain ⟨fuel, rfl⟩ := Nat.exists_eq_add_of_le' (show 1 ≤ fuel by omega)
          have read := parseBlock_items stod fuel (indent + 2) first items _ stop (by
            simp only [↓reduceIte] at enough
            omega)
          obtain ⟨more, shape⟩ := first.first items (indent + 2) (rest.lines indent ++ behind)
          have level : leadingSpaces (first.line.content (indent + 2) first.body) ≠ indent := by
            rw [leadingSpaces_content first.line (indent + 2) first.body_content]
            omega
          exact (parseMapping_block stod (fuel + 1) indent obj line name _ more _ _ _ shape level
            read).trans later
  | mapping line name nested rest nestedIh ih =>
      obtain ⟨fuel, rfl⟩ := Nat.exists_eq_add_of_le' (Nat.one_le_of_lt enough)
      obtain ⟨nonempty, nestedProper, proper⟩ := proper
      rw [YamlEntries.lines, List.append_assoc, List.append_assoc] at enough ⊢
      rw [YamlLine.write, List.append_assoc, List.length_append, List.length_append,
        List.length_singleton] at enough
      have later := ih proper indent (insert name.name (.object (nested.fields stod [])) obj) behind
        ends fuel (by
          rw [List.length_append] at enough
          omega)
      rw [← parseMapping_skip] at later
      obtain ⟨fuel, rfl⟩ := Nat.exists_eq_add_of_le' (show 1 ≤ fuel by omega)
      have read := nestedIh nestedProper (indent + 2) [] _ (rest.blockEnds indent behind ends) fuel
        (by omega)
      rw [← parseBlock_entries stod fuel (indent + 2) nested nonempty] at read
      obtain ⟨next, body, more, content, -, shape⟩ :=
        nested.first nonempty (indent + 2) (rest.lines indent ++ behind)
      have level : leadingSpaces (next.content (indent + 2) body) ≠ indent := by
        rw [leadingSpaces_content next (indent + 2) content]
        omega
      exact (parseMapping_block stod (fuel + 1) indent obj line name _ more _ _ _ shape level
        read).trans later

end Read

section Documents

variable (stod : StodIndex)

inductive YamlBlock
  | sequence (first : YamlItem) (items : List YamlItem)
  | mapping (entries : YamlEntries) (proper : entries.Proper) (nonempty : entries ≠ .nil)

def YamlBlock.lines : YamlBlock → Nat → List Bytes
  | .sequence first items, indent => (first :: items).flatMap (YamlItem.lines indent)
  | .mapping entries _ _, indent => entries.lines indent

def YamlBlock.value : YamlBlock → Value
  | .sequence first items => .array (itemScalars stod (first :: items))
  | .mapping entries _ _ => .object (entries.fields stod [])

/-- A block, and lines behind it that are passed over. -/
structure YamlDocument where
  block : YamlBlock
  tail : List Bytes
  passed : ∀ line ∈ tail, isIgnorable line = true

def YamlDocument.lines (document : YamlDocument) : List Bytes :=
  document.block.lines 0 ++ document.tail

/-- A text of such lines, however they are ended, is read as the value that is written. -/
theorem parseYamlBasic_lines (document : YamlDocument) (text : Bytes)
    (split : splitLines text = document.lines) :
    parseYamlBasic stod text = .ok (document.block.value stod) := by
  have none : skipIgnorable document.tail = [] := List.dropWhile_eq_nil_iff.mpr document.passed
  have sequenceEnds : SequenceEnds 0 document.tail := by
    intro line more shape
    rw [none] at shape
    cases shape
  have blockEnds : BlockEnds 0 document.tail := by
    intro line more shape
    rw [none] at shape
    cases shape
  obtain ⟨block, tail, passed⟩ := document
  have read : ∃ rest, parseBlock stod (2 * (YamlBlock.lines block 0 ++ tail).length + 2) 0
      (YamlBlock.lines block 0 ++ tail) = .ok (block.value stod, rest) := by
    cases block with
    | sequence first items =>
        exact ⟨_, parseBlock_items stod _ 0 first items tail sequenceEnds (by
          rw [YamlBlock.lines]
          omega)⟩
    | mapping entries proper nonempty =>
        have read := parseMapping_entries stod entries proper 0 [] tail blockEnds _
          (Nat.lt_succ_self _)
        rw [← parseBlock_entries stod _ 0 entries nonempty] at read
        exact ⟨_, read⟩
  obtain ⟨rest, read⟩ := read
  rw [parseYamlBasic, split]
  dsimp only [YamlDocument.lines]
  rw [read]
  rfl

/-- Lines that are not ended by a `\r` are found again behind newlines. -/
theorem splitLines_unlines (lines : List Bytes)
    (plain : ∀ line ∈ lines, 10 ∉ line ∧ line.getLast? ≠ some 13) :
    splitLines (unlines lines) = lines := by
  have split := lines_unlines lines [] (fun line member => (plain line member).1)
    List.not_mem_nil
  rw [List.append_nil, if_pos rfl] at split
  rw [splitLines, split]
  conv => rhs; rw [← List.map_id lines]
  apply List.map_congr_left
  intro line member
  exact if_neg (plain line member).2

end Documents

end Nuperf.Serdetk
