import Nuperf.Library.CText
import Nuperf.Library.TextReader
import Nuperf.Stddef

set_option autoImplicit false

namespace Nuperf

open ByteString Numeral CStandard HostWords TextReader

def isIdentByte (byte : UInt8) : Bool :=
  isDigit byte || (97 ≤ byte && byte ≤ 122) || (65 ≤ byte && byte ≤ 90) || byte == 95

/-- A C identifier. -/
def IsIdentifier (name : Bytes) : Prop :=
  name ≠ [] ∧ (∀ byte ∈ name, isIdentByte byte = true) ∧ name.head?.all (fun byte => !isDigit byte)

instance (name : Bytes) : Decidable (IsIdentifier name) :=
  decidable_of_iff
    (name ≠ [] ∧ name.all isIdentByte = true ∧ name.head?.all (fun byte => !isDigit byte))
    (and_congr_right fun _ => and_congr_left fun _ => List.all_eq_true)

/-- What a reader of the emitted header finds: an array definition, and after it the
declaration of its size. -/
structure DecodedTable where
  arrayName : Bytes
  words : List UInt32
  sizeName : Bytes
  count : Nat
  deriving DecidableEq

/-- The initialisers, one a line, with a comma after each but the last. -/
def readItems : Nat → Bytes → Option (List UInt32 × Bytes)
  | 0, _ => none
  | fuel + 1, text => do
      let text ← literal (ascii "    0x") text
      let (digits, text) := readRun isHexDigit text
      let word := UInt32.ofNat (hexValue digits)
      if digits.length ≠ 8 then none
      else
        match literal (ascii ",\n") text with
        | some text => (readItems fuel text).map fun (words, text) => (word :: words, text)
        | none => (literal (ascii "\n") text).map fun text => ([word], text)

/-- `static const uint32_t NAME[] = { ... };` and the blank line after it. -/
def readArray (text : Bytes) : Option (Bytes × List UInt32 × Bytes) := do
  let text ← literal (ascii "static const uint32_t ") text
  let (name, text) := readRun isIdentByte text
  let text ← literal (ascii "[] = \x7b\n") text
  let (words, text) ← readItems text.length text
  let text ← literal (ascii "\x7d;\n\n") text
  some (name, words, text)

/-- `static const size_t NAME = COUNT;`. -/
def readSize (text : Bytes) : Option (Bytes × Nat) := do
  let text ← literal (ascii "static const size_t ") text
  let (name, text) := readRun isIdentByte text
  let text ← literal (ascii " = ") text
  let (digits, text) := readRun isDigit text
  let _ ← literal (ascii ";") text
  if digits = [] then none else some (name, value digits)

/-- The array definition of a header, past its guard and includes. -/
def decodeArray (text : Bytes) : Option (Bytes × List UInt32 × Bytes) := do
  let text ← seekLine (ascii "static const ") true text
  readArray text

def decodeTable (text : Bytes) : Option DecodedTable := do
  let (arrayName, words, text) ← decodeArray text
  let (sizeName, count) ← readSize text
  some ⟨arrayName, words, sizeName, count⟩

theorem emitWord_eq (word : UInt32) :
    emitWord word = ascii "    0x" ++ fixedHex 8 word.toNat := by
  apply snprintf_fits
  · rw [List.length_append, fixedHex_length]
    decide
  · rw [nulFree_append]
    refine ⟨by decide, ?_⟩
    intro member
    exact absurd (fixedHex_digits 8 word.toNat 0 member) (by decide)

/-- One line of the initialiser list, read back. -/
theorem readItems_word (fuel : Nat) (word : UInt32) (byte : UInt8) (rest : Bytes)
    (ends : byte = 44 ∨ byte = 10) :
    readItems (fuel + 1) (emitWord word ++ byte :: rest) =
      match literal (ascii ",\n") (byte :: rest) with
      | some text => (readItems fuel text).map fun (words, text) => (word :: words, text)
      | none => (literal (ascii "\n") (byte :: rest)).map fun text => ([word], text) := by
  have run : readRun isHexDigit (fixedHex 8 word.toNat ++ byte :: rest) =
      (fixedHex 8 word.toNat, byte :: rest) := by
    apply readRun_append _ _ _ (fixedHex_digits 8 word.toNat)
    rcases ends with rfl | rfl <;> rfl
  have number : UInt32.ofNat (hexValue (fixedHex 8 word.toNat)) = word := by
    have small : word.toNat < 16 ^ 8 := word.toNat_lt
    rw [hexValue_fixedHex, Nat.mod_eq_of_lt small, UInt32.ofNat_toNat]
  rw [emitWord_eq, List.append_assoc, readItems, literal_append]
  simp only [Option.bind_eq_bind, Option.bind_some, run, fixedHex_length, number, ne_eq,
    not_true_eq_false, ↓reduceIte]

theorem readItems_last (fuel : Nat) (word : UInt32) (rest : Bytes) :
    readItems (fuel + 1) (emitWord word ++ 10 :: rest) = some ([word], rest) := by
  have noComma : literal (ascii ",\n") (10 :: rest) = none :=
    literal_cons_ne 44 10 _ rest (by decide)
  have newline : literal (ascii "\n") (10 :: rest) = some rest := literal_append (ascii "\n") rest
  rw [readItems_word fuel word 10 rest (Or.inr rfl), noComma, newline]
  rfl

theorem readItems_next (fuel : Nat) (word : UInt32) (rest : Bytes) :
    readItems (fuel + 1) (emitWord word ++ 44 :: 10 :: rest) =
      (readItems fuel rest).map fun (words, text) => (word :: words, text) := by
  have comma : literal (ascii ",\n") (44 :: 10 :: rest) = some rest :=
    literal_append (ascii ",\n") rest
  rw [readItems_word fuel word 44 _ (Or.inl rfl), comma]

/-- The element loop read back: as many words as it wrote, in order. -/
theorem readItems_emitWords (words : List UInt32) (nonempty : words ≠ []) (fuel : Nat)
    (enough : words.length ≤ fuel) (rest : Bytes) :
    readItems fuel (emitWords words ++ rest) = some (words, rest) := by
  induction words using emitWords.induct generalizing fuel with
  | case1 => exact absurd rfl nonempty
  | case2 word =>
      obtain ⟨fuel, rfl⟩ := Nat.exists_eq_add_of_le' enough
      have shape : emitWords [word] ++ rest = emitWord word ++ 10 :: rest := by
        rw [emitWords, List.append_assoc]
        rfl
      rw [shape]
      exact readItems_last fuel word rest
  | case3 word more several ih =>
      cases fuel with
      | zero => simp at enough
      | succ fuel =>
          have shape : emitWords (word :: more) ++ rest =
              emitWord word ++ 44 :: 10 :: (emitWords more ++ rest) := by
            rw [emitWords, List.append_assoc, List.append_assoc, List.append_assoc]
            · rfl
            · exact several
          have later := ih several fuel (by simpa using enough)
          rw [shape, readItems_next, later]
          rfl

theorem emitWords_avoids (kind : UInt8 → Bool) (words : List UInt32)
    (word : ∀ word, CText.Avoids kind (emitWord word)) (comma : CText.Avoids kind (ascii ","))
    (newline : CText.Avoids kind (ascii "\n")) : CText.Avoids kind (emitWords words) := by
  induction words using emitWords.induct with
  | case1 =>
      intro byte member
      cases member
  | case2 last => exact (word last).append newline
  | case3 first rest more ih =>
      rw [emitWords]
      · exact (((word first).append comma).append newline).append ih
      · exact more

theorem emitWords_length (words : List UInt32) : words.length ≤ (emitWords words).length := by
  induction words using emitWords.induct with
  | case1 => simp
  | case2 word => simp [emitWords, ascii]
  | case3 word rest more ih =>
      simp only [emitWords, List.length_append, List.length_cons] at ih ⊢
      have comma : (ascii ",").length = 1 := rfl
      omega

/-- The lines in front of the array definition. -/
def preambleLines (opts : StddefOptions) : List Bytes :=
  (if opts.emitHeaderGuard then
    [ascii "#ifndef " ++ opts.guardPrefix ++ ascii "_H",
     ascii "#define " ++ opts.guardPrefix ++ ascii "_H", []]
  else []) ++
  [ascii "#include <stddef.h>", ascii "#include <stdint.h>", [], ascii "#ifdef __cplusplus",
   ascii "extern \"C\" \x7b", ascii "#endif", []]

theorem preamble_eq (opts : StddefOptions) : preamble opts = unlines (preambleLines opts) := by
  have ending : ascii "_H\n" = ascii "_H" ++ [10] := rfl
  have ending2 : ascii "_H\n\n" = ascii "_H" ++ [10] ++ [10] := rfl
  have tail : ascii "#include <stddef.h>\n" ++ ascii "#include <stdint.h>\n\n" ++
      ascii "#ifdef __cplusplus\nextern \"C\" \x7b\n#endif\n\n" =
      unlines [ascii "#include <stddef.h>", ascii "#include <stdint.h>", [],
        ascii "#ifdef __cplusplus", ascii "extern \"C\" \x7b", ascii "#endif", []] := by decide
  have split : ∀ left right, unlines (left ++ right) = unlines left ++ unlines right :=
    fun _ _ => List.flatMap_append
  unfold preamble preambleLines
  rw [split, ← tail]
  cases opts.emitHeaderGuard with
  | false => simp [unlines]
  | true => simp [unlines, ending, ending2, List.append_assoc]

theorem ident_ne {byte other : UInt8} (ident : isIdentByte byte = true)
    (foreign_ : isIdentByte other = false) : byte ≠ other := by
  rintro rfl
  rw [ident] at foreign_
  cases foreign_

theorem preambleLines_other (opts : StddefOptions)
    (ident : ∀ byte ∈ opts.guardPrefix, isIdentByte byte = true) :
    ∀ line ∈ preambleLines opts, 10 ∉ line ∧ (line ++ [10]).head? ≠ some 115 := by
  have clean : 10 ∉ opts.guardPrefix := fun member => ident_ne (ident 10 member) (by decide) rfl
  have fixed : ∀ line ∈ [ascii "#include <stddef.h>", ascii "#include <stdint.h>", [],
      ascii "#ifdef __cplusplus", ascii "extern \"C\" \x7b", ascii "#endif", []],
      10 ∉ line ∧ (line ++ [10]).head? ≠ some 115 := by decide
  intro line member
  unfold preambleLines at member
  rcases List.mem_append.mp member with guard_ | rest
  · cases on : opts.emitHeaderGuard with
    | false => simp [on] at guard_
    | true =>
        simp only [on, ↓reduceIte, List.mem_cons, List.not_mem_nil, or_false] at guard_
        have words : 10 ∉ ascii "#ifndef " ∧ 10 ∉ ascii "#define " ∧ 10 ∉ ascii "_H" := by decide
        rcases guard_ with rfl | rfl | rfl
        · refine ⟨?_, by simp [ascii]⟩
          simp only [List.mem_append, not_or]
          exact ⟨⟨words.1, clean⟩, words.2.2⟩
        · refine ⟨?_, by simp [ascii]⟩
          simp only [List.mem_append, not_or]
          exact ⟨⟨words.2.1, clean⟩, words.2.2⟩
        · decide
  · exact fixed line rest

/-- A byte that no identifier has is not in a name. -/
theorem IsIdentifier.not_mem {name : Bytes} (ident : IsIdentifier name) {byte : UInt8}
    (foreign_ : isIdentByte byte = false) : byte ∉ name :=
  fun member => ident_ne (ident.2.1 byte member) foreign_ rfl

theorem IsIdentifier.nulFree {name : Bytes} (ident : IsIdentifier name) : NulFree name :=
  ident.not_mem (by decide)

theorem readArray_append (name : Bytes) (ident : IsIdentifier name) (words : List UInt32)
    (nonempty : words ≠ []) (rest : Bytes) :
    readArray (ascii "static const uint32_t " ++ (name ++ (ascii "[] = \x7b\n" ++
      (emitWords words ++ (ascii "\x7d;\n\n" ++ rest))))) = some (name, words, rest) := by
  have run : readRun isIdentByte (name ++ (ascii "[] = \x7b\n" ++
      (emitWords words ++ (ascii "\x7d;\n\n" ++ rest)))) =
      (name, ascii "[] = \x7b\n" ++ (emitWords words ++ (ascii "\x7d;\n\n" ++ rest))) :=
    readRun_append isIdentByte name _ ident.2.1 rfl
  have enough : words.length ≤ (emitWords words ++ (ascii "\x7d;\n\n" ++ rest)).length := by
    have bound := emitWords_length words
    rw [List.length_append]
    omega
  simp only [readArray, literal_append, run, readItems_emitWords words nonempty _ enough,
    Option.bind_eq_bind, Option.bind_some]

section Emit

variable (host : ByteOrder) (opts : StddefOptions) (result : HashResult) (data : Bytes) (n : Nat)

/-- The array definition is always read back, whatever became of the size declaration. -/
theorem decodeArray_emitOutput (array : IsIdentifier opts.arrayName)
    (guard_ : IsIdentifier opts.guardPrefix) (payload : result.data = some data)
    (whole : data.length = 4 * n) (positive : 1 ≤ n) :
    decodeArray (emitOutput host opts result) =
      some (opts.arrayName, words host data,
        sizeBuf opts.arrayName n ++ postamble opts result) := by
  have count : data.length / 4 = n := by omega
  have nonempty : words host data ≠ [] := by
    intro empty
    have length := words_length host data
    rw [empty, List.length_nil, count] at length
    omega
  have body : definitions host opts result = ascii "static const uint32_t " ++ opts.arrayName ++
      ascii "[] = \x7b\n" ++ emitWords (words host data) ++ ascii "\x7d;\n\n" ++
      sizeBuf opts.arrayName n := by
    cases shape : data with
    | nil => simp [shape] at whole; omega
    | cons byte rest =>
        rw [← shape]
        simp only [definitions, payload, shape, ← count]
  have others := preambleLines_other opts guard_.2.1
  have start :
      ascii "static const uint32_t " = 115 :: ascii "tatic const " ++ ascii "uint32_t " := by decide
  unfold decodeArray emitOutput
  rw [preamble_eq, body]
  simp only [List.append_assoc]
  change (seekLine (115 :: ascii "tatic const ") true _ >>= readArray) = _
  rw [seekLine_unlines 115 _ _ _ others]
  have found := readArray_append opts.arrayName array (words host data) nonempty
    (sizeBuf opts.arrayName n ++ postamble opts result)
  rw [start, List.append_assoc] at found ⊢
  rw [seekLine_found, Option.bind_eq_bind, Option.bind_some]
  exact found

/-- The declaration of the size before it is cut to its buffer. -/
def declaration (name : Bytes) (count : Nat) : Bytes :=
  ascii "static const size_t " ++ (name ++ (ascii "_size" ++ (ascii " = " ++
    (decimal count ++ ascii ";"))))

theorem declaration_length (name : Bytes) (count : Nat) :
    (declaration name count).length = 29 + name.length + (decimal count).length := by
  have fixed : (ascii "static const size_t ").length = 20 ∧ (ascii "_size").length = 5 ∧
      (ascii " = ").length = 3 ∧ (ascii ";").length = 1 := by decide
  simp only [declaration, List.length_append, fixed.1, fixed.2.1, fixed.2.2.1, fixed.2.2.2]
  omega

theorem sizeBuf_eq (name : Bytes) (ident : IsIdentifier name) (count : Nat) :
    sizeBuf name count = (declaration name count ++ ascii "\n\n").take 63 := by
  have free : NulFree (declaration name count ++ ascii "\n\n") := by
    simp only [declaration, nulFree_append]
    exact ⟨⟨by decide, ident.nulFree, by decide, by decide, decimal_nulFree count, by decide⟩,
      by decide⟩
  have shape : ascii "static const size_t " ++ cstr name ++ ascii "_size = " ++ decimal count ++
      ascii ";\n\n" = declaration name count ++ ascii "\n\n" := by
    have middle : ascii "_size = " = ascii "_size" ++ ascii " = " := by decide
    have ending : ascii ";\n\n" = ascii ";" ++ ascii "\n\n" := by decide
    rw [ident.nulFree.cstr, middle, ending]
    simp only [declaration, List.append_assoc]
  rw [sizeBuf, shape, snprintf]
  apply NulFree.cstr
  intro member
  exact free (List.mem_of_mem_take member)

/-- The declaration survives its 64-byte buffer up to a bound on the name and the count
together. -/
theorem declaration_prefix_iff (name : Bytes) (ident : IsIdentifier name) (count : Nat) :
    declaration name count <+: sizeBuf name count ↔
      name.length + (decimal count).length ≤ 34 := by
  rw [sizeBuf_eq name ident count, List.prefix_take_iff, declaration_length]
  constructor
  · rintro ⟨-, short⟩
    omega
  · intro short
    exact ⟨List.prefix_append _ _, by omega⟩

theorem postamble_slash : ∃ rest, postamble opts result = 47 :: rest := by
  unfold postamble metaBuf snprintf cstr
  have start : ascii "/* Generated by NuPERF\n * Method: " =
      47 :: ascii "* Generated by NuPERF\n * Method: " := by decide
  rw [start]
  simp only [List.cons_append, Nat.add_one_sub_one, List.take_succ_cons]
  exact ⟨_, rfl⟩

theorem readSize_append (name : Bytes) (ident : IsIdentifier name) (count : Nat) (rest : Bytes) :
    readSize (declaration name count ++ rest) = some (name ++ ascii "_size", count) := by
  have all : ∀ byte ∈ name ++ ascii "_size", isIdentByte byte = true := by
    intro byte member
    rcases List.mem_append.mp member with inName | inSuffix
    · exact ident.2.1 byte inName
    · have suffix_ : ∀ byte ∈ ascii "_size", isIdentByte byte = true :=
        List.all_eq_true.mp (by decide)
      exact suffix_ byte inSuffix
  have shape : declaration name count ++ rest = ascii "static const size_t " ++
      ((name ++ ascii "_size") ++ (ascii " = " ++ (decimal count ++ (ascii ";" ++ rest)))) := by
    simp only [declaration, List.append_assoc]
  have run := readRun_append isIdentByte (name ++ ascii "_size")
    (ascii " = " ++ (decimal count ++ (ascii ";" ++ rest))) all rfl
  have digits := readRun_append isDigit (decimal count) (ascii ";" ++ rest) (decimal_digits count)
    rfl
  rw [shape]
  simp only [readSize, literal_append, run, digits, Option.bind_eq_bind, Option.bind_some,
    decimal_ne_nil, ↓reduceIte, value_decimal]

/-- What `readSize` accepts is a declaration in front of the text. -/
theorem readSize_sound (text name : Bytes) (count : Nat)
    (found : readSize text = some (name, count)) :
    ∃ digits rest, text = ascii "static const size_t " ++ (name ++ (ascii " = " ++
      (digits ++ (ascii ";" ++ rest)))) ∧ (∀ byte ∈ digits, isDigit byte = true) ∧
      value digits = count := by
  simp only [readSize, Option.bind_eq_bind, Option.bind_eq_some_iff] at found
  obtain ⟨text1, keyword, text2, equals, text3, semicolon, rest⟩ := found
  have nameRun := readRun_spec isIdentByte text1
  have digitRun := readRun_spec isDigit text2
  rw [literal_eq_some_iff] at keyword equals semicolon
  split at rest
  · cases rest
  · simp only [Option.some.injEq, Prod.mk.injEq] at rest
    refine ⟨(readRun isDigit text2).1, text3, ?_, digitRun.2, rest.2⟩
    rw [← rest.1, ← semicolon, ← digitRun.1, ← equals, ← nameRun.1, keyword]

/-- A size declaration cut short is never read as the whole one. -/
theorem readSize_exact (name : Bytes) (ident : IsIdentifier name) (count : Nat) (rest : Bytes)
    (found : readSize (sizeBuf name count ++ 47 :: rest) = some (name ++ ascii "_size", count)) :
    declaration name count <+: sizeBuf name count := by
  obtain ⟨digits, after, text, all, number⟩ := readSize_sound _ _ _ found
  let read := ascii "static const size_t " ++ (name ++ (ascii "_size" ++ (ascii " = " ++
    (digits ++ ascii ";"))))
  have front : read <+: sizeBuf name count ++ 47 :: rest := by
    rw [text]
    exact ⟨after, by simp only [read, List.append_assoc]⟩
  have foreign_ : 47 ∉ read := by
    have fixed : 47 ∉ ascii "static const size_t " ∧ 47 ∉ ascii "_size" ∧ 47 ∉ ascii " = " ∧
        47 ∉ ascii ";" := by decide
    simp only [read, List.mem_append, not_or]
    refine ⟨fixed.1, ?_, fixed.2.1, fixed.2.2.1, ?_, fixed.2.2.2⟩
    · exact ident.not_mem (by decide)
    · intro member
      exact absurd (all 47 member) (by decide)
  have kept : read <+: sizeBuf name count := prefix_of_cut read _ rest 47 front foreign_
  -- Cut or not, the buffer holds a front of the full declaration, so the digits agree.
  have full := kept
  rw [sizeBuf_eq name ident count, List.prefix_take_iff] at full
  have aligned := full.1
  simp only [read, declaration, List.append_assoc, List.prefix_append_right_inj] at aligned
  obtain ⟨tail, same⟩ := aligned
  have left := readRun_append isDigit digits (ascii ";" ++ tail) all rfl
  have right := readRun_append isDigit (decimal count) (ascii ";" ++ ascii "\n\n")
    (decimal_digits count) rfl
  rw [List.append_assoc] at same
  rw [same, right] at left
  have digitsEq : decimal count = digits := congrArg Prod.fst left
  have whole : read = declaration name count := by
    simp only [read, declaration, digitsEq]
  rw [← whole]
  exact kept

/-- The emitted header reads back as the result it was made from exactly while the name
and the count leave room for the size declaration. -/
theorem decodeTable_iff (array : IsIdentifier opts.arrayName)
    (guard_ : IsIdentifier opts.guardPrefix) (payload : result.data = some data)
    (whole : data.length = 4 * n) (positive : 1 ≤ n) :
    decodeTable (emitOutput host opts result) =
        some ⟨opts.arrayName, words host data, opts.arrayName ++ ascii "_size", n⟩ ↔
      opts.arrayName.length + (decimal n).length ≤ 34 := by
  obtain ⟨rest, slash⟩ := postamble_slash opts result
  rw [decodeTable,
    decodeArray_emitOutput host opts result data n array guard_ payload whole positive,
    ← declaration_prefix_iff opts.arrayName array n, slash]
  simp only [Option.bind_eq_bind, Option.bind_some, Option.bind_eq_some_iff]
  constructor
  · rintro ⟨⟨sizeName, count⟩, found, same⟩
    simp only [Option.some.injEq, DecodedTable.mk.injEq, true_and] at same
    rw [same.1, same.2] at found
    exact readSize_exact opts.arrayName array n rest found
  · rintro ⟨tail, kept⟩
    refine ⟨(opts.arrayName ++ ascii "_size", n), ?_, rfl⟩
    rw [← kept, List.append_assoc]
    exact readSize_append opts.arrayName array n _

end Emit

/-- Whatever the sink answers, the only text written to it is the whole header. -/
theorem written_eq (host : ByteOrder) (sink : SinkCall → Status) (opts : StddefOptions)
    (result : HashResult) (text : Bytes)
    (written : SinkCall.write text ∈ (stddefEmit host sink opts result).2) :
    text = emitOutput host opts result := by
  unfold stddefEmit at written
  dsimp only at written
  split_ifs at written
  · simp at written
  · simpa using written
  · simpa using written

/-- What `stddef_emit` hands to the sink reads back as its input exactly up to a bound on
the length of the array name and of the count. Equal texts always come from equal
payloads. -/
theorem emit_decodes_iff (host : ByteOrder) (sink : SinkCall → Status) (opts : StddefOptions)
    (array : IsIdentifier opts.arrayName) (guard_ : IsIdentifier opts.guardPrefix) :
    (∀ result data n text, result.data = some data → data.length = 4 * n → 1 ≤ n →
      SinkCall.write text ∈ (stddefEmit host sink opts result).2 →
      (decodeTable text =
          some ⟨opts.arrayName, words host data, opts.arrayName ++ ascii "_size", n⟩ ↔
        opts.arrayName.length + (decimal n).length ≤ 34)) ∧
    (∀ left right leftData rightData m n text, left.data = some leftData →
      right.data = some rightData → leftData.length = 4 * m → rightData.length = 4 * n →
      1 ≤ m → 1 ≤ n →
      SinkCall.write text ∈ (stddefEmit host sink opts left).2 →
      SinkCall.write text ∈ (stddefEmit host sink opts right).2 →
      words host leftData = words host rightData) := by
  constructor
  · intro result data n text payload whole positive written
    rw [written_eq host sink opts result text written]
    exact decodeTable_iff host opts result data n array guard_ payload whole positive
  · intro left right leftData rightData m n text leftPayload rightPayload leftWhole rightWhole
      leftPos rightPos leftWritten rightWritten
    have same := (written_eq host sink opts left text leftWritten).symm.trans
      (written_eq host sink opts right text rightWritten)
    have first := decodeArray_emitOutput host opts left leftData m array guard_ leftPayload
      leftWhole leftPos
    have second := decodeArray_emitOutput host opts right rightData n array guard_ rightPayload
      rightWhole rightPos
    rw [same, second] at first
    simp only [Option.some.injEq, Prod.mk.injEq, true_and] at first
    exact first.1.symm

/-- A result of three words. -/
def threeWords : HashResult where
  methodName := none
  keyType := .string
  keyCount := 3
  flags := methodFlagMinimal
  data := some (wordBytes .little [2, 0, 0xdeadbeef])

/-- A name with room for three words, and no guard. -/
def colourOptions : StddefOptions where
  arrayName := ascii "colour_slots"
  emitHeaderGuard := false

theorem emit_decodes_three_words :
    decodeTable (emitOutput .little colourOptions threeWords) =
      some ⟨ascii "colour_slots", [2, 0, 0xdeadbeef], ascii "colour_slots_size", 3⟩ :=
  ((emit_decodes_iff .little (fun _ => .ok) colourOptions (by decide) (by decide)).1 threeWords _
    3 _ rfl rfl (by decide) (List.mem_cons_of_mem _ List.mem_cons_self)).mpr (by decide)

/-- A result of one word, `7`. -/
def oneWord : HashResult where
  methodName := none
  keyType := .string
  keyCount := 1
  flags := methodFlagMinimal
  data := some (wordBytes .little [7])

/-- With an array name of 34 letters the size declaration of one word is cut short. -/
theorem emit_cuts_long_name :
    decodeTable (emitOutput .little { arrayName := List.replicate 34 97 } oneWord) ≠
      some ⟨List.replicate 34 97, [7], List.replicate 34 97 ++ ascii "_size", 1⟩ := by
  intro decoded
  have short := (decodeTable_iff .little { arrayName := List.replicate 34 97 } oneWord
    (wordBytes .little [7]) 1 (by decide) (by decide) rfl rfl (by decide)).mp decoded
  exact absurd short (by decide)

end Nuperf
