import Nuperf.EmitDecode
import Nuperf.Library.CText

set_option autoImplicit false

namespace Nuperf

open ByteString Numeral CStandard HostWords TextReader CText

section Metadata

/-- The metadata comment between its delimiters. -/
def metadataText (name : Bytes) (count : Nat) : Bytes :=
  ascii " Generated by NuPERF\n * Method: " ++ (name ++ (ascii "\n * Keys: " ++
    (decimal count ++ ascii "\n ")))

/-- The method name and the key count that a metadata comment states. -/
def readMetadata (comment : Bytes) : Option (Bytes × Nat) := do
  let text ← literal (ascii " Generated by NuPERF\n * Method: ") comment
  let (name, text) := readRun (· != 10) text
  let text ← literal (ascii "\n * Keys: ") text
  let (digits, text) := readRun isDigit text
  if digits ≠ [] ∧ text = ascii "\n " then some (name, value digits) else none

theorem readMetadata_metadataText (name : Bytes) (count : Nat) (oneLine : 10 ∉ name) :
    readMetadata (metadataText name count) = some (name, count) := by
  have inLine : ∀ byte ∈ name, (byte != 10) = true := by
    intro byte member
    rw [bne_iff_ne]
    rintro rfl
    exact oneLine member
  have run := readRun_append (· != 10) name (ascii "\n * Keys: " ++ (decimal count ++ ascii "\n "))
    inLine rfl
  have digits := readRun_append isDigit (decimal count) (ascii "\n ") (decimal_digits count) rfl
  simp only [readMetadata, metadataText, literal_append, run, digits, Option.bind_eq_bind,
    Option.bind_some, ne_eq, decimal_ne_nil, not_false_eq_true, and_self, ↓reduceIte,
    value_decimal]

theorem metadataText_length (name : Bytes) (count : Nat) :
    (metadataText name count).length = 44 + name.length + (decimal count).length := by
  have fixed : (ascii " Generated by NuPERF\n * Method: ").length = 32 ∧
      (ascii "\n * Keys: ").length = 10 ∧ (ascii "\n ").length = 2 := by decide
  simp only [metadataText, List.length_append, fixed.1, fixed.2.1, fixed.2.2]
  omega

theorem metadataText_unended (name : Bytes) (count : Nat) (unended : Unended name) :
    Unended (metadataText name count) := by
  have fixed : Unended (ascii " Generated by NuPERF\n * Method: ") ∧
      Unended (ascii "\n * Keys: ") ∧ Unended (ascii "\n ") := by
    unfold Unended
    decide
  have numeral : Unended (decimal count) :=
    unended_of_starless _ fun star => absurd (decimal_digits count 42 star) (by decide)
  have digits : Unended (decimal count ++ ascii "\n ") :=
    numeral.append fixed.2.2 (.inr (by decide))
  have keys : Unended (ascii "\n * Keys: " ++ (decimal count ++ ascii "\n ")) :=
    fixed.2.1.append digits (.inl (by decide))
  exact fixed.1.append (unended.append keys (.inr (by simp [ascii]))) (.inl (by decide))

/-- The comment and the blank line behind it, cut to the buffer. -/
theorem metaBuf_eq (result : HashResult) (name : CString) (named : result.methodName = some name) :
    metaBuf result = ascii "/*" ++
      (metadataText name.bytes result.keyCount ++ ascii "*/\n\n").take 253 := by
  have start : ascii "/* Generated by NuPERF\n * Method: " =
      ascii "/*" ++ ascii " Generated by NuPERF\n * Method: " := by decide
  have ending : ascii "\n */\n\n" = ascii "\n " ++ ascii "*/\n\n" := by decide
  have shape : ascii "/* Generated by NuPERF\n * Method: " ++ name.bytes ++
      ascii "\n * Keys: " ++ decimal result.keyCount ++ ascii "\n */\n\n" =
      ascii "/*" ++ (metadataText name.bytes result.keyCount ++ ascii "*/\n\n") := by
    rw [start, ending]
    simp only [metadataText, List.append_assoc]
  have free : NulFree (ascii "/*" ++
      (metadataText name.bytes result.keyCount ++ ascii "*/\n\n")) := by
    simp only [metadataText, nulFree_append]
    exact ⟨by decide, ⟨by decide, name.nulFree, by decide, decimal_nulFree _, by decide⟩,
      by decide⟩
  have cut : (ascii "/*" ++ (metadataText name.bytes result.keyCount ++ ascii "*/\n\n")).take 255 =
      ascii "/*" ++ (metadataText name.bytes result.keyCount ++ ascii "*/\n\n").take 253 := rfl
  unfold metaBuf
  rw [named]
  dsimp only
  rw [shape, snprintf, ← cut]
  apply NulFree.cstr
  intro member
  exact free (List.mem_of_mem_take member)

/-- The comment is ended, and what is left of the blank line stands behind it. -/
theorem metaBuf_fits (result : HashResult) (name : CString)
    (named : result.methodName = some name)
    (fits : name.bytes.length + (decimal result.keyCount).length ≤ 207) :
    metaBuf result = ascii "/*" ++ (metadataText name.bytes result.keyCount ++ ascii "*/") ++
      (ascii "\n\n").take (207 - (name.bytes.length + (decimal result.keyCount).length)) := by
  have length := metadataText_length name.bytes result.keyCount
  have ending : ascii "*/\n\n" = ascii "*/" ++ ascii "\n\n" := by decide
  have mark : (ascii "*/").length = 2 := rfl
  rw [metaBuf_eq result name named, ending, List.append_assoc, List.append_cancel_left_eq,
    ← List.append_assoc, List.take_append, List.take_of_length_le]
  · congr 2
    rw [List.length_append, length, mark]
    omega
  · rw [List.length_append, length, mark]
    omega

/-- The end of the comment is cut off. -/
theorem metaBuf_cut (result : HashResult) (name : CString) (named : result.methodName = some name)
    (unended : Unended name.bytes)
    (long : 207 < name.bytes.length + (decimal result.keyCount).length) :
    ∃ text, metaBuf result = ascii "/*" ++ text ∧ Unended text := by
  have length := metadataText_length name.bytes result.keyCount
  have ending : ascii "*/\n\n" = ascii "*" ++ ascii "/\n\n" := by decide
  refine ⟨_, metaBuf_eq result name named, ?_⟩
  have starred : Unended (metadataText name.bytes result.keyCount ++ ascii "*") := by
    apply (metadataText_unended name.bytes result.keyCount unended).append
    · unfold Unended
      decide
    · exact .inr (by decide)
  apply starred.within
  rw [ending, ← List.append_assoc, List.take_append_of_le_length]
  · exact (List.take_prefix _ _).isInfix
  · rw [List.length_append, length]
    show 253 ≤ _ + 1
    omega

end Metadata

section Bytes

/-- A byte that means something to a comment, a literal, a directive or a brace. -/
def isMark (byte : UInt8) : Bool :=
  byte == 47 || byte == 34 || byte == 39 || byte == 35 || byte == 123 || byte == 125

abbrev Quiet (text : Bytes) : Prop := Avoids isMark text

theorem Quiet.plain {text : Bytes} (quiet : Quiet text) : Avoids isDelimiter text := by
  apply quiet.mono
  intro byte delimiter
  simp only [isDelimiter, isMark, Bool.or_eq_true] at delimiter ⊢
  tauto

theorem Quiet.braceless {text : Bytes} (quiet : Quiet text) : Avoids isBrace text := by
  apply quiet.mono
  intro byte brace
  simp only [isBrace, isMark, Bool.or_eq_true] at brace ⊢
  tauto

theorem Quiet.markless {text : Bytes} (quiet : Quiet text) : 35 ∉ text :=
  fun member => absurd (quiet 35 member) (by decide)

/-- A byte of a name or a numeral is no mark. -/
theorem isMark_of_ident (byte : UInt8) (ident : isIdentByte byte = true) : isMark byte = false := by
  by_contra marks
  have mark : byte ∈ [47, 34, 39, 35, 123, 125] := by
    simp only [isMark, Bool.not_eq_false, Bool.or_eq_true, beq_iff_eq, or_assoc] at marks
    simpa using marks
  have none_ : [47, 34, 39, 35, 123, 125].all (fun other => !isIdentByte other) = true := by decide
  have other := List.all_eq_true.mp none_ byte mark
  rw [ident] at other
  cases other

theorem quiet_of_ident (text : Bytes) (ident : ∀ byte ∈ text, isIdentByte byte = true) :
    Quiet text := fun byte member => isMark_of_ident byte (ident byte member)

theorem quiet_decimal (n : Nat) : Quiet (decimal n) := by
  apply quiet_of_ident
  intro byte member
  rw [isIdentByte, decimal_digits n byte member]
  rfl

theorem quiet_fixedHex (width n : Nat) : Quiet (fixedHex width n) := by
  apply quiet_of_ident
  intro byte member
  have hex := fixedHex_digits width n byte member
  simp only [isHexDigit, Bool.or_eq_true, Bool.and_eq_true, decide_eq_true_eq] at hex
  rcases hex with digit | letter
  · rw [isIdentByte, digit]
    rfl
  · have lower : byte ≤ 122 := UInt8.le_trans letter.2 (by decide : (102 : UInt8) ≤ 122)
    simp [isIdentByte, letter.1, lower]

theorem quiet_emitWords (words : List UInt32) : Quiet (emitWords words) := by
  have word : ∀ word, Quiet (emitWord word) := by
    intro word
    rw [emitWord_eq]
    exact Avoids.append (by decide) (quiet_fixedHex 8 word.toNat)
  exact emitWords_avoids isMark words word (by decide) (by decide)

theorem quiet_declaration (name : Bytes) (ident : IsIdentifier name) (count : Nat) :
    Quiet (declaration name count) :=
  Avoids.append (by decide) ((quiet_of_ident name ident.2.1).append
    (Avoids.append (by decide) (Avoids.append (by decide)
      ((quiet_decimal count).append (by decide)))))

theorem quiet_sizeBuf (name : Bytes) (ident : IsIdentifier name) (count : Nat) :
    Quiet (sizeBuf name count) := by
  have whole : Quiet (declaration name count ++ ascii "\n\n") :=
    (quiet_declaration name ident count).append (by decide)
  rw [sizeBuf_eq name ident count]
  exact whole.take 63

end Bytes

section Definitions

variable (host : ByteOrder) (opts : StddefOptions) (result : HashResult)

/-- The declaration of the size of the payload ends with a newline in its buffer. -/
def SizeLineKept : Prop :=
  ∀ data, result.data = some data → data ≠ [] →
    opts.arrayName.length + (decimal (data.length / 4)).length ≤ 33

/-- The definitions are one pair of braces, with nothing else that a scan stops at. -/
theorem definitions_braces (array : IsIdentifier opts.arrayName) :
    ∃ front inner back, definitions host opts result =
      front ++ (123 :: (inner ++ 125 :: back)) ∧ Quiet front ∧ Quiet inner ∧ Quiet back := by
  have front : Quiet (ascii "static const uint32_t " ++ opts.arrayName ++ ascii "[] = ") :=
    (Avoids.append (by decide) (quiet_of_ident _ array.2.1)).append (by decide)
  have full : ascii "[] = \x7b\n" = ascii "[] = " ++ 123 :: ascii "\n" := by decide
  have stop : ascii "\x7d;\n\n" = 125 :: ascii ";\n\n" := by decide
  have none_ : ascii "[] = \x7b\x7d;\n" = ascii "[] = " ++ 123 :: 125 :: ascii ";\n" := by decide
  have empty : ∃ front inner back, ascii "static const uint32_t " ++ opts.arrayName ++
      ascii "[] = \x7b\x7d;\n" ++ (ascii "static const size_t " ++ opts.arrayName ++
        ascii "_size = 0;\n\n") = front ++ (123 :: (inner ++ 125 :: back)) ∧ Quiet front ∧
        Quiet inner ∧ Quiet back := by
    refine ⟨_, [], ascii ";\n" ++ (ascii "static const size_t " ++ opts.arrayName ++
      ascii "_size = 0;\n\n"), ?_, front, by decide, ?_⟩
    · rw [none_]
      simp only [List.append_assoc, List.cons_append, List.nil_append]
    · exact Avoids.append (by decide)
        ((Avoids.append (by decide) (quiet_of_ident _ array.2.1)).append (by decide))
  unfold definitions
  cases result.data with
  | none => exact empty
  | some data =>
      cases data with
      | nil => exact empty
      | cons byte rest =>
          refine ⟨_, ascii "\n" ++ emitWords (words host (byte :: rest)), ascii ";\n\n" ++
            sizeBuf opts.arrayName ((byte :: rest).length / 4), ?_, front, ?_, ?_⟩
          · dsimp only
            rw [full, stop]
            simp only [List.append_assoc, List.cons_append]
          · exact Avoids.append (by decide) (quiet_emitWords _)
          · exact Avoids.append (by decide) (quiet_sizeBuf _ array _)

/-- Where the declaration of the size is not cut, its line is ended. -/
theorem definitions_ended (array : IsIdentifier opts.arrayName)
    (kept : SizeLineKept opts result) : Ended (definitions host opts result) := by
  have empty : ∀ front : Bytes,
      Ended (front ++ (ascii "static const size_t " ++ opts.arrayName ++ ascii "_size = 0;\n\n")) :=
    fun front => .inr (by
      rw [← List.append_assoc, List.getLast?_append_of_ne_nil _ (by decide)]
      rfl)
  unfold definitions
  cases shape : result.data with
  | none => exact empty _
  | some data =>
      cases data with
      | nil => exact empty _
      | cons byte rest =>
          have short := kept _ shape (List.cons_ne_nil byte rest)
          have length := declaration_length opts.arrayName ((byte :: rest).length / 4)
          have newline : ∃ front, sizeBuf opts.arrayName ((byte :: rest).length / 4) =
              front ++ [10] := by
            have room : 63 = (declaration opts.arrayName ((byte :: rest).length / 4)).length +
                (62 - (declaration opts.arrayName ((byte :: rest).length / 4)).length + 1) := by
              omega
            rw [sizeBuf_eq _ array, room, List.take_length_add_append]
            generalize 62 - _ = left
            cases left with
            | zero => exact ⟨_, rfl⟩
            | succ left =>
                refine ⟨declaration opts.arrayName ((byte :: rest).length / 4) ++ [10], ?_⟩
                rw [List.take_of_length_le (by simp [ascii])]
                simp [ascii]
          obtain ⟨front, ending⟩ := newline
          right
          dsimp only
          rw [ending, ← List.append_assoc]
          exact List.getLast?_concat

/-- Where the declaration of the size is cut, its line is not ended. -/
theorem definitions_cut (array : IsIdentifier opts.arrayName)
    (cut : ¬ SizeLineKept opts result) :
    ∃ front last, definitions host opts result = front ++ 115 :: last ∧ Ended front ∧
      10 ∉ 115 :: last := by
  unfold SizeLineKept at cut
  push Not at cut
  obtain ⟨data, payload, some_, long⟩ := cut
  obtain ⟨byte, rest, rfl⟩ := List.exists_cons_of_ne_nil some_
  have length := declaration_length opts.arrayName ((byte :: rest).length / 4)
  have whole : sizeBuf opts.arrayName ((byte :: rest).length / 4) =
      (declaration opts.arrayName ((byte :: rest).length / 4)).take 63 := by
    rw [sizeBuf_eq _ array, List.take_append_of_le_length (by omega)]
  have single : 10 ∉ declaration opts.arrayName ((byte :: rest).length / 4) := by
    have name : 10 ∉ opts.arrayName := array.not_mem (by decide)
    have digits : 10 ∉ decimal ((byte :: rest).length / 4) := fun member =>
      absurd (decimal_digits _ 10 member) (by decide)
    simp only [declaration, List.mem_append, not_or]
    exact ⟨by decide, name, by decide, by decide, digits, by decide⟩
  obtain ⟨last, cutStart⟩ : ∃ last, (declaration opts.arrayName
      ((byte :: rest).length / 4)).take 63 = 115 :: last := ⟨_, rfl⟩
  refine ⟨ascii "static const uint32_t " ++ opts.arrayName ++ ascii "[] = \x7b\n" ++
    emitWords (words host (byte :: rest)) ++ ascii "\x7d;\n\n", last, ?_, ?_, ?_⟩
  · unfold definitions
    rw [payload]
    dsimp only
    rw [whole, cutStart]
  · right
    rw [List.getLast?_append_of_ne_nil _ (by decide)]
    rfl
  · intro member
    rw [← cutStart] at member
    exact single (List.mem_of_mem_take member)

end Definitions

section Frame

variable (opts : StddefOptions)

/-- What the guard puts in front. -/
def guardOpening : Bytes :=
  if opts.emitHeaderGuard then
    ascii "#ifndef " ++ opts.guardPrefix ++ ascii "_H\n" ++
      (ascii "#define " ++ opts.guardPrefix ++ ascii "_H\n\n")
  else []

/-- The groups that are open behind the guard. -/
def guardDepth : Nat := if opts.emitHeaderGuard then 1 else 0

/-- The preamble without what its literal holds. -/
def preambleCode : Bytes :=
  guardOpening opts ++ ascii "#include <stddef.h>\n#include <stdint.h>\n\n#ifdef __cplusplus\n" ++
    ascii "extern \"\" \x7b\n#endif\n\n"

/-- What follows the metadata comment. -/
def closing : Bytes :=
  ascii "#ifdef __cplusplus\n\x7d\n#endif\n\n" ++
    (if opts.emitHeaderGuard then ascii "#endif /* " ++ opts.guardPrefix ++ ascii "_H */\n" else [])

/-- The closing lines behind the first, without the comment. -/
def closingRest : Bytes :=
  ascii "\x7d\n#endif\n\n" ++ (if opts.emitHeaderGuard then ascii "#endif  \n" else [])

def closingCode : Bytes := ascii "#ifdef __cplusplus" ++ 10 :: closingRest opts

def guardComments : List Bytes :=
  if opts.emitHeaderGuard then [ascii " " ++ (opts.guardPrefix ++ ascii "_H ")] else []

variable (guard_ : IsIdentifier opts.guardPrefix)

/-- The lines of the guard hold neither comments nor braces. -/
theorem guardOpening_avoids (kind : UInt8 → Bool) (word : Avoids kind (ascii "#ifndef "))
    (define : Avoids kind (ascii "#define ")) (suffix : Avoids kind (ascii "_H\n\n"))
    (name : Avoids kind opts.guardPrefix) : Avoids kind (guardOpening opts) := by
  have short : Avoids kind (ascii "_H\n") := fun byte member =>
    suffix byte (List.mem_append_left [10] member)
  unfold guardOpening
  split_ifs
  · exact ((word.append name).append short).append ((define.append name).append suffix)
  · intro byte member
    cases member

theorem guardOpening_ended : Ended (guardOpening opts) := by
  unfold guardOpening
  split_ifs
  · right
    rw [← List.append_assoc, List.getLast?_append_of_ne_nil _ (by decide)]
    rfl
  · exact .inl rfl

theorem preamble_ended : Ended (preambleCode opts) := by
  right
  rw [preambleCode, List.getLast?_append_of_ne_nil _ (by decide)]
  rfl

include guard_

theorem run_preamble : (inCode [] []).run (preamble opts) = inCode (preambleCode opts) [] := by
  have shape : preamble opts = guardOpening opts ++
      (ascii "#include <stddef.h>\n#include <stdint.h>\n\n#ifdef __cplusplus\nextern " ++
        ((34 :: ([67] ++ [34])) ++ ascii " \x7b\n#endif\n\n")) := by
    have parts : ascii "#include <stddef.h>\n" ++ ascii "#include <stdint.h>\n\n" ++
        ascii "#ifdef __cplusplus\nextern \"C\" \x7b\n#endif\n\n" =
        ascii "#include <stddef.h>\n#include <stdint.h>\n\n#ifdef __cplusplus\nextern " ++
          ((34 :: ([67] ++ [34])) ++ ascii " \x7b\n#endif\n\n") := by decide
    rw [← parts, preamble, List.append_assoc]
    rfl
  have code : preambleCode opts = guardOpening opts ++
      (ascii "#include <stddef.h>\n#include <stdint.h>\n\n#ifdef __cplusplus\nextern " ++
        ([34, 34] ++ ascii " \x7b\n#endif\n\n")) := by
    have parts : ascii "#include <stddef.h>\n#include <stdint.h>\n\n#ifdef __cplusplus\n" ++
        ascii "extern \"\" \x7b\n#endif\n\n" =
        ascii "#include <stddef.h>\n#include <stdint.h>\n\n#ifdef __cplusplus\nextern " ++
          ([34, 34] ++ ascii " \x7b\n#endif\n\n") := by decide
    rw [← parts, preambleCode, List.append_assoc]
  have plain : Avoids isDelimiter (guardOpening opts) :=
    guardOpening_avoids opts isDelimiter (by decide) (by decide) (by decide)
      (quiet_of_ident _ guard_.2.1).plain
  have front : Avoids isDelimiter
      (ascii "#include <stddef.h>\n#include <stdint.h>\n\n#ifdef __cplusplus\nextern ") := by decide
  have back : Avoids isDelimiter (ascii " \x7b\n#endif\n\n") := by decide
  rw [shape, code, Scan.run_append, run_plain _ _ _ plain, Scan.run_append,
    run_plain _ _ _ front, Scan.run_append, run_literal _ _ 34 [67] (.inl rfl) (by decide),
    run_plain _ _ _ back]
  simp only [List.append_assoc, List.nil_append]

/-- The preamble leaves the brace of its linkage block open. -/
theorem preamble_braces : depth 0 ((preambleCode opts).map brace) = some 1 := by
  have opening : depth 0 ((guardOpening opts).map brace) = some 0 :=
    depth_braceless 0 _ (guardOpening_avoids opts isBrace (by decide) (by decide) (by decide)
      (quiet_of_ident _ guard_.2.1).braceless)
  have includes : depth 0 ((ascii
      "#include <stddef.h>\n#include <stdint.h>\n\n#ifdef __cplusplus\n").map brace) =
      some 0 := by
    apply depth_braceless
    decide
  have linkage : depth 0 ((ascii "extern \"\" \x7b\n#endif\n\n").map brace) = some 1 := by decide
  rw [preambleCode, List.map_append, List.map_append]
  exact depth_trans (depth_trans opening includes) linkage

theorem guardOpening_groups :
    depth 0 ((lines (guardOpening opts)).map directive) = some (guardDepth opts) := by
  have name : 10 ∉ opts.guardPrefix := guard_.not_mem (by decide)
  unfold guardOpening guardDepth
  split_ifs
  · have first : 10 ∉ ascii "#ifndef " ++ opts.guardPrefix ++ ascii "_H" := by
      simp only [List.mem_append, not_or]
      exact ⟨⟨by decide, name⟩, by decide⟩
    have second : 10 ∉ ascii "#define " ++ opts.guardPrefix ++ ascii "_H" := by
      simp only [List.mem_append, not_or]
      exact ⟨⟨by decide, name⟩, by decide⟩
    have shape : ascii "#ifndef " ++ opts.guardPrefix ++ ascii "_H\n" ++
        (ascii "#define " ++ opts.guardPrefix ++ ascii "_H\n\n") =
        ascii "#ifndef " ++ opts.guardPrefix ++ ascii "_H" ++
          10 :: (ascii "#define " ++ opts.guardPrefix ++ ascii "_H" ++ 10 :: [10]) := by
      have ending : ascii "_H\n" = ascii "_H" ++ [10] := rfl
      have ending2 : ascii "_H\n\n" = ascii "_H" ++ 10 :: [10] := rfl
      rw [ending, ending2]
      simp only [List.append_assoc, List.cons_append, List.nil_append]
    rw [shape, lines_ended _ _ first, lines_ended _ _ second]
    rfl
  · rfl

/-- Of the groups that the preamble opens it leaves that of the guard open. -/
theorem preamble_groups :
    depth 0 ((lines (preambleCode opts)).map directive) = some (guardDepth opts) := by
  have rest : ∀ start, depth start ((lines (ascii
      "#include <stddef.h>\n#include <stdint.h>\n\n#ifdef __cplusplus\n" ++
        ascii "extern \"\" \x7b\n#endif\n\n")).map directive) = some start := by
    have brackets : (lines (ascii
        "#include <stddef.h>\n#include <stdint.h>\n\n#ifdef __cplusplus\n" ++
          ascii "extern \"\" \x7b\n#endif\n\n")).map directive =
        [.neither, .neither, .neither, .opens, .neither, .closes, .neither] := by decide
    intro start
    rw [brackets]
    rfl
  rw [preambleCode, List.append_assoc]
  exact depth_lines_append (guardOpening_ended opts) (guardOpening_groups opts guard_) (rest _)

theorem run_closing (code : Bytes) (comments : List Bytes) :
    (inCode code comments).run (closing opts) =
      inCode (code ++ closingCode opts) (comments ++ guardComments opts) := by
  have plain : Avoids isDelimiter (ascii "#ifdef __cplusplus\n\x7d\n#endif\n\n") := by decide
  unfold closing closingCode closingRest guardComments
  rw [Scan.run_append, run_plain _ _ _ plain]
  split_ifs
  · have shape : ascii "#endif /* " ++ opts.guardPrefix ++ ascii "_H */\n" = ascii "#endif " ++
        ((ascii "/*" ++ ((ascii " " ++ (opts.guardPrefix ++ ascii "_H ")) ++ ascii "*/")) ++
          ascii "\n") := by
      have left : ascii "#endif /* " = ascii "#endif " ++ (ascii "/*" ++ ascii " ") := by decide
      have right : ascii "_H */\n" = ascii "_H " ++ (ascii "*/" ++ ascii "\n") := by decide
      rw [left, right]
      simp only [List.append_assoc]
    have starless : 42 ∉ ascii " " ++ (opts.guardPrefix ++ ascii "_H ") := by
      have name : 42 ∉ opts.guardPrefix := guard_.not_mem (by decide)
      simp only [List.mem_append, not_or]
      exact ⟨by decide, name, by decide⟩
    have word : Avoids isDelimiter (ascii "#endif ") := by decide
    have newline : Avoids isDelimiter (ascii "\n") := by decide
    rw [shape, Scan.run_append, run_plain _ _ _ word, Scan.run_append,
      run_comment _ _ _ (unended_of_starless _ starless), run_plain _ _ _ newline]
    have ending : ascii "#endif  \n" = ascii "#endif " ++ ([32] ++ ascii "\n") := by decide
    have first : ascii "#ifdef __cplusplus\n\x7d\n#endif\n\n" =
        ascii "#ifdef __cplusplus" ++ 10 :: ascii "\x7d\n#endif\n\n" := by decide
    rw [ending, first]
    simp only [List.append_assoc, List.cons_append]
  · have first : ascii "#ifdef __cplusplus\n\x7d\n#endif\n\n" =
        ascii "#ifdef __cplusplus" ++ 10 :: (ascii "\x7d\n#endif\n\n" ++ []) := by decide
    simp only [Scan.run, List.foldl_nil, List.append_nil] at first ⊢
    rw [first]

omit guard_

theorem closing_braces : depth 1 ((closingCode opts).map brace) = some 0 := by
  unfold closingCode closingRest
  split_ifs <;> decide

/-- The closing lines end the groups that are open, also behind a space. -/
theorem closing_groups (blank : Bytes) (space : blank = [] ∨ blank = [32]) :
    depth (guardDepth opts) ((lines (blank ++ closingCode opts)).map directive) = some 0 := by
  unfold guardDepth closingCode closingRest
  rcases space with rfl | rfl <;> split_ifs <;> decide

/-- Without their first line they end a group too many. -/
theorem closingRest_groups :
    depth (guardDepth opts) ((lines (closingRest opts)).map directive) = none := by
  unfold guardDepth closingRest
  split_ifs <;> decide

end Frame

section Header

variable (host : ByteOrder) (opts : StddefOptions) (result : HashResult)

/-- What a scan makes of the text in front of the metadata comment. -/
def frontCode : Bytes := preambleCode opts ++ definitions host opts result

theorem emitOutput_split : emitOutput host opts result =
    (preamble opts ++ definitions host opts result) ++ (metaBuf result ++ closing opts) := by
  unfold emitOutput postamble closing
  simp only [List.append_assoc]

variable (array : IsIdentifier opts.arrayName) (guard_ : IsIdentifier opts.guardPrefix)

include array guard_

theorem run_front : ({} : Scan).run (preamble opts ++ definitions host opts result) =
    inCode (frontCode host opts result) [] := by
  have plain : Avoids isDelimiter (definitions host opts result) := by
    obtain ⟨front, inner, back, shape, first, second, third⟩ :=
      definitions_braces host opts result array
    have open_ : Avoids isDelimiter [123] := by decide
    have close_ : Avoids isDelimiter [125] := by decide
    rw [shape]
    exact first.plain.append (open_.append (second.plain.append (close_.append third.plain)))
  have preambleRun := run_preamble opts guard_
  rw [Scan.run_append]
  change ((inCode [] []).run (preamble opts)).run _ = _
  rw [preambleRun, run_plain _ _ _ plain]
  rfl

theorem front_braces : depth 0 ((frontCode host opts result).map brace) = some 1 := by
  obtain ⟨front, inner, back, shape, first, second, third⟩ :=
    definitions_braces host opts result array
  have inside : depth 2 ((inner ++ 125 :: back).map brace) = some 1 := by
    rw [List.map_append]
    exact depth_trans (depth_braceless 2 inner second.braceless)
      (depth_braceless 1 back third.braceless)
  rw [frontCode, shape, List.map_append, List.map_append]
  exact depth_trans (preamble_braces opts guard_)
    (depth_trans (depth_braceless 1 front first.braceless) inside)

omit guard_

theorem definitions_markless : 35 ∉ definitions host opts result := by
  obtain ⟨front, inner, back, shape, first, second, third⟩ :=
    definitions_braces host opts result array
  rw [shape]
  simp only [List.mem_append, List.mem_cons, not_or]
  exact ⟨first.markless, by decide, second.markless, by decide, third.markless⟩

include guard_

variable (name : CString) (named : result.methodName = some name)
  (unended : Unended name.bytes)

include named unended

/-- The scan of a header whose metadata comment is ended. -/
theorem scan_fits
    (fits : name.bytes.length + (decimal result.keyCount).length ≤ 207) :
    scan (emitOutput host opts result) =
      inCode (frontCode host opts result ++ [32] ++
          (ascii "\n\n").take (207 - (name.bytes.length + (decimal result.keyCount).length)) ++
          closingCode opts)
        (metadataText name.bytes result.keyCount :: guardComments opts) := by
  have newlines : Avoids isDelimiter (ascii "\n\n") := by decide
  rw [scan, emitOutput_split, Scan.run_append, run_front host opts result array guard_,
    metaBuf_fits result name named fits, Scan.run_append, Scan.run_append,
    run_comment _ _ _ (metadataText_unended name.bytes result.keyCount unended),
    run_plain _ _ _ (newlines.take _), run_closing opts guard_]
  rfl

theorem braces_fits
    (fits : name.bytes.length + (decimal result.keyCount).length ≤ 207) :
    Nested ((scan (emitOutput host opts result)).code.map brace) := by
  have space : Avoids isBrace [32] := by decide
  have newlines : Avoids isBrace (ascii "\n\n") := by decide
  rw [scan_fits host opts result array guard_ name named unended fits]
  unfold inCode Nested
  dsimp only
  rw [List.append_assoc (frontCode host opts result), List.map_append, List.map_append]
  exact depth_trans (depth_trans (front_braces host opts result array guard_)
    (depth_braceless 1 _ (space.append (newlines.take _)))) (closing_braces opts)

/-- With a newline in front of the closing lines, each conditional group has its end. -/
theorem groups_fits
    (fits : name.bytes.length + (decimal result.keyCount).length ≤ 207)
    (separate : name.bytes.length + (decimal result.keyCount).length < 207 ∨
      SizeLineKept opts result) :
    Nested ((lines (scan (emitOutput host opts result)).code).map directive) := by
  have markless := definitions_markless host opts result array
  rw [scan_fits host opts result array guard_ name named unended fits]
  unfold inCode Nested frontCode
  dsimp only
  rw [List.append_assoc, List.append_assoc, List.append_assoc]
  apply depth_lines_append (preamble_ended opts) (preamble_groups opts guard_)
  generalize room : 207 - (name.bytes.length + (decimal result.keyCount).length) = left
  cases left with
  | zero =>
      -- Both newlines are cut, so the definitions have to end the line themselves.
      have kept : SizeLineKept opts result := by
        rcases separate with shorter | kept
        · omega
        · exact kept
      apply depth_lines_append (definitions_ended host opts result array kept)
        (depth_markless _ _ markless)
      exact closing_groups opts [32] (.inr rfl)
  | succ left =>
      have ended : Ended (definitions host opts result ++ ([32] ++ (ascii "\n\n").take
          (left + 1))) := by
        right
        rw [← List.append_assoc]
        cases left with
        | zero => exact List.getLast?_concat
        | succ left =>
            rw [List.take_of_length_le (by simp [ascii]),
              List.getLast?_append_of_ne_nil _ (by decide)]
            rfl
      have quiet : 35 ∉ definitions host opts result ++ ([32] ++ (ascii "\n\n").take
          (left + 1)) := by
        have whole : 35 ∉ ascii "\n\n" := by decide
        simp only [List.mem_append, not_or]
        exact ⟨markless, by decide, fun member => whole (List.mem_of_mem_take member)⟩
      have closes := closing_groups opts [] (.inl rfl)
      rw [← List.append_assoc [32], ← List.append_assoc]
      exact depth_lines_append ended (depth_markless _ _ quiet) closes

/-- Without a newline the first closing line is no directive. -/
theorem groups_joined
    (full : name.bytes.length + (decimal result.keyCount).length = 207)
    (cut : ¬ SizeLineKept opts result) :
    ¬ Nested ((lines (scan (emitOutput host opts result)).code).map directive) := by
  obtain ⟨front, last, shape, ended, single⟩ := definitions_cut host opts result array cut
  have markless := definitions_markless host opts result array
  rw [shape, List.mem_append, not_or] at markless
  rw [scan_fits host opts result array guard_ name named unended (by omega), full]
  unfold inCode Nested frontCode
  dsimp only
  have line : 10 ∉ 115 :: last ++ ([32] ++ ascii "#ifdef __cplusplus") := by
    rw [List.mem_append, not_or]
    exact ⟨single, by decide⟩
  have joined : preambleCode opts ++ definitions host opts result ++ [32] ++
      (ascii "\n\n").take (207 - 207) ++ closingCode opts = preambleCode opts ++ (front ++
        ((115 :: last ++ ([32] ++ ascii "#ifdef __cplusplus")) ++ 10 :: closingRest opts)) := by
    rw [shape]
    unfold closingCode
    simp only [Nat.sub_self, List.take_zero, List.append_assoc, List.nil_append]
  -- The line starts with `s`, and the directive behind it is not the first thing on it.
  have noDirective : directive (115 :: last ++ ([32] ++ ascii "#ifdef __cplusplus")) =
      .neither := by
    apply directive_neither
    rw [List.cons_append, List.dropWhile_cons_of_neg (by decide), List.head?_cons]
    decide
  rw [joined, lines_append _ _ (preamble_ended opts), lines_append _ _ ended,
    lines_ended _ _ line, List.map_append, List.map_append, List.map_cons, noDirective,
    depth_append, preamble_groups opts guard_, Option.bind_some, depth_append,
    depth_markless _ front markless.1, Option.bind_some, depth, closingRest_groups]
  intro same
  cases same

section Cut

variable (text : Bytes) (open_ : Unended text) (cut : metaBuf result = ascii "/*" ++ text)

include open_ cut

omit named unended

/-- Without a guard a comment that is cut never ends. -/
theorem cut_runs_on (off : opts.emitHeaderGuard = false) :
    (scan (emitOutput host opts result)).mode ≠ .code := by
  have runsOn : Unended (text ++ closing opts) := by
    unfold closing
    rw [off, if_neg Bool.false_ne_true]
    apply open_.append
    · unfold Unended
      decide
    · exact .inr (by decide)
  rw [scan, emitOutput_split, Scan.run_append, run_front host opts result array guard_, cut,
    List.append_assoc, run_comment_open _ _ _ runsOn]
  exact inComment_mode _ _ _

/-- With a guard it ends with the guard's own comment, past a brace that is closed there. -/
theorem cut_swallows_brace (on : opts.emitHeaderGuard = true) :
    depth 0 ((scan (emitOutput host opts result)).code.map brace) = some 1 := by
  have swallowed : Unended (text ++ (ascii "#ifdef __cplusplus\n\x7d\n#endif\n\n#endif /* " ++
      (opts.guardPrefix ++ ascii "_H "))) := by
    have starless : 42 ∉ opts.guardPrefix ++ ascii "_H " := by
      rw [List.mem_append, not_or]
      exact ⟨guard_.not_mem (by decide), by decide⟩
    apply open_.append
    · apply Unended.append
      · unfold Unended
        decide
      · exact unended_of_starless _ starless
      · exact .inl (by decide)
    · exact .inr (by simp [ascii])
  have shape : ascii "/*" ++ text ++ closing opts = (ascii "/*" ++ ((text ++
      (ascii "#ifdef __cplusplus\n\x7d\n#endif\n\n#endif /* " ++
        (opts.guardPrefix ++ ascii "_H "))) ++ ascii "*/")) ++ ascii "\n" := by
    have left : ascii "#ifdef __cplusplus\n\x7d\n#endif\n\n#endif /* " =
        ascii "#ifdef __cplusplus\n\x7d\n#endif\n\n" ++ ascii "#endif /* " := by decide
    have right : ascii "_H */\n" = ascii "_H " ++ (ascii "*/" ++ ascii "\n") := by decide
    unfold closing
    rw [on, left, right]
    simp only [List.append_assoc, ↓reduceIte]
  have newline : Avoids isDelimiter (ascii "\n") := by decide
  have gap : depth 1 (([32] ++ ascii "\n").map brace) = some 1 := by decide
  rw [scan, emitOutput_split, Scan.run_append, run_front host opts result array guard_, cut, shape,
    Scan.run_append, run_comment _ _ _ swallowed, run_plain _ _ _ newline]
  unfold inCode
  dsimp only
  rw [List.append_assoc, List.map_append]
  exact depth_trans (front_braces host opts result array guard_) gap

end Cut

/-- A comment that is cut leaves the text unclosed. -/
theorem cut_not_closed (long : 207 < name.bytes.length + (decimal result.keyCount).length) :
    ¬ Closed (emitOutput host opts result) := by
  obtain ⟨text, cut, open_⟩ := metaBuf_cut result name named unended long
  intro closed
  cases on : opts.emitHeaderGuard with
  | false => exact cut_runs_on host opts result array guard_ text open_ cut on closed.ended
  | true =>
      have braces := closed.braces
      rw [Nested, cut_swallows_brace host opts result array guard_ text open_ cut on] at braces
      cases braces

end Header

/-- The text that is written for a result is closed, and its metadata comment states the name and
the count. -/
def EmitsClosed (host : ByteOrder) (opts : StddefOptions) (result : HashResult) (name : Bytes) :
    Prop :=
  ∀ sink text, SinkCall.write text ∈ (stddefEmit host sink opts result).2 →
    Closed text ∧ (scan text).comments.head?.bind readMetadata = some (name, result.keyCount)

/-- It is so while the metadata comment fits and shares no line with what follows it. -/
theorem emitsClosed_of_fits (host : ByteOrder) (opts : StddefOptions) (result : HashResult)
    (array : IsIdentifier opts.arrayName) (guard_ : IsIdentifier opts.guardPrefix)
    (name : CString) (named : result.methodName = some name) (oneLine : 10 ∉ name.bytes)
    (unended : ¬ ascii "*/" <:+: name.bytes)
    (fits : name.bytes.length + (decimal result.keyCount).length ≤ 207)
    (separate : name.bytes.length + (decimal result.keyCount).length < 207 ∨
      SizeLineKept opts result) :
    EmitsClosed host opts result name.bytes := by
  intro sink text written
  rw [written_eq host sink opts result text written]
  refine ⟨⟨?_, ?_, ?_⟩, ?_⟩
  · rw [scan_fits host opts result array guard_ name named unended fits]
    rfl
  · exact braces_fits host opts result array guard_ name named unended fits
  · exact groups_fits host opts result array guard_ name named unended fits separate
  · rw [scan_fits host opts result array guard_ name named unended fits]
    exact readMetadata_metadataText name.bytes result.keyCount oneLine

/-- The header is closed exactly while the metadata comment fits its buffer, with a newline left
behind it or, at the last length, in front of it. -/
theorem emit_closed_iff (host : ByteOrder) (opts : StddefOptions) (result : HashResult)
    (array : IsIdentifier opts.arrayName) (guard_ : IsIdentifier opts.guardPrefix)
    (name : CString) (named : result.methodName = some name) (oneLine : 10 ∉ name.bytes)
    (unended : ¬ ascii "*/" <:+: name.bytes) :
    EmitsClosed host opts result name.bytes ↔
      name.bytes.length + (decimal result.keyCount).length < 207 ∨
        name.bytes.length + (decimal result.keyCount).length = 207 ∧
          ∀ data, result.data = some data → data ≠ [] →
            opts.arrayName.length + (decimal (data.length / 4)).length ≤ 33 := by
  constructor
  · intro emits
    obtain ⟨closed, _⟩ := emits (fun _ => .ok) (emitOutput host opts result) (by simp [stddefEmit])
    by_contra excluded
    push Not at excluded
    rcases Nat.lt_or_ge 207 (name.bytes.length + (decimal result.keyCount).length) with
      long | short
    · exact cut_not_closed host opts result array guard_ name named unended long closed
    · have full : name.bytes.length + (decimal result.keyCount).length = 207 := by omega
      have cut : ¬ SizeLineKept opts result := by
        intro kept
        obtain ⟨data, payload, some_, beyond⟩ := excluded.2 full
        have within := kept data payload some_
        omega
      exact groups_joined host opts result array guard_ name named unended full cut
        closed.conditionals
  · intro condition
    exact emitsClosed_of_fits host opts result array guard_ name named oneLine unended (by omega)
      (condition.imp_right And.right)

/-- A result of no words, with a name of its own. -/
def namedResult (name : CString) : HashResult where
  methodName := some name
  keyType := .string
  keyCount := 1
  flags := methodFlagMinimal
  data := none

/-- The default names and the name of a built-in method. -/
theorem emit_closed_stdmeth :
    EmitsClosed .little {} (namedResult (.ofBytes (ascii "stdmeth"))) (ascii "stdmeth") :=
  (emit_closed_iff .little {} (namedResult (.ofBytes (ascii "stdmeth"))) (by decide) (by decide)
    (.ofBytes (ascii "stdmeth")) rfl (by decide) (by decide)).mpr (.inl (by decide))

/-- A name of 207 letters pushes the end of the metadata comment out of its buffer. -/
theorem emit_cuts_long_method :
    ¬ EmitsClosed .little {} (namedResult (.ofBytes (List.replicate 207 97)))
      (List.replicate 207 97) := by
  intro emits
  have free : NulFree (List.replicate 207 97) := by
    intro member
    exact absurd (List.eq_of_mem_replicate member) (by decide)
  have bytes : (CString.ofBytes (List.replicate 207 97)).bytes = List.replicate 207 97 := free.cstr
  obtain ⟨closed, _⟩ := emits (fun _ => .ok) _ (List.mem_cons_of_mem _ List.mem_cons_self)
  refine cut_not_closed .little {} (namedResult (.ofBytes (List.replicate 207 97))) (by decide)
    (by decide) (.ofBytes (List.replicate 207 97)) rfl ?_ ?_ closed
  · rw [bytes]
    apply unended_of_starless
    intro member
    exact absurd (List.eq_of_mem_replicate member) (by decide)
  · rw [bytes, List.length_replicate]
    decide

end Nuperf
