import Nuperf.EmitDecode
import Nuperf.Library.CText

set_option autoImplicit false

namespace Nuperf

open ByteString Numeral CStandard HostWords TextReader CText

section Reading

/-- The header up to the initialiser of the array, all of which the options settle. -/
def arrayFront (opts : StddefOptions) : Bytes :=
  preamble opts ++ (ascii "static const uint32_t " ++ (opts.arrayName ++ ascii "[] = "))

def isSemicolon (byte : UInt8) : Bool := byte == 59

/-- The initialiser of the array: what stands between the `=` and the `;`. -/
def readInitializer (opts : StddefOptions) (text : Bytes) : Option Bytes :=
  (literal (arrayFront opts) text).map fun text => (readRun (fun byte => !isSemicolon byte) text).1

/-- The definition of the array in a header. -/
def arrayDefinition (opts : StddefOptions) (text : Bytes) : Option Bytes :=
  (readInitializer opts text).map fun initializer =>
    ascii "static const uint32_t " ++ (opts.arrayName ++ (ascii "[] = " ++
      (initializer ++ ascii ";")))

def isBlank (byte : UInt8) : Bool := byte == 32 || byte == 10

/-- An integer constant with blanks around it. -/
inductive IsItem : Bytes → Prop
  | constant (before digits after : Bytes) :
      before.all isBlank = true → digits ≠ [] → digits.all isHexDigit = true →
      after.all isBlank = true → IsItem (before ++ (ascii "0x" ++ (digits ++ after)))

/-- One constant at least, with commas between them. -/
inductive IsItemList : Bytes → Prop
  | last (item : Bytes) : IsItem item → IsItemList item
  | more (item rest : Bytes) : IsItem item → IsItemList rest → IsItemList (item ++ 44 :: rest)

/-- An array of unknown bound takes its bound from its initialisers, of which there has to be
one. The declarator, whose name the options give, is not judged. -/
def AdmissibleArray (opts : StddefOptions) (text : Bytes) : Prop :=
  ∃ items, IsItemList items ∧ readInitializer opts text = some (123 :: (items ++ [125]))

end Reading

section Written

/-- `result->data` with its `data_size`. -/
def HashResult.payload (result : HashResult) : Bytes := result.data.getD []

/-- What a call adds to the text of an artifact. -/
def SinkCall.text : SinkCall → Bytes
  | .write data => data
  | _ => []

/-- The text that the calls of an emission write. -/
def artifactText (calls : List SinkCall) : Bytes := calls.flatMap SinkCall.text

variable (host : ByteOrder) (opts : StddefOptions)

/-- The initialiser that a payload is written as. -/
def initializerOf (payload : Bytes) : Bytes :=
  if payload.isEmpty then ascii "\x7b\x7d"
  else ascii "\x7b\n" ++ (emitWords (words host payload) ++ ascii "\x7d")

theorem emitOutput_front (result : HashResult) :
    ∃ rest, emitOutput host opts result =
      arrayFront opts ++ (initializerOf host result.payload ++ 59 :: rest) := by
  have full : ascii "[] = \x7b\n" = ascii "[] = " ++ ascii "\x7b\n" := by decide
  have stop : ascii "\x7d;\n\n" = ascii "\x7d" ++ 59 :: ascii "\n\n" := by decide
  have none_ : ascii "[] = \x7b\x7d;\n" = ascii "[] = " ++ (ascii "\x7b\x7d" ++ 59 :: ascii "\n") :=
    by decide
  unfold emitOutput definitions arrayFront HashResult.payload
  rcases result.data with _ | _ | ⟨byte, rest⟩
  · refine ⟨ascii "\n" ++ (ascii "static const size_t " ++ opts.arrayName ++
      ascii "_size = 0;\n\n") ++ postamble opts result, ?_⟩
    simp only [none_, List.append_assoc, List.cons_append, initializerOf, Option.getD_none,
      List.isEmpty_nil, ↓reduceIte]
  · refine ⟨ascii "\n" ++ (ascii "static const size_t " ++ opts.arrayName ++
      ascii "_size = 0;\n\n") ++ postamble opts result, ?_⟩
    simp only [none_, List.append_assoc, List.cons_append, initializerOf, Option.getD_some,
      List.isEmpty_nil, ↓reduceIte]
  · refine ⟨ascii "\n\n" ++ sizeBuf opts.arrayName ((byte :: rest).length / 4) ++
      postamble opts result, ?_⟩
    simp only [full, stop, List.append_assoc, List.cons_append, initializerOf, Option.getD_some,
      List.isEmpty_cons, Bool.false_eq_true, ↓reduceIte]

theorem emitWords_plain (words : List UInt32) : Avoids isSemicolon (emitWords words) := by
  have word (word : UInt32) : Avoids isSemicolon (emitWord word) := by
    rw [emitWord_eq]
    refine Avoids.append (by decide) ?_
    intro byte member
    have hex := fixedHex_digits 8 word.toNat byte member
    by_contra found
    have same : byte = 59 := by simpa [isSemicolon] using found
    rw [same] at hex
    exact absurd hex (by decide)
  exact emitWords_avoids isSemicolon words word (by decide) (by decide)

theorem initializerOf_plain (payload : Bytes) :
    Avoids isSemicolon (initializerOf host payload) := by
  unfold initializerOf
  split_ifs
  · decide
  · exact Avoids.append (by decide) ((emitWords_plain _).append (by decide))

theorem readInitializer_emitOutput (result : HashResult) :
    readInitializer opts (emitOutput host opts result) =
      some (initializerOf host result.payload) := by
  obtain ⟨rest, text⟩ := emitOutput_front host opts result
  have plain : ∀ byte ∈ initializerOf host result.payload, (!isSemicolon byte) = true := by
    intro byte member
    rw [initializerOf_plain host result.payload byte member]
    rfl
  rw [readInitializer, text, literal_append, Option.map_some,
    readRun_append _ _ (59 :: rest) plain rfl]

theorem arrayDefinition_emitOutput (result : HashResult) :
    arrayDefinition opts (emitOutput host opts result) =
      some (ascii "static const uint32_t " ++ (opts.arrayName ++ (ascii "[] = " ++
        (initializerOf host result.payload ++ ascii ";")))) := by
  rw [arrayDefinition, readInitializer_emitOutput, Option.map_some]

/-- The element loop writes one constant a word. -/
theorem emitWords_items (words : List UInt32) (nonempty : words ≠ []) :
    IsItemList (10 :: emitWords words) := by
  have digits (word : UInt32) : fixedHex 8 word.toNat ≠ [] ∧
      (fixedHex 8 word.toNat).all isHexDigit = true := by
    refine ⟨?_, List.all_eq_true.mpr (fixedHex_digits 8 word.toNat)⟩
    intro empty
    have length := fixedHex_length 8 word.toNat
    rw [empty] at length
    cases length
  have item (word : UInt32) (after : Bytes) (blank : after.all isBlank = true) :
      IsItem (10 :: emitWord word ++ after) := by
    have shape : 10 :: emitWord word ++ after =
        ascii "\n    " ++ (ascii "0x" ++ (fixedHex 8 word.toNat ++ after)) := by
      rw [emitWord_eq]
      rfl
    rw [shape]
    exact .constant _ _ _ (by decide) (digits word).1 (digits word).2 blank
  induction words using emitWords.induct with
  | case1 => exact absurd rfl nonempty
  | case2 word => exact .last _ (item word (ascii "\n") (by decide))
  | case3 word rest more ih =>
      have shape : 10 :: emitWords (word :: rest) =
          (10 :: emitWord word ++ []) ++ 44 :: (10 :: emitWords rest) := by
        rw [emitWords, List.append_nil]
        · simp [ascii, List.append_assoc]
        · exact more
      rw [shape]
      exact .more _ _ (item word [] rfl) (ih more)

theorem IsItemList.zero_mem {items : Bytes} (list : IsItemList items) : 48 ∈ items := by
  have item {item : Bytes} (constant : IsItem item) : 48 ∈ item := by
    cases constant
    simp [ascii]
  induction list with
  | last text constant => exact item constant
  | more text rest constant _ _ => exact List.mem_append_left _ (item constant)

theorem initializerOf_short (payload : Bytes) (few : payload.length < 4) :
    48 ∉ initializerOf host payload := by
  unfold initializerOf
  split_ifs
  · decide
  · rw [words_short host payload few]
    decide

theorem initializerOf_long (payload : Bytes) (enough : 4 ≤ payload.length) :
    initializerOf host payload = 123 :: ((10 :: emitWords (words host payload)) ++ [125]) ∧
      words host payload ≠ [] := by
  constructor
  · have some_ : payload.isEmpty = false := by
      rw [List.isEmpty_eq_false_iff]
      rintro rfl
      simp at enough
    rw [initializerOf, if_neg (by rw [some_]; exact Bool.false_ne_true)]
    rfl
  · intro empty
    have length := words_length host payload
    rw [empty, List.length_nil] at length
    omega

/-- A definition has an initialiser if the payload has a word. -/
theorem admissible_iff (result : HashResult) :
    AdmissibleArray opts (emitOutput host opts result) ↔ 4 ≤ result.payload.length := by
  unfold AdmissibleArray
  rw [readInitializer_emitOutput]
  constructor
  · rintro ⟨items, list, read⟩
    by_contra few
    apply initializerOf_short host result.payload (Nat.lt_of_not_le few)
    rw [Option.some.inj read]
    exact List.mem_cons_of_mem _ (List.mem_append_left _ list.zero_mem)
  · intro enough
    obtain ⟨shape, some_⟩ := initializerOf_long host result.payload enough
    exact ⟨_, emitWords_items _ some_, congrArg some shape⟩

/-- Definitions tell payloads apart by their whole words. -/
theorem initializerOf_eq_iff (left right : Bytes) (leftLong : 4 ≤ left.length)
    (rightLong : 4 ≤ right.length) :
    initializerOf host left = initializerOf host right ↔ whole left = whole right := by
  obtain ⟨leftShape, leftSome⟩ := initializerOf_long host left leftLong
  obtain ⟨rightShape, rightSome⟩ := initializerOf_long host right rightLong
  rw [← words_eq_iff host, leftShape, rightShape]
  constructor
  · intro same
    have lines : emitWords (words host left) = emitWords (words host right) := by
      simpa using same
    have leftRead := readItems_emitWords (words host left) leftSome
      ((words host left).length + (words host right).length) (by omega) []
    have rightRead := readItems_emitWords (words host right) rightSome
      ((words host left).length + (words host right).length) (by omega) []
    rw [lines, rightRead] at leftRead
    exact (congrArg Prod.fst (Option.some.inj leftRead)).symm
  · intro same
    rw [same]

end Written

/-- A target that succeeds has written the whole header, once. -/
theorem artifactText_eq (host : ByteOrder) (sink : SinkCall → Status) (opts : StddefOptions)
    (result : HashResult) (calls : List SinkCall)
    (emitted : stddefEmit host sink opts result = (.ok, calls)) :
    artifactText calls = emitOutput host opts result := by
  unfold stddefEmit at emitted
  dsimp only at emitted
  split_ifs at emitted with begun written
  · exact absurd (congrArg Prod.fst emitted) begun
  · exact absurd (congrArg Prod.fst emitted) written
  · obtain ⟨-, rfl⟩ := Prod.mk.inj emitted
    simp [artifactText, SinkCall.text]

/-- Two definitions are admissible, and differ if the payloads do, exactly when both payloads
have a word and do not differ behind their whole words only. -/
theorem stddefEmit_carries_iff (host : ByteOrder) (opts : StddefOptions)
    (leftSink rightSink : SinkCall → Status) (left right : HashResult)
    (leftCalls rightCalls : List SinkCall)
    (leftEmitted : stddefEmit host leftSink opts left = (.ok, leftCalls))
    (rightEmitted : stddefEmit host rightSink opts right = (.ok, rightCalls)) :
    (AdmissibleArray opts (artifactText leftCalls) ∧
      AdmissibleArray opts (artifactText rightCalls) ∧
      (left.payload ≠ right.payload →
        arrayDefinition opts (artifactText leftCalls) ≠
          arrayDefinition opts (artifactText rightCalls))) ↔
    4 ≤ left.payload.length ∧ 4 ≤ right.payload.length ∧
      (left.payload = right.payload ∨ whole left.payload ≠ whole right.payload) := by
  rw [artifactText_eq host leftSink opts left leftCalls leftEmitted,
    artifactText_eq host rightSink opts right rightCalls rightEmitted, admissible_iff,
    admissible_iff]
  refine and_congr_right fun leftLong => and_congr_right fun rightLong => ?_
  have definitions : arrayDefinition opts (emitOutput host opts left) =
      arrayDefinition opts (emitOutput host opts right) ↔
        whole left.payload = whole right.payload := by
    rw [← initializerOf_eq_iff host left.payload right.payload leftLong rightLong,
      arrayDefinition_emitOutput, arrayDefinition_emitOutput]
    simp
  rw [ne_eq, ne_eq, ne_eq, definitions]
  exact imp_iff_not_or.trans (or_congr_left not_not)

/-- `oneWord` with another payload. -/
def withPayload (payload : Bytes) : HashResult := { oneWord with data := some payload }

/-- What a sink that accepts everything is given under the default options. -/
def defaultCalls (payload : Bytes) : List SinkCall :=
  (stddefEmit .little (fun _ => .ok) {} (withPayload payload)).2

theorem stddefEmit_carries_two_payloads :
    AdmissibleArray {} (artifactText (defaultCalls [7, 0, 0, 0])) ∧
    AdmissibleArray {} (artifactText (defaultCalls [8, 0, 0, 0, 9])) ∧
    ((withPayload [7, 0, 0, 0]).payload ≠ (withPayload [8, 0, 0, 0, 9]).payload →
      arrayDefinition {} (artifactText (defaultCalls [7, 0, 0, 0])) ≠
        arrayDefinition {} (artifactText (defaultCalls [8, 0, 0, 0, 9]))) :=
  (stddefEmit_carries_iff .little {} (fun _ => .ok) (fun _ => .ok) (withPayload [7, 0, 0, 0])
    (withPayload [8, 0, 0, 0, 9]) _ _ rfl rfl).mpr (by decide)

/-- An empty payload is written as `{}`, and a fifth byte is not written at all. -/
theorem stddefEmit_drops_bytes :
    (stddefEmit .little (fun _ => .ok) {} (withPayload [])).1 = .ok ∧
    ¬ AdmissibleArray {} (artifactText (defaultCalls [])) ∧
    (stddefEmit .little (fun _ => .ok) {} (withPayload [7, 0, 0, 0])).1 = .ok ∧
    (stddefEmit .little (fun _ => .ok) {} (withPayload [7, 0, 0, 0, 1])).1 = .ok ∧
    arrayDefinition {} (artifactText (defaultCalls [7, 0, 0, 0])) =
      arrayDefinition {} (artifactText (defaultCalls [7, 0, 0, 0, 1])) := by
  have text (payload : Bytes) : artifactText (defaultCalls payload) =
      emitOutput .little {} (withPayload payload) :=
    artifactText_eq .little (fun _ => .ok) {} _ _ rfl
  refine ⟨rfl, ?_, rfl, rfl, ?_⟩
  · rw [text, admissible_iff]
    decide
  · have same := (initializerOf_eq_iff .little [7, 0, 0, 0] [7, 0, 0, 0, 1] (by decide)
      (by decide)).mpr (by decide)
    rw [text, text, arrayDefinition_emitOutput, arrayDefinition_emitOutput]
    exact congrArg _ (congrArg _ (congrArg _ (congrArg _ (congrArg (· ++ ascii ";") same))))

end Nuperf
