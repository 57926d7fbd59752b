import Nuperf.JsonLayout
import Nuperf.XmlTotal

set_option autoImplicit false

namespace Nuperf.Serdetk

open ByteString CStandard TextReader

section Syntax

/-- The attributes of a tag, as far as its end is found by them: a quoted value may hold the
characters that end a tag. -/
inductive IsTagTail : Bytes → Prop
  | nil : IsTagTail []
  | plain (c : UInt8) (rest : Bytes) (unquoted : c ≠ quote ∧ c ≠ apostrophe)
      (inside : c ≠ closeAngle ∧ c ≠ slash) (more : IsTagTail rest) : IsTagTail (c :: rest)
  | quoted (mark : UInt8) (body rest : Bytes) (marked : mark = quote ∨ mark = apostrophe)
      (inside : mark ∉ body) (more : IsTagTail rest) : IsTagTail (mark :: (body ++ mark :: rest))

/-- The name of an element, and its attributes with the white space in front of them. -/
structure Tag where
  name : Bytes
  tail : Bytes
  named : name ≠ []
  letters : ∀ c ∈ name, isNameByte c = true
  element : name.head?.all (fun c => c != 33 && c != 63) = true
  spaced : tail.head?.all isSpace = true
  attributes : IsTagTail tail

mutual

inductive XmlElement
  | empty (tag : Tag)
  | full (tag : Tag) (content : XmlContent) (gap : Bytes) (blank : Blank gap)

/-- What stands between the tags of an element, from left to right. -/
inductive XmlContent
  | nil
  | char (c : UInt8) (plain : c ≠ openAngle) (rest : XmlContent)
  | cdata (text : Bytes) (ends : Ends (ascii "]]>") text) (rest : XmlContent)
  | comment (text : Bytes) (ends : Ends (ascii "-->") text) (rest : XmlContent)
  | instruction (text : Bytes) (ends : Ends (ascii "?>") (ascii "<?" ++ text))
      (rest : XmlContent)
  | child (element : XmlElement) (rest : XmlContent)

end

def XmlElement.name : XmlElement → Bytes
  | .empty tag => tag.name
  | .full tag _ _ _ => tag.name

mutual

def XmlElement.write : XmlElement → Bytes
  | .empty tag => openAngle :: (tag.name ++ (tag.tail ++ ascii "/>"))
  | .full tag content gap _ =>
      openAngle :: (tag.name ++ (tag.tail ++ (closeAngle :: (content.write ++
        (ascii "</" ++ (tag.name ++ (gap ++ [closeAngle])))))))

def XmlContent.write : XmlContent → Bytes
  | .nil => []
  | .char c _ rest => c :: rest.write
  | .cdata text _ rest => ascii "<![CDATA[" ++ (text ++ (ascii "]]>" ++ rest.write))
  | .comment text _ rest => ascii "<!--" ++ (text ++ (ascii "-->" ++ rest.write))
  | .instruction text _ rest => ascii "<?" ++ (text ++ (ascii "?>" ++ rest.write))
  | .child element rest => element.write ++ rest.write

end

/-- The text of a content. The flag says whether a comment has gone before: the white space
behind it is skipped with it. -/
def XmlContent.text : XmlContent → Bool → Bytes
  | .nil, _ => []
  | .char c _ rest, skipping =>
      if skipping && isSpace c then rest.text true else c :: rest.text false
  | .cdata text _ rest, _ => text ++ rest.text false
  | .comment _ _ rest, _ => rest.text true
  | .instruction _ _ rest, skipping => rest.text skipping
  | .child _ rest, _ => rest.text false

def XmlContent.children : XmlContent → List XmlElement
  | .nil => []
  | .char _ _ rest => rest.children
  | .cdata _ _ rest => rest.children
  | .comment _ _ rest => rest.children
  | .instruction _ _ rest => rest.children
  | .child element rest => element :: rest.children

def XmlElement.children : XmlElement → List XmlElement
  | .empty _ => []
  | .full _ content _ _ => content.children

def XmlElement.text : XmlElement → Bytes
  | .empty _ => []
  | .full _ content _ _ => content.text false

/-- An element that is nothing but `<name/>`. -/
def XmlElement.selfClosing : XmlElement → Bool
  | .empty _ => true
  | .full _ _ _ _ => false

mutual

/-- The value an element is read as. -/
def XmlElement.value (stod : StodIndex) : XmlElement → Value
  | .empty _ => .null
  | .full _ content _ _ => nodeValue stod (content.fields stod []) (content.text false)

def XmlContent.fields (stod : StodIndex) : XmlContent → Fields → Fields
  | .nil, obj => obj
  | .char _ _ rest, obj => rest.fields stod obj
  | .cdata _ _ rest, obj => rest.fields stod obj
  | .comment _ _ rest, obj => rest.fields stod obj
  | .instruction _ _ rest, obj => rest.fields stod obj
  | .child element rest, obj => rest.fields stod (addChild obj element.name (element.value stod))

end

/-- What may stand in front of the root of a document and behind it. -/
inductive XmlMisc
  | nil
  | space (c : UInt8) (blank : isSpace c = true) (rest : XmlMisc)
  | comment (text : Bytes) (ends : Ends (ascii "-->") text) (rest : XmlMisc)
  | instruction (text : Bytes) (ends : Ends (ascii "?>") text) (rest : XmlMisc)
  | doctype (text : Bytes) (inside : closeAngle ∉ text) (rest : XmlMisc)

def XmlMisc.write : XmlMisc → Bytes
  | .nil => []
  | .space c _ rest => c :: rest.write
  | .comment text _ rest => ascii "<!--" ++ (text ++ (ascii "-->" ++ rest.write))
  | .instruction text _ rest => ascii "<?" ++ (text ++ (ascii "?>" ++ rest.write))
  | .doctype text _ rest => ascii "<!DOCTYPE" ++ (text ++ (ascii ">" ++ rest.write))

structure XmlDocument where
  prolog : XmlMisc
  root : XmlElement
  epilog : XmlMisc

def XmlDocument.write (document : XmlDocument) : Bytes :=
  document.prolog.write ++ (document.root.write ++ document.epilog.write)

end Syntax

section Misc

theorem past_append (token what : String) (before rest : Bytes) (ends : Ends (ascii token) before) :
    past token what (before ++ (ascii token ++ rest)) = .ok (before, rest) := by
  rw [past, seek_append _ _ _ ends]

variable (fuel : Nat) (rest : Bytes)

theorem skipMisc_space (c : UInt8) (blank : isSpace c = true) :
    skipMisc (fuel + 1) (c :: rest) = skipMisc (fuel + 1) rest := by
  have skipped : skipWs (c :: rest) = skipWs rest := List.dropWhile_cons_of_pos blank
  rw [skipMisc, skipMisc, skipped]

theorem skipMisc_past_comment (text : Bytes) (ends : Ends (ascii "-->") text) :
    skipMisc (fuel + 1) (ascii "<!--" ++ (text ++ (ascii "-->" ++ rest))) = skipMisc fuel rest := by
  rw [skipMisc_comment, past_append "-->" _ _ _ ends]
  rfl

theorem skipMisc_past_instruction (text : Bytes) (ends : Ends (ascii "?>") text) :
    skipMisc (fuel + 1) (ascii "<?" ++ (text ++ (ascii "?>" ++ rest))) = skipMisc fuel rest := by
  have shape : skipWs (ascii "<?" ++ (text ++ (ascii "?>" ++ rest))) =
      ascii "<?" ++ (text ++ (ascii "?>" ++ rest)) := rfl
  rw [skipMisc, shape]
  simp only [literal_append, past_append "?>" _ _ _ ends]
  rfl

theorem skipMisc_past_doctype (text : Bytes) (inside : closeAngle ∉ text) :
    skipMisc (fuel + 1) (ascii "<!DOCTYPE" ++ (text ++ (ascii ">" ++ rest))) =
      skipMisc fuel rest := by
  have shape : skipWs (ascii "<!DOCTYPE" ++ (text ++ (ascii ">" ++ rest))) =
      ascii "<!DOCTYPE" ++ (text ++ (ascii ">" ++ rest)) := rfl
  have question : literal (ascii "<?") (ascii "<!DOCTYPE" ++ (text ++ (ascii ">" ++ rest))) =
      none := rfl
  have dashes : literal (ascii "<!--") (ascii "<!DOCTYPE" ++ (text ++ (ascii ">" ++ rest))) =
      none := rfl
  have ends : Ends (ascii ">") (ascii "<!DOCTYPE" ++ text) := by
    apply ends_single
    intro member
    rcases List.mem_append.mp member with fixed | written
    · exact absurd fixed (by decide)
    · exact inside written
  have found := past_append ">" "Unterminated XML doctype" _ rest ends
  rw [List.append_assoc] at found
  rw [skipMisc, shape]
  simp only [question, dashes, List.prefix_append, ↓reduceIte, found]
  rfl

/-- A byte that is neither white space nor the beginning of markup. -/
theorem skipMisc_char (c : UInt8) (solid : isSpace c = false) (plain : c ≠ openAngle) :
    skipMisc (fuel + 1) (c :: rest) = .ok (c :: rest) := by
  have shape : skipWs (c :: rest) = c :: rest := skipWs_cons c rest solid
  have other (tail : Bytes) := not_prefix_of_ne openAngle c tail rest (Ne.symm plain)
  have question : literal (ascii "<?") (c :: rest) = none := literal_eq_none _ _ (other _)
  have dashes : literal (ascii "<!--") (c :: rest) = none := literal_eq_none _ _ (other _)
  have doctype : ¬ ascii "<!DOCTYPE" <+: c :: rest := other _
  rw [skipMisc, shape]
  simp only [question, dashes, doctype, ↓reduceIte]

theorem not_prefix_tag (c d : UInt8) (token rest : Bytes) (apart : c ≠ d) :
    ¬ openAngle :: d :: token <+: openAngle :: c :: rest := by
  intro front
  exact not_prefix_of_ne d c token rest (Ne.symm apart) (List.cons_prefix_cons.mp front).2

/-- The beginning of a tag. -/
theorem skipMisc_tag (c : UInt8) (element : c ≠ 33 ∧ c ≠ 63) :
    skipMisc (fuel + 1) (openAngle :: c :: rest) = .ok (openAngle :: c :: rest) := by
  have shape : skipWs (openAngle :: c :: rest) = openAngle :: c :: rest := rfl
  have other (d : UInt8) (apart : c ≠ d) (tail : Bytes) := not_prefix_tag c d tail rest apart
  have question : literal (ascii "<?") (openAngle :: c :: rest) = none :=
    literal_eq_none _ _ (other 63 element.2 _)
  have dashes : literal (ascii "<!--") (openAngle :: c :: rest) = none :=
    literal_eq_none _ _ (other 33 element.1 _)
  have doctype : ¬ ascii "<!DOCTYPE" <+: openAngle :: c :: rest := other 33 element.1 _
  rw [skipMisc, shape]
  simp only [question, dashes, doctype, ↓reduceIte]

theorem skipMisc_cdata (body : Bytes) :
    skipMisc (fuel + 1) (ascii "<![CDATA[" ++ body) = .ok (ascii "<![CDATA[" ++ body) := by
  have shape : skipWs (ascii "<![CDATA[" ++ body) = ascii "<![CDATA[" ++ body := rfl
  have question : literal (ascii "<?") (ascii "<![CDATA[" ++ body) = none := rfl
  have dashes : literal (ascii "<!--") (ascii "<![CDATA[" ++ body) = none := rfl
  have doctype : ¬ ascii "<!DOCTYPE" <+: ascii "<![CDATA[" ++ body := by
    intro front
    simp [ascii] at front
  rw [skipMisc, shape]
  simp only [question, dashes, doctype, ↓reduceIte]

/-- All that may stand around a root is skipped. -/
theorem skipMisc_write (misc : XmlMisc) (enough : misc.write.length < fuel)
    (stops : ∀ fuel, skipMisc (fuel + 1) rest = .ok rest) :
    skipMisc fuel (misc.write ++ rest) = .ok rest := by
  obtain ⟨fuel, rfl⟩ := Nat.exists_eq_add_of_le' (Nat.one_le_of_lt enough)
  induction misc generalizing fuel with
  | nil => exact stops fuel
  | space c blank misc ih =>
      rw [XmlMisc.write, List.cons_append, skipMisc_space fuel _ c blank]
      apply ih
      rw [XmlMisc.write, List.length_cons] at enough
      omega
  | comment text ends misc ih =>
      simp only [XmlMisc.write, List.append_assoc, List.length_append] at enough ⊢
      have marks : (ascii "<!--").length = 4 := rfl
      obtain ⟨fuel, rfl⟩ := Nat.exists_eq_add_of_le' (show 1 ≤ fuel by omega)
      rw [skipMisc_past_comment _ _ text ends]
      exact ih fuel (by omega)
  | instruction text ends misc ih =>
      simp only [XmlMisc.write, List.append_assoc, List.length_append] at enough ⊢
      have marks : (ascii "<?").length = 2 := rfl
      obtain ⟨fuel, rfl⟩ := Nat.exists_eq_add_of_le' (show 1 ≤ fuel by omega)
      rw [skipMisc_past_instruction _ _ text ends]
      exact ih fuel (by omega)
  | doctype text inside misc ih =>
      simp only [XmlMisc.write, List.append_assoc, List.length_append] at enough ⊢
      have marks : (ascii "<!DOCTYPE").length = 9 := rfl
      obtain ⟨fuel, rfl⟩ := Nat.exists_eq_add_of_le' (show 1 ≤ fuel by omega)
      rw [skipMisc_past_doctype _ _ text inside]
      exact ih fuel (by omega)

end Misc

section Tags

theorem consumeXml_cons (c : UInt8) (rest : Bytes) : consumeXml c (c :: rest) = .ok rest := by
  rw [consumeXml, literal_cons]

theorem skipTagTail_quoted (mark : UInt8) (body rest : Bytes) (inside : mark ∉ body) :
    skipTagTail (some mark) (body ++ mark :: rest) = skipTagTail none rest := by
  induction body with
  | nil => rw [List.nil_append, skipTagTail, if_pos rfl]
  | cons c body ih =>
      have other : c ≠ mark := fun same => inside (by simp [same])
      rw [List.cons_append, skipTagTail, if_neg other,
        ih fun member => inside (List.mem_cons_of_mem _ member)]

/-- The attributes are skipped up to the end of their tag. -/
theorem skipTagTail_append (tail : Bytes) (attributes : IsTagTail tail) (c : UInt8) (rest : Bytes)
    (stop : c = closeAngle ∨ c = slash) : skipTagTail none (tail ++ c :: rest) = c :: rest := by
  induction attributes with
  | nil =>
      have unquoted : ¬ (c = quote ∨ c = apostrophe) := by
        rcases stop with rfl | rfl <;> decide
      rw [List.nil_append, skipTagTail, if_neg unquoted, if_pos stop]
  | plain d tail unquoted inside _ ih =>
      have notQuote : ¬ (d = quote ∨ d = apostrophe) := not_or.mpr unquoted
      have notEnd : ¬ (d = closeAngle ∨ d = slash) := not_or.mpr inside
      rw [List.cons_append, skipTagTail, if_neg notQuote, if_neg notEnd, ih]
  | quoted mark body tail marked inside _ ih =>
      rw [List.cons_append, skipTagTail, if_pos marked, List.append_assoc, List.cons_append,
        skipTagTail_quoted mark body _ inside, ih]

theorem isNameByte_space (c : UInt8) (blank : isSpace c = true) : isNameByte c = false := by
  rw [isNameByte, blank, Bool.true_or, Bool.true_or, Bool.not_true]

theorem isNameByte_solid (c : UInt8) (letter : isNameByte c = true) : isSpace c = false := by
  by_contra blank
  rw [isNameByte_space c (by simpa using blank)] at letter
  cases letter

variable (tag : Tag)

theorem Tag.head : ∃ c rest, tag.name = c :: rest ∧ isNameByte c = true ∧ c ≠ 33 ∧ c ≠ 63 := by
  obtain ⟨c, rest, shape⟩ := List.exists_cons_of_ne_nil tag.named
  have letter := tag.letters c (by rw [shape]; exact List.mem_cons_self)
  have element := tag.element
  rw [shape] at element
  exact ⟨c, rest, shape, letter, by simpa using element⟩

/-- The name is read up to the attributes, or else to the end of the tag. -/
theorem Tag.readName (c : UInt8) (rest : Bytes) (stop : isNameByte c = false) :
    readRun isNameByte (tag.name ++ (tag.tail ++ c :: rest)) =
      (tag.name, tag.tail ++ c :: rest) := by
  apply readRun_append isNameByte _ _ tag.letters
  have spaced := tag.spaced
  cases shape : tag.tail with
  | nil =>
      rw [List.nil_append, List.head?_cons, Option.all_some, stop]
      rfl
  | cons d tail =>
      rw [shape, List.head?_cons, Option.all_some] at spaced
      rw [List.cons_append, List.head?_cons, Option.all_some, isNameByte_space d spaced]
      rfl

theorem rdropWhile_gap (text gap : Bytes) (blank : Blank gap)
    (solid : text.getLast?.all (fun c => !isSpace c) = true) :
    (text ++ gap).rdropWhile isSpace = text := by
  induction gap using List.reverseRecOn with
  | nil =>
      rw [List.append_nil, List.rdropWhile_eq_self_iff]
      intro nonempty space
      rw [List.getLast?_eq_some_getLast nonempty, Option.all_some, space] at solid
      cases solid
  | append_singleton gap c ih =>
      have last : isSpace c = true := blank c (by simp)
      rw [← List.append_assoc, List.rdropWhile_concat_pos _ _ _ last]
      exact ih fun byte member => blank byte (List.mem_append_left _ member)

/-- White space in a closing tag is not part of the name. -/
theorem Tag.trimCopy_name (gap : Bytes) (blank : Blank gap) :
    trimCopy (tag.name ++ gap) = tag.name := by
  obtain ⟨c, rest, shape, letter, -⟩ := tag.head
  have front : (tag.name ++ gap).dropWhile isSpace = tag.name ++ gap := by
    rw [shape, List.cons_append, List.dropWhile_cons_of_neg]
    rw [isNameByte_solid c letter]
    exact Bool.false_ne_true
  rw [trimCopy, front]
  apply rdropWhile_gap _ _ blank
  rw [List.getLast?_eq_some_getLast tag.named, Option.all_some,
    isNameByte_solid _ (tag.letters _ (List.getLast_mem tag.named))]
  rfl

theorem Tag.parseClosing_name (gap : Bytes) (blank : Blank gap) (rest : Bytes) :
    parseClosing tag.name (ascii "</" ++ (tag.name ++ (gap ++ closeAngle :: rest))) = .ok rest := by
  have inside : ∀ c ∈ tag.name ++ gap, (c != closeAngle) = true := by
    intro c member
    rw [bne_iff_ne]
    rintro rfl
    rcases List.mem_append.mp member with letter | space
    · exact absurd (tag.letters _ letter) (by decide)
    · exact absurd (blank _ space) (by decide)
  have run := readRun_append (fun c => c != closeAngle) (tag.name ++ gap) (closeAngle :: rest)
    inside rfl
  rw [List.append_assoc] at run
  rw [parseClosing, literal_append]
  simp only [run, consumeXml_cons, bind, Except.bind, tag.trimCopy_name gap blank, ↓reduceIte]

end Tags

section Nodes

variable (stod : StodIndex) (fuel : Nat) (tag : Tag) (rest : Bytes)

theorem Tag.opening : (tag.name ++ rest).head? ≠ some slash := by
  obtain ⟨d, name, shape, letter, -⟩ := tag.head
  rw [shape, List.cons_append, List.head?_cons]
  intro same
  rw [Option.some.inj same] at letter
  exact absurd letter (by decide)

theorem parseNode_empty :
    parseNode stod (fuel + 1) (openAngle :: (tag.name ++ (tag.tail ++ (ascii "/>" ++ rest)))) =
      .ok (tag.name, .null, rest) := by
  have ending : ascii "/>" ++ rest = slash :: closeAngle :: rest := rfl
  have name := tag.readName slash (closeAngle :: rest) (by decide)
  have tail := skipTagTail_append tag.tail tag.attributes slash (closeAngle :: rest) (.inr rfl)
  rw [← ending] at name tail
  rw [parseNode, consumeXml_cons]
  simp only [bind, Except.bind, tag.opening, ↓reduceIte, name, tag.named, tail, literal_append]

theorem parseNode_full (content closing : Bytes) (obj : Fields) (textNode : Bytes)
    (read : parseContent stod fuel [] [] content = .ok (obj, textNode, closing))
    (closed : parseClosing tag.name closing = .ok rest) :
    parseNode stod (fuel + 1) (openAngle :: (tag.name ++ (tag.tail ++ closeAngle :: content))) =
      .ok (tag.name, nodeValue stod obj textNode, rest) := by
  have open_ : literal (ascii "/>") (closeAngle :: content) = none := rfl
  have name := tag.readName closeAngle content (by decide)
  have tail := skipTagTail_append tag.tail tag.attributes closeAngle content (.inl rfl)
  rw [parseNode, consumeXml_cons]
  simp only [bind, Except.bind, tag.opening, ↓reduceIte, name, tag.named, tail, open_,
    consumeXml_cons, read, closed]

end Nodes

section Turns

variable (stod : StodIndex) (fuel : Nat) (obj : Fields) (textNode rest : Bytes)

/-- The loop over a content ends at a closing tag. -/
theorem parseContent_closing :
    parseContent stod (fuel + 1) obj textNode (ascii "</" ++ rest) =
      .ok (obj, textNode, ascii "</" ++ rest) := by
  have shape : ascii "</" ++ rest = openAngle :: slash :: rest := rfl
  have closing : ascii "</" <+: openAngle :: slash :: rest := ⟨rest, rfl⟩
  rw [shape, parseContent]
  simp only [closing, ↓reduceIte]

theorem parseContent_char (c : UInt8) (plain : c ≠ openAngle) :
    parseContent stod (fuel + 1) obj textNode (c :: rest) =
      parseContent stod fuel obj (textNode ++ [c]) rest := by
  have other (tail : Bytes) := not_prefix_of_ne openAngle c tail rest (Ne.symm plain)
  have closing : ¬ ascii "</" <+: c :: rest := other _
  have comment : ¬ ascii "<!--" <+: c :: rest := other _
  have section_ : literal (ascii "<![CDATA[") (c :: rest) = none := literal_eq_none _ _ (other _)
  have question : ¬ ascii "<?" <+: c :: rest := other _
  rw [parseContent]
  simp only [closing, comment, section_, question, plain, ↓reduceIte]

theorem parseContent_comment (body : Bytes) :
    parseContent stod (fuel + 1) obj textNode (ascii "<!--" ++ body) =
      (skipMisc ((ascii "<!--" ++ body).length + 1) (ascii "<!--" ++ body) >>=
        parseContent stod fuel obj textNode) := by
  have shape : ascii "<!--" ++ body = openAngle :: (ascii "!--" ++ body) := rfl
  have closing : ¬ ascii "</" <+: openAngle :: (ascii "!--" ++ body) := by
    intro front
    simp [ascii] at front
  have comment : ascii "<!--" <+: openAngle :: (ascii "!--" ++ body) := ⟨body, rfl⟩
  rw [shape, parseContent]
  simp only [closing, comment, ↓reduceIte]

theorem parseContent_cdata (text : Bytes) (ends : Ends (ascii "]]>") text) :
    parseContent stod (fuel + 1) obj textNode
        (ascii "<![CDATA[" ++ (text ++ (ascii "]]>" ++ rest))) =
      parseContent stod fuel obj (textNode ++ text) rest := by
  have shape : ascii "<![CDATA[" ++ (text ++ (ascii "]]>" ++ rest)) =
      openAngle :: (ascii "![CDATA[" ++ (text ++ (ascii "]]>" ++ rest))) := rfl
  have closing : ¬ ascii "</" <+: ascii "<![CDATA[" ++ (text ++ (ascii "]]>" ++ rest)) := by
    intro front
    simp [ascii] at front
  have comment : ¬ ascii "<!--" <+: ascii "<![CDATA[" ++ (text ++ (ascii "]]>" ++ rest)) := by
    intro front
    simp [ascii] at front
  rw [shape, parseContent, ← shape]
  simp only [closing, comment, ↓reduceIte, literal_append, past_append "]]>" _ _ _ ends, bind,
    Except.bind]

theorem parseContent_instruction (text : Bytes) (ends : Ends (ascii "?>") (ascii "<?" ++ text)) :
    parseContent stod (fuel + 1) obj textNode (ascii "<?" ++ (text ++ (ascii "?>" ++ rest))) =
      parseContent stod fuel obj textNode rest := by
  have shape : ascii "<?" ++ (text ++ (ascii "?>" ++ rest)) =
      openAngle :: (ascii "?" ++ (text ++ (ascii "?>" ++ rest))) := rfl
  have closing : ¬ ascii "</" <+: ascii "<?" ++ (text ++ (ascii "?>" ++ rest)) := by
    intro front
    simp [ascii] at front
  have comment : ¬ ascii "<!--" <+: ascii "<?" ++ (text ++ (ascii "?>" ++ rest)) := by
    intro front
    simp [ascii] at front
  have section_ : literal (ascii "<![CDATA[") (ascii "<?" ++ (text ++ (ascii "?>" ++ rest))) =
      none := rfl
  have found := past_append "?>" "Unterminated XML processing instruction" _ rest ends
  rw [List.append_assoc] at found
  rw [shape, parseContent, ← shape]
  simp only [closing, comment, section_, List.prefix_append, ↓reduceIte, found, bind, Except.bind]

/-- A child is read and added. -/
theorem parseContent_child (c : UInt8) (notClosing : c ≠ slash) (element : c ≠ 33 ∧ c ≠ 63)
    (body : Bytes) (name : Bytes) (value : Value)
    (read : parseNode stod fuel (openAngle :: c :: body) = .ok (name, value, rest)) :
    parseContent stod (fuel + 1) obj textNode (openAngle :: c :: body) =
      parseContent stod fuel (addChild obj name value) textNode rest := by
  have other (d : UInt8) (apart : c ≠ d) (tail : Bytes) := not_prefix_tag c d tail body apart
  have closing : ¬ ascii "</" <+: openAngle :: c :: body := other slash notClosing _
  have comment : ¬ ascii "<!--" <+: openAngle :: c :: body := other 33 element.1 _
  have section_ : literal (ascii "<![CDATA[") (openAngle :: c :: body) = none :=
    literal_eq_none _ _ (other 33 element.1 _)
  have question : ¬ ascii "<?" <+: openAngle :: c :: body := other 63 element.2 _
  rw [parseContent]
  simp only [closing, comment, section_, question, ↓reduceIte, read, bind, Except.bind]

end Turns

section Layouts

variable (stod : StodIndex)

theorem XmlElement.write_head (element : XmlElement) :
    ∃ c rest, element.write = openAngle :: c :: rest ∧ c ≠ slash ∧ c ≠ 33 ∧ c ≠ 63 := by
  have solid (c : UInt8) (letter : isNameByte c = true) : c ≠ slash := by
    rintro rfl
    exact absurd letter (by decide)
  cases element with
  | empty tag =>
      obtain ⟨c, rest, shape, letter, element⟩ := tag.head
      refine ⟨c, rest ++ (tag.tail ++ ascii "/>"), ?_, solid c letter, element⟩
      rw [XmlElement.write, shape]
      rfl
  | full tag content gap blank =>
      obtain ⟨c, rest, shape, letter, element⟩ := tag.head
      refine ⟨c, rest ++ (tag.tail ++ (closeAngle :: (content.write ++ (ascii "</" ++ (tag.name ++
        (gap ++ [closeAngle])))))), ?_, solid c letter, element⟩
      rw [XmlElement.write, shape]
      rfl

/-- An element is read as the value it writes. -/
def ReadsElement (element : XmlElement) : Prop :=
  ∀ fuel, element.write.length ≤ fuel → ∀ rest : Bytes,
    parseNode stod fuel (element.write ++ rest) = .ok (element.name, element.value stod, rest)

/-- A content is read as the children and the text it writes, both from its front and where a
comment has gone before. -/
structure ReadsContent (content : XmlContent) : Prop where
  front : ∀ fuel, content.write.length < fuel → ∀ (obj : Fields) (textNode rest : Bytes),
    parseContent stod fuel obj textNode (content.write ++ (ascii "</" ++ rest)) =
      .ok (content.fields stod obj, textNode ++ content.text false, ascii "</" ++ rest)
  behind : ∀ fuel, content.write.length < fuel → ∀ skip, content.write.length < skip →
    ∀ (obj : Fields) (textNode rest : Bytes),
      (skipMisc skip (content.write ++ (ascii "</" ++ rest)) >>=
        parseContent stod fuel obj textNode) =
      .ok (content.fields stod obj, textNode ++ content.text true, ascii "</" ++ rest)

variable {stod}

/-- Where nothing is skipped, what is read behind a comment is what is read from the front. -/
theorem ReadsContent.of_front {content : XmlContent}
    (front : ∀ fuel, content.write.length < fuel → ∀ (obj : Fields) (textNode rest : Bytes),
      parseContent stod fuel obj textNode (content.write ++ (ascii "</" ++ rest)) =
        .ok (content.fields stod obj, textNode ++ content.text false, ascii "</" ++ rest))
    (stops : ∀ skip rest, skipMisc (skip + 1) (content.write ++ (ascii "</" ++ rest)) =
      .ok (content.write ++ (ascii "</" ++ rest)))
    (same : content.text true = content.text false) : ReadsContent stod content := by
  refine ⟨front, ?_⟩
  intro fuel enough skip room obj textNode rest
  obtain ⟨skip, rfl⟩ := Nat.exists_eq_add_of_le' (Nat.one_le_of_lt room)
  rw [stops, same]
  exact front fuel enough obj textNode rest

theorem readsContent_nil : ReadsContent stod .nil := by
  apply ReadsContent.of_front
  · intro fuel enough obj textNode rest
    obtain ⟨fuel, rfl⟩ := Nat.exists_eq_add_of_le' (Nat.one_le_of_lt enough)
    rw [XmlContent.write, XmlContent.fields, XmlContent.text, List.nil_append, List.append_nil,
      parseContent_closing]
  · intro skip rest
    exact skipMisc_tag skip rest slash (by decide)
  · rfl

theorem ReadsContent.char {more : XmlContent} (reads : ReadsContent stod more) (c : UInt8)
    (plain : c ≠ openAngle) : ReadsContent stod (.char c plain more) := by
  have front (fuel : Nat) (enough : (XmlContent.char c plain more).write.length < fuel)
      (obj : Fields) (textNode rest : Bytes) :
      parseContent stod fuel obj textNode
          ((XmlContent.char c plain more).write ++ (ascii "</" ++ rest)) =
        .ok (more.fields stod obj, textNode ++ c :: more.text false, ascii "</" ++ rest) := by
    obtain ⟨fuel, rfl⟩ := Nat.exists_eq_add_of_le' (Nat.one_le_of_lt enough)
    rw [XmlContent.write, List.length_cons] at enough
    rw [XmlContent.write, List.cons_append, parseContent_char stod fuel obj textNode _ c plain,
      reads.front fuel (by omega), List.append_assoc, List.singleton_append]
  by_cases blank : isSpace c = true
  · refine ⟨front, ?_⟩
    intro fuel enough skip room obj textNode rest
    rw [XmlContent.write, List.length_cons] at enough room
    obtain ⟨skip, rfl⟩ := Nat.exists_eq_add_of_le' (Nat.one_le_of_lt room)
    rw [XmlContent.write, List.cons_append, skipMisc_space skip _ c blank,
      reads.behind fuel (by omega) (skip + 1) (by omega), XmlContent.fields, XmlContent.text, blank]
    rfl
  · have solid : isSpace c = false := by simpa using blank
    apply ReadsContent.of_front front
    · intro skip rest
      exact skipMisc_char skip _ c solid plain
    · rw [XmlContent.text, solid]
      rfl

theorem ReadsContent.cdata {more : XmlContent} (reads : ReadsContent stod more) (text : Bytes)
    (ends : Ends (ascii "]]>") text) : ReadsContent stod (.cdata text ends more) := by
  have shape (rest : Bytes) : (XmlContent.cdata text ends more).write ++ (ascii "</" ++ rest) =
      ascii "<![CDATA[" ++ (text ++ (ascii "]]>" ++ (more.write ++ (ascii "</" ++ rest)))) := by
    simp only [XmlContent.write, List.append_assoc]
  apply ReadsContent.of_front
  · intro fuel enough obj textNode rest
    have marks : (ascii "<![CDATA[").length = 9 := rfl
    simp only [XmlContent.write, List.length_append] at enough
    obtain ⟨fuel, rfl⟩ := Nat.exists_eq_add_of_le' (Nat.one_le_of_lt enough)
    rw [shape, parseContent_cdata stod fuel obj textNode _ text ends,
      reads.front fuel (by omega), List.append_assoc]
    rfl
  · intro skip rest
    rw [shape, skipMisc_cdata]
  · rfl

theorem ReadsContent.comment {more : XmlContent} (reads : ReadsContent stod more) (text : Bytes)
    (ends : Ends (ascii "-->") text) : ReadsContent stod (.comment text ends more) := by
  have shape (rest : Bytes) : (XmlContent.comment text ends more).write ++ (ascii "</" ++ rest) =
      ascii "<!--" ++ (text ++ (ascii "-->" ++ (more.write ++ (ascii "</" ++ rest)))) := by
    simp only [XmlContent.write, List.append_assoc]
  have size : (XmlContent.comment text ends more).write.length =
      4 + (text.length + (3 + more.write.length)) := by
    simp only [XmlContent.write, List.length_append]
    rfl
  have behind (fuel : Nat) (enough : more.write.length < fuel) (skip : Nat)
      (room : more.write.length + 1 < skip) (obj : Fields) (textNode rest : Bytes) :
      (skipMisc skip (ascii "<!--" ++ (text ++ (ascii "-->" ++
        (more.write ++ (ascii "</" ++ rest))))) >>= parseContent stod fuel obj textNode) =
      .ok (more.fields stod obj, textNode ++ more.text true, ascii "</" ++ rest) := by
    obtain ⟨skip, rfl⟩ := Nat.exists_eq_add_of_le' (Nat.one_le_of_lt room)
    rw [skipMisc_past_comment _ _ text ends]
    exact reads.behind fuel enough skip (by omega) obj textNode rest
  constructor
  · intro fuel enough obj textNode rest
    have marks : (ascii "<!--").length = 4 := rfl
    obtain ⟨fuel, rfl⟩ := Nat.exists_eq_add_of_le' (Nat.one_le_of_lt enough)
    rw [shape, parseContent_comment]
    apply behind fuel (by omega)
    simp only [List.length_append]
    omega
  · intro fuel enough skip room obj textNode rest
    rw [shape]
    exact behind fuel (by omega) skip (by omega) obj textNode rest

theorem ReadsContent.instruction {more : XmlContent} (reads : ReadsContent stod more)
    (text : Bytes) (ends : Ends (ascii "?>") (ascii "<?" ++ text)) :
    ReadsContent stod (.instruction text ends more) := by
  have shape (rest : Bytes) :
      (XmlContent.instruction text ends more).write ++ (ascii "</" ++ rest) =
        ascii "<?" ++ (text ++ (ascii "?>" ++ (more.write ++ (ascii "</" ++ rest)))) := by
    simp only [XmlContent.write, List.append_assoc]
  have size : (XmlContent.instruction text ends more).write.length =
      2 + (text.length + (2 + more.write.length)) := by
    simp only [XmlContent.write, List.length_append]
    rfl
  constructor
  · intro fuel enough obj textNode rest
    obtain ⟨fuel, rfl⟩ := Nat.exists_eq_add_of_le' (Nat.one_le_of_lt enough)
    rw [shape, parseContent_instruction stod fuel obj textNode _ text ends]
    exact reads.front fuel (by omega) obj textNode rest
  · intro fuel enough skip room obj textNode rest
    obtain ⟨skip, rfl⟩ := Nat.exists_eq_add_of_le' (Nat.one_le_of_lt room)
    have inner : Ends (ascii "?>") text := (ends_cons _ _ _ (ends_cons _ _ _ ends).2).2
    rw [shape, skipMisc_past_instruction _ _ text inner]
    exact reads.behind fuel (by omega) skip (by omega) obj textNode rest

theorem ReadsContent.child {more : XmlContent} (reads : ReadsContent stod more)
    {element : XmlElement} (readsElement : ReadsElement stod element) :
    ReadsContent stod (.child element more) := by
  obtain ⟨c, tail, head, notClosing, name⟩ := element.write_head
  have shape (rest : Bytes) : (XmlContent.child element more).write ++ (ascii "</" ++ rest) =
      openAngle :: c :: (tail ++ (more.write ++ (ascii "</" ++ rest))) := by
    rw [XmlContent.write, head]
    simp only [List.append_assoc, List.cons_append]
  apply ReadsContent.of_front
  · intro fuel enough obj textNode rest
    obtain ⟨fuel, rfl⟩ := Nat.exists_eq_add_of_le' (Nat.one_le_of_lt enough)
    have positive : 2 ≤ element.write.length := by
      rw [head]
      simp
    rw [XmlContent.write, List.length_append] at enough
    have child := readsElement fuel (by omega) (more.write ++ (ascii "</" ++ rest))
    rw [head, List.cons_append, List.cons_append] at child
    rw [shape, parseContent_child stod fuel obj textNode _ c notClosing name _ _ _ child,
      reads.front fuel (by omega)]
    rfl
  · intro skip rest
    rw [shape, skipMisc_tag skip _ c name]
  · rfl

theorem readsElement_empty (tag : Tag) : ReadsElement stod (.empty tag) := by
  intro fuel enough rest
  have shape : (XmlElement.empty tag).write ++ rest =
      openAngle :: (tag.name ++ (tag.tail ++ (ascii "/>" ++ rest))) := by
    simp only [XmlElement.write, List.append_assoc, List.cons_append]
  rw [XmlElement.write, List.length_cons] at enough
  obtain ⟨fuel, rfl⟩ := Nat.exists_eq_add_of_le' (Nat.one_le_of_lt enough)
  rw [shape, parseNode_empty]
  rfl

theorem ReadsContent.element {content : XmlContent} (reads : ReadsContent stod content) (tag : Tag)
    (gap : Bytes) (blank : Blank gap) : ReadsElement stod (.full tag content gap blank) := by
  intro fuel enough rest
  have shape : (XmlElement.full tag content gap blank).write ++ rest =
      openAngle :: (tag.name ++ (tag.tail ++ (closeAngle :: (content.write ++
        (ascii "</" ++ (tag.name ++ (gap ++ closeAngle :: rest))))))) := by
    simp only [XmlElement.write, List.append_assoc, List.cons_append, List.nil_append]
  simp only [XmlElement.write, List.length_append, List.length_cons] at enough
  obtain ⟨fuel, rfl⟩ := Nat.exists_eq_add_of_le' (Nat.one_le_of_lt enough)
  have read := reads.front fuel (by omega) [] [] (tag.name ++ (gap ++ closeAngle :: rest))
  rw [shape, parseNode_full stod fuel tag rest _ _ _ _ read
    (tag.parseClosing_name gap blank rest), List.nil_append]
  rfl

mutual

theorem readsElement (element : XmlElement) : ReadsElement stod element :=
  match element with
  | .empty tag => readsElement_empty tag
  | .full tag content gap blank => (readsContent content).element tag gap blank

theorem readsContent (content : XmlContent) : ReadsContent stod content :=
  match content with
  | .nil => readsContent_nil
  | .char c plain more => (readsContent more).char c plain
  | .cdata text ends more => (readsContent more).cdata text ends
  | .comment text ends more => (readsContent more).comment text ends
  | .instruction text ends more => (readsContent more).instruction text ends
  | .child element more => (readsContent more).child (readsElement element)

end

theorem parseRoots_misc (fuel : Nat) (root : Fields) (misc : XmlMisc) :
    parseRoots stod (fuel + 1) root misc.write = .ok root := by
  have skipped := skipMisc_write (misc.write.length + 1) [] misc (by omega) fun _ => rfl
  rw [List.append_nil] at skipped
  cases shape : misc.write with
  | nil => rfl
  | cons c rest =>
      rw [shape] at skipped
      rw [parseRoots, skipped]
      rfl

theorem parseRoots_element (fuel : Nat) (root : Fields) (element : XmlElement) (rest : Bytes) :
    parseRoots stod (fuel + 1) root (element.write ++ rest) =
      parseRoots stod fuel (addChild root element.name (element.value stod)) rest := by
  obtain ⟨c, tail, head, -, name⟩ := element.write_head
  have shape : element.write ++ rest = openAngle :: c :: (tail ++ rest) := by
    rw [head]
    rfl
  have reads : ReadsElement stod element := readsElement element
  have read := reads ((element.write ++ rest).length + 1) (by rw [List.length_append]; omega) rest
  rw [shape] at read ⊢
  rw [parseRoots, skipMisc_tag _ _ c name]
  simp only [bind, Except.bind, List.cons_ne_nil, List.head?_cons, ↓reduceIte, read]

/-- A document is read as the map of its root. -/
theorem parseXmlBasic_write (document : XmlDocument) :
    parseXmlBasic stod document.write =
      .ok (.object [(document.root.name, document.root.value stod)]) := by
  obtain ⟨c, tail, head, -, name⟩ := document.root.write_head
  have stops (fuel : Nat) : skipMisc (fuel + 1) (document.root.write ++ document.epilog.write) =
      .ok (document.root.write ++ document.epilog.write) := by
    rw [head]
    exact skipMisc_tag fuel _ c name
  have size : document.write.length = document.prolog.write.length +
      (document.root.write ++ document.epilog.write).length := by
    rw [XmlDocument.write, List.length_append]
  have prolog := skipMisc_write (document.write.length + 1) _ document.prolog (by omega) stops
  change skipMisc (document.write.length + 1) document.write = _ at prolog
  have roots : parseRoots stod ((document.root.write ++ document.epilog.write).length + 1) []
      (document.root.write ++ document.epilog.write) =
        .ok (addChild [] document.root.name (document.root.value stod)) := by
    obtain ⟨fuel, turns⟩ : ∃ fuel,
        (document.root.write ++ document.epilog.write).length = fuel + 1 := by
      rw [head]
      exact ⟨_, rfl⟩
    rw [turns, parseRoots_element, parseRoots_misc]
  rw [parseXmlBasic, prolog]
  simp only [bind, Except.bind, roots]
  rfl

end Layouts

end Nuperf.Serdetk
