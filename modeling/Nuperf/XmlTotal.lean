import Nuperf.JsonTotal
import Nuperf.SerdeXml

set_option autoImplicit false

namespace Nuperf.Serdetk

open ByteString Numeral CStandard TextReader OrderedMap

section Consumption

theorem past_length (token what : String) (text before rest : Bytes)
    (found : past token what text = .ok (before, rest)) :
    before.length + (ascii token).length + rest.length = text.length := by
  unfold past at found
  cases sought : seek (ascii token) text with
  | none =>
      rw [sought] at found
      cases found
  | some split =>
      rw [sought] at found
      cases found
      rw [seek_sound _ _ _ _ sought, List.length_append, List.length_append, Nat.add_assoc]

theorem consumeXml_length (c : UInt8) (text rest : Bytes)
    (found : consumeXml c text = .ok rest) : rest.length + 1 = text.length := by
  unfold consumeXml at found
  cases taken : literal [c] text with
  | none =>
      rw [taken] at found
      cases found
  | some after =>
      rw [taken] at found
      rw [← Except.ok.inj found]
      exact literal_byte_length c text after taken

/-- One turn of the loop of `skip_misc`. -/
theorem skipMisc_read (fuel : Nat) (text rest : Bytes)
    (found : skipMisc (fuel + 1) text = .ok rest) :
    rest = skipWs text ∨ ∃ next, next.length < (skipWs text).length ∧
      skipMisc fuel next = .ok rest := by
  rw [skipMisc] at found
  dsimp only at found
  have question : (ascii "<?").length = 2 ∧ (ascii "<!--").length = 4 ∧ (ascii ">").length = 1 := by
    decide
  cases instruction : literal (ascii "<?") (skipWs text) with
  | some body =>
      simp only [instruction] at found
      obtain ⟨⟨before, next⟩, ended, found⟩ := ok_of_bind _ _ _ found
      have first := literal_length _ _ _ instruction
      have second := past_length _ _ _ _ _ ended
      exact .inr ⟨next, by omega, found⟩
  | none =>
      simp only [instruction] at found
      cases comment : literal (ascii "<!--") (skipWs text) with
      | some body =>
          simp only [comment] at found
          obtain ⟨⟨before, next⟩, ended, found⟩ := ok_of_bind _ _ _ found
          have first := literal_length _ _ _ comment
          have second := past_length _ _ _ _ _ ended
          exact .inr ⟨next, by omega, found⟩
      | none =>
          simp only [comment] at found
          split_ifs at found
          · obtain ⟨⟨before, next⟩, ended, found⟩ := ok_of_bind _ _ _ found
            have second := past_length _ _ _ _ _ ended
            exact .inr ⟨next, by omega, found⟩
          · exact .inl (Except.ok.inj found).symm

theorem skipMisc_length (fuel : Nat) (text rest : Bytes) (found : skipMisc fuel text = .ok rest) :
    rest.length ≤ text.length := by
  induction fuel generalizing text with
  | zero => cases found
  | succ fuel ih =>
      have blank := skipWs_length text
      rcases skipMisc_read fuel text rest found with rfl | ⟨next, shorter, later⟩
      · exact blank
      · have behind := ih next later
        omega

theorem skipMisc_comment (fuel : Nat) (body : Bytes) :
    skipMisc (fuel + 1) (ascii "<!--" ++ body) = (do
      let found ← past "-->" "Unterminated XML comment" body
      skipMisc fuel found.2) := by
  have shape : skipWs (ascii "<!--" ++ body) = ascii "<!--" ++ body := rfl
  have other : literal (ascii "<?") (ascii "<!--" ++ body) = none := rfl
  rw [skipMisc, shape]
  simp only [other, literal_append]

theorem skipTagTail_length (mark : Option UInt8) (text : Bytes) :
    (skipTagTail mark text).length ≤ text.length := by
  induction text generalizing mark with
  | nil => cases mark <;> exact Nat.le_refl _
  | cons c rest ih =>
      cases mark with
      | some mark =>
          have shorter := ih (if c = mark then none else some mark)
          rw [skipTagTail, List.length_cons]
          omega
      | none =>
          have quoted := ih (some c)
          have plain := ih none
          rw [skipTagTail]
          split_ifs
          · rw [List.length_cons]
            omega
          · exact Nat.le_refl _
          · rw [List.length_cons]
            omega

theorem readRun_length (p : UInt8 → Bool) (text : Bytes) :
    (readRun p text).1.length + (readRun p text).2.length = text.length := by
  have split := congrArg List.length (readRun_spec p text).1
  rw [split, List.length_append]

theorem parseClosing_length (name text rest : Bytes)
    (found : parseClosing name text = .ok rest) : rest.length < text.length := by
  unfold parseClosing at found
  cases closing : literal (ascii "</") text with
  | none =>
      simp only [closing] at found
      cases found
  | some behind =>
      simp only [closing] at found
      obtain ⟨after, ended, found⟩ := ok_of_bind _ _ _ found
      have first := literal_length _ _ _ closing
      have run := readRun_length (fun c => c != closeAngle) behind
      have last := consumeXml_length _ _ _ ended
      split_ifs at found
      rw [← Except.ok.inj found]
      omega

end Consumption

section Reading

variable (stod : StodIndex) (fuel : Nat)

/-- The ways in which `parse_node` returns. -/
inductive NodeRead (text name : Bytes) : Value → Bytes → Prop
  | empty (rest : Bytes) (shorter : rest.length < text.length) : NodeRead text name .null rest
  | full (opened closing rest textNode : Bytes) (obj : Fields)
      (shorter : opened.length + 2 < text.length)
      (content : parseContent stod fuel [] [] opened = .ok (obj, textNode, closing))
      (closed : parseClosing name closing = .ok rest) :
      NodeRead text name (nodeValue stod obj textNode) rest

theorem parseNode_read (text name : Bytes) (value : Value) (rest : Bytes)
    (found : parseNode stod (fuel + 1) text = .ok (name, value, rest)) :
    NodeRead stod fuel text name value rest := by
  rw [parseNode] at found
  obtain ⟨behind, begun, found⟩ := ok_of_bind _ _ _ found
  have first := consumeXml_length _ _ _ begun
  have run := readRun_length isNameByte behind
  have tail := skipTagTail_length none (readRun isNameByte behind).2
  dsimp only at found
  split_ifs at found with closing unnamed
  have positive := List.length_pos_iff.mpr unnamed
  cases ended : literal (ascii "/>") (skipTagTail none (readRun isNameByte behind).2) with
  | some after =>
      simp only [ended] at found
      cases found
      have last := literal_length _ _ _ ended
      exact .empty rest (by omega)
  | none =>
      simp only [ended] at found
      obtain ⟨opened, open_, found⟩ := ok_of_bind _ _ _ found
      obtain ⟨⟨obj, textNode, closing⟩, content, found⟩ := ok_of_bind _ _ _ found
      obtain ⟨after, closed, found⟩ := ok_of_bind _ _ _ found
      cases found
      have last := consumeXml_length _ _ _ open_
      exact .full opened closing rest textNode obj (by omega) content closed

/-- One turn of the loop over a content: what it makes of the children and the text, and the
text that is left. -/
inductive ContentTurn (obj : Fields) (textNode text : Bytes) : Fields → Bytes → Bytes → Prop
  | misc (next : Bytes) (begins : ascii "<!--" <+: text)
      (skipped : skipMisc (text.length + 1) text = .ok next) :
      ContentTurn obj textNode text obj textNode next
  | cdata (body cdata next : Bytes) (begins : literal (ascii "<![CDATA[") text = some body)
      (ended : past "]]>" "Unterminated XML CDATA" body = .ok (cdata, next)) :
      ContentTurn obj textNode text obj (textNode ++ cdata) next
  | instruction (before next : Bytes)
      (ended : past "?>" "Unterminated XML processing instruction" text = .ok (before, next)) :
      ContentTurn obj textNode text obj textNode next
  | child (name : Bytes) (value : Value) (next : Bytes)
      (read : parseNode stod fuel text = .ok (name, value, next)) :
      ContentTurn obj textNode text (addChild obj name value) textNode next
  | char (c : UInt8) (next : Bytes) (shape : text = c :: next) :
      ContentTurn obj textNode text obj (textNode ++ [c]) next

theorem parseContent_read (obj : Fields) (textNode text : Bytes) (obj' : Fields)
    (textNode' rest : Bytes)
    (found : parseContent stod (fuel + 1) obj textNode text = .ok (obj', textNode', rest)) :
    (obj' = obj ∧ textNode' = textNode ∧ rest = text) ∨
      ∃ nextObj nextNode next, ContentTurn stod fuel obj textNode text nextObj nextNode next ∧
        parseContent stod fuel nextObj nextNode next = .ok (obj', textNode', rest) := by
  cases text with
  | nil =>
      cases found
      exact .inl ⟨rfl, rfl, rfl⟩
  | cons c more =>
      rw [parseContent] at found
      dsimp only at found
      by_cases closing : ascii "</" <+: c :: more
      · rw [if_pos closing] at found
        cases found
        exact .inl ⟨rfl, rfl, rfl⟩
      rw [if_neg closing] at found
      by_cases comment : ascii "<!--" <+: c :: more
      · rw [if_pos comment] at found
        obtain ⟨next, skipped, found⟩ := ok_of_bind _ _ _ found
        exact .inr ⟨_, _, _, .misc next comment skipped, found⟩
      rw [if_neg comment] at found
      cases section_ : literal (ascii "<![CDATA[") (c :: more) with
      | some body =>
          simp only [section_] at found
          obtain ⟨⟨cdata, next⟩, ended, found⟩ := ok_of_bind _ _ _ found
          exact .inr ⟨_, _, _, .cdata body cdata next section_ ended, found⟩
      | none =>
          simp only [section_] at found
          split_ifs at found
          · obtain ⟨⟨before, next⟩, ended, found⟩ := ok_of_bind _ _ _ found
            exact .inr ⟨_, _, _, .instruction before next ended, found⟩
          · obtain ⟨⟨name, value, next⟩, read, found⟩ := ok_of_bind _ _ _ found
            exact .inr ⟨_, _, _, .child name value next read, found⟩
          · exact .inr ⟨_, _, _, .char c more rfl, found⟩

end Reading

section Length

variable (stod : StodIndex)

theorem ContentTurn.length {stod : StodIndex} {fuel : Nat} {obj nextObj : Fields}
    {textNode text nextNode next : Bytes}
    (turn : ContentTurn stod fuel obj textNode text nextObj nextNode next)
    (nodes : ∀ text name value rest, parseNode stod fuel text = .ok (name, value, rest) →
      rest.length < text.length) : next.length < text.length := by
  cases turn with
  | misc _ begins skipped =>
      obtain ⟨body, rfl⟩ := begins
      rw [skipMisc_comment] at skipped
      obtain ⟨⟨before, after⟩, ended, skipped⟩ := ok_of_bind _ _ _ skipped
      have first := past_length _ _ _ _ _ ended
      have later := skipMisc_length _ _ _ skipped
      rw [List.length_append]
      have marks : (ascii "<!--").length = 4 := rfl
      dsimp only at later
      omega
  | cdata body cdata _ begins ended =>
      have first := literal_length _ _ _ begins
      have marks : (ascii "<![CDATA[").length = 9 := rfl
      have second := past_length _ _ _ _ _ ended
      omega
  | instruction before _ ended =>
      have first := past_length _ _ _ _ _ ended
      have marks : (ascii "?>").length = 2 := rfl
      omega
  | child name value _ read => exact nodes _ _ _ _ read
  | char c _ shape =>
      rw [shape, List.length_cons]
      omega

/-- Every part of the parser that returns has read on. -/
theorem xml_length (fuel : Nat) :
    (∀ text name value rest, parseNode stod fuel text = .ok (name, value, rest) →
      rest.length < text.length) ∧
    (∀ obj textNode text obj' textNode' rest,
      parseContent stod fuel obj textNode text = .ok (obj', textNode', rest) →
        rest.length ≤ text.length) := by
  induction fuel with
  | zero =>
      constructor
      · intro text name value rest found
        cases found
      · intro obj textNode text obj' textNode' rest found
        cases found
  | succ fuel ih =>
      obtain ⟨nodes, contents⟩ := ih
      constructor
      · intro text name value rest found
        cases parseNode_read stod fuel text name value rest found with
        | empty _ shorter => exact shorter
        | full opened closing _ textNode obj shorter content closed =>
            have first := contents _ _ _ _ _ _ content
            have second := parseClosing_length _ _ _ closed
            omega
      · intro obj textNode text obj' textNode' rest found
        rcases parseContent_read stod fuel obj textNode text obj' textNode' rest found with
          ⟨-, -, rfl⟩ | ⟨nextObj, nextNode, next, turn, later⟩
        · exact Nat.le_refl _
        · have first := turn.length nodes
          have second := contents _ _ _ _ _ _ later
          omega

end Length

section Fuel

theorem skipMisc_fuel (fuel other : Nat) (text : Bytes) (enough : text.length < fuel)
    (otherEnough : text.length < other) : skipMisc fuel text = skipMisc other text := by
  induction fuel generalizing other text with
  | zero => omega
  | succ fuel ih =>
      obtain ⟨other, rfl⟩ := Nat.exists_eq_add_of_le' (Nat.one_le_of_lt otherEnough)
      have blank := skipWs_length text
      have later (token what : String) (body : Bytes) (marks : 0 < (ascii token).length)
          (size : body.length ≤ text.length) :
          (past token what body >>= fun found => skipMisc fuel found.2) =
            (past token what body >>= fun found => skipMisc other found.2) := by
        cases ended : past token what body with
        | error thrown => rfl
        | ok found =>
            obtain ⟨before, next⟩ := found
            have shorter := past_length _ _ _ _ _ ended
            exact ih other next (by omega) (by omega)
      rw [skipMisc, skipMisc]
      dsimp only
      cases instruction : literal (ascii "<?") (skipWs text) with
      | some body =>
          have first := literal_length _ _ _ instruction
          exact later "?>" _ body (by decide) (by omega)
      | none =>
          dsimp only
          cases comment : literal (ascii "<!--") (skipWs text) with
          | some body =>
              have first := literal_length _ _ _ comment
              exact later "-->" _ body (by decide) (by omega)
          | none =>
              dsimp only
              split_ifs
              · exact later ">" _ (skipWs text) (by decide) blank
              · rfl

variable (stod : StodIndex) (fuel other : Nat)

theorem parseNode_alike (text : Bytes)
    (contents : ∀ later, later.length + 2 < text.length →
      parseContent stod fuel [] [] later = parseContent stod other [] [] later) :
    parseNode stod (fuel + 1) text = parseNode stod (other + 1) text := by
  rw [parseNode, parseNode]
  cases begun : consumeXml openAngle text with
  | error thrown => rfl
  | ok behind =>
      have first := consumeXml_length _ _ _ begun
      have run := readRun_length isNameByte behind
      have tail := skipTagTail_length none (readRun isNameByte behind).2
      simp only [bind, Except.bind]
      split_ifs with closing unnamed
      · rfl
      · rfl
      have positive := List.length_pos_iff.mpr unnamed
      cases literal (ascii "/>") (skipTagTail none (readRun isNameByte behind).2) with
      | some after => rfl
      | none =>
          dsimp only
          cases open_ : consumeXml closeAngle
              (skipTagTail none (readRun isNameByte behind).2) with
          | error thrown => rfl
          | ok opened =>
              have last := consumeXml_length _ _ _ open_
              have same := contents opened (by omega)
              simp only [same]

theorem parseContent_alike (obj : Fields) (textNode text : Bytes)
    (node : parseNode stod fuel text = parseNode stod other text)
    (contents : ∀ obj textNode later, later.length < text.length →
      parseContent stod fuel obj textNode later = parseContent stod other obj textNode later) :
    parseContent stod (fuel + 1) obj textNode text =
      parseContent stod (other + 1) obj textNode text := by
  cases text with
  | nil => rfl
  | cons c rest =>
      -- A turn ends at the same text with both bounds, and is followed alike.
      have turn {nextObj : Fields} {nextNode next : Bytes}
          (turn : ContentTurn stod other obj textNode (c :: rest) nextObj nextNode next) :=
        contents nextObj nextNode next (turn.length (xml_length stod other).1)
      rw [parseContent, parseContent]
      dsimp only
      by_cases closing : ascii "</" <+: c :: rest
      · rw [if_pos closing, if_pos closing]
      rw [if_neg closing, if_neg closing]
      by_cases comment : ascii "<!--" <+: c :: rest
      · rw [if_pos comment, if_pos comment]
        cases skipped : skipMisc ((c :: rest).length + 1) (c :: rest) with
        | error thrown => rfl
        | ok next => exact turn (.misc next comment skipped)
      rw [if_neg comment, if_neg comment]
      cases section_ : literal (ascii "<![CDATA[") (c :: rest) with
      | some body =>
          dsimp only
          cases ended : past "]]>" "Unterminated XML CDATA" body with
          | error thrown => rfl
          | ok found => exact turn (.cdata body found.1 found.2 section_ ended)
      | none =>
          dsimp only
          split_ifs
          · cases ended : past "?>" "Unterminated XML processing instruction" (c :: rest) with
            | error thrown => rfl
            | ok found => exact turn (.instruction found.1 found.2 ended)
          · rw [node]
            cases read : parseNode stod other (c :: rest) with
            | error thrown => rfl
            | ok found => exact turn (.child found.1 found.2.1 found.2.2 read)
          · exact turn (.char c rest rfl)

/-- From the length of the text on, the bound on the depth of calls does not matter. -/
theorem xml_fuel :
    (∀ other text, text ≠ [] → text.length ≤ fuel → text.length ≤ other →
      parseNode stod fuel text = parseNode stod other text) ∧
    (∀ other obj textNode text, text.length < fuel → text.length < other →
      parseContent stod fuel obj textNode text = parseContent stod other obj textNode text) := by
  induction fuel with
  | zero =>
      constructor
      · intro other text nonempty enough _
        exact absurd (List.eq_nil_of_length_eq_zero (Nat.le_zero.mp enough)) nonempty
      · intro other obj textNode text enough _
        omega
  | succ fuel ih =>
      obtain ⟨sameNode, sameContent⟩ := ih
      constructor
      · intro other text nonempty enough otherEnough
        have positive := List.length_pos_iff.mpr nonempty
        obtain ⟨other, rfl⟩ := Nat.exists_eq_add_of_le' (show 1 ≤ other by omega)
        apply parseNode_alike
        intro later shorter
        exact sameContent other [] [] later (by omega) (by omega)
      · intro other obj textNode text enough otherEnough
        obtain ⟨other, rfl⟩ := Nat.exists_eq_add_of_le' (show 1 ≤ other by omega)
        by_cases nothing : text = []
        · subst nothing
          rfl
        · apply parseContent_alike
          · exact sameNode other text nothing (by omega) (by omega)
          · intro obj textNode later shorter
            exact sameContent other obj textNode later (by omega) (by omega)

theorem parseNode_fuel (text : Bytes) (enough : text.length < fuel) :
    parseNode stod fuel text = parseNode stod (text.length + 1) text := by
  by_cases nothing : text = []
  · subst nothing
    obtain ⟨fuel, rfl⟩ := Nat.exists_eq_add_of_le' (Nat.one_le_of_lt enough)
    exact parseNode_alike stod fuel 0 [] fun _ shorter => absurd shorter (Nat.not_lt_zero _)
  · exact (xml_fuel stod fuel).1 _ text nothing (by omega) (by omega)

theorem parseRoots_fuel (root : Fields) (text : Bytes) (enough : text.length < fuel)
    (otherEnough : text.length < other) :
    parseRoots stod fuel root text = parseRoots stod other root text := by
  induction fuel generalizing other root text with
  | zero => omega
  | succ fuel ih =>
      obtain ⟨other, rfl⟩ := Nat.exists_eq_add_of_le' (Nat.one_le_of_lt otherEnough)
      cases text with
      | nil => rfl
      | cons c rest =>
          rw [parseRoots, parseRoots]
          cases skipped : skipMisc ((c :: rest).length + 1) (c :: rest) with
          | error thrown => rfl
          | ok next =>
              have behind := skipMisc_length _ _ _ skipped
              simp only [bind, Except.bind]
              split_ifs
              · rfl
              · cases read : parseNode stod (next.length + 1) next with
                | error thrown => rfl
                | ok found =>
                    obtain ⟨name, value, after⟩ := found
                    have shorter := (xml_length stod _).1 _ _ _ _ read
                    exact ih other (addChild root name value) after (by omega) (by omega)
              · rfl

/-- `parse_xml_basic` does not depend on the bounds it is modelled with. -/
theorem parseXmlBasic_fuel (text : Bytes) (enough : text.length < fuel) :
    parseXmlBasic stod text = (do
      let rest ← skipMisc fuel text
      let root ← parseRoots stod fuel [] rest
      .ok (.object root)) := by
  rw [parseXmlBasic, skipMisc_fuel (text.length + 1) fuel text (by omega) enough]
  cases skipped : skipMisc fuel text with
  | error thrown => rfl
  | ok rest =>
      have behind := skipMisc_length _ _ _ skipped
      have same := parseRoots_fuel stod (rest.length + 1) fuel [] rest (by omega) (by omega)
      simp only [bind, Except.bind, same]

end Fuel

section WellFormed

variable (stod : StodIndex)

/-- The fields of a map, each well formed. -/
structure ProperFields (obj : Fields) : Prop where
  sorted : Sorted obj
  members : ∀ field ∈ obj, field.2.WellFormed

theorem properFields_nil : ProperFields [] :=
  ⟨List.Pairwise.nil, fun _ inside => absurd inside List.not_mem_nil⟩

theorem ProperFields.insert {obj : Fields} (proper : ProperFields obj) (name : Bytes)
    (value : Value) (wellFormed : value.WellFormed) : ProperFields (insert name value obj) :=
  ⟨insert_sorted name value obj proper.sorted,
    insert_wellFormed name value obj wellFormed proper.members⟩

theorem ProperFields.addChild {obj : Fields} (proper : ProperFields obj) (name : Bytes)
    (value : Value) (wellFormed : value.WellFormed) : ProperFields (addChild obj name value) := by
  unfold Serdetk.addChild
  have slot (old : Value) (found : obj.lookup name = some old) : old.WellFormed :=
    proper.members _ (mem_of_lookup obj name old found)
  split
  · rename_i items found
    refine proper.insert name _ (.array _ ?_)
    intro item inside
    rcases List.mem_append.mp inside with earlier | last
    · cases slot _ found with
      | array _ members => exact members item earlier
    · rw [List.mem_singleton.mp last]
      exact wellFormed
  · rename_i old found _
    refine proper.insert name _ (.array _ ?_)
    intro item inside
    rcases List.mem_cons.mp inside with rfl | last
    · exact slot _ (by assumption)
    · rw [List.mem_singleton.mp last]
      exact wellFormed
  · exact proper.insert name value wellFormed

theorem parseScalarToken_wellFormed (token : Bytes) : (parseScalarToken stod token).WellFormed := by
  have real (token : Bytes) : (realToken stod token).WellFormed := by
    unfold realToken
    split
    · split_ifs
      · exact .double _
      · exact .string _
    · exact .string _
  unfold parseScalarToken
  dsimp only
  split_ifs
  · exact .null
  · exact .bool true
  · exact .bool false
  · exact .string _
  · split
    · split_ifs
      · exact .int _
      · exact real _
    · exact real _

theorem nodeValue_wellFormed (obj : Fields) (textNode : Bytes) (proper : ProperFields obj) :
    (nodeValue stod obj textNode).WellFormed := by
  unfold nodeValue
  split_ifs
  · exact parseScalarToken_wellFormed stod _
  · exact .object obj proper.sorted proper.members

/-- The parser fills every object as a map. -/
theorem xml_wellFormed (fuel : Nat) :
    (∀ text name value rest, parseNode stod fuel text = .ok (name, value, rest) →
      value.WellFormed) ∧
    (∀ obj textNode text obj' textNode' rest, ProperFields obj →
      parseContent stod fuel obj textNode text = .ok (obj', textNode', rest) →
        ProperFields obj') := by
  induction fuel with
  | zero =>
      constructor
      · intro text name value rest found
        cases found
      · intro obj textNode text obj' textNode' rest _ found
        cases found
  | succ fuel ih =>
      obtain ⟨nodes, contents⟩ := ih
      constructor
      · intro text name value rest found
        cases parseNode_read stod fuel text name value rest found with
        | empty _ shorter => exact .null
        | full opened closing _ textNode obj shorter content closed =>
            apply nodeValue_wellFormed
            exact contents _ _ _ _ _ _ properFields_nil content
      · intro obj textNode text obj' textNode' rest proper found
        rcases parseContent_read stod fuel obj textNode text obj' textNode' rest found with
          ⟨rfl, -, -⟩ | ⟨nextObj, nextNode, next, turn, later⟩
        · exact proper
        · apply contents nextObj nextNode next obj' textNode' rest ?_ later
          cases turn with
          | misc => exact proper
          | cdata => exact proper
          | instruction => exact proper
          | child name value _ read => exact proper.addChild name value (nodes _ _ _ _ read)
          | char => exact proper

theorem parseRoots_proper (fuel : Nat) (root : Fields) (text : Bytes) (result : Fields)
    (proper : ProperFields root) (found : parseRoots stod fuel root text = .ok result) :
    ProperFields result := by
  induction fuel generalizing root text with
  | zero => cases found
  | succ fuel ih =>
      cases text with
      | nil =>
          cases found
          exact proper
      | cons c rest =>
          rw [parseRoots] at found
          obtain ⟨next, skipped, found⟩ := ok_of_bind _ _ _ found
          split_ifs at found
          · cases found
            exact proper
          · obtain ⟨⟨name, value, after⟩, read, found⟩ := ok_of_bind _ _ _ found
            have wellFormed := (xml_wellFormed stod _).1 _ _ _ _ read
            exact ih _ _ (proper.addChild name value wellFormed) found

theorem parseXmlBasic_wellFormed (text : Bytes) (root : Value)
    (loaded : parseXmlBasic stod text = .ok root) : root.WellFormed := by
  obtain ⟨rest, -, loaded⟩ := ok_of_bind _ _ _ loaded
  obtain ⟨fields, read, loaded⟩ := ok_of_bind _ _ _ loaded
  have proper := parseRoots_proper stod _ [] rest fields properFields_nil read
  rw [← Except.ok.inj loaded]
  exact .object fields proper.sorted proper.members

end WellFormed

end Nuperf.Serdetk
