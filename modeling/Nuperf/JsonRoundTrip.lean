import Nuperf.JsonLayout

set_option autoImplicit false

namespace Nuperf.Serdetk

open ByteString Numeral CStandard TextReader OrderedMap

mutual

/-- The layout that `emit_json_value` gives a value. -/
def layoutOf (opt : FormattingOptions) : Value → Nat → Layout
  | .array items, depth =>
      .array (itemLayouts opt items depth true) (closingGap opt depth items.isEmpty)
  | .object fields, depth =>
      .object (memberLayouts opt fields depth true) (closingGap opt depth fields.isEmpty)
  | value, _ => .leaf value

def itemLayouts (opt : FormattingOptions) : List Value → Nat → Bool → List (Bytes × Layout)
  | [], _, _ => []
  | item :: rest, depth, first =>
      (leadingGap opt depth first, layoutOf opt item (depth + 1)) ::
        itemLayouts opt rest depth false

def memberLayouts (opt : FormattingOptions) :
    List (Bytes × Value) → Nat → Bool → List (MemberName × Layout)
  | [], _, _ => []
  | (key, value) :: rest, depth, first =>
      (⟨leadingGap opt depth first, key, if opt.spaceAfterColon then [32] else []⟩,
        layoutOf opt value (depth + 1)) :: memberLayouts opt rest depth false

end

mutual

/-- The values that JSON text carries without loss. -/
def Value.Portable : Value → Prop
  | .array items => PortableItems items
  | .object fields => PortableFields fields
  | value => leafText value ≠ none

def PortableItems : List Value → Prop
  | [] => True
  | item :: rest => item.Portable ∧ PortableItems rest

def PortableFields : List (Bytes × Value) → Prop
  | [] => True
  | (_, value) :: rest => value.Portable ∧ PortableFields rest

end

section Emit

variable (fp : Floating) (opt : FormattingOptions)

mutual

/-- The emitter writes the layout it gives a value. -/
theorem emitValue_eq (value : Value) (portable : value.Portable) (depth : Nat) :
    emitValue fp opt value depth = .ok (layoutOf opt value depth).write := by
  match value with
  | .null => rfl
  | .bool value => rfl
  | .int value =>
      have negative : value.toInt < 0 := by
        simp only [Value.Portable, leafText, ne_eq, ite_eq_right_iff, reduceCtorEq, imp_false,
          not_not] at portable
        exact portable
      simp only [emitValue, layoutOf, Layout.write, leafText, negative, ↓reduceIte,
        Option.getD_some]
  | .uint value => rfl
  | .string text => rfl
  | .double bits => exact absurd rfl portable
  | .binary bytes => exact absurd rfl portable
  | .array items =>
      simp only [emitValue, emitItems_eq items portable depth true, bind, Except.bind, layoutOf,
        Layout.write]
  | .object fields =>
      simp only [emitValue, emitFields_eq fields portable depth true, bind, Except.bind, layoutOf,
        Layout.write]

theorem emitItems_eq (items : List Value) (portable : PortableItems items) (depth : Nat)
    (first : Bool) :
    emitItems fp opt items depth first =
      .ok (writeItems (itemLayouts opt items depth first) first) := by
  match items with
  | [] => rfl
  | item :: rest =>
      simp only [emitItems, emitValue_eq item portable.1 (depth + 1),
        emitItems_eq rest portable.2 depth false, bind, Except.bind, itemLayouts, writeItems]

theorem emitFields_eq (fields : List (Bytes × Value)) (portable : PortableFields fields)
    (depth : Nat) (first : Bool) :
    emitFields fp opt fields depth first =
      .ok (writeMembers (memberLayouts opt fields depth first) first) := by
  match fields with
  | [] => rfl
  | (key, value) :: rest =>
      simp only [emitFields, emitValue_eq value portable.1 (depth + 1),
        emitFields_eq rest portable.2 depth false, bind, Except.bind, memberLayouts, writeMembers]

end

/-- Formatting that adds white space only. -/
structure FormattingOptions.Blank (opt : FormattingOptions) : Prop where
  indent : Serdetk.Blank opt.indent
  newline : Serdetk.Blank opt.newline

theorem blank_append (left right : Bytes) (leftBlank : Blank left) (rightBlank : Blank right) :
    Blank (left ++ right) := by
  intro byte member
  rcases List.mem_append.mp member with inLeft | inRight
  · exact leftBlank byte inLeft
  · exact rightBlank byte inRight

theorem blank_nil : Blank [] := by
  intro byte member
  cases member

theorem blank_space : Blank [32] := by decide

variable {opt} (blank : opt.Blank)

include blank

theorem indentation_blank (depth : Nat) : Blank (indentation opt depth) := by
  intro byte member
  obtain ⟨line, inside, here⟩ := List.mem_flatten.mp member
  rw [List.eq_of_mem_replicate inside] at here
  exact blank.indent byte here

theorem leadingGap_blank (depth : Nat) (first : Bool) : Blank (leadingGap opt depth first) := by
  unfold leadingGap
  apply blank_append
  · split_ifs
    · exact blank_space
    · exact blank_nil
  · split_ifs
    · exact blank_append _ _ blank.newline (indentation_blank blank (depth + 1))
    · exact blank_nil

theorem closingGap_blank (depth : Nat) (empty : Bool) : Blank (closingGap opt depth empty) := by
  unfold closingGap
  split_ifs
  · exact blank_append _ _ blank.newline (indentation_blank blank depth)
  · exact blank_nil

mutual

theorem layoutOf_proper (value : Value) (portable : value.Portable) (depth : Nat) :
    (layoutOf opt value depth).Proper := by
  match value with
  | .null => exact portable
  | .bool value => exact portable
  | .int value => exact portable
  | .uint value => exact portable
  | .string text => exact portable
  | .double bits => exact absurd rfl portable
  | .binary bytes => exact absurd rfl portable
  | .array items =>
      exact ⟨itemLayouts_proper items portable depth true, closingGap_blank blank depth _⟩
  | .object fields =>
      exact ⟨memberLayouts_proper fields portable depth true, closingGap_blank blank depth _⟩

theorem itemLayouts_proper (items : List Value) (portable : PortableItems items) (depth : Nat)
    (first : Bool) : ProperItems (itemLayouts opt items depth first) := by
  match items with
  | [] => trivial
  | item :: rest =>
      exact ⟨leadingGap_blank blank depth first, layoutOf_proper item portable.1 (depth + 1),
        itemLayouts_proper rest portable.2 depth false⟩

theorem memberLayouts_proper (fields : List (Bytes × Value)) (portable : PortableFields fields)
    (depth : Nat) (first : Bool) : ProperMembers (memberLayouts opt fields depth first) := by
  match fields with
  | [] => trivial
  | (key, value) :: rest =>
      refine ⟨leadingGap_blank blank depth first, ?_, layoutOf_proper value portable.1 (depth + 1),
        memberLayouts_proper rest portable.2 depth false⟩
      dsimp only
      split_ifs
      · exact blank_space
      · exact blank_nil

end

omit blank

mutual

theorem layoutOf_value (value : Value) (wellFormed : value.WellFormed) (depth : Nat) :
    (layoutOf opt value depth).value = value := by
  match value with
  | .null => rfl
  | .bool value => rfl
  | .int value => rfl
  | .uint value => rfl
  | .string text => rfl
  | .double bits => rfl
  | .binary bytes => rfl
  | .array items =>
      cases wellFormed with
      | array _ members =>
          rw [layoutOf, Layout.value, itemLayouts_value items members depth true]
  | .object fields =>
      cases wellFormed with
      | object _ sorted members =>
          have built := memberLayouts_value fields sorted members depth true []
            (fun _ _ _ member => absurd member List.not_mem_nil)
          rw [layoutOf, Layout.value, built, List.nil_append]

theorem itemLayouts_value (items : List Value) (members : ∀ item ∈ items, item.WellFormed)
    (depth : Nat) (first : Bool) : itemValues (itemLayouts opt items depth first) = items := by
  match items with
  | [] => rfl
  | item :: rest =>
      have head := layoutOf_value item (members item List.mem_cons_self) (depth + 1)
      have tail := itemLayouts_value rest
        (fun next inside => members next (List.mem_cons_of_mem item inside)) depth false
      rw [itemLayouts, itemValues, head, tail]

theorem memberLayouts_value (fields : List (Bytes × Value)) (sorted : Sorted fields)
    (members : ∀ field ∈ fields, field.2.WellFormed) (depth : Nat) (first : Bool) (before : Fields)
    (below : ∀ field ∈ fields, ∀ entry ∈ before, entry.1 < field.1) :
    memberValues (memberLayouts opt fields depth first) before = before ++ fields := by
  match fields with
  | [] =>
      rw [memberLayouts, memberValues, List.append_nil]
  | (key, value) :: rest =>
      obtain ⟨head, tail⟩ := List.pairwise_cons.mp sorted
      have here := layoutOf_value value (members (key, value) List.mem_cons_self) (depth + 1)
      have last := insert_last key value before (below (key, value) List.mem_cons_self)
      have later := memberLayouts_value rest tail
        (fun next inside => members next (List.mem_cons_of_mem (key, value) inside)) depth false
        (before ++ [(key, value)]) (by
          intro field inside entry member
          rcases List.mem_append.mp member with earlier | same
          · exact below field (List.mem_cons_of_mem _ inside) entry earlier
          · rw [List.mem_singleton.mp same]
            exact head field inside)
      rw [memberLayouts, memberValues, here, last, later, List.append_assoc, List.singleton_append]

end

include blank

/-- What `dump_string` writes, `load_string` reads back. -/
theorem jsonLoadString_dump (value : Value) (wellFormed : value.WellFormed)
    (portable : value.Portable) :
    ∃ text, jsonDumpString fp value opt = .ok text ∧ jsonLoadString fp text = .ok value := by
  have proper := layoutOf_proper blank value portable 0
  have trailing : Blank (if opt.trailingNewline then opt.newline else []) := by
    split_ifs
    · exact blank.newline
    · exact blank_nil
  have loaded := jsonLoadString_write fp (layoutOf opt value 0) proper [] _ blank_nil trailing
  rw [layoutOf_value value wellFormed, List.nil_append] at loaded
  refine ⟨_, ?_, loaded⟩
  simp only [jsonDumpString, emitValue_eq fp opt value portable 0, bind, Except.bind]

end Emit

theorem defaultFormatting_blank : FormattingOptions.Blank {} := ⟨by decide, by decide⟩

end Nuperf.Serdetk
