import Nuperf.OptionModel

set_option autoImplicit false

namespace Nuperf

open ByteString Numeral CStandard NamedStore

section

variable {Impl : Type} (plugin : Accessors Impl)

def Accessors.names : List Bytes := plugin.options.map OptionDescriptor.name

/-- The two-phase protocol of `get_option` for one rendered value. -/
structure Serves (impl : Impl) (key : CString) (text : Bytes) : Prop where
  query : ∀ capacity, plugin.get impl key none capacity = ⟨.ok, none, text.length + 1⟩
  enough : ∀ buffer capacity, text.length + 1 ≤ capacity →
    plugin.get impl key (some buffer) capacity =
      ⟨.ok, some (overwrite buffer (text ++ [0])), text.length + 1⟩
  small : ∀ buffer capacity, capacity < text.length + 1 →
    plugin.get impl key (some buffer) capacity =
      ⟨.errBufferTooSmall, some buffer, text.length + 1⟩

/-- The values for `key` that a sequence of `set_option` calls got accepted, in order. -/
def Accessors.acceptedValues (impl : Impl) (key : CString) (calls : List (CString × CString)) :
    List CString :=
  accepted plugin.request impl key calls

/-- What an accepted value renders to, by the type its option is declared with. -/
def RendersAs (type : OptionType) (value : CString) (text : Bytes) : Prop :=
  match type with
  | .string => text = value.bytes
  | .uint => ∀ n, 1 ≤ n → n < 2 ^ 32 → value.bytes = decimal n → text = value.bytes
  | .bool =>
      (value.bytes = ascii "true" ∨ value.bytes = ascii "1") ∧ text = ascii "true" ∨
        (value.bytes = ascii "false" ∨ value.bytes = ascii "0") ∧ text = ascii "false"
  | _ => True

/-- The values of a type that are written canonically. -/
def Canonical (type : OptionType) (value : CString) : Prop :=
  match type with
  | .string => True
  | .uint => ∃ n, 1 ≤ n ∧ n < 2 ^ 32 ∧ value.bytes = decimal n
  | .bool =>
      (value.bytes = ascii "true" ∨ value.bytes = ascii "1") ∨
        value.bytes = ascii "false" ∨ value.bytes = ascii "0"
  | _ => False

/-- The option functions of a plugin refine one abstract option store: the names and
first values are those of its option table, and every name holds one rendered value,
settled by the last value accepted for it. Canonical values are always accepted. -/
structure RefinesOptionStore : Prop where
  fresh : ∀ key descriptor, descriptor ∈ plugin.options → descriptor.name = key.bytes →
    Serves plugin plugin.create key descriptor.defaultValue
  getNotFound : ∀ impl key buffer capacity,
    (plugin.get impl key buffer capacity).status = .errNotFound ↔ key.bytes ∉ plugin.names
  setNotFound : ∀ impl key value,
    (plugin.set impl key value).2 = .ok .errNotFound ↔ key.bytes ∉ plugin.names
  accepts : ∀ impl key descriptor value, descriptor ∈ plugin.options →
    descriptor.name = key.bytes → Canonical descriptor.type value →
    (plugin.set impl key value).2 = .ok .ok
  holds : ∃ rendered : CString → CString → Bytes,
    ∀ calls key descriptor, descriptor ∈ plugin.options → descriptor.name = key.bytes →
      match (plugin.acceptedValues plugin.create key calls).getLast? with
      | none => Serves plugin (plugin.run plugin.create calls) key descriptor.defaultValue
      | some value => Serves plugin (plugin.run plugin.create calls) key (rendered key value) ∧
          RendersAs descriptor.type value (rendered key value)

end

section Model

variable {Impl : Type} {plugin : Accessors Impl}

theorem OptionModel.run_eq (impl : Impl) (calls : List (CString × CString)) :
    plugin.run impl calls = NamedStore.run plugin.request impl calls := rfl

/-- A cell of the view is served as its rendering. -/
theorem OptionModel.serves (model : OptionModel plugin) (impl : Impl) (key : CString)
    (cell : OptionCell) (held : model.view impl key = some cell) :
    Serves plugin impl key cell.render where
  query capacity := by
    rw [model.reads, held]
    rfl
  enough buffer capacity fits := by
    rw [model.reads, held]
    simp only [replyOf, fetch, fits, ↓reduceIte]
  small buffer capacity less := by
    have short : ¬ cell.render.length + 1 ≤ capacity := by omega
    rw [model.reads, held]
    simp only [replyOf, fetch, short, Bool.false_eq_true, ↓reduceIte]

theorem OptionModel.get_notFound_iff (model : OptionModel plugin) (impl : Impl) (key : CString)
    (buffer : Option Bytes) (capacity : Nat) :
    (plugin.get impl key buffer capacity).status = .errNotFound ↔ key.bytes ∉ plugin.names := by
  rw [model.reads, Accessors.names, ← model.domain impl key]
  cases model.view impl key with
  | none => simp [replyOf]
  | some cell =>
      simp only [replyOf, reduceCtorEq, iff_false]
      cases (fetch 0 cell.render buffer capacity).fits <;> simp

theorem OptionModel.set_notFound_iff (model : OptionModel plugin) (impl : Impl)
    (key value : CString) :
    (plugin.set impl key value).2 = .ok .errNotFound ↔ key.bytes ∉ plugin.names := by
  rw [← outcome_unknown_iff, Accessors.names, ← model.domain impl key]
  have answer := model.implements.outcome impl key value
  change outcome (plugin.set impl key value).2 = _ at answer
  rw [answer, set_unknown_iff]

/-- A listed name holds a cell in every state. -/
theorem OptionModel.held (model : OptionModel plugin) (impl : Impl) (key : CString)
    (listed : key.bytes ∈ plugin.names) : ∃ cell, model.view impl key = some cell := by
  apply Option.ne_none_iff_exists'.mp
  intro absent
  exact (model.domain impl key).mp absent listed

theorem OptionModel.serves_fresh (model : OptionModel plugin) (key : CString)
    (descriptor : OptionDescriptor) (listed : descriptor ∈ plugin.options)
    (named : descriptor.name = key.bytes) :
    Serves plugin plugin.create key descriptor.defaultValue := by
  have rendered := model.fresh key descriptor listed named
  obtain ⟨cell, held, same⟩ := Option.map_eq_some_iff.mp rendered
  rw [← same]
  exact model.serves plugin.create key cell held

/-- The bytes an accepted value is rendered as. -/
def OptionModel.rendered (model : OptionModel plugin) (key value : CString) : Bytes :=
  ((cellOf model.convert key value).map OptionCell.render).getD []

/-- A value that the conversion takes is stored under every listed name. -/
theorem OptionModel.accepts (model : OptionModel plugin) (impl : Impl) (key : CString)
    (descriptor : OptionDescriptor) (value : CString) (listed : descriptor ∈ plugin.options)
    (named : descriptor.name = key.bytes)
    (converted : ∃ cell, model.convert key value = .ok (some cell)) :
    (plugin.set impl key value).2 = .ok .ok := by
  have present : key.bytes ∈ plugin.names := by
    rw [← named]
    exact List.mem_map_of_mem listed
  obtain ⟨old, held⟩ := model.held impl key present
  obtain ⟨cell, converted⟩ := converted
  have answer := model.implements.outcome impl key value
  simp only [NamedStore.set, held, converted] at answer
  exact (outcome_stored_iff _).mp answer

/-- A model refines the option store once its conversion takes every canonical value, and
renders those it accepts as the option's type says. -/
theorem OptionModel.refines (model : OptionModel plugin)
    (converts : ∀ key descriptor value, descriptor ∈ plugin.options →
      descriptor.name = key.bytes → Canonical descriptor.type value →
      ∃ cell, model.convert key value = .ok (some cell))
    (renders : ∀ key descriptor value cell, descriptor ∈ plugin.options →
      descriptor.name = key.bytes → model.convert key value = .ok (some cell) →
      RendersAs descriptor.type value cell.render) :
    RefinesOptionStore plugin where
  fresh := model.serves_fresh
  getNotFound := model.get_notFound_iff
  setNotFound := model.set_notFound_iff
  accepts impl key descriptor value listed named canonical :=
    model.accepts impl key descriptor value listed named
      (converts key descriptor value listed named canonical)
  holds := by
    refine ⟨model.rendered, ?_⟩
    intro calls key descriptor listed named
    have value := model.implements.run_value plugin.create calls key
    rw [← OptionModel.run_eq] at value
    unfold Accessors.acceptedValues
    cases last : (accepted plugin.request plugin.create key calls).getLast? with
    | none =>
        rw [last] at value
        have rendered := model.fresh key descriptor listed named
        obtain ⟨cell, held, same⟩ := Option.map_eq_some_iff.mp rendered
        dsimp only
        rw [← same]
        exact model.serves _ key cell (value.trans held)
    | some input =>
        rw [last] at value
        have present : key.bytes ∈ plugin.names := by
          rw [← named]
          exact List.mem_map_of_mem listed
        obtain ⟨cell, held⟩ := model.held (plugin.run plugin.create calls) key present
        have written : cellOf model.convert key input = some cell := value.symm.trans held
        have text : model.rendered key input = cell.render := by
          rw [OptionModel.rendered, written, Option.map_some, Option.getD_some]
        dsimp only
        rw [text]
        refine ⟨model.serves _ key cell held, ?_⟩
        apply renders key descriptor input cell listed named
        unfold cellOf at written
        cases converted : model.convert key input with
        | error thrown => simp [converted] at written
        | ok found =>
            simp only [converted] at written
            rw [written]

end Model

/-- A canonical numeral in the range of `uint32_t` is stored as the number it names. -/
theorem ofInt_decimal (n : Nat) (small : n < 2 ^ 32) : (UInt32.ofInt (n : Int)).toNat = n := by
  simp only [UInt32.ofInt, UInt32.toNat_ofNat']
  omega

theorem strtol_decimal (value : CString) (n : Nat) (small : n < 2 ^ 32)
    (canonical : value.bytes = decimal n) : strtol value.bytes = some (n : Int) := by
  apply strtol_of_whole
  · rw [canonical, wholeInteger_decimal]
  · unfold longMin
    omega
  · unfold longMax
    omega

theorem stdmeth_types (descriptor : OptionDescriptor) (listed : descriptor ∈ stdmeth.options) :
    descriptor.type = .uint := by
  simp only [stdmeth, gStdmethOptions, List.mem_cons, List.not_mem_nil, or_false] at listed
  rcases listed with rfl | rfl | rfl <;> rfl

/-- What `stdmeth` makes of a canonical numeral, under any name. -/
theorem stdmethConvert_decimal (key value : CString) (n : Nat) (positive : 1 ≤ n)
    (small : n < 2 ^ 32) (canonical : value.bytes = decimal n) :
    ∃ cell, stdmethConvert key value = .ok (some cell) ∧ cell.render = value.bytes := by
  have read := strtol_decimal value n small canonical
  have above : ¬ (n : Int) ≤ 0 := by omega
  unfold stdmethConvert positiveCell
  rw [canonical] at read ⊢
  by_cases seed : key.bytes = ascii "seed"
  · refine ⟨.seed (UInt32.ofInt n) true, ?_, ?_⟩
    · simp only [seed, read, ↓reduceIte, Option.map_some]
    · rw [OptionCell.render, ofInt_decimal n small]
  · refine ⟨.unsigned (UInt32.ofInt n), ?_, ?_⟩
    · simp only [seed, read, above, ↓reduceIte, Option.bind_some]
    · rw [OptionCell.render, ofInt_decimal n small]

theorem stdmeth_converts (key : CString) (descriptor : OptionDescriptor) (value : CString)
    (listed : descriptor ∈ stdmeth.options) (canonical : Canonical descriptor.type value) :
    ∃ cell, stdmethConvert key value = .ok (some cell) := by
  rw [stdmeth_types descriptor listed] at canonical
  obtain ⟨n, positive, small, numeral⟩ := canonical
  obtain ⟨cell, converted, _⟩ := stdmethConvert_decimal key value n positive small numeral
  exact ⟨cell, converted⟩

theorem stdmeth_renders (key : CString) (descriptor : OptionDescriptor) (value : CString)
    (cell : OptionCell) (listed : descriptor ∈ stdmeth.options)
    (converted : stdmethConvert key value = .ok (some cell)) :
    RendersAs descriptor.type value cell.render := by
  rw [stdmeth_types descriptor listed]
  intro n positive small canonical
  obtain ⟨stored, read, text⟩ := stdmethConvert_decimal key value n positive small canonical
  rw [converted, Except.ok.injEq, Option.some.injEq] at read
  rw [read, text]

theorem BBHash.types (descriptor : OptionDescriptor)
    (listed : descriptor ∈ BBHash.method.options) : descriptor.type = .uint := by
  rw [List.mem_singleton.mp listed]

theorem BBHash.convert_decimal (key value : CString) (n : Nat) (small : n < 2 ^ 32)
    (canonical : value.bytes = decimal n) :
    ∃ cell, BBHash.convert key value = .ok (some cell) ∧ cell.render = value.bytes := by
  have leading : leadingInteger value.bytes = some (n : Int) := by
    rw [canonical]
    exact leadingInteger_of_whole _ _ (wholeInteger_decimal n)
  have read : stoul value.bytes = .ok n :=
    stoul_nonneg value.bytes n leading (by unfold ulongMax; omega)
  refine ⟨.unsigned (UInt32.ofNat n), ?_, ?_⟩
  · simp only [BBHash.convert, read, Except.map]
  · rw [canonical, OptionCell.render, UInt32.toNat_ofNat', Nat.mod_eq_of_lt small]

theorem BBHash.converts (key : CString) (descriptor : OptionDescriptor) (value : CString)
    (listed : descriptor ∈ BBHash.method.options) (canonical : Canonical descriptor.type value) :
    ∃ cell, BBHash.convert key value = .ok (some cell) := by
  rw [BBHash.types descriptor listed] at canonical
  obtain ⟨n, _, small, numeral⟩ := canonical
  obtain ⟨cell, converted, _⟩ := BBHash.convert_decimal key value n small numeral
  exact ⟨cell, converted⟩

theorem BBHash.renders (key : CString) (descriptor : OptionDescriptor) (value : CString)
    (cell : OptionCell) (listed : descriptor ∈ BBHash.method.options)
    (converted : BBHash.convert key value = .ok (some cell)) :
    RendersAs descriptor.type value cell.render := by
  rw [BBHash.types descriptor listed]
  intro n _ small canonical
  obtain ⟨stored, read, text⟩ := BBHash.convert_decimal key value n small canonical
  rw [converted, Except.ok.injEq, Option.some.injEq] at read
  rw [read, text]

theorem stddef_converts (key : CString) (descriptor : OptionDescriptor) (value : CString)
    (listed : descriptor ∈ stddef.options) (named : descriptor.name = key.bytes)
    (canonical : Canonical descriptor.type value) :
    ∃ cell, stddefConvert key value = .ok (some cell) := by
  simp only [stddef, gStddefOptions, List.mem_cons, List.not_mem_nil, or_false] at listed
  unfold stddefConvert
  rw [← named]
  rcases listed with rfl | rfl | rfl
  · exact ⟨_, if_neg emitHeaderGuard_ne_arrayName.symm⟩
  · simp only [↓reduceIte, flagCell]
    by_cases on : value.bytes = ascii "true" ∨ value.bytes = ascii "1"
    · exact ⟨.flag true, by rw [if_pos on]⟩
    · have off := Or.resolve_left canonical on
      exact ⟨.flag false, by rw [if_neg on, if_pos off]⟩
  · exact ⟨_, if_neg guardPrefix_ne_emitHeaderGuard⟩

theorem stddef_renders (key : CString) (descriptor : OptionDescriptor) (value : CString)
    (cell : OptionCell) (listed : descriptor ∈ stddef.options)
    (named : descriptor.name = key.bytes)
    (converted : stddefConvert key value = .ok (some cell)) :
    RendersAs descriptor.type value cell.render := by
  simp only [stddef, gStddefOptions, List.mem_cons, List.not_mem_nil, or_false] at listed
  unfold stddefConvert at converted
  rw [← named] at converted
  rcases listed with rfl | rfl | rfl
  · simp only [emitHeaderGuard_ne_arrayName.symm, ↓reduceIte, Except.ok.injEq, Option.some.injEq]
      at converted
    rw [← converted]
    rfl
  · simp only [↓reduceIte, flagCell, Except.ok.injEq] at converted
    by_cases on : value.bytes = ascii "true" ∨ value.bytes = ascii "1"
    · simp only [on, ↓reduceIte, Option.some.injEq] at converted
      rw [← converted]
      exact Or.inl ⟨on, rfl⟩
    by_cases off : value.bytes = ascii "false" ∨ value.bytes = ascii "0"
    · simp only [on, off, ↓reduceIte, Option.some.injEq] at converted
      rw [← converted]
      exact Or.inr ⟨off, rfl⟩
    · simp only [on, off, ↓reduceIte, reduceCtorEq] at converted
  · simp only [guardPrefix_ne_emitHeaderGuard, ↓reduceIte, Except.ok.injEq, Option.some.injEq]
      at converted
    rw [← converted]
    rfl

/-- The three hand-written copies of the option functions simulate one option store. -/
theorem option_accessors_refine_store :
    RefinesOptionStore stdmeth.toAccessors ∧ RefinesOptionStore stddef ∧
      RefinesOptionStore BBHash.method.toAccessors := by
  refine ⟨stdmethModel.refines ?_ ?_, stddefModel.refines stddef_converts stddef_renders,
    BBHash.model.refines ?_ ?_⟩
  · intro key descriptor value listed _ canonical
    exact stdmeth_converts key descriptor value listed canonical
  · intro key descriptor value cell listed _ converted
    exact stdmeth_renders key descriptor value cell listed converted
  · intro key descriptor value listed _ canonical
    exact BBHash.converts key descriptor value listed canonical
  · intro key descriptor value cell listed _ converted
    exact BBHash.renders key descriptor value cell listed converted

end Nuperf
