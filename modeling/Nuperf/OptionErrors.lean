import Nuperf.OptionRefinement

set_option autoImplicit false

namespace Nuperf

open ByteString Numeral CStandard NamedStore

section

variable {Impl : Type} (plugin : Accessors Impl)

/-- A `set_option` call that keeps its promises: it returns a status, a failed request
changes nothing, and an accepted one changes no option but the one it names. -/
def KeepsContract (view : Impl → Store CString OptionCell) (impl : Impl) (key value : CString) :
    Prop :=
  ∃ status, (plugin.set impl key value).2 = .ok status ∧
    (status ≠ .ok → (plugin.set impl key value).1 = impl) ∧
    (status = .ok → ∀ other, other ≠ key →
      view (plugin.set impl key value).1 other = view impl other)

/-- Three statuses are all that `set_option` returns, and the option table tells a refused
value from an unknown name. A null argument is reported and changes nothing. -/
structure AnswersByTable : Prop where
  answers : ∀ impl key value status, (plugin.set impl key value).2 = .ok status →
    status = .ok ∧ key.bytes ∈ plugin.names ∨
      status = .errInvalidArgument ∧ key.bytes ∈ plugin.names ∨
      status = .errNotFound ∧ key.bytes ∉ plugin.names
  setNull : ∀ held key value, (held.bind Instance.impl).isNone ∨ key = none ∨ value = none →
    plugin.setOption held key value = (held, .ok .errInvalidArgument)
  getNull : ∀ held key value inoutSize,
    (held.bind Instance.impl).isNone ∨ key = none ∨ inoutSize = none →
    plugin.getOption held key value inoutSize = (.errInvalidArgument, value, inoutSize)

/-- The calls of a sequence that returned `NUPERF_OK`, in order. -/
def Accessors.acceptedCalls (impl : Impl) (calls : List (CString × CString)) :
    List (CString × CString) :=
  acceptedRequests plugin.request impl calls

/-- Two sequences with the same accepted calls end in the same state. -/
def SettledByAccepted : Prop :=
  ∀ impl left right, plugin.acceptedCalls impl left = plugin.acceptedCalls impl right →
    plugin.run impl left = plugin.run impl right

/-- The states a sequence of calls goes through, each with the call made there. -/
def Accessors.visits (impl : Impl) : List (CString × CString) → List (Impl × CString × CString)
  | [] => []
  | call :: rest => (impl, call) :: Accessors.visits (plugin.set impl call.1 call.2).1 rest

end

section Model

variable {Impl : Type} {plugin : Accessors Impl}

theorem OptionModel.settledByAccepted (model : OptionModel plugin) : SettledByAccepted plugin := by
  intro impl left right same
  have kept := model.implements.not_stored
  have leftEnd := run_acceptedRequests plugin.request kept impl left
  have rightEnd := run_acceptedRequests plugin.request kept impl right
  rw [OptionModel.run_eq, OptionModel.run_eq, ← leftEnd, ← rightEnd]
  exact congrArg _ same

theorem OptionModel.status_cases (model : OptionModel plugin) (impl : Impl) (key value : CString)
    (status : Status) (returned : (plugin.set impl key value).2 = .ok status) :
    status = .ok ∧ key.bytes ∈ plugin.names ∨
      status = .errInvalidArgument ∧ key.bytes ∈ plugin.names ∨
      status = .errNotFound ∧ key.bytes ∉ plugin.names := by
  have unknown := model.set_notFound_iff impl key value
  rw [returned, Except.ok.injEq] at unknown
  rcases model.answers impl key value status returned with stored | refused | missing
  · refine .inl ⟨stored, ?_⟩
    by_contra unlisted
    cases stored.symm.trans (unknown.mpr unlisted)
  · refine .inr (.inl ⟨refused, ?_⟩)
    by_contra unlisted
    cases refused.symm.trans (unknown.mpr unlisted)
  · exact .inr (.inr ⟨missing, unknown.mp missing⟩)

theorem OptionModel.answersByTable (model : OptionModel plugin) : AnswersByTable plugin where
  answers := model.status_cases
  setNull := plugin.setOption_null
  getNull := plugin.getOption_null

/-- All that a plugin can get wrong is to let an exception out. -/
theorem OptionModel.keepsContract_iff (model : OptionModel plugin) (impl : Impl)
    (key value : CString) :
    KeepsContract plugin model.view impl key value ↔
      ∃ status, (plugin.set impl key value).2 = .ok status := by
  constructor
  · rintro ⟨status, returned, -, -⟩
    exact ⟨status, returned⟩
  · rintro ⟨status, returned⟩
    refine ⟨status, returned, ?_, ?_⟩
    · intro failed
      apply model.implements.not_stored impl key value
      intro stored
      have accepted := (outcome_stored_iff _).mp stored
      rw [returned] at accepted
      exact failed (Except.ok.inj accepted)
    · intro _ other apart
      exact model.implements.frame impl key other value apart

/-- A run keeps the contract when each of its calls does. -/
theorem run_keepsContract_iff (view : Impl → Store CString OptionCell)
    (condition : CString → CString → Prop)
    (step : ∀ impl key value, KeepsContract plugin view impl key value ↔ condition key value)
    (impl : Impl) (calls : List (CString × CString)) :
    (∀ visit ∈ plugin.visits impl calls, KeepsContract plugin view visit.1 visit.2.1 visit.2.2) ↔
      ∀ call ∈ calls, condition call.1 call.2 := by
  induction calls generalizing impl with
  | nil => simp only [Accessors.visits, List.not_mem_nil, false_imp_iff, implies_true]
  | cons call rest ih =>
      rw [Accessors.visits, List.forall_mem_cons, List.forall_mem_cons,
        ih (plugin.set impl call.1 call.2).1]
      exact and_congr_left fun _ => step impl call.1 call.2

end Model

theorem storePositive_returns (options : StdmethOptions) (value : CString)
    (store : UInt32 → StdmethOptions) :
    ∃ status, (storePositive options value store).2 = .ok status := by
  unfold storePositive
  cases strtol value.bytes with
  | none => exact ⟨_, rfl⟩
  | some val =>
      dsimp only
      split_ifs
      · exact ⟨_, rfl⟩
      · exact ⟨_, rfl⟩

theorem stdmeth_returns (options : StdmethOptions) (key value : CString) :
    ∃ status, (stdmeth.set options key value).2 = .ok status := by
  change ∃ status, (stdmethSetOption options key value).2 = .ok status
  unfold stdmethSetOption
  split_ifs
  · exact storePositive_returns options value _
  · exact storePositive_returns options value _
  · cases strtol value.bytes with
    | none => exact ⟨_, rfl⟩
    | some val => exact ⟨_, rfl⟩
  · exact ⟨_, rfl⟩

theorem stddef_returns (options : StddefOptions) (key value : CString) :
    ∃ status, (stddef.set options key value).2 = .ok status := by
  change ∃ status, (stddefSetOption options key value).2 = .ok status
  unfold stddefSetOption
  split_ifs <;> exact ⟨_, rfl⟩

namespace BBHash

/-- The values for which `std::stoul` returns, asked of `gamma` only. -/
def Returns (key value : CString) : Prop :=
  key.bytes = ascii "gamma" → ∃ n, leadingInteger value.bytes = some n ∧ n.natAbs ≤ ulongMax

theorem returns_iff (impl : MethodImpl) (key value : CString) :
    (∃ status, (method.set impl key value).2 = .ok status) ↔ Returns key value := by
  change (∃ status, (setOption impl key value).2 = .ok status) ↔ _
  unfold setOption Returns
  by_cases gamma : key.bytes = ascii "gamma"
  · simp only [gamma, ne_eq, not_true_eq_false, ↓reduceIte, forall_const]
    rw [← stoul_ok_iff]
    cases stoul value.bytes with
    | error thrown => simp
    | ok parsed => simp
  · simp [gamma]

end BBHash

/-- `set_option` keeps its contract for `stdmeth` and `stddef` on every input, and for
BBHash exactly where `std::stoul` does not throw, in one call and over a run. -/
theorem set_option_contract_iff (method : StdmethOptions) (target : StddefOptions)
    (impl : BBHash.MethodImpl) (key value : CString) (calls : List (CString × CString)) :
    KeepsContract stdmeth.toAccessors stdmethView method key value ∧
    KeepsContract stddef stddefView target key value ∧
    (KeepsContract BBHash.method.toAccessors BBHash.view impl key value ↔
      (key.bytes = ascii "gamma" →
        ∃ n, leadingInteger value.bytes = some n ∧ n.natAbs ≤ ulongMax)) ∧
    ((∀ visit ∈ BBHash.method.visits impl calls,
        KeepsContract BBHash.method.toAccessors BBHash.view visit.1 visit.2.1 visit.2.2) ↔
      ∀ call ∈ calls, call.1.bytes = ascii "gamma" →
        ∃ n, leadingInteger call.2.bytes = some n ∧ n.natAbs ≤ ulongMax) ∧
    SettledByAccepted stdmeth.toAccessors ∧ SettledByAccepted stddef ∧
      SettledByAccepted BBHash.method.toAccessors := by
  have gamma : ∀ impl key value,
      KeepsContract BBHash.method.toAccessors BBHash.view impl key value ↔
        BBHash.Returns key value := by
    intro impl key value
    rw [← BBHash.returns_iff impl]
    exact BBHash.model.keepsContract_iff impl key value
  refine ⟨?_, ?_, gamma impl key value, ?_, stdmethModel.settledByAccepted,
    stddefModel.settledByAccepted, BBHash.model.settledByAccepted⟩
  · apply (stdmethModel.keepsContract_iff method key value).mpr
    exact stdmeth_returns method key value
  · apply (stddefModel.keepsContract_iff target key value).mpr
    exact stddef_returns target key value
  · exact run_keepsContract_iff BBHash.view BBHash.Returns gamma impl calls

/-- An empty `gamma` leaves BBHash through an exception. -/
theorem set_option_throws_on_empty_gamma :
    ¬ KeepsContract BBHash.method.toAccessors BBHash.view {} ⟨ascii "gamma", by decide⟩
      ⟨[], by decide⟩ := by
  intro kept
  obtain ⟨status, returned, -⟩ := kept
  cases returned

end Nuperf
