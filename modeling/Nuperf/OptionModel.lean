import Nuperf.BBHash
import Nuperf.Library.NamedStore
import Nuperf.Stddef
import Nuperf.Stdmeth

set_option autoImplicit false

namespace Nuperf

open ByteString Numeral CStandard NamedStore

/-- What a plugin keeps for one of its options. `stdmeth` also remembers whether its
seed was ever given. -/
inductive OptionCell
  | unsigned (value : UInt32)
  | seed (value : UInt32) (given : Bool)
  | text (value : Bytes)
  | flag (value : Bool)
  deriving DecidableEq

def OptionCell.render : OptionCell → Bytes
  | .unsigned value => decimal value.toNat
  | .seed value _ => decimal value.toNat
  | .text value => value
  | .flag value => if value then ascii "true" else ascii "false"

/-- A completed `set_option` call as an answer of the option store. -/
def outcome : Completion → Outcome CxxException
  | .error thrown => .escaped thrown
  | .ok .ok => .stored
  | .ok .errNotFound => .unknown
  | .ok _ => .refused

theorem outcome_stored_iff (completion : Completion) :
    outcome completion = .stored ↔ completion = .ok .ok := by
  rcases completion with thrown | status
  · simp [outcome]
  · cases status <;> simp [outcome]

theorem outcome_unknown_iff (completion : Completion) :
    outcome completion = .unknown ↔ completion = .ok .errNotFound := by
  rcases completion with thrown | status
  · simp [outcome]
  · cases status <;> simp [outcome]

def Accessors.request {Impl : Type} (plugin : Accessors Impl) (impl : Impl)
    (key value : CString) : Impl × Outcome CxxException :=
  ((plugin.set impl key value).1, outcome (plugin.set impl key value).2)

/-- The two-phase read of what a store holds at a name. -/
def replyOf (held : Option OptionCell) (buffer : Option Bytes) (capacity : Nat) : GetReply :=
  match held with
  | none => ⟨.errNotFound, buffer, capacity⟩
  | some cell =>
      let fetched := fetch 0 cell.render buffer capacity
      ⟨if fetched.fits then .ok else .errBufferTooSmall, fetched.buffer, fetched.size⟩

theorem copyOut_eq_replyOf (cell : OptionCell) (buffer : Option Bytes) (capacity : Nat) :
    copyOut cell.render buffer capacity = replyOf (some cell) buffer capacity := by
  cases buffer with
  | none => rfl
  | some old =>
      by_cases fits : cell.render.length + 1 ≤ capacity
      · have room : ¬ capacity < cell.render.length + 1 := by omega
        simp [copyOut, replyOf, fetch, overwrite, fits, room]
      · have small : capacity < cell.render.length + 1 := by omega
        simp [copyOut, replyOf, fetch, fits, small]

/-- A plugin's option functions as an implementation of the named option store: its
state is a store of cells over the names of its option table, `set_option` updates
that store and `get_option` reads it. -/
structure OptionModel {Impl : Type} (plugin : Accessors Impl) where
  view : Impl → Store CString OptionCell
  convert : Conversion CString CString OptionCell CxxException
  implements : Implements convert view plugin.request
  reads : ∀ impl key buffer capacity,
    plugin.get impl key buffer capacity = replyOf (view impl key) buffer capacity
  domain : ∀ impl key, view impl key = none ↔ key.bytes ∉ plugin.options.map OptionDescriptor.name
  fresh : ∀ key descriptor, descriptor ∈ plugin.options → descriptor.name = key.bytes →
    (view plugin.create key).map OptionCell.render = some descriptor.defaultValue
  answers : ∀ impl key value status, (plugin.set impl key value).2 = .ok status →
    status = .ok ∨ status = .errInvalidArgument ∨ status = .errNotFound

/-- The two guarded options of `stdmeth`. -/
def positiveCell (value : CString) : Option OptionCell :=
  (strtol value.bytes).bind fun val =>
    if val ≤ 0 then none else some (.unsigned (UInt32.ofInt val))

def stdmethView (options : StdmethOptions) : Store CString OptionCell := fun name =>
  if name.bytes = ascii "bucket_size" then some (.unsigned options.bucketSize)
  else if name.bytes = ascii "max_iterations" then some (.unsigned options.maxIterations)
  else if name.bytes = ascii "seed" then some (.seed options.seed options.seedSet)
  else none

def stdmethConvert : Conversion CString CString OptionCell CxxException := fun name value =>
  if name.bytes = ascii "seed" then
    .ok ((strtol value.bytes).map fun val => .seed (UInt32.ofInt val) true)
  else .ok (positiveCell value)

def BBHash.view (impl : BBHash.MethodImpl) : Store CString OptionCell := fun name =>
  if name.bytes = ascii "gamma" then some (.unsigned impl.gamma) else none

def BBHash.convert : Conversion CString CString OptionCell CxxException := fun _ value =>
  (stoul value.bytes).map fun parsed => some (.unsigned (UInt32.ofNat parsed))

def stddefView (options : StddefOptions) : Store CString OptionCell := fun name =>
  if name.bytes = ascii "array_name" then some (.text options.arrayName)
  else if name.bytes = ascii "emit_header_guard" then some (.flag options.emitHeaderGuard)
  else if name.bytes = ascii "guard_prefix" then some (.text options.guardPrefix)
  else none

def flagCell (value : CString) : Option OptionCell :=
  if value.bytes = ascii "true" ∨ value.bytes = ascii "1" then some (.flag true)
  else if value.bytes = ascii "false" ∨ value.bytes = ascii "0" then some (.flag false)
  else none

def stddefConvert : Conversion CString CString OptionCell CxxException := fun name value =>
  if name.bytes = ascii "emit_header_guard" then .ok (flagCell value)
  else .ok (some (.text value.bytes))

theorem bytes_ne {other name : CString} {literal : Bytes} (apart : other ≠ name)
    (named : name.bytes = literal) : other.bytes ≠ literal := by
  intro equal
  exact apart (CString.ext (equal.trans named.symm))

section Stdmeth

variable (options : StdmethOptions) (name : CString) (value : UInt32)

theorem stdmethView_bucketSize (named : name.bytes = ascii "bucket_size") :
    stdmethView { options with bucketSize := value } =
      Function.update (stdmethView options) name (some (.unsigned value)) := by
  rw [Function.eq_update_iff]
  refine ⟨?_, ?_⟩
  · simp only [stdmethView, named, ↓reduceIte]
  · intro other apart
    simp only [stdmethView, bytes_ne apart named, ↓reduceIte]

theorem stdmethView_maxIterations (named : name.bytes = ascii "max_iterations") :
    stdmethView { options with maxIterations := value } =
      Function.update (stdmethView options) name (some (.unsigned value)) := by
  rw [Function.eq_update_iff]
  refine ⟨?_, ?_⟩
  · simp only [stdmethView, named, maxIterations_ne_bucketSize, ↓reduceIte]
  · intro other apart
    simp only [stdmethView, bytes_ne apart named, ↓reduceIte]

theorem stdmethView_seed (named : name.bytes = ascii "seed") :
    stdmethView { options with seed := value, seedSet := true } =
      Function.update (stdmethView options) name (some (.seed value true)) := by
  rw [Function.eq_update_iff]
  refine ⟨?_, ?_⟩
  · simp only [stdmethView, named, seed_ne_bucketSize, seed_ne_maxIterations, ↓reduceIte]
  · intro other apart
    simp only [stdmethView, bytes_ne apart named, ↓reduceIte]

/-- The guarded block does to the view what a request on its option does. -/
theorem storePositive_simulates (text : CString) (store : UInt32 → StdmethOptions)
    (present : stdmethView options name ≠ none)
    (converts : stdmethConvert name text = .ok (positiveCell text))
    (updates : ∀ val, stdmethView (store val) =
      Function.update (stdmethView options) name (some (.unsigned val))) :
    (stdmethView (storePositive options text store).1,
        outcome (storePositive options text store).2) =
      NamedStore.set stdmethConvert (stdmethView options) name text := by
  cases held : stdmethView options name with
  | none => exact absurd held present
  | some old =>
      simp only [NamedStore.set, held, converts, storePositive, positiveCell]
      cases strtol text.bytes with
      | none => rfl
      | some val =>
          by_cases low : val ≤ 0
          · simp only [low, ↓reduceIte, Option.bind_some]
            rfl
          · simp only [low, ↓reduceIte, Option.bind_some]
            exact Prod.ext (updates _) rfl

theorem stdmeth_simulates (text : CString) :
    (stdmethView (stdmeth.request options name text).1, (stdmeth.request options name text).2) =
      NamedStore.set stdmethConvert (stdmethView options) name text := by
  by_cases bucket : name.bytes = ascii "bucket_size"
  · simp only [Accessors.request, stdmeth, stdmethSetOption, bucket, ↓reduceIte]
    apply storePositive_simulates
    · simp only [stdmethView, bucket, ↓reduceIte, ne_eq, reduceCtorEq, not_false_eq_true]
    · simp only [stdmethConvert, bucket, seed_ne_bucketSize.symm, ↓reduceIte]
    · exact fun val => stdmethView_bucketSize options name val bucket
  by_cases iterations : name.bytes = ascii "max_iterations"
  · simp only [Accessors.request, stdmeth, stdmethSetOption, iterations,
      maxIterations_ne_bucketSize, ↓reduceIte]
    apply storePositive_simulates
    · simp only [stdmethView, iterations, maxIterations_ne_bucketSize, ↓reduceIte, ne_eq,
        reduceCtorEq, not_false_eq_true]
    · simp only [stdmethConvert, iterations, seed_ne_maxIterations.symm, ↓reduceIte]
    · exact fun val => stdmethView_maxIterations options name val iterations
  by_cases seed : name.bytes = ascii "seed"
  · simp only [Accessors.request, stdmeth, stdmethSetOption, seed, NamedStore.set, stdmethView,
      stdmethConvert, seed_ne_bucketSize, seed_ne_maxIterations, ↓reduceIte]
    cases strtol text.bytes with
    | none => rfl
    | some val => exact Prod.ext (stdmethView_seed options name _ seed) rfl
  · simp only [Accessors.request, stdmeth, stdmethSetOption, bucket, iterations, seed,
      NamedStore.set, stdmethView, ↓reduceIte]
    rfl

end Stdmeth

theorem stdmethView_injective : Function.Injective stdmethView := by
  intro left right same
  have bucket := congrFun same ⟨ascii "bucket_size", by decide⟩
  have iterations := congrFun same ⟨ascii "max_iterations", by decide⟩
  have seed := congrFun same ⟨ascii "seed", by decide⟩
  simp only [stdmethView, maxIterations_ne_bucketSize, seed_ne_bucketSize, seed_ne_maxIterations,
    ↓reduceIte, Option.some.injEq, OptionCell.unsigned.injEq, OptionCell.seed.injEq]
    at bucket iterations seed
  cases left
  cases right
  simp_all

theorem stdmeth_reads (options : StdmethOptions) (key : CString) (buffer : Option Bytes)
    (capacity : Nat) : stdmeth.get options key buffer capacity =
      replyOf (stdmethView options key) buffer capacity := by
  change stdmethGetOption options key buffer capacity = _
  unfold stdmethGetOption stdmethView
  rw [printUnsigned_eq, printUnsigned_eq, printUnsigned_eq]
  by_cases bucket : key.bytes = ascii "bucket_size"
  · simp only [bucket, ↓reduceIte]
    exact copyOut_eq_replyOf (.unsigned options.bucketSize) buffer capacity
  by_cases iterations : key.bytes = ascii "max_iterations"
  · rw [if_neg bucket, if_pos iterations, if_neg bucket, if_pos iterations]
    exact copyOut_eq_replyOf (.unsigned options.maxIterations) buffer capacity
  by_cases seed : key.bytes = ascii "seed"
  · rw [if_neg bucket, if_neg iterations, if_pos seed, if_neg bucket, if_neg iterations,
      if_pos seed]
    exact copyOut_eq_replyOf (.seed options.seed options.seedSet) buffer capacity
  · simp only [bucket, iterations, seed, ↓reduceIte]
    rfl

/-- Nothing in the option chains of `stdmeth` names another option than its table does. -/
theorem stdmeth_domain (options : StdmethOptions) (key : CString) :
    stdmethView options key = none ↔ key.bytes ∉ stdmeth.options.map OptionDescriptor.name := by
  change _ ↔ key.bytes ∉ [ascii "bucket_size", ascii "max_iterations", ascii "seed"]
  simp only [List.mem_cons, List.not_mem_nil, or_false, not_or]
  unfold stdmethView
  by_cases bucket : key.bytes = ascii "bucket_size"
  · simp only [bucket, ↓reduceIte, reduceCtorEq, not_true_eq_false, false_and]
  by_cases iterations : key.bytes = ascii "max_iterations"
  · rw [if_neg bucket, if_pos iterations]
    simp only [iterations, reduceCtorEq, not_true_eq_false, false_and, and_false]
  by_cases seed : key.bytes = ascii "seed"
  · rw [if_neg bucket, if_neg iterations, if_pos seed]
    simp only [seed, reduceCtorEq, not_true_eq_false, and_false]
  · simp only [bucket, iterations, seed, ↓reduceIte, not_false_eq_true, and_self]

theorem stdmeth_fresh (key : CString) (descriptor : OptionDescriptor)
    (listed : descriptor ∈ stdmeth.options) (named : descriptor.name = key.bytes) :
    (stdmethView stdmeth.create key).map OptionCell.render = some descriptor.defaultValue := by
  simp only [stdmeth, gStdmethOptions, List.mem_cons, List.not_mem_nil, or_false] at listed
  unfold stdmethView
  rcases listed with rfl | rfl | rfl <;> rw [← named] <;> decide

theorem storePositive_answers (options : StdmethOptions) (text : CString)
    (store : UInt32 → StdmethOptions) (status : Status)
    (returned : (storePositive options text store).2 = .ok status) :
    status = .ok ∨ status = .errInvalidArgument := by
  unfold storePositive at returned
  cases converted : strtol text.bytes with
  | none =>
      simp only [converted, Except.ok.injEq] at returned
      exact Or.inr returned.symm
  | some val =>
      simp only [converted] at returned
      by_cases low : val ≤ 0
      · rw [if_pos low] at returned
        exact Or.inr (Except.ok.inj returned).symm
      · rw [if_neg low] at returned
        exact Or.inl (Except.ok.inj returned).symm

theorem stdmeth_answers (options : StdmethOptions) (key value : CString) (status : Status)
    (returned : (stdmeth.set options key value).2 = .ok status) :
    status = .ok ∨ status = .errInvalidArgument ∨ status = .errNotFound := by
  change (stdmethSetOption options key value).2 = .ok status at returned
  unfold stdmethSetOption at returned
  split_ifs at returned
  · exact (storePositive_answers options value _ status returned).imp_right Or.inl
  · exact (storePositive_answers options value _ status returned).imp_right Or.inl
  · cases converted : strtol value.bytes with
    | none =>
        simp only [converted, Except.ok.injEq] at returned
        exact Or.inr (Or.inl returned.symm)
    | some val =>
        simp only [converted, Except.ok.injEq] at returned
        exact Or.inl returned.symm
  · exact Or.inr (Or.inr (Except.ok.inj returned).symm)

section Stddef

variable (options : StddefOptions) (name : CString)

theorem stddefView_arrayName (value : Bytes) (named : name.bytes = ascii "array_name") :
    stddefView { options with arrayName := value } =
      Function.update (stddefView options) name (some (.text value)) := by
  rw [Function.eq_update_iff]
  refine ⟨?_, ?_⟩
  · simp only [stddefView, named, ↓reduceIte]
  · intro other apart
    simp only [stddefView, bytes_ne apart named, ↓reduceIte]

theorem stddefView_emitHeaderGuard (value : Bool)
    (named : name.bytes = ascii "emit_header_guard") :
    stddefView { options with emitHeaderGuard := value } =
      Function.update (stddefView options) name (some (.flag value)) := by
  rw [Function.eq_update_iff]
  refine ⟨?_, ?_⟩
  · simp only [stddefView, named, emitHeaderGuard_ne_arrayName, ↓reduceIte]
  · intro other apart
    simp only [stddefView, bytes_ne apart named, ↓reduceIte]

theorem stddefView_guardPrefix (value : Bytes) (named : name.bytes = ascii "guard_prefix") :
    stddefView { options with guardPrefix := value } =
      Function.update (stddefView options) name (some (.text value)) := by
  rw [Function.eq_update_iff]
  refine ⟨?_, ?_⟩
  · simp only [stddefView, named, guardPrefix_ne_arrayName, guardPrefix_ne_emitHeaderGuard,
      ↓reduceIte]
  · intro other apart
    simp only [stddefView, bytes_ne apart named, ↓reduceIte]

theorem stddef_simulates (text : CString) :
    (stddefView (stddef.request options name text).1, (stddef.request options name text).2) =
      NamedStore.set stddefConvert (stddefView options) name text := by
  by_cases array : name.bytes = ascii "array_name"
  · simp only [Accessors.request, stddef, stddefSetOption, array, NamedStore.set, stddefView,
      stddefConvert, emitHeaderGuard_ne_arrayName.symm, ↓reduceIte]
    exact Prod.ext (stddefView_arrayName options name _ array) rfl
  by_cases guard_ : name.bytes = ascii "emit_header_guard"
  · simp only [Accessors.request, stddef, stddefSetOption, guard_, NamedStore.set, stddefView,
      stddefConvert, emitHeaderGuard_ne_arrayName, ↓reduceIte, flagCell]
    by_cases on : text.bytes = ascii "true" ∨ text.bytes = ascii "1"
    · simp only [on, ↓reduceIte]
      exact Prod.ext (stddefView_emitHeaderGuard options name true guard_) rfl
    by_cases off : text.bytes = ascii "false" ∨ text.bytes = ascii "0"
    · simp only [on, off, ↓reduceIte]
      exact Prod.ext (stddefView_emitHeaderGuard options name false guard_) rfl
    · simp only [on, off, ↓reduceIte]
      rfl
  by_cases guardPrefix : name.bytes = ascii "guard_prefix"
  · simp only [Accessors.request, stddef, stddefSetOption, guardPrefix, NamedStore.set, stddefView,
      stddefConvert, guardPrefix_ne_arrayName, guardPrefix_ne_emitHeaderGuard, ↓reduceIte]
    exact Prod.ext (stddefView_guardPrefix options name _ guardPrefix) rfl
  · simp only [Accessors.request, stddef, stddefSetOption, array, guard_, guardPrefix,
      NamedStore.set, stddefView, ↓reduceIte]
    rfl

end Stddef

theorem stddefView_injective : Function.Injective stddefView := by
  intro left right same
  have array := congrFun same ⟨ascii "array_name", by decide⟩
  have guard_ := congrFun same ⟨ascii "emit_header_guard", by decide⟩
  have guardPrefix := congrFun same ⟨ascii "guard_prefix", by decide⟩
  simp only [stddefView, emitHeaderGuard_ne_arrayName, guardPrefix_ne_arrayName,
    guardPrefix_ne_emitHeaderGuard, ↓reduceIte, Option.some.injEq, OptionCell.text.injEq,
    OptionCell.flag.injEq] at array guard_ guardPrefix
  cases left
  cases right
  simp_all

theorem stddef_reads (options : StddefOptions) (key : CString) (buffer : Option Bytes)
    (capacity : Nat) : stddef.get options key buffer capacity =
      replyOf (stddefView options key) buffer capacity := by
  change stddefGetOption options key buffer capacity = _
  unfold stddefGetOption stddefView
  by_cases array : key.bytes = ascii "array_name"
  · simp only [array, ↓reduceIte]
    exact copyOut_eq_replyOf (.text options.arrayName) buffer capacity
  by_cases guard_ : key.bytes = ascii "emit_header_guard"
  · rw [if_neg array, if_pos guard_, if_neg array, if_pos guard_]
    exact copyOut_eq_replyOf (.flag options.emitHeaderGuard) buffer capacity
  by_cases guardPrefix : key.bytes = ascii "guard_prefix"
  · rw [if_neg array, if_neg guard_, if_pos guardPrefix, if_neg array, if_neg guard_,
      if_pos guardPrefix]
    exact copyOut_eq_replyOf (.text options.guardPrefix) buffer capacity
  · simp only [array, guard_, guardPrefix, ↓reduceIte]
    rfl

theorem stddef_domain (options : StddefOptions) (key : CString) :
    stddefView options key = none ↔ key.bytes ∉ stddef.options.map OptionDescriptor.name := by
  change _ ↔ key.bytes ∉ [ascii "array_name", ascii "emit_header_guard", ascii "guard_prefix"]
  simp only [List.mem_cons, List.not_mem_nil, or_false, not_or]
  unfold stddefView
  by_cases array : key.bytes = ascii "array_name"
  · simp only [array, ↓reduceIte, reduceCtorEq, not_true_eq_false, false_and]
  by_cases guard_ : key.bytes = ascii "emit_header_guard"
  · rw [if_neg array, if_pos guard_]
    simp only [guard_, reduceCtorEq, not_true_eq_false, false_and, and_false]
  by_cases guardPrefix : key.bytes = ascii "guard_prefix"
  · rw [if_neg array, if_neg guard_, if_pos guardPrefix]
    simp only [guardPrefix, reduceCtorEq, not_true_eq_false, and_false]
  · simp only [array, guard_, guardPrefix, ↓reduceIte, not_false_eq_true, and_self]

theorem stddef_fresh (key : CString) (descriptor : OptionDescriptor)
    (listed : descriptor ∈ stddef.options) (named : descriptor.name = key.bytes) :
    (stddefView stddef.create key).map OptionCell.render = some descriptor.defaultValue := by
  simp only [stddef, gStddefOptions, List.mem_cons, List.not_mem_nil, or_false] at listed
  unfold stddefView
  rcases listed with rfl | rfl | rfl <;> rw [← named] <;> decide

theorem stddef_answers (options : StddefOptions) (key value : CString) (status : Status)
    (returned : (stddef.set options key value).2 = .ok status) :
    status = .ok ∨ status = .errInvalidArgument ∨ status = .errNotFound := by
  change (stddefSetOption options key value).2 = .ok status at returned
  unfold stddefSetOption at returned
  split_ifs at returned <;> simp_all

namespace BBHash

theorem simulates (impl : MethodImpl) (name text : CString) :
    (view (method.request impl name text).1, (method.request impl name text).2) =
      NamedStore.set convert (view impl) name text := by
  by_cases gamma : name.bytes = ascii "gamma"
  · simp only [Accessors.request, method, setOption, gamma, NamedStore.set, view, convert, ne_eq,
      not_true_eq_false, ↓reduceIte]
    cases stoul text.bytes with
    | error thrown => rfl
    | ok parsed =>
        refine Prod.ext (Function.eq_update_iff.mpr ⟨?_, ?_⟩) rfl
        · simp only [view, gamma, ↓reduceIte]
        · intro other apart
          simp only [view, bytes_ne apart gamma, ↓reduceIte]
  · simp only [Accessors.request, method, setOption, gamma, NamedStore.set, view, ne_eq,
      not_false_eq_true, ↓reduceIte]
    rfl

theorem view_injective : Function.Injective view := by
  intro left right same
  have gamma := congrFun same ⟨ascii "gamma", by decide⟩
  simp only [view, ↓reduceIte, Option.some.injEq, OptionCell.unsigned.injEq] at gamma
  cases left
  cases right
  exact congrArg _ gamma

theorem reads (impl : MethodImpl) (key : CString) (buffer : Option Bytes) (capacity : Nat) :
    method.get impl key buffer capacity = replyOf (view impl key) buffer capacity := by
  change getOption impl key buffer capacity = _
  unfold getOption view
  by_cases gamma : key.bytes = ascii "gamma"
  · simp only [gamma, ne_eq, not_true_eq_false, ↓reduceIte]
    rw [← copyOut_eq_replyOf]
    cases buffer with
    | none => rfl
    | some old => simp [copyOut, OptionCell.render]
  · simp only [gamma, ne_eq, not_false_eq_true, ↓reduceIte]
    rfl

theorem domain (impl : MethodImpl) (key : CString) :
    view impl key = none ↔ key.bytes ∉ method.options.map OptionDescriptor.name := by
  change _ ↔ key.bytes ∉ [ascii "gamma"]
  rw [List.mem_singleton]
  unfold view
  by_cases gamma : key.bytes = ascii "gamma"
  · simp only [gamma, ↓reduceIte, reduceCtorEq, not_true_eq_false]
  · simp only [gamma, ↓reduceIte, not_false_eq_true]

theorem fresh (key : CString) (descriptor : OptionDescriptor)
    (listed : descriptor ∈ method.options) (named : descriptor.name = key.bytes) :
    (view method.create key).map OptionCell.render = some descriptor.defaultValue := by
  simp only [method, opts, List.mem_singleton] at listed
  subst listed
  unfold view
  rw [← named]
  decide

theorem answers (impl : MethodImpl) (key value : CString) (status : Status)
    (returned : (method.set impl key value).2 = .ok status) :
    status = .ok ∨ status = .errInvalidArgument ∨ status = .errNotFound := by
  change (setOption impl key value).2 = .ok status at returned
  unfold setOption at returned
  split_ifs at returned
  · cases returned
    exact Or.inr (Or.inr rfl)
  · cases parsed : stoul value.bytes with
    | error thrown => simp [parsed] at returned
    | ok n =>
        simp only [parsed, Except.ok.injEq] at returned
        exact Or.inl returned.symm

end BBHash

def stdmethModel : OptionModel stdmeth.toAccessors where
  view := stdmethView
  convert := stdmethConvert
  implements := ⟨stdmethView_injective, stdmeth_simulates⟩
  reads := stdmeth_reads
  domain := stdmeth_domain
  fresh := stdmeth_fresh
  answers := stdmeth_answers

def stddefModel : OptionModel stddef where
  view := stddefView
  convert := stddefConvert
  implements := ⟨stddefView_injective, stddef_simulates⟩
  reads := stddef_reads
  domain := stddef_domain
  fresh := stddef_fresh
  answers := stddef_answers

def BBHash.model : OptionModel BBHash.method.toAccessors where
  view := BBHash.view
  convert := BBHash.convert
  implements := ⟨BBHash.view_injective, BBHash.simulates⟩
  reads := BBHash.reads
  domain := BBHash.domain
  fresh := BBHash.fresh
  answers := BBHash.answers

end Nuperf
