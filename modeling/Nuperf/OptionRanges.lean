import Nuperf.OptionRefinement

set_option autoImplicit false

namespace Nuperf

open ByteString Numeral CStandard NamedStore

/-- The whole string is a decimal numeral of an integer from `low` up to `UINT32_MAX`. -/
def InRange (low : Nat) (value : CString) : Prop :=
  ∃ v : Nat, wholeInteger value.bytes = some (v : Int) ∧ low ≤ v ∧ v < 2 ^ 32

/-- What an accepted unsigned option promises: the value was such a numeral, and the
option now renders exactly the integer it denotes. -/
def StoresExactly {Impl : Type} (plugin : Accessors Impl) (low : Nat) (impl : Impl)
    (key value : CString) : Prop :=
  (plugin.set impl key value).2 = .ok .ok →
    ∃ v : Nat, wholeInteger value.bytes = some (v : Int) ∧ low ≤ v ∧ v < 2 ^ 32 ∧
      Serves plugin (plugin.set impl key value).1 key (decimal v)

/-- The inputs on which the guarded options of `stdmeth` keep that promise: what `strtol`
finds at the front is not positive, or the value is in range as a whole. -/
def GuardedFits (value : CString) : Prop :=
  (∀ n, leadingInteger value.bytes = some n → n ≤ 0) ∨ InRange 1 value

/-- The same for `seed`, which takes any numeral `strtol` finds. -/
def SeedFits (value : CString) : Prop :=
  leadingInteger value.bytes = none ∨ InRange 0 value

/-- The same for `gamma`, whose overflow `stoul` reports. -/
def GammaFits (value : CString) : Prop :=
  (∀ n, leadingInteger value.bytes = some n → ulongMax < n.natAbs) ∨ InRange 0 value

/-- The condition on one call to `stdmeth`. Other keys are not unsigned options. -/
def StdmethFits (key value : CString) : Prop :=
  (key.bytes = ascii "bucket_size" ∨ key.bytes = ascii "max_iterations" → GuardedFits value) ∧
    (key.bytes = ascii "seed" → SeedFits value)

section Strtol

variable (value : CString)

theorem strtol_pos_iff :
    (∃ val, strtol value.bytes = some val ∧ 0 < val) ↔
      ∃ n, leadingInteger value.bytes = some n ∧ 0 < n := by
  unfold strtol
  cases leadingInteger value.bytes with
  | none => simp
  | some n => simp [clampLong_pos]

theorem strtol_of_inRange (v : Nat) (whole : wholeInteger value.bytes = some (v : Int))
    (small : v < 2 ^ 32) : strtol value.bytes = some (v : Int) := by
  apply strtol_of_whole value.bytes v whole
  · unfold longMin
    omega
  · unfold longMax
    omega

end Strtol

/-- A call is exact when it is refused, or when the value is in range and what is stored
is the number it denotes. -/
theorem storesExactly_iff {Impl : Type} (plugin : Accessors Impl) (low : Nat) (impl : Impl)
    (key value : CString) (condition accepts : Prop)
    (accepted : (plugin.set impl key value).2 = .ok .ok ↔ accepts)
    (fits : condition ↔ ¬ accepts ∨ InRange low value)
    (stores : ∀ v : Nat, wholeInteger value.bytes = some (v : Int) → low ≤ v → v < 2 ^ 32 →
      Serves plugin (plugin.set impl key value).1 key (decimal v)) :
    StoresExactly plugin low impl key value ↔ condition := by
  unfold StoresExactly
  rw [accepted, fits]
  constructor
  · intro exact_
    by_cases accepting : accepts
    · obtain ⟨v, whole, above, small, -⟩ := exact_ accepting
      exact Or.inr ⟨v, whole, above, small⟩
    · exact Or.inl accepting
  · intro either accepting
    rcases either with refused | ⟨v, whole, above, small⟩
    · exact absurd accepting refused
    · exact ⟨v, whole, above, small, stores v whole above small⟩

theorem storePositive_accepts_iff (options : StdmethOptions) (value : CString)
    (store : UInt32 → StdmethOptions) :
    (storePositive options value store).2 = .ok .ok ↔
      ∃ n, leadingInteger value.bytes = some n ∧ 0 < n := by
  rw [← strtol_pos_iff]
  unfold storePositive
  cases strtol value.bytes with
  | none => simp
  | some val =>
      by_cases low : val ≤ 0
      · have positive : ¬ 0 < val := by omega
        simp [low, positive]
      · have positive : 0 < val := by omega
        simp [low, positive]

theorem storePositive_inRange (options : StdmethOptions) (value : CString)
    (store : UInt32 → StdmethOptions) (v : Nat)
    (whole : wholeInteger value.bytes = some (v : Int)) (above : 1 ≤ v) (small : v < 2 ^ 32) :
    (storePositive options value store).1 = store (UInt32.ofInt v) := by
  have positive : ¬ (v : Int) ≤ 0 := by omega
  simp only [storePositive, strtol_of_inRange value v whole small, positive, ↓reduceIte]

theorem guardedFits_iff (value : CString) :
    GuardedFits value ↔
      ¬ (∃ n, leadingInteger value.bytes = some n ∧ 0 < n) ∨ InRange 1 value := by
  simp only [GuardedFits, not_exists, not_and, not_lt]

theorem seedFits_iff (value : CString) :
    SeedFits value ↔ ¬ (strtol value.bytes ≠ none) ∨ InRange 0 value := by
  simp only [SeedFits, strtol, ne_eq, Option.map_eq_none_iff, not_not]

theorem gammaFits_iff (value : CString) :
    GammaFits value ↔
      ¬ (∃ n, leadingInteger value.bytes = some n ∧ n.natAbs ≤ ulongMax) ∨ InRange 0 value := by
  simp only [GammaFits, not_exists, not_and, not_le]

theorem bucketSize_exact_iff (options : StdmethOptions) (key value : CString)
    (named : key.bytes = ascii "bucket_size") :
    StoresExactly stdmeth.toAccessors 1 options key value ↔ GuardedFits value := by
  have step : stdmeth.set options key value =
      storePositive options value fun val => { options with bucketSize := val } := if_pos named
  apply storesExactly_iff _ _ _ _ _ _ _ _ (guardedFits_iff value)
  · intro v whole above small
    have cell := stdmethModel.serves { options with bucketSize := UInt32.ofInt v } key
      (.unsigned (UInt32.ofInt v)) (by simp only [stdmethModel, stdmethView, named, ↓reduceIte])
    rw [OptionCell.render, ofInt_decimal v small] at cell
    rw [step, storePositive_inRange options value _ v whole above small]
    exact cell
  · rw [step]
    exact storePositive_accepts_iff options value _

theorem maxIterations_exact_iff (options : StdmethOptions) (key value : CString)
    (named : key.bytes = ascii "max_iterations") :
    StoresExactly stdmeth.toAccessors 1 options key value ↔ GuardedFits value := by
  have step : stdmeth.set options key value =
      storePositive options value fun val => { options with maxIterations := val } := by
    simp only [stdmeth, stdmethSetOption, named, maxIterations_ne_bucketSize, ↓reduceIte]
  apply storesExactly_iff _ _ _ _ _ _ _ _ (guardedFits_iff value)
  · intro v whole above small
    have cell := stdmethModel.serves { options with maxIterations := UInt32.ofInt v } key
      (.unsigned (UInt32.ofInt v))
      (by simp only [stdmethModel, stdmethView, named, maxIterations_ne_bucketSize, ↓reduceIte])
    rw [OptionCell.render, ofInt_decimal v small] at cell
    rw [step, storePositive_inRange options value _ v whole above small]
    exact cell
  · rw [step]
    exact storePositive_accepts_iff options value _

theorem seed_exact_iff (options : StdmethOptions) (key value : CString)
    (named : key.bytes = ascii "seed") :
    StoresExactly stdmeth.toAccessors 0 options key value ↔ SeedFits value := by
  have refused : strtol value.bytes = none →
      stdmeth.set options key value = (options, .ok .errInvalidArgument) := by
    intro none
    show stdmethSetOption options key value = _
    unfold stdmethSetOption
    simp only [named, seed_ne_bucketSize, seed_ne_maxIterations, none, ↓reduceIte]
  have stored : ∀ val, strtol value.bytes = some val → stdmeth.set options key value =
      ({ options with seed := UInt32.ofInt val, seedSet := true }, .ok .ok) := by
    intro val converted
    show stdmethSetOption options key value = _
    unfold stdmethSetOption
    simp only [named, seed_ne_bucketSize, seed_ne_maxIterations, converted, ↓reduceIte]
  apply storesExactly_iff _ _ _ _ _ _ _ _ (seedFits_iff value)
  · intro v whole _ small
    have cell := stdmethModel.serves { options with seed := UInt32.ofInt v, seedSet := true } key
      (.seed (UInt32.ofInt v) true)
      (by simp only [stdmethModel, stdmethView, named, seed_ne_bucketSize, seed_ne_maxIterations,
        ↓reduceIte])
    rw [OptionCell.render, ofInt_decimal v small] at cell
    rw [stored v (strtol_of_inRange value v whole small)]
    exact cell
  · cases converted : strtol value.bytes with
    | none =>
        rw [refused converted]
        simp
    | some val =>
        rw [stored val converted]
        simp

theorem BBHash.gamma_exact_iff (impl : BBHash.MethodImpl) (key value : CString)
    (named : key.bytes = ascii "gamma") :
    StoresExactly BBHash.method.toAccessors 0 impl key value ↔ GammaFits value := by
  have thrown : ∀ exception, stoul value.bytes = .error exception →
      BBHash.method.set impl key value = (impl, .error exception) := by
    intro exception thrown
    show BBHash.setOption impl key value = _
    unfold BBHash.setOption
    simp only [named, thrown, ne_eq, not_true_eq_false, ↓reduceIte]
  have stored : ∀ parsed, stoul value.bytes = .ok parsed → BBHash.method.set impl key value =
      ({ impl with gamma := UInt32.ofNat parsed }, .ok .ok) := by
    intro parsed read
    show BBHash.setOption impl key value = _
    unfold BBHash.setOption
    simp only [named, read, ne_eq, not_true_eq_false, ↓reduceIte]
  apply storesExactly_iff _ _ _ _ _ _ _ _ (gammaFits_iff value)
  · intro v whole _ small
    have leading := leadingInteger_of_whole value.bytes v whole
    have read := stoul_nonneg value.bytes v leading (by unfold ulongMax; omega)
    have cell := BBHash.model.serves { impl with gamma := UInt32.ofNat v } key
      (.unsigned (UInt32.ofNat v)) (by simp only [BBHash.model, BBHash.view, named, ↓reduceIte])
    rw [OptionCell.render, UInt32.toNat_ofNat', Nat.mod_eq_of_lt small] at cell
    rw [stored v read]
    exact cell
  · rw [← stoul_ok_iff]
    cases read : stoul value.bytes with
    | error exception =>
        rw [thrown exception read]
        simp
    | ok parsed =>
        rw [stored parsed read]
        simp

/-- What the guard of `bucket_size` and `max_iterations` is there for. -/
def PositiveLimits (options : StdmethOptions) : Prop :=
  1 ≤ options.bucketSize.toNat ∧ 1 ≤ options.maxIterations.toNat

theorem storePositive_positive (options : StdmethOptions) (value : CString)
    (store : UInt32 → StdmethOptions) (fits : GuardedFits value) (before : PositiveLimits options)
    (after : ∀ val : UInt32, 1 ≤ val.toNat → PositiveLimits (store val)) :
    PositiveLimits (storePositive options value store).1 := by
  rcases fits with refused | ⟨v, whole, above, small⟩
  · have same : (storePositive options value store).1 = options := by
      unfold storePositive
      cases converted : strtol value.bytes with
      | none => rfl
      | some val =>
          by_cases low : val ≤ 0
          · simp only [low, ↓reduceIte]
          · obtain ⟨n, leading, positive⟩ := (strtol_pos_iff value).mp ⟨val, converted, by omega⟩
            have bound := refused n leading
            omega
    rw [same]
    exact before
  · rw [storePositive_inRange options value store v whole above small]
    apply after
    rw [ofInt_decimal v small]
    exact above

theorem stdmethSetOption_positive (options : StdmethOptions) (key value : CString)
    (fits : StdmethFits key value) (before : PositiveLimits options) :
    PositiveLimits (stdmethSetOption options key value).1 := by
  unfold stdmethSetOption
  by_cases bucket : key.bytes = ascii "bucket_size"
  · rw [if_pos bucket]
    apply storePositive_positive options value _ (fits.1 (Or.inl bucket)) before
    exact fun val positive => ⟨positive, before.2⟩
  by_cases iterations : key.bytes = ascii "max_iterations"
  · rw [if_neg bucket, if_pos iterations]
    apply storePositive_positive options value _ (fits.1 (Or.inr iterations)) before
    exact fun val positive => ⟨before.1, positive⟩
  · rw [if_neg bucket, if_neg iterations]
    by_cases seed : key.bytes = ascii "seed"
    · rw [if_pos seed]
      cases strtol value.bytes with
      | none => exact before
      | some val => exact before
    · rw [if_neg seed]
      exact before

theorem stdmeth_run_positive (options : StdmethOptions) (calls : List (CString × CString))
    (fits : ∀ call ∈ calls, StdmethFits call.1 call.2) (before : PositiveLimits options) :
    PositiveLimits (stdmeth.run options calls) := by
  induction calls generalizing options with
  | nil => exact before
  | cons call rest ih =>
      have first := stdmethSetOption_positive options call.1 call.2 (fits call List.mem_cons_self)
        before
      exact ih (stdmethSetOption options call.1 call.2).1
        (fun next inside => fits next (List.mem_cons_of_mem _ inside)) first

/-- The unsigned options store exactly the numeral they accept, and keep their lower
bounds along a run, where the values the conversions let through are in range as wholes. -/
theorem unsigned_options_exact_iff (calls : List (CString × CString)) (key value : CString) :
    (key.bytes = ascii "bucket_size" ∨ key.bytes = ascii "max_iterations" →
      (StoresExactly stdmeth.toAccessors 1 (stdmeth.run stdmeth.create calls) key value ↔
        GuardedFits value)) ∧
    (key.bytes = ascii "seed" →
      (StoresExactly stdmeth.toAccessors 0 (stdmeth.run stdmeth.create calls) key value ↔
        SeedFits value)) ∧
    (key.bytes = ascii "gamma" →
      (StoresExactly BBHash.method.toAccessors 0 (BBHash.method.run BBHash.method.create calls) key
        value ↔ GammaFits value)) ∧
    ((∀ call ∈ calls, StdmethFits call.1 call.2) →
      PositiveLimits (stdmeth.run stdmeth.create calls)) := by
  refine ⟨?_, ?_, ?_, ?_⟩
  · intro named
    rcases named with bucket | iterations
    · exact bucketSize_exact_iff _ key value bucket
    · exact maxIterations_exact_iff _ key value iterations
  · intro named
    exact seed_exact_iff _ key value named
  · intro named
    exact BBHash.gamma_exact_iff _ key value named
  · intro fits
    exact stdmeth_run_positive stdmeth.create calls fits ⟨by decide, by decide⟩

/-- `bucket_size` takes `4294967296`, and then holds `0`. -/
theorem bucketSize_takes_two_to_the_32 :
    ¬ StoresExactly stdmeth.toAccessors 1 stdmeth.create ⟨ascii "bucket_size", by decide⟩
        ⟨ascii "4294967296", by decide⟩ ∧
      ¬ PositiveLimits (stdmeth.run stdmeth.create
        [(⟨ascii "bucket_size", by decide⟩, ⟨ascii "4294967296", by decide⟩)]) := by
  constructor
  · intro exact_
    obtain ⟨v, whole, above, small, -⟩ := exact_ (by decide)
    have denotes : wholeInteger (ascii "4294967296") = some 4294967296 := by decide
    rw [denotes, Option.some.injEq] at whole
    omega
  · intro positive
    have zero : (stdmeth.run stdmeth.create [(⟨ascii "bucket_size", by decide⟩,
        ⟨ascii "4294967296", by decide⟩)]).bucketSize.toNat = 0 := by decide
    have bound := positive.1
    omega

end Nuperf
