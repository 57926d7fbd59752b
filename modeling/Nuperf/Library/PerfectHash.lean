import Mathlib

set_option autoImplicit false

/- Minimal perfect hashing: what one slot function can do for many key sets. -/
namespace PerfectHash

variable {Key : Type}

/-- The slot function maps the keys one-to-one onto the first `keys.length` slots. -/
def MapsOnto (slot : Key → Nat) (keys : List Key) : Prop :=
  Set.BijOn slot {key | key ∈ keys} (Set.Iio keys.length)

/-- Distinct slots below the number of keys fill all of them. -/
theorem mapsOnto_of_injOn (slot : Key → Nat) (keys : List Key) (distinct : keys.Nodup)
    (below : ∀ key ∈ keys, slot key < keys.length)
    (injective : ∀ left ∈ keys, ∀ right ∈ keys, slot left = slot right → left = right) :
    MapsOnto slot keys := by
  classical
  refine ⟨below, fun left inLeft right inRight same => injective left inLeft right inRight same, ?_⟩
  have surjective := Finset.surj_on_of_inj_on_of_card_le
    (s := keys.toFinset) (t := Finset.range keys.length) (fun key _ => slot key)
    (fun key member => Finset.mem_range.mpr (below key (List.mem_toFinset.mp member)))
    (fun left right inLeft inRight same =>
      injective left (List.mem_toFinset.mp inLeft) right (List.mem_toFinset.mp inRight) same)
    (by rw [Finset.card_range, List.toFinset_card_of_nodup distinct])
  intro index small
  obtain ⟨key, member, same⟩ := surjective index (Finset.mem_range.mpr small)
  exact ⟨key, List.mem_toFinset.mp member, same.symm⟩

/-- Keys that carry a number below the number of keys are their own slots. -/
theorem mapsOnto_of_numbers {α : Type} (slot : Key → Nat) (keys : List Key) (distinct : keys.Nodup)
    (wrap : α → Key) (number : α → Nat) (injective : Function.Injective number)
    (shapes : ∀ key ∈ keys, ∃ value, key = wrap value)
    (slots : ∀ value, slot (wrap value) = number value)
    (below : ∀ value, number value < keys.length) : MapsOnto slot keys := by
  apply mapsOnto_of_injOn slot keys distinct
  · intro key member
    obtain ⟨value, rfl⟩ := shapes key member
    rw [slots]
    exact below value
  · intro left leftIn right rightIn same
    obtain ⟨first, rfl⟩ := shapes left leftIn
    obtain ⟨second, rfl⟩ := shapes right rightIn
    rw [slots, slots] at same
    rw [injective same]

/-- A slot function that sees nothing of the key set but its size fails on one of the
`n`-element key sets from any pool of more than `n` keys. -/
theorem exists_not_mapsOnto (slot : Key → Nat) (n : Nat) (two : 2 ≤ n) (pool : Finset Key)
    (larger : n < pool.card) :
    ∃ keys : List Key, keys.Nodup ∧ keys.length = n ∧ (∀ key ∈ keys, key ∈ pool) ∧
      ¬ MapsOnto slot keys := by
  classical
  by_contra missing
  have onto : ∀ chosen ⊆ pool, chosen.card = n → MapsOnto slot chosen.toList := by
    intro chosen inside size
    by_contra failing
    refine missing ⟨chosen.toList, chosen.nodup_toList, ?_, ?_, failing⟩
    · rw [Finset.length_toList, size]
    · intro key member
      exact inside (Finset.mem_toList.mp member)
  have below : ∀ key ∈ pool, slot key ∈ Finset.range n := by
    intro key member
    have small : ({key} : Finset Key).card ≤ n := by
      rw [Finset.card_singleton]
      omega
    obtain ⟨chosen, holds, inside, size⟩ := Finset.exists_subsuperset_card_eq
      (Finset.singleton_subset_iff.mpr member) small (Nat.le_of_lt larger)
    have bound := (onto chosen inside size).mapsTo
      (Finset.mem_toList.mpr (Finset.singleton_subset_iff.mp holds))
    rw [Finset.length_toList, size] at bound
    exact Finset.mem_range.mpr bound
  have crowded : (Finset.range n).card < pool.card := by
    rw [Finset.card_range]
    exact larger
  obtain ⟨left, inLeft, right, inRight, apart, same⟩ :=
    Finset.exists_ne_map_eq_of_card_lt_of_maps_to crowded below
  -- Two colliding keys sit together in some key set of size `n`.
  have pair : ({left, right} : Finset Key) ⊆ pool :=
    Finset.insert_subset inLeft (Finset.singleton_subset_iff.mpr inRight)
  have small : ({left, right} : Finset Key).card ≤ n := by
    rw [Finset.card_pair apart]
    exact two
  obtain ⟨chosen, holds, inside, size⟩ :=
    Finset.exists_subsuperset_card_eq pair small (Nat.le_of_lt larger)
  have leftIn : left ∈ chosen := holds (Finset.mem_insert_self left {right})
  have rightIn : right ∈ chosen :=
    holds (Finset.mem_insert_of_mem (Finset.mem_singleton_self right))
  exact apart ((onto chosen inside size).injOn (Finset.mem_toList.mpr leftIn)
    (Finset.mem_toList.mpr rightIn) same)

end PerfectHash
