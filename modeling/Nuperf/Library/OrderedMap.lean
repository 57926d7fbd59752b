import Mathlib

set_option autoImplicit false

/- Maps kept as lists of entries in strictly increasing key order. -/
namespace OrderedMap

variable {Key β : Type} [LinearOrder Key]

/-- Insertion by key, replacing the value a key already has. -/
def insert (key : Key) (value : β) : List (Key × β) → List (Key × β)
  | [] => [(key, value)]
  | entry :: rest =>
      if key < entry.1 then (key, value) :: entry :: rest
      else if key = entry.1 then (key, value) :: rest
      else entry :: insert key value rest

def Sorted (entries : List (Key × β)) : Prop :=
  entries.Pairwise fun left right => left.1 < right.1

instance (entries : List (Key × β)) : Decidable (Sorted entries) :=
  inferInstanceAs (Decidable (entries.Pairwise fun left right => left.1 < right.1))

theorem mem_insert (key : Key) (value : β) (entries : List (Key × β)) (entry : Key × β)
    (member : entry ∈ insert key value entries) : entry = (key, value) ∨ entry ∈ entries := by
  induction entries with
  | nil =>
      rw [insert, List.mem_singleton] at member
      exact Or.inl member
  | cons first rest ih =>
      rw [insert] at member
      split_ifs at member with before same
      · exact List.mem_cons.mp member
      · exact (List.mem_cons.mp member).imp_right (List.mem_cons_of_mem first)
      · rcases List.mem_cons.mp member with rfl | later
        · exact Or.inr List.mem_cons_self
        · exact (ih later).imp_right (List.mem_cons_of_mem first)

theorem insert_sorted (key : Key) (value : β) (entries : List (Key × β))
    (sorted : Sorted entries) : Sorted (insert key value entries) := by
  induction entries with
  | nil => exact List.pairwise_singleton _ _
  | cons first rest ih =>
      obtain ⟨head, tail⟩ := List.pairwise_cons.mp sorted
      rw [insert]
      split_ifs with before same
      · refine List.pairwise_cons.mpr ⟨?_, sorted⟩
        intro entry member
        rcases List.mem_cons.mp member with rfl | later
        · exact before
        · exact lt_trans before (head entry later)
      · refine List.pairwise_cons.mpr ⟨?_, tail⟩
        intro entry member
        rw [same]
        exact head entry member
      · refine List.pairwise_cons.mpr ⟨?_, ih tail⟩
        intro entry member
        rcases mem_insert key value rest entry member with rfl | later
        · exact lt_of_le_of_ne (not_lt.mp before) (Ne.symm same)
        · exact head entry later

/-- A key beyond all others goes to the end. -/
theorem insert_last (key : Key) (value : β) (entries : List (Key × β))
    (last : ∀ entry ∈ entries, entry.1 < key) :
    insert key value entries = entries ++ [(key, value)] := by
  induction entries with
  | nil => rfl
  | cons first rest ih =>
      have before := last first List.mem_cons_self
      have later := ih (fun entry member => last entry (List.mem_cons_of_mem first member))
      rw [insert, if_neg (not_lt_of_gt before), if_neg (ne_of_gt before), later, List.cons_append]

/-- The last value is replaced. -/
theorem insert_over_last (key : Key) (old value : β) (entries : List (Key × β))
    (last : ∀ entry ∈ entries, entry.1 < key) :
    insert key value (entries ++ [(key, old)]) = entries ++ [(key, value)] := by
  induction entries with
  | nil => rw [List.nil_append, insert, if_neg (lt_irrefl key), if_pos rfl, List.nil_append]
  | cons first rest ih =>
      have before := last first List.mem_cons_self
      have later := ih fun entry member => last entry (List.mem_cons_of_mem first member)
      rw [List.cons_append, insert, if_neg (not_lt_of_gt before), if_neg (ne_of_gt before), later,
        List.cons_append]

/-- Entries added one after the other. -/
def insertAll (added entries : List (Key × β)) : List (Key × β) :=
  added.foldl (fun entries entry => insert entry.1 entry.2 entries) entries

theorem insertAll_above (added entries : List (Key × β)) (sorted : Sorted added)
    (above : ∀ entry ∈ added, ∀ other ∈ entries, other.1 < entry.1) :
    insertAll added entries = entries ++ added := by
  induction added generalizing entries with
  | nil => rw [insertAll, List.foldl_nil, List.append_nil]
  | cons first rest ih =>
      obtain ⟨head, tail⟩ := List.pairwise_cons.mp sorted
      have last := insert_last first.1 first.2 entries (above first List.mem_cons_self)
      have later := ih (entries ++ [first]) tail (by
        intro entry member other inside
        rcases List.mem_append.mp inside with earlier | same
        · exact above entry (List.mem_cons_of_mem first member) other earlier
        · rw [List.mem_singleton.mp same]
          exact head entry member)
      rw [insertAll, List.foldl_cons, last, ← insertAll, later, List.append_assoc,
        List.singleton_append]

/-- A map is its entries, added to nothing. -/
theorem insertAll_nil (added : List (Key × β)) (sorted : Sorted added) :
    insertAll added [] = added :=
  insertAll_above added [] sorted fun _ _ _ inside => absurd inside List.not_mem_nil

theorem keys_nodup (entries : List (Key × β)) (sorted : Sorted entries) :
    (entries.map Prod.fst).Nodup := by
  rw [List.Nodup, List.pairwise_map]
  exact sorted.imp fun less => ne_of_lt less

section Lookup

variable {Name : Type} [BEq Name] [LawfulBEq Name] (entries later : List (Name × β)) (name : Name)

theorem mem_of_lookup (value : β) (found : entries.lookup name = some value) :
    (name, value) ∈ entries := by
  obtain ⟨before, after, split, _⟩ := List.lookup_eq_some_iff.mp found
  rw [split]
  exact List.mem_append_right before List.mem_cons_self

omit [LawfulBEq Name] in
theorem lookup_map_snd {γ : Type} (f : β → γ) :
    (entries.map fun entry => (entry.1, f entry.2)).lookup name = (entries.lookup name).map f := by
  induction entries with
  | nil => rfl
  | cons entry rest ih =>
      rw [List.map_cons, List.lookup_cons, List.lookup_cons, ih]
      cases name == entry.1 <;> rfl

/-- Where no key is repeated, every entry is found. -/
theorem lookup_eq_some_iff_mem (distinct : (entries.map Prod.fst).Nodup) (value : β) :
    entries.lookup name = some value ↔ (name, value) ∈ entries := by
  constructor
  · exact mem_of_lookup entries name value
  · intro member
    obtain ⟨before, after, rfl⟩ := List.append_of_mem member
    rw [List.map_append, List.map_cons, List.nodup_append] at distinct
    have absent : ∀ entry ∈ before, (name != entry.1) = true := by
      intro entry inside
      have apart := distinct.2.2 entry.1 (List.mem_map_of_mem inside) name List.mem_cons_self
      exact bne_iff_ne.mpr (Ne.symm apart)
    rw [List.lookup_append, List.lookup_eq_none_iff.mpr absent, Option.none_or,
      List.lookup_cons_self]

section Insertion

variable [BEq Key] [LawfulBEq Key] (key : Key) (value : β) (fields : List (Key × β))

theorem lookup_insert : (insert key value fields).lookup key = some value := by
  induction fields with
  | nil => exact List.lookup_cons_self
  | cons first rest ih =>
      rw [insert]
      split_ifs with before same
      · exact List.lookup_cons_self
      · exact List.lookup_cons_self
      · rw [List.lookup_cons, beq_eq_false_iff_ne.mpr same]
        exact ih

theorem lookup_insert_of_ne (other : Key) (apart : other ≠ key) :
    (insert key value fields).lookup other = fields.lookup other := by
  have foreign_ : (other == key) = false := beq_eq_false_iff_ne.mpr apart
  induction fields with
  | nil => rw [insert, List.lookup_cons, foreign_]
  | cons first rest ih =>
      rw [insert]
      split_ifs with before same
      · rw [List.lookup_cons, foreign_]
      · rw [List.lookup_cons, List.lookup_cons, ← same, foreign_]
      · rw [List.lookup_cons, List.lookup_cons, ih]

theorem lookup_last (last : ∀ entry ∈ fields, entry.1 < key) :
    (fields ++ [(key, value)]).lookup key = some value := by
  rw [← insert_last key value fields last, lookup_insert]

theorem lookup_above (last : ∀ entry ∈ fields, entry.1 < key) : fields.lookup key = none := by
  rw [List.lookup_eq_none_iff]
  intro entry member
  exact bne_iff_ne.mpr (ne_of_gt (last entry member))

end Insertion

/-- The value of the last entry for a name. -/
def lastValue : Option β := entries.reverse.lookup name

omit [LawfulBEq Name] in
theorem lastValue_append :
    lastValue (entries ++ later) name = (lastValue later name).or (lastValue entries name) := by
  rw [lastValue, List.reverse_append, List.lookup_append]
  rfl

theorem mem_of_lastValue (value : β) (found : lastValue entries name = some value) :
    (name, value) ∈ entries :=
  List.mem_reverse.mp (mem_of_lookup _ _ _ found)

/-- Where no key is repeated, the last entry for a name is the only one. -/
theorem lastValue_eq_lookup (distinct : (entries.map Prod.fst).Nodup) :
    lastValue entries name = entries.lookup name := by
  have reversed : (entries.reverse.map Prod.fst).Nodup := by
    rw [List.map_reverse, List.nodup_reverse]
    exact distinct
  apply Option.ext
  intro value
  rw [lastValue, lookup_eq_some_iff_mem _ _ reversed, lookup_eq_some_iff_mem _ _ distinct,
    List.mem_reverse]

end Lookup

end OrderedMap
