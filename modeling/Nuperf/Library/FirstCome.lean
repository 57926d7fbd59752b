import Mathlib

set_option autoImplicit false

/- A register that is filled by a list of items, first come, first served, and what the order of
the items changes. -/
namespace FirstCome

variable {Item Entry : Type} (opens : Item → Bool) (adds : List Entry → Item → Option Entry)

/-- Each item adds one entry to the register at most. One that cannot be opened ends the run. -/
def run (register : List Entry) : List Item → List Entry
  | [] => register
  | item :: rest =>
      if opens item then run (register ++ (adds register item).toList) rest else register

/-- An item that the run passes by. -/
structure Inert (register : List Entry) (item : Item) : Prop where
  opens : opens item = true
  adds : adds register item = none

variable (register : List Entry) {item : Item} {entry : Entry} {items : List Item}

theorem run_cons (rest : List Item) (openable : opens item = true) :
    run opens adds register (item :: rest) =
      run opens adds (register ++ (adds register item).toList) rest := by
  rw [run, if_pos openable]

theorem run_stopped (rest : List Item) (closed : opens item = false) :
    run opens adds register (item :: rest) = register := by
  rw [run, closed]
  rfl

/-- What a run appends comes from its items. -/
theorem run_appends (items : List Item) :
    ∃ added, run opens adds register items = register ++ added ∧
      ∀ entry ∈ added, ∃ item ∈ items, ∃ earlier, adds earlier item = some entry := by
  induction items generalizing register with
  | nil => exact ⟨[], (List.append_nil register).symm, fun entry member => by cases member⟩
  | cons item rest ih =>
      rw [run]
      split_ifs
      · obtain ⟨added, whole, sources⟩ := ih (register ++ (adds register item).toList)
        refine ⟨(adds register item).toList ++ added, by rw [whole, List.append_assoc], ?_⟩
        intro entry member
        rcases List.mem_append.mp member with here | later
        · exact ⟨item, List.mem_cons_self, register, Option.mem_toList.mp here⟩
        · obtain ⟨source, inside, found⟩ := sources entry later
          exact ⟨source, List.mem_cons_of_mem _ inside, found⟩
      · exact ⟨[], (List.append_nil register).symm, fun entry member => by cases member⟩

/-- Items that add nothing, wherever the run stops. -/
theorem run_idle (idle : ∀ item ∈ items, opens item = true → adds register item = none) :
    run opens adds register items = register := by
  induction items with
  | nil => rfl
  | cons item rest ih =>
      rw [run]
      split_ifs with openable
      · rw [idle item List.mem_cons_self openable, Option.toList_none, List.append_nil]
        exact ih fun other member => idle other (List.mem_cons_of_mem _ member)
      · rfl

theorem run_inert_append (before after : List Item)
    (inert : ∀ item ∈ before, Inert opens adds register item) :
    run opens adds register (before ++ after) = run opens adds register after := by
  induction before with
  | nil => rfl
  | cons item rest ih =>
      have first := inert item List.mem_cons_self
      rw [List.cons_append, run_cons _ _ _ _ first.opens, first.adds, Option.toList_none,
        List.append_nil]
      exact ih fun other member => inert other (List.mem_cons_of_mem _ member)

section Order

variable {Key : Type} (key : Entry → Key)

/-- At most one of the items gets an entry: where one does, the run passes by all others, before
and after it. -/
def AtMostOne (items : List Item) : Prop :=
  ∀ item ∈ items, opens item = true → ∀ entry, adds register item = some entry →
    ∀ other ∈ items, other ≠ item →
      Inert opens adds register other ∧ Inert opens adds (register ++ [entry]) other

/-- The one item that adds an entry adds it in any order. -/
theorem run_of_atMostOne (distinct : items.Nodup) (member : item ∈ items)
    (openable : opens item = true) (added : adds register item = some entry)
    (others : ∀ other ∈ items, other ≠ item →
      Inert opens adds register other ∧ Inert opens adds (register ++ [entry]) other) :
    run opens adds register items = register ++ [entry] := by
  obtain ⟨before, after, rfl⟩ := List.append_of_mem member
  have apart : ∀ other ∈ before ++ after, other ≠ item := by
    intro other inside same
    subst same
    exact (List.nodup_middle.mp distinct).notMem inside
  rw [run_inert_append, run_cons _ _ _ _ openable, added, Option.toList_some, run_idle]
  · intro other inside _
    exact (others other (by simp [inside]) (apart other (by simp [inside]))).2.adds
  · intro other inside
    exact (others other (by simp [inside]) (apart other (by simp [inside]))).1

theorem run_perm_of_atMostOne (distinct : items.Nodup)
    (one : AtMostOne opens adds register items) (order : List Item) (same : order.Perm items) :
    run opens adds register order = run opens adds register items := by
  by_cases some_ : ∃ item ∈ items, opens item = true ∧ ∃ entry, adds register item = some entry
  · obtain ⟨item, member, openable, entry, added⟩ := some_
    have others := one item member openable entry added
    rw [run_of_atMostOne opens adds register distinct member openable added others]
    apply run_of_atMostOne opens adds register (same.nodup_iff.mpr distinct)
      (same.mem_iff.mpr member) openable added
    intro other inside apart
    exact others other (same.mem_iff.mp inside) apart
  · have idle : ∀ item ∈ items, opens item = true → adds register item = none := by
      intro item member openable
      by_contra added
      obtain ⟨entry, added⟩ := Option.ne_none_iff_exists'.mp added
      exact some_ ⟨item, member, openable, entry, added⟩
    rw [run_idle _ _ _ idle, run_idle]
    intro item member openable
    exact idle item (same.mem_iff.mp member) openable

/-- The keys of entries tell the items apart that they come from. -/
def Distinguishes (items : List Item) : Prop :=
  ∀ item ∈ items, ∀ other ∈ items, ∀ earlier later entry next, adds earlier item = some entry →
    adds later other = some next → item ≠ other → key entry ≠ key next

section Converse

variable {key} {other : Item} {rest : List Item}
  (apart : Distinguishes adds key (item :: other :: rest)) (different : other ≠ item)
  (openable : opens item = true) (added : adds register item = some entry)
  (same : (run opens adds register (item :: other :: rest)).map key =
    (run opens adds register (other :: item :: rest)).map key)

include apart different openable added same

/-- Before the entry there is no stop, and no entry of another item. -/
theorem inert_before : Inert opens adds register other := by
  obtain ⟨first, whole, _⟩ := run_appends opens adds (register ++ [entry]) (other :: rest)
  rw [run_cons _ _ _ _ openable, added, Option.toList_some, whole] at same
  have opened : opens other = true := by
    by_contra closed
    rw [run_stopped _ _ _ _ (by simpa using closed)] at same
    have lengths := congrArg List.length same
    simp only [List.length_map, List.length_append, List.length_singleton] at lengths
    omega
  refine ⟨opened, ?_⟩
  by_contra some_
  obtain ⟨next, found⟩ := Option.ne_none_iff_exists'.mp some_
  obtain ⟨second, behind, _⟩ := run_appends opens adds (register ++ [next]) (item :: rest)
  rw [run_cons _ _ _ _ opened, found, Option.toList_some, behind] at same
  simp only [List.append_assoc, List.map_append, List.append_cancel_left_eq, List.map_cons,
    List.singleton_append, List.cons.injEq] at same
  exact apart item (by simp) other (by simp) register register entry next added found
    (Ne.symm different) same.1

/-- After the entry there is none of an item that can come first as well. -/
theorem inert_after (absent : other ∉ rest) : Inert opens adds (register ++ [entry]) other := by
  have before := inert_before opens adds register apart different openable added same
  refine ⟨before.opens, ?_⟩
  by_contra some_
  obtain ⟨next, found⟩ := Option.ne_none_iff_exists'.mp some_
  obtain ⟨first, whole, _⟩ := run_appends opens adds (register ++ [entry] ++ [next]) rest
  obtain ⟨second, behind, sources⟩ := run_appends opens adds (register ++ [entry]) rest
  rw [run_cons _ _ _ _ openable, added, Option.toList_some, run_cons _ _ _ _ before.opens, found,
    Option.toList_some, whole, run_cons _ _ _ _ before.opens, before.adds, Option.toList_none,
    List.append_nil, run_cons _ _ _ _ openable, added, Option.toList_some, behind] at same
  simp only [List.append_assoc, List.map_append, List.append_cancel_left_eq] at same
  have inside : key next ∈ second.map key := by
    rw [← same]
    simp
  obtain ⟨late, member, keys⟩ := List.mem_map.mp inside
  obtain ⟨source, listed, earlier, supplied⟩ := sources late member
  have others : other ≠ source := by
    rintro rfl
    exact absent listed
  exact apart other (by simp) source (by simp [listed]) _ _ next late found supplied others
    keys.symm

end Converse

/-- The order of the items does not show in the register exactly when at most one of them gets
an entry. -/
theorem run_perm_iff (apart : Distinguishes adds key items) (distinct : items.Nodup) :
    (∀ order other, order.Perm items → other.Perm items →
      (run opens adds register order).map key = (run opens adds register other).map key) ↔
      AtMostOne opens adds register items := by
  constructor
  · intro same item member openable entry added other inside different
    obtain ⟨before, after, rfl⟩ := List.append_of_mem member
    -- The two items are put first, in both orders, with all others behind them.
    have elsewhere : other ∈ before ++ after := by
      rcases List.mem_append.mp inside with front | back
      · exact List.mem_append_left _ front
      · rcases List.mem_cons.mp back with equal | back
        · exact absurd equal different
        · exact List.mem_append_right _ back
    obtain ⟨left, right, split⟩ := List.append_of_mem elsewhere
    have first : (item :: other :: (left ++ right)).Perm (before ++ item :: after) := by
      refine .trans (.cons item ?_) List.perm_middle.symm
      rw [split]
      exact List.perm_middle.symm
    have absent : other ∉ left ++ right := by
      have whole := first.nodup_iff.mpr distinct
      exact (List.nodup_cons.mp (List.nodup_cons.mp whole).2).1
    have orders := same _ _ first ((List.Perm.swap item other _).trans first)
    have told : Distinguishes adds key (item :: other :: (left ++ right)) :=
      fun one member two inside => apart one (first.mem_iff.mp member) two (first.mem_iff.mp inside)
    exact ⟨inert_before opens adds register told different openable added orders,
      inert_after opens adds register told different openable added orders absent⟩
  · intro one order other first second
    rw [run_perm_of_atMostOne opens adds register distinct one order first,
      run_perm_of_atMostOne opens adds register distinct one other second]

end Order

end FirstCome
