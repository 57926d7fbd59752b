import Mathlib.Data.List.Basic

set_option autoImplicit false

/- Nested lists, read from a row of brackets and atoms. The machine keeps the list it is in
and the lists around it, and `wrap` makes an item of a list that is left. -/
namespace NestedList

variable {α β : Type}

inductive Token (α : Type)
  | opening
  | closing
  | atom (value : α)

def Token.map (f : α → β) : Token α → Token β
  | .opening => .opening
  | .closing => .closing
  | .atom value => .atom (f value)

/-- The items of the list being read, and those of the lists around it from the innermost. -/
structure Pending (β : Type) where
  items : List β := []
  around : List (List β) := []

def Pending.push (pending : Pending β) (item : β) : Pending β :=
  { pending with items := pending.items ++ [item] }

def Pending.pushAll (pending : Pending β) (items : List β) : Pending β :=
  { pending with items := pending.items ++ items }

@[simp] theorem Pending.pushAll_nil (pending : Pending β) : pending.pushAll [] = pending := by
  simp only [pushAll, List.append_nil]

@[simp] theorem Pending.pushAll_pushAll (pending : Pending β) (front back : List β) :
    (pending.pushAll front).pushAll back = pending.pushAll (front ++ back) := by
  simp only [pushAll, List.append_assoc]

section Machine

variable (wrap : List β → β)

/-- Outside every list there is nothing to close. -/
def step (pending : Pending β) : Token β → Pending β
  | .opening => { items := [], around := pending.items :: pending.around }
  | .closing =>
      match pending.around with
      | [] => pending
      | outer :: around => { items := outer ++ [wrap pending.items], around := around }
  | .atom item => pending.push item

def run (pending : Pending β) (tokens : List (Token β)) : Pending β :=
  tokens.foldl (step wrap) pending

@[simp] theorem run_nil (pending : Pending β) : run wrap pending [] = pending := rfl

@[simp] theorem run_cons (pending : Pending β) (token : Token β) (tokens : List (Token β)) :
    run wrap pending (token :: tokens) = run wrap (step wrap pending token) tokens := rfl

theorem run_append (pending : Pending β) (front back : List (Token β)) :
    run wrap pending (front ++ back) = run wrap (run wrap pending front) back :=
  List.foldl_append

/-- At the end every list that is open is left. -/
def leave : List β → List (List β) → List β
  | items, [] => items
  | items, outer :: around => leave (outer ++ [wrap items]) around

def finish (pending : Pending β) : List β := leave wrap pending.items pending.around

def read (tokens : List (Token β)) : List β := finish wrap (run wrap {} tokens)

/-- A closing bracket is what the end of the row would have done. -/
theorem finish_closing (pending : Pending β) :
    finish wrap (step wrap pending .closing) = finish wrap pending := by
  obtain ⟨items, around⟩ := pending
  cases around <;> rfl

/-- Closing brackets at the end of a row change nothing, be they missing or too many. -/
theorem read_closing (tokens : List (Token β)) :
    read wrap (tokens ++ [.closing]) = read wrap tokens := by
  rw [read, run_append, run_cons, run_nil, finish_closing, read]

theorem read_closings (tokens : List (Token β)) (count : Nat) :
    read wrap (tokens ++ List.replicate count .closing) = read wrap tokens := by
  induction count with
  | zero => rw [List.replicate_zero, List.append_nil]
  | succ count ih => rw [List.replicate_succ', ← List.append_assoc, read_closing, ih]

/-- The tokens amount to the items, wherever they stand. -/
def Spells (tokens : List (Token β)) (items : List β) : Prop :=
  ∀ pending, run wrap pending tokens = pending.pushAll items

theorem spells_nil : Spells wrap [] [] := by
  intro pending
  rw [run_nil, Pending.pushAll_nil]

theorem spells_atom (item : β) : Spells wrap [.atom item] [item] := fun _ => rfl

theorem spells_append {front back : List (Token β)} {first second : List β}
    (head : Spells wrap front first) (tail : Spells wrap back second) :
    Spells wrap (front ++ back) (first ++ second) := by
  intro pending
  rw [run_append, head, tail, Pending.pushAll_pushAll]

theorem spells_atoms (items : List β) : Spells wrap (items.map .atom) items := by
  induction items with
  | nil => exact spells_nil wrap
  | cons item items ih => exact spells_append wrap (spells_atom wrap item) ih

theorem spells_list {tokens : List (Token β)} {items : List β} (inside : Spells wrap tokens items) :
    Spells wrap (.opening :: (tokens ++ [.closing])) [wrap items] := by
  intro pending
  rw [run_cons, run_append, inside]
  rfl

theorem read_of_spells {tokens : List (Token β)} {items : List β}
    (spells : Spells wrap tokens items) : read wrap tokens = items := by
  rw [read, spells]
  rfl

section Members

variable (P : β → Prop) (wrapped : ∀ items, (∀ item ∈ items, P item) → P (wrap items))

def Pending.All (pending : Pending β) : Prop :=
  (∀ item ∈ pending.items, P item) ∧ ∀ outer ∈ pending.around, ∀ item ∈ outer, P item

theorem forall_snoc (items : List β) (last : β) (all : ∀ item ∈ items, P item) (here : P last) :
    ∀ item ∈ items ++ [last], P item := by
  intro item member
  rcases List.mem_append.mp member with inside | same
  · exact all item inside
  · rw [List.mem_singleton.mp same]
    exact here

include wrapped

theorem step_all (pending : Pending β) (token : Token β) (all : pending.All P)
    (atom : ∀ item, token = .atom item → P item) : (step wrap pending token).All P := by
  obtain ⟨here, outside⟩ := all
  cases token with
  | opening =>
      exact ⟨fun _ member => absurd member List.not_mem_nil,
        List.forall_mem_cons.mpr ⟨here, outside⟩⟩
  | closing =>
      obtain ⟨items, around⟩ := pending
      cases around with
      | nil => exact ⟨here, outside⟩
      | cons outer around =>
          obtain ⟨next, further⟩ := List.forall_mem_cons.mp outside
          exact ⟨forall_snoc P outer _ next (wrapped items here), further⟩
  | atom item => exact ⟨forall_snoc P pending.items item here (atom item rfl), outside⟩

theorem run_all (pending : Pending β) (tokens : List (Token β)) (all : pending.All P)
    (atoms : ∀ item, Token.atom item ∈ tokens → P item) : (run wrap pending tokens).All P := by
  induction tokens generalizing pending with
  | nil => exact all
  | cons token tokens ih =>
      rw [run_cons]
      apply ih
      · apply step_all wrap P wrapped pending token all
        rintro item rfl
        exact atoms item List.mem_cons_self
      · intro item member
        exact atoms item (List.mem_cons_of_mem token member)

theorem leave_all (items : List β) (around : List (List β)) (here : ∀ item ∈ items, P item)
    (outside : ∀ outer ∈ around, ∀ item ∈ outer, P item) :
    ∀ item ∈ leave wrap items around, P item := by
  induction around generalizing items with
  | nil => exact here
  | cons outer around ih =>
      obtain ⟨next, further⟩ := List.forall_mem_cons.mp outside
      exact ih _ (forall_snoc P outer _ next (wrapped items here)) further

/-- What holds of every atom, and of a list when it holds of the items, holds of all that is
read. -/
theorem read_all (tokens : List (Token β)) (atoms : ∀ item, Token.atom item ∈ tokens → P item) :
    ∀ item ∈ read wrap tokens, P item := by
  have start : Pending.All P {} :=
    ⟨fun _ member => absurd member List.not_mem_nil, fun _ member => absurd member List.not_mem_nil⟩
  have ended := run_all wrap P wrapped {} tokens start atoms
  exact leave_all wrap P wrapped _ _ ended.1 ended.2

end Members

end Machine

end NestedList
