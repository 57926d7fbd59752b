import Mathlib

set_option autoImplicit false

/- A store of named cells that textual requests update one at a time, and the
two-phase read of a text through a caller's buffer. -/
namespace NamedStore

variable {Name Input Cell ε Impl : Type} [DecidableEq Name]

/-- The names a store holds are those it maps to a cell. -/
abbrev Store (Name Cell : Type) := Name → Option Cell

/-- How a set request ends. An escaped error is not an answer. -/
inductive Outcome (ε : Type)
  | stored
  | refused
  | unknown
  | escaped (error : ε)

/-- What a request's input means for a name: a cell, nothing, or an error. -/
abbrev Conversion (Name Input Cell ε : Type) := Name → Input → Except ε (Option Cell)

def set (convert : Conversion Name Input Cell ε) (store : Store Name Cell)
    (name : Name) (input : Input) : Store Name Cell × Outcome ε :=
  match store name with
  | none => (store, .unknown)
  | some _ =>
      match convert name input with
      | .error error => (store, .escaped error)
      | .ok none => (store, .refused)
      | .ok (some cell) => (Function.update store name (some cell), .stored)

def Outcome.isStored {ε : Type} : Outcome ε → Bool
  | .stored => true
  | _ => false

/-- The state after a sequence of requests to any set operation. -/
def run {State : Type} (setState : State → Name → Input → State × Outcome ε) (state : State)
    (requests : List (Name × Input)) : State :=
  requests.foldl (fun current request => (setState current request.1 request.2).1) state

/-- The requests of a sequence that get accepted when their turn comes, in order. -/
def acceptedRequests {State : Type} (setState : State → Name → Input → State × Outcome ε)
    (state : State) : List (Name × Input) → List (Name × Input)
  | [] => []
  | request :: rest =>
      let next := setState state request.1 request.2
      if next.2.isStored = true then request :: acceptedRequests setState next.1 rest
      else acceptedRequests setState next.1 rest

/-- The inputs for `name` among them. -/
def accepted {State : Type} (setState : State → Name → Input → State × Outcome ε)
    (state : State) (name : Name) (requests : List (Name × Input)) : List Input :=
  ((acceptedRequests setState state requests).filter (·.1 = name)).map Prod.snd

/-- The cell an input leaves for a name, when it is accepted. -/
def cellOf (convert : Conversion Name Input Cell ε) (name : Name) (input : Input) : Option Cell :=
  match convert name input with
  | .ok found => found
  | .error _ => none

theorem Outcome.isStored_iff (outcome : Outcome ε) :
    outcome.isStored = true ↔ outcome = .stored := by
  cases outcome <;> simp [Outcome.isStored]

theorem accepted_cons {State : Type} (setState : State → Name → Input → State × Outcome ε)
    (state : State) (name : Name) (request : Name × Input) (rest : List (Name × Input)) :
    accepted setState state name (request :: rest) =
      let next := setState state request.1 request.2
      if request.1 = name ∧ next.2.isStored = true then
        request.2 :: accepted setState next.1 name rest
      else accepted setState next.1 name rest := by
  simp only [accepted, acceptedRequests]
  by_cases stored : (setState state request.1 request.2).2.isStored = true
  · simp only [stored, ↓reduceIte, and_true]
    by_cases same : request.1 = name
    · rw [List.filter_cons_of_pos (by simpa using same), if_pos same, List.map_cons]
    · rw [List.filter_cons_of_neg (by simpa using same), if_neg same]
  · simp only [stored, and_false, Bool.false_eq_true, ↓reduceIte]

omit [DecidableEq Name] in
/-- Where a request that is not accepted changes nothing, dropping such requests does not
change the end of a run. -/
theorem run_acceptedRequests {State : Type}
    (setState : State → Name → Input → State × Outcome ε)
    (kept : ∀ state name input, (setState state name input).2 ≠ .stored →
      (setState state name input).1 = state)
    (state : State) (requests : List (Name × Input)) :
    run setState state (acceptedRequests setState state requests) =
      run setState state requests := by
  induction requests generalizing state with
  | nil => rfl
  | cons request rest ih =>
      have later := ih (setState state request.1 request.2).1
      rw [acceptedRequests]
      by_cases stored : (setState state request.1 request.2).2.isStored = true
      · simp only [stored, ↓reduceIte]
        exact later
      · have unchanged := kept state request.1 request.2
          (fun same => stored ((Outcome.isStored_iff _).mpr same))
        simp only [stored, Bool.false_eq_true, ↓reduceIte]
        change _ = run setState (setState state request.1 request.2).1 rest
        rw [unchanged] at later ⊢
        exact later

/-- Everything a request can do: it is accepted and writes one cell, or it is not and
writes nothing. -/
theorem set_cases (convert : Conversion Name Input Cell ε) (store : Store Name Cell)
    (name : Name) (input : Input) :
    (∃ cell, store name ≠ none ∧ convert name input = .ok (some cell) ∧
      set convert store name input = (Function.update store name (some cell), .stored)) ∨
    ∃ outcome, outcome ≠ .stored ∧ set convert store name input = (store, outcome) := by
  unfold set
  cases store name with
  | none => exact Or.inr ⟨.unknown, by simp⟩
  | some old =>
      cases convert name input with
      | error error => exact Or.inr ⟨.escaped error, by simp⟩
      | ok found =>
          cases found with
          | none => exact Or.inr ⟨.refused, by simp⟩
          | some cell => exact Or.inl ⟨cell, by simp⟩

theorem set_unknown_iff (convert : Conversion Name Input Cell ε) (store : Store Name Cell)
    (name : Name) (input : Input) :
    (set convert store name input).2 = .unknown ↔ store name = none := by
  unfold set
  cases store name with
  | none => simp
  | some old =>
      cases convert name input with
      | error error => simp
      | ok found => cases found <;> simp

/-- Only an accepted request changes the store. -/
theorem set_not_stored (convert : Conversion Name Input Cell ε) (store : Store Name Cell)
    (name : Name) (input : Input) (kept : (set convert store name input).2 ≠ .stored) :
    (set convert store name input).1 = store := by
  rcases set_cases convert store name input with ⟨cell, -, -, result⟩ | ⟨outcome, -, result⟩
  · rw [result] at kept
    exact absurd rfl kept
  · rw [result]

/-- A request leaves every other name alone, however it ends. -/
theorem set_frame (convert : Conversion Name Input Cell ε) (store : Store Name Cell)
    (name other : Name) (input : Input) (apart : other ≠ name) :
    (set convert store name input).1 other = store other := by
  rcases set_cases convert store name input with ⟨cell, -, -, result⟩ | ⟨outcome, -, result⟩
  · rw [result]
    exact Function.update_of_ne apart _ _
  · rw [result]

/-- After any run a name holds the cell of the last input accepted for it, and its
first cell when there was none. Requests on other names do not matter. -/
theorem run_value (convert : Conversion Name Input Cell ε) (store : Store Name Cell)
    (requests : List (Name × Input)) (name : Name) :
    run (set convert) store requests name =
      match (accepted (set convert) store name requests).getLast? with
      | none => store name
      | some input => cellOf convert name input := by
  induction requests generalizing store with
  | nil => rfl
  | cons request rest ih =>
      have later := ih (set convert store request.1 request.2).1
      change run (set convert) (set convert store request.1 request.2).1 rest name = _
      rw [later, accepted_cons]
      rcases set_cases convert store request.1 request.2 with
        ⟨cell, -, converted, result⟩ | ⟨outcome, other, result⟩
      · by_cases same : request.1 = name
        · subst same
          have held : cellOf convert request.1 request.2 = some cell := by
            rw [cellOf, converted]
          simp only [result, Outcome.isStored, and_self, ↓reduceIte, List.getLast?_cons]
          cases (accepted (set convert) (Function.update store request.1 (some cell)) request.1
            rest).getLast? with
          | none => simp [held]
          | some input => simp
        · have kept := Function.update_of_ne (Ne.symm same) (some cell) store
          simp only [result, same, false_and, ↓reduceIte, kept]
      · have unstored : outcome.isStored ≠ true := fun stored =>
          other ((Outcome.isStored_iff outcome).mp stored)
        simp only [result, unstored, and_false, Bool.false_eq_true, ↓reduceIte]

/-- An implementation of the store: a view of its state as a store, and a set
operation that the view turns into the abstract one. -/
structure Implements (convert : Conversion Name Input Cell ε) (view : Impl → Store Name Cell)
    (setImpl : Impl → Name → Input → Impl × Outcome ε) : Prop where
  injective : Function.Injective view
  simulates : ∀ state name input,
    (view (setImpl state name input).1, (setImpl state name input).2) =
      set convert (view state) name input

section Implements

variable {convert : Conversion Name Input Cell ε} {view : Impl → Store Name Cell}
  {setImpl : Impl → Name → Input → Impl × Outcome ε}

theorem Implements.view_set (impl : Implements convert view setImpl) (state : Impl)
    (name : Name) (input : Input) :
    view (setImpl state name input).1 = (set convert (view state) name input).1 :=
  congrArg Prod.fst (impl.simulates state name input)

theorem Implements.outcome (impl : Implements convert view setImpl) (state : Impl)
    (name : Name) (input : Input) :
    (setImpl state name input).2 = (set convert (view state) name input).2 :=
  congrArg Prod.snd (impl.simulates state name input)

/-- Every run of the implementation is a run of the store. -/
theorem Implements.view_run (impl : Implements convert view setImpl) (state : Impl)
    (requests : List (Name × Input)) :
    view (run setImpl state requests) = run (set convert) (view state) requests := by
  induction requests generalizing state with
  | nil => rfl
  | cons request rest ih =>
      have later := ih (setImpl state request.1 request.2).1
      rw [impl.view_set] at later
      exact later

theorem Implements.not_stored (impl : Implements convert view setImpl) (state : Impl)
    (name : Name) (input : Input) (kept : (setImpl state name input).2 ≠ .stored) :
    (setImpl state name input).1 = state := by
  rw [impl.outcome] at kept
  apply impl.injective
  rw [impl.view_set, set_not_stored convert (view state) name input kept]

theorem Implements.frame (impl : Implements convert view setImpl) (state : Impl)
    (name other : Name) (input : Input) (apart : other ≠ name) :
    view (setImpl state name input).1 other = view state other := by
  rw [impl.view_set, set_frame convert (view state) name other input apart]

theorem Implements.accepted_eq (impl : Implements convert view setImpl) (state : Impl)
    (name : Name) (requests : List (Name × Input)) :
    accepted setImpl state name requests = accepted (set convert) (view state) name requests := by
  induction requests generalizing state with
  | nil => rfl
  | cons request rest ih =>
      have later := ih (setImpl state request.1 request.2).1
      rw [impl.view_set] at later
      rw [accepted_cons, accepted_cons]
      dsimp only
      rw [impl.outcome state request.1 request.2, later]

/-- What a run leaves at a name is settled by the last input accepted for it. -/
theorem Implements.run_value (impl : Implements convert view setImpl) (state : Impl)
    (requests : List (Name × Input)) (name : Name) :
    view (run setImpl state requests) name =
      match (accepted setImpl state name requests).getLast? with
      | none => view state name
      | some input => cellOf convert name input := by
  rw [impl.view_run, NamedStore.run_value, impl.accepted_eq]

end Implements

/-- What a two-phase read leaves behind: whether the caller's capacity sufficed, the
caller's buffer when there is one, and the reported size. -/
structure Fetched (β : Type) where
  fits : Bool
  buffer : Option (List β)
  size : Nat
  deriving DecidableEq

/-- Copying a block to the front of a buffer. -/
def overwrite {β : Type} (old block : List β) : List β := block ++ old.drop block.length

/-- The two-phase read of `text`: a null buffer asks for the size with the terminator,
and a buffer is written only if its capacity holds all of it. -/
def fetch {β : Type} (terminator : β) (text : List β) (buffer : Option (List β))
    (capacity : Nat) : Fetched β :=
  match buffer with
  | none => ⟨true, none, text.length + 1⟩
  | some old =>
      if text.length + 1 ≤ capacity then
        ⟨true, some (overwrite old (text ++ [terminator])), text.length + 1⟩
      else ⟨false, some old, text.length + 1⟩

end NamedStore
