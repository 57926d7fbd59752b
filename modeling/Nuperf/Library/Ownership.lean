import Mathlib

set_option autoImplicit false

/- Objects that own a resource each, or none: how a class with a destructor and with moves hands
resources on, and what that means for every resource over a whole run. -/
namespace Ownership

/-- The special member functions of a class whose objects own at most one resource. -/
structure OwnerClass (Object Resource : Type) where
  held : Object → Option Resource
  construct : Resource → Object
  /-- The new object, and the source after the move. -/
  moveConstruct : Object → Object × Object
  /-- The target and the source after the move, and what was released. -/
  moveAssign : Object → Object → Object × Object × Option Resource
  /-- What the destructor releases. -/
  destroy : Object → Option Resource

/-- Nothing is duplicated, and nothing is lost. -/
structure OwnerClass.Lawful {Object Resource : Type} (C : OwnerClass Object Resource) : Prop where
  constructed : ∀ r, C.held (C.construct r) = some r
  moved : ∀ source, C.held (C.moveConstruct source).1 = C.held source ∧
    C.held (C.moveConstruct source).2 = none
  assigned : ∀ target source, C.held (C.moveAssign target source).1 = C.held source ∧
    C.held (C.moveAssign target source).2.1 = none ∧
    (C.moveAssign target source).2.2 = C.held target
  destroyed : ∀ object, C.destroy object = C.held object

/-- What is done to objects, each of which lives at a place. -/
inductive Action (Place Resource : Type)
  | construct (place : Place) (r : Resource)
  | moveConstruct (place source : Place)
  | moveAssign (target source : Place)
  | use (place : Place)
  | destroy (place : Place)

/-- What becomes of a resource. A moved-from object is used without one. -/
inductive Event (Resource : Type)
  | acquired (r : Resource)
  | used (r : Option Resource)
  | released (r : Resource)
  deriving DecidableEq

section Machine

variable {Place Object Resource : Type} [DecidableEq Place] (C : OwnerClass Object Resource)

abbrev Objects (Place Object : Type) := Place → Option Object

def releasing (r : Option Resource) : List (Event Resource) := r.toList.map .released

/-- One action. There is none on an object that does not live, and none that constructs over one
that does. -/
def step (objects : Objects Place Object) :
    Action Place Resource → Option (Objects Place Object × List (Event Resource))
  | .construct place r =>
      if (objects place).isSome then none
      else some (Function.update objects place (some (C.construct r)), [.acquired r])
  | .moveConstruct place source =>
      if (objects place).isSome then none
      else
        (objects source).map fun object =>
          let (fresh, left) := C.moveConstruct object
          (Function.update (Function.update objects source (some left)) place (some fresh), [])
  | .moveAssign target source =>
      -- `this != &other`.
      if target = source then (objects target).map fun _ => (objects, [])
      else
        match objects target, objects source with
        | some old, some object =>
            let (fresh, left, released) := C.moveAssign old object
            some (Function.update (Function.update objects source (some left)) target (some fresh),
              releasing released)
        | _, _ => none
  | .use place => (objects place).map fun object => (objects, [.used (C.held object)])
  | .destroy place =>
      (objects place).map fun object =>
        (Function.update objects place none, releasing (C.destroy object))

/-- A run, with what became of the resources. -/
def run (objects : Objects Place Object) :
    List (Action Place Resource) → Option (Objects Place Object × List (Event Resource))
  | [] => some (objects, [])
  | action :: rest => do
      let (next, events) ← step C objects action
      let (last, later) ← run next rest
      some (last, events ++ later)

theorem run_append (objects middle last : Objects Place Object)
    (front back : List (Action Place Resource)) (events later : List (Event Resource))
    (first : run C objects front = some (middle, events))
    (second : run C middle back = some (last, later)) :
    run C objects (front ++ back) = some (last, events ++ later) := by
  induction front generalizing objects events with
  | nil =>
      cases first
      exact second
  | cons action rest ih =>
      simp only [run, Option.bind_eq_bind, Option.bind_eq_some_iff] at first
      obtain ⟨⟨next, now⟩, stepped, ⟨reached, then_⟩, ran, same⟩ := first
      cases same
      have continued := ih next then_ ran
      simp only [List.cons_append, run, Option.bind_eq_bind, Option.bind_eq_some_iff]
      refine ⟨(next, now), stepped, (last, then_ ++ later), continued, ?_⟩
      rw [List.append_assoc]

end Machine

section Traces

variable {Resource : Type} [DecidableEq Resource]

/-- The resources that are there, after what became of one. -/
def Event.after (live : Finset Resource) : Event Resource → Finset Resource
  | .acquired r => insert r live
  | .used _ => live
  | .released r => live.erase r

def liveAfter (live : Finset Resource) (events : List (Event Resource)) : Finset Resource :=
  events.foldl Event.after live

/-- What is acquired is not there yet. -/
def Fresh : Finset Resource → List (Event Resource) → Prop
  | _, [] => True
  | live, event :: rest => (∀ r, event = .acquired r → r ∉ live) ∧ Fresh (event.after live) rest

/-- What is used or released is there. -/
def Legal : Finset Resource → List (Event Resource) → Prop
  | _, [] => True
  | live, event :: rest =>
      (∀ r, event = .used (some r) ∨ event = .released r → r ∈ live) ∧
        Legal (event.after live) rest

/-- Every resource is released as often as it is acquired, but for one that is held. -/
def Balanced {Place : Type} (holder : Place → Option Resource) (events : List (Event Resource)) :
    Prop :=
  ∀ r, ((∃ place, holder place = some r) →
      events.count (.acquired r) = events.count (.released r) + 1) ∧
    ((∀ place, holder place ≠ some r) → events.count (.acquired r) = events.count (.released r))

theorem liveAfter_append (live : Finset Resource) (front back : List (Event Resource)) :
    liveAfter live (front ++ back) = liveAfter (liveAfter live front) back :=
  List.foldl_append

theorem fresh_append (live : Finset Resource) (front back : List (Event Resource)) :
    Fresh live (front ++ back) ↔ Fresh live front ∧ Fresh (liveAfter live front) back := by
  induction front generalizing live with
  | nil => exact (and_iff_right trivial).symm
  | cons event rest ih =>
      rw [List.cons_append, Fresh, Fresh, ih, and_assoc]
      rfl

theorem legal_append (live : Finset Resource) (front back : List (Event Resource)) :
    Legal live (front ++ back) ↔ Legal live front ∧ Legal (liveAfter live front) back := by
  induction front generalizing live with
  | nil => exact (and_iff_right trivial).symm
  | cons event rest ih =>
      rw [List.cons_append, Legal, Legal, ih, and_assoc]
      rfl

theorem Event.balance (live : Finset Resource) (event : Event Resource)
    (fresh : ∀ r, event = .acquired r → r ∉ live)
    (legal : ∀ r, event = .used (some r) ∨ event = .released r → r ∈ live) (r : Resource) :
    (if event = .acquired r then 1 else 0) + (if r ∈ live then 1 else 0) =
      (if event = .released r then 1 else 0) + (if r ∈ event.after live then 1 else 0) := by
  cases event with
  | acquired other =>
      by_cases same : other = r
      · subst same
        simp [Event.after, fresh other rfl]
      · simp [Event.after, same, Ne.symm same]
  | used other =>
      simp only [reduceCtorEq, if_false]
      rfl
  | released other =>
      by_cases same : other = r
      · subst same
        simp [Event.after, legal other (.inr rfl)]
      · simp [Event.after, same, Ne.symm same]

/-- Acquisitions and releases of a resource balance, but for one that is still there. -/
theorem count_balance (live : Finset Resource) (events : List (Event Resource))
    (fresh : Fresh live events) (legal : Legal live events) (r : Resource) :
    events.count (.acquired r) + (if r ∈ live then 1 else 0) =
      events.count (.released r) + (if r ∈ liveAfter live events then 1 else 0) := by
  induction events generalizing live with
  | nil => rfl
  | cons event rest ih =>
      have here := event.balance live fresh.1 legal.1 r
      have later := ih _ fresh.2 legal.2
      rw [liveAfter, List.foldl_cons, ← liveAfter, List.count_cons, List.count_cons]
      simp only [beq_iff_eq]
      omega

end Traces

section Holders

variable {Place Resource : Type} [DecidableEq Place] {holder : Place → Option Resource}
  {live : Finset Resource}

/-- Every resource that is there has one holder, and only such are held. -/
structure Exclusive (holder : Place → Option Resource) (live : Finset Resource) : Prop where
  held : ∀ place r, holder place = some r → r ∈ live
  unique : ∀ left right r, holder left = some r → holder right = some r → left = right
  covered : ∀ r ∈ live, ∃ place, holder place = some r

omit [DecidableEq Place] in
theorem exclusive_empty : Exclusive (fun _ : Place => (none : Option Resource)) ∅ where
  held := by simp
  unique := by simp
  covered := by simp

theorem Exclusive.move (exclusive : Exclusive holder live) (place source : Place)
    (free : holder place = none) :
    Exclusive (Function.update (Function.update holder source none) place (holder source))
      live := by
  have moved (other : Place) (r : Resource)
      (found : Function.update (Function.update holder source none) place (holder source) other =
        some r) :
      (other = place ∧ holder source = some r) ∨
        (other ≠ place ∧ other ≠ source ∧ holder other = some r) := by
    rw [Function.update_apply, Function.update_apply] at found
    split_ifs at found with here there
    · exact .inl ⟨here, found⟩
    · exact .inr ⟨here, there, found⟩
  constructor
  · intro other r found
    rcases moved other r found with ⟨-, was⟩ | ⟨-, -, was⟩
    · exact exclusive.held source r was
    · exact exclusive.held other r was
  · intro left right r first second
    rcases moved left r first with ⟨rfl, one⟩ | ⟨-, apart, one⟩
    · rcases moved right r second with ⟨rfl, -⟩ | ⟨-, apart, two⟩
      · rfl
      · exact absurd (exclusive.unique right source r two one) apart
    · rcases moved right r second with ⟨rfl, two⟩ | ⟨-, -, two⟩
      · exact absurd (exclusive.unique left source r one two) apart
      · exact exclusive.unique left right r one two
  · intro r member
    obtain ⟨other, found⟩ := exclusive.covered r member
    by_cases here : other = source
    · refine ⟨place, ?_⟩
      rw [Function.update_self, ← here, found]
    · refine ⟨other, ?_⟩
      have apart : other ≠ place := by
        rintro rfl
        rw [free] at found
        cases found
      rw [Function.update_of_ne apart, Function.update_of_ne here, found]

variable [DecidableEq Resource]

theorem Exclusive.acquire (exclusive : Exclusive holder live) (place : Place) (r : Resource)
    (free : holder place = none) (fresh : r ∉ live) :
    Exclusive (Function.update holder place (some r)) (insert r live) := by
  constructor
  · intro other s found
    rw [Function.update_apply] at found
    split_ifs at found
    · cases found
      exact Finset.mem_insert_self r live
    · exact Finset.mem_insert_of_mem (exclusive.held other s found)
  · intro left right s first second
    rw [Function.update_apply] at first second
    split_ifs at first second with here there there
    · rw [here, there]
    · cases first
      exact absurd (exclusive.held right r second) fresh
    · cases second
      exact absurd (exclusive.held left r first) fresh
    · exact exclusive.unique left right s first second
  · intro s member
    rcases Finset.mem_insert.mp member with rfl | before
    · exact ⟨place, Function.update_self _ _ _⟩
    · obtain ⟨other, found⟩ := exclusive.covered s before
      refine ⟨other, ?_⟩
      have apart : other ≠ place := by
        rintro rfl
        rw [free] at found
        cases found
      rw [Function.update_of_ne apart, found]

theorem Exclusive.release (exclusive : Exclusive holder live) (place : Place) :
    Exclusive (Function.update holder place none) (liveAfter live (releasing (holder place))) := by
  have remains (s : Resource) : s ∈ liveAfter live (releasing (holder place)) ↔
      s ∈ live ∧ holder place ≠ some s := by
    cases holder place with
    | none => exact ⟨fun member => ⟨member, by simp⟩, fun both => both.1⟩
    | some r =>
        show s ∈ live.erase r ↔ _
        rw [Finset.mem_erase, Option.some_inj.ne, and_comm, ne_comm]
  constructor
  · intro other s found
    rw [Function.update_apply] at found
    split_ifs at found with here
    rw [remains]
    refine ⟨exclusive.held other s found, ?_⟩
    intro same
    exact here (exclusive.unique other place s found same)
  · intro left right s first second
    rw [Function.update_apply] at first second
    split_ifs at first second
    exact exclusive.unique left right s first second
  · intro s member
    obtain ⟨member, apart⟩ := (remains s).mp member
    obtain ⟨other, found⟩ := exclusive.covered s member
    refine ⟨other, ?_⟩
    have elsewhere : other ≠ place := by
      rintro rfl
      exact apart found
    rw [Function.update_of_ne elsewhere, found]

/-- A move over a holder: what it held is released first. -/
theorem Exclusive.replace (exclusive : Exclusive holder live) (target source : Place)
    (apart : target ≠ source) :
    Exclusive (Function.update (Function.update holder source none) target (holder source))
      (liveAfter live (releasing (holder target))) := by
  have moved := (exclusive.release target).move target source (Function.update_self _ _ _)
  rw [Function.update_of_ne apart.symm] at moved
  have same : Function.update (Function.update (Function.update holder target none) source none)
      target (holder source) =
      Function.update (Function.update holder source none) target (holder source) := by
    rw [Function.update_comm apart none none holder, Function.update_idem]
  rwa [same] at moved

omit [DecidableEq Place] in
theorem Exclusive.legal_releasing (exclusive : Exclusive holder live) (place : Place) :
    Legal live (releasing (holder place)) := by
  cases found : holder place with
  | none => exact trivial
  | some r =>
      refine ⟨?_, trivial⟩
      rintro s (same | same)
      · cases same
      · cases same
        exact exclusive.held place r found

end Holders

section Machine

variable {Place Object Resource : Type} [DecidableEq Place] [DecidableEq Resource]
  (C : OwnerClass Object Resource) {objects next : Objects Place Object} {live : Finset Resource}

/-- What the object at a place holds. -/
def holderOf (objects : Objects Place Object) (place : Place) : Option Resource :=
  (objects place).bind C.held

omit [DecidableEq Resource] in
theorem holderOf_update (place : Place) (object : Option Object) :
    holderOf C (Function.update objects place object) =
      Function.update (holderOf C objects) place (object.bind C.held) := by
  funext other
  rw [holderOf, Function.update_apply, Function.update_apply]
  split_ifs
  · rfl
  · rfl

variable {C} (lawful : C.Lawful) (exclusive : Exclusive (holderOf C objects) live)

include lawful exclusive

/-- One action on objects that own their resources: it touches only what is there. -/
theorem step_exclusive (action : Action Place Resource) (events : List (Event Resource))
    (stepped : step C objects action = some (next, events)) (fresh : Fresh live events) :
    Legal live events ∧ Exclusive (holderOf C next) (liveAfter live events) := by
  cases action with
  | construct place r =>
      rw [step] at stepped
      split_ifs at stepped with taken
      cases stepped
      have free : holderOf C objects place = none := by
        rw [holderOf, Option.not_isSome_iff_eq_none.mp taken, Option.bind_none]
      refine ⟨⟨by simp, trivial⟩, ?_⟩
      rw [holderOf_update, Option.bind_some, lawful.constructed]
      exact exclusive.acquire place r free (fresh.1 r rfl)
  | moveConstruct place source =>
      rw [step] at stepped
      split_ifs at stepped with taken
      obtain ⟨object, found, same⟩ := Option.map_eq_some_iff.mp stepped
      cases same
      have free : holderOf C objects place = none := by
        rw [holderOf, Option.not_isSome_iff_eq_none.mp taken, Option.bind_none]
      have source_ : holderOf C objects source = C.held object := by
        rw [holderOf, found, Option.bind_some]
      obtain ⟨taken, left⟩ := lawful.moved object
      refine ⟨trivial, ?_⟩
      rw [holderOf_update, holderOf_update, Option.bind_some, Option.bind_some, taken, left,
        ← source_]
      exact exclusive.move place source free
  | moveAssign target source =>
      rw [step] at stepped
      split_ifs at stepped with same
      · obtain ⟨object, found, same⟩ := Option.map_eq_some_iff.mp stepped
        cases same
        exact ⟨trivial, exclusive⟩
      · cases target_ : objects target with
        | none =>
            rw [target_] at stepped
            cases stepped
        | some old =>
            cases source_ : objects source with
            | none =>
                rw [target_, source_] at stepped
                cases stepped
            | some object =>
                rw [target_, source_] at stepped
                cases stepped
                have before : holderOf C objects target = C.held old := by
                  rw [holderOf, target_, Option.bind_some]
                have behind : holderOf C objects source = C.held object := by
                  rw [holderOf, source_, Option.bind_some]
                obtain ⟨taken, left, released⟩ := lawful.assigned old object
                rw [released, ← before, holderOf_update, holderOf_update, Option.bind_some,
                  Option.bind_some, taken, left, ← behind]
                exact ⟨exclusive.legal_releasing target, exclusive.replace target source same⟩
  | use place =>
      obtain ⟨object, found, same⟩ := Option.map_eq_some_iff.mp stepped
      cases same
      refine ⟨⟨?_, trivial⟩, exclusive⟩
      rintro r (same | same)
      · apply exclusive.held place
        rw [holderOf, found, Option.bind_some]
        exact Event.used.inj same
      · cases same
  | destroy place =>
      obtain ⟨object, found, same⟩ := Option.map_eq_some_iff.mp stepped
      cases same
      have here : holderOf C objects place = C.held object := by
        rw [holderOf, found, Option.bind_some]
      rw [lawful.destroyed, ← here, holderOf_update]
      exact ⟨exclusive.legal_releasing place, exclusive.release place⟩

/-- A run of objects that own their resources. -/
theorem run_exclusive (actions : List (Action Place Resource)) (events : List (Event Resource))
    (ran : run C objects actions = some (next, events)) (fresh : Fresh live events) :
    Legal live events ∧ Exclusive (holderOf C next) (liveAfter live events) := by
  induction actions generalizing objects live events with
  | nil =>
      cases ran
      exact ⟨trivial, exclusive⟩
  | cons action rest ih =>
      simp only [run, Option.bind_eq_bind, Option.bind_eq_some_iff] at ran
      obtain ⟨⟨middle, now⟩, stepped, ⟨last, later⟩, ran, same⟩ := ran
      cases same
      obtain ⟨here, there⟩ := (fresh_append live now later).mp fresh
      obtain ⟨legal, kept⟩ := step_exclusive lawful exclusive action now stepped here
      obtain ⟨rest, ended⟩ := ih kept later ran there
      rw [legal_append, liveAfter_append]
      exact ⟨⟨legal, rest⟩, ended⟩

omit exclusive

/-- From no objects on, a resource is there as long as an object holds it. -/
theorem run_covered (actions : List (Action Place Resource)) (events : List (Event Resource))
    (ran : run C (fun _ => none) actions = some (next, events)) (fresh : Fresh ∅ events)
    (r : Resource) :
    r ∈ liveAfter ∅ events ↔ ∃ place, holderOf C next place = some r := by
  have start : Exclusive (holderOf C fun _ : Place => none) ∅ := exclusive_empty
  obtain ⟨-, exclusive⟩ := run_exclusive lawful start actions events ran fresh
  constructor
  · exact exclusive.covered r
  · rintro ⟨place, found⟩
    exact exclusive.held place r found

/-- A run from no objects on keeps to what is there, and balances. -/
theorem run_balanced (actions : List (Action Place Resource)) (events : List (Event Resource))
    (ran : run C (fun _ => none) actions = some (next, events)) (fresh : Fresh ∅ events) :
    Legal ∅ events ∧ Balanced (holderOf C next) events := by
  have start : Exclusive (holderOf C fun _ : Place => none) ∅ := exclusive_empty
  obtain ⟨legal, -⟩ := run_exclusive lawful start actions events ran fresh
  refine ⟨legal, ?_⟩
  intro r
  have balance := count_balance ∅ events fresh legal r
  rw [if_neg (Finset.notMem_empty r)] at balance
  have covered := run_covered lawful actions events ran fresh r
  constructor
  · intro held
    rw [if_pos (covered.mpr held)] at balance
    omega
  · intro free
    have gone : r ∉ liveAfter ∅ events := by
      intro member
      obtain ⟨place, found⟩ := covered.mp member
      exact free place found
    rw [if_neg gone] at balance
    omega

end Machine

end Ownership
