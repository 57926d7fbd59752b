import Mathlib

set_option autoImplicit false

/- Programs that make calls and go on with the replies: their runs, and what holds at every
call of every run. -/
namespace CallProgram

/-- A program that calls out, goes on with the reply, and ends with a value or early with a
code. -/
inductive Program (Call : Type) (Reply : Call → Type) (ε α : Type)
  | done (value : α)
  | exit (code : ε)
  | call (c : Call) (next : Reply c → Program Call Reply ε α)

/-- A call that was made, with its reply. -/
structure Event (Call : Type) (Reply : Call → Type) where
  call : Call
  reply : Reply call

variable {Call : Type} {Reply : Call → Type} {ε α β : Type}

namespace Program

def bind (p : Program Call Reply ε α) (f : α → Program Call Reply ε β) :
    Program Call Reply ε β :=
  match p with
  | done value => f value
  | exit code => exit code
  | call c next => call c fun reply => (next reply).bind f

instance : Monad (Program Call Reply ε) where
  pure := done
  bind := bind

theorem bind_assoc {γ : Type} (p : Program Call Reply ε α) (f : α → Program Call Reply ε β)
    (g : β → Program Call Reply ε γ) : (p >>= f) >>= g = p >>= fun value => f value >>= g := by
  induction p with
  | done value => rfl
  | exit code => rfl
  | call c next ih => exact congrArg (call c) (funext ih)

/-- Makes one call. -/
def perform (c : Call) : Program Call Reply ε (Reply c) := call c done

end Program

/-- A run of a program: the calls it made, and how it ended. No reply is ruled out. -/
inductive Runs : Program Call Reply ε α → List (Event Call Reply) → Except ε α → Prop
  | done (value : α) : Runs (.done value) [] (.ok value)
  | exit (code : ε) : Runs (.exit code) [] (.error code)
  | call (c : Call) (next : Reply c → Program Call Reply ε α) (reply : Reply c)
      (rest : List (Event Call Reply)) (outcome : Except ε α)
      (later : Runs (next reply) rest outcome) :
      Runs (.call c next) (⟨c, reply⟩ :: rest) outcome

namespace Program

/-- Every call of the program finds the guard true of the calls before it. -/
def Guards (p : Program Call Reply ε α) (guard : List (Event Call Reply) → Call → Prop) : Prop :=
  ∀ events outcome, Runs p events outcome →
    ∀ before event after, events = before ++ event :: after → guard before event.call

section Meets

variable (guard : List (Event Call Reply) → Call → Prop)
  (post : Except ε α → List (Event Call Reply) → Prop)

/-- The weakest condition on the calls already made under which every further call finds its
guard true, and the end its postcondition. -/
def Meets : Program Call Reply ε α → (Except ε α → List (Event Call Reply) → Prop) →
    List (Event Call Reply) → Prop
  | done value, post, history => post (.ok value) history
  | exit code, post, history => post (.error code) history
  | call c next, post, history =>
      guard history c ∧ ∀ reply, (next reply).Meets post (history ++ [⟨c, reply⟩])

theorem meets_bind (p : Program Call Reply ε β) (f : β → Program Call Reply ε α)
    (history : List (Event Call Reply)) :
    (p >>= f).Meets guard post history ↔
      p.Meets guard (fun outcome reached =>
        match outcome with
        | .ok value => (f value).Meets guard post reached
        | .error code => post (.error code) reached) history := by
  induction p generalizing history with
  | done value => rfl
  | exit code => rfl
  | call c next ih =>
      apply and_congr_right
      intro _
      exact forall_congr' fun reply => ih reply _

variable {guard post} in
theorem Meets.mono {p : Program Call Reply ε α} {history : List (Event Call Reply)}
    {other : Except ε α → List (Event Call Reply) → Prop} (meets : p.Meets guard post history)
    (weaker : ∀ outcome reached, post outcome reached → other outcome reached) :
    p.Meets guard other history := by
  induction p generalizing history with
  | done value => exact weaker _ _ meets
  | exit code => exact weaker _ _ meets
  | call c next ih => exact ⟨meets.1, fun reply => ih reply (meets.2 reply)⟩

theorem meets_perform (c : Call) (post : Except ε (Reply c) → List (Event Call Reply) → Prop)
    (history : List (Event Call Reply)) :
    (perform c : Program Call Reply ε (Reply c)).Meets guard post history ↔
      guard history c ∧ ∀ reply, post (.ok reply) (history ++ [⟨c, reply⟩]) := Iff.rfl

theorem meets_perform_bind (c : Call) (f : Reply c → Program Call Reply ε α)
    (history : List (Event Call Reply)) :
    (perform c >>= f).Meets guard post history ↔
      guard history c ∧ ∀ reply, (f reply).Meets guard post (history ++ [⟨c, reply⟩]) := Iff.rfl

/-- As long as every call is answered, every program runs to an end. -/
theorem exists_run [answered : ∀ c, Nonempty (Reply c)] (p : Program Call Reply ε α) :
    ∃ events outcome, Runs p events outcome := by
  induction p with
  | done value => exact ⟨[], _, .done value⟩
  | exit code => exact ⟨[], _, .exit code⟩
  | call c next ih =>
      obtain ⟨reply⟩ := answered c
      obtain ⟨rest, outcome, later⟩ := ih reply
      exact ⟨_, outcome, .call c next reply rest outcome later⟩

theorem runs_of_meets (p : Program Call Reply ε α) (history : List (Event Call Reply))
    (meets : p.Meets guard post history) (events : List (Event Call Reply)) (outcome : Except ε α)
    (run : Runs p events outcome) :
    (∀ before event after, events = before ++ event :: after →
      guard (history ++ before) event.call) ∧ post outcome (history ++ events) := by
  induction run generalizing history with
  | done value =>
      rw [List.append_nil]
      refine ⟨?_, meets⟩
      intro before event after split
      cases before <;> cases split
  | exit code =>
      rw [List.append_nil]
      refine ⟨?_, meets⟩
      intro before event after split
      cases before <;> cases split
  | call c next reply rest outcome later ih =>
      obtain ⟨here, meets⟩ := meets
      obtain ⟨guarded, ended⟩ := ih _ (meets reply)
      rw [List.append_assoc] at ended
      refine ⟨?_, ended⟩
      intro before event after split
      cases before with
      | nil =>
          cases split
          rw [List.append_nil]
          exact here
      | cons first before =>
          cases split
          have inside := guarded before event after rfl
          rwa [List.append_assoc] at inside

theorem meets_of_runs [∀ c, Nonempty (Reply c)] (p : Program Call Reply ε α)
    (history : List (Event Call Reply))
    (runs : ∀ events outcome, Runs p events outcome →
      (∀ before event after, events = before ++ event :: after →
        guard (history ++ before) event.call) ∧ post outcome (history ++ events)) :
    p.Meets guard post history := by
  induction p generalizing history with
  | done value =>
      have ended := (runs [] _ (.done value)).2
      rwa [List.append_nil] at ended
  | exit code =>
      have ended := (runs [] _ (.exit code)).2
      rwa [List.append_nil] at ended
  | call c next ih =>
      constructor
      · obtain ⟨events, outcome, run⟩ := exists_run (.call c next)
        cases run with
        | call _ _ reply rest _ later =>
            have here := (runs _ outcome (.call c next reply rest outcome later)).1 [] _ rest rfl
            rwa [List.append_nil] at here
      · intro reply
        apply ih reply
        intro events outcome later
        obtain ⟨guarded, ended⟩ := runs _ outcome (.call c next reply events outcome later)
        rw [List.append_assoc]
        refine ⟨?_, ended⟩
        intro before event after split
        rw [List.append_assoc]
        exact guarded (⟨c, reply⟩ :: before) event after (congrArg (⟨c, reply⟩ :: ·) split)

/-- What holds at every call of every run is what the weakest condition asks for. -/
theorem guards_iff_meets [∀ c, Nonempty (Reply c)] (p : Program Call Reply ε α) :
    p.Guards guard ↔ p.Meets guard (fun _ _ => True) [] := by
  constructor
  · intro guards
    apply meets_of_runs
    intro events outcome run
    exact ⟨guards events outcome run, trivial⟩
  · intro meets events outcome run
    exact (runs_of_meets guard _ p [] meets events outcome run).1

end Meets

section Leads

variable (guard : List (Event Call Reply) → Call → Prop)
  (stop : ε → List (Event Call Reply) → Prop) {pre post : List (Event Call Reply) → Prop}

/-- Where a program leads from calls that satisfy `pre`: to calls that satisfy `post`, or to an
early exit after calls that satisfy `stop`. -/
def Leads (pre : List (Event Call Reply) → Prop) (p : Program Call Reply ε α)
    (post : List (Event Call Reply) → Prop) : Prop :=
  ∀ history, pre history → p.Meets guard (fun outcome reached =>
    match outcome with
    | .ok _ => post reached
    | .error code => stop code reached) history

variable {guard stop}

theorem leads_done (value : α) : (done value : Program Call Reply ε α).Leads guard stop pre pre :=
  fun _ holds => holds

theorem leads_bind (mid : List (Event Call Reply) → Prop) {p : Program Call Reply ε β}
    {f : β → Program Call Reply ε α} (first : p.Leads guard stop pre mid)
    (second : ∀ value, (f value).Leads guard stop mid post) :
    (p >>= f).Leads guard stop pre post := by
  intro history holds
  rw [meets_bind]
  apply (first history holds).mono
  intro outcome reached ends
  cases outcome with
  | ok value => exact second value reached ends
  | error code => exact ends

theorem leads_perform {c : Call} (allowed : ∀ history, pre history → guard history c)
    (answered : ∀ history reply, pre history → post (history ++ [⟨c, reply⟩])) :
    (perform c : Program Call Reply ε (Reply c)).Leads guard stop pre post :=
  fun history holds => ⟨allowed history holds, fun reply => answered history reply holds⟩

end Leads

/-- Two conditions that are met are met together. -/
theorem Meets.and {p : Program Call Reply ε α} {history : List (Event Call Reply)}
    {guard other : List (Event Call Reply) → Call → Prop}
    {post also : Except ε α → List (Event Call Reply) → Prop} (one : p.Meets guard post history)
    (two : p.Meets other also history) :
    p.Meets (fun reached c => guard reached c ∧ other reached c)
      (fun outcome reached => post outcome reached ∧ also outcome reached) history := by
  induction p generalizing history with
  | done value => exact ⟨one, two⟩
  | exit code => exact ⟨one, two⟩
  | call c next ih => exact ⟨⟨one.1, two.1⟩, fun reply => ih reply (one.2 reply) (two.2 reply)⟩

section Within

variable {Outer : Type} {Answer : Outer → Type} (inject : Call → Outer)
  (hand : ∀ c, Answer (inject c) → Reply c)

/-- A program that another one calls: its calls are calls of the caller, and its early exit ends
nothing but itself. -/
def within : Program Call Reply α α → Program Outer Answer ε α
  | done value => done value
  | exit code => done code
  | call c next => call (inject c) fun answer => (next (hand c answer)).within

/-- What a program returns, early or at its end. -/
def returned : Except α α → α
  | .ok value => value
  | .error code => code

/-- A run of the called program is a stretch of a run of the caller. -/
theorem runs_within {β : Type} (answer : ∀ c, Reply c → Answer (inject c))
    (handed : ∀ c reply, hand c (answer c reply) = reply) {p : Program Call Reply α α}
    {f : α → Program Outer Answer ε β} {events : List (Event Call Reply)} {outcome : Except α α}
    (run : Runs p events outcome) {rest : List (Event Outer Answer)} {ending : Except ε β}
    (later : Runs (f (returned outcome)) rest ending) :
    Runs (p.within inject hand >>= f)
      (events.map (fun event => ⟨inject event.call, answer event.call event.reply⟩) ++ rest)
      ending := by
  induction run with
  | done value => exact later
  | exit code => exact later
  | call c next reply events outcome _ ih =>
      have same := handed c reply
      refine .call _ _ (answer c reply) _ _ ?_
      show Runs ((next (hand c (answer c reply))).within inject hand >>= f) _ _
      rw [same]
      exact ih later

/-- What the called program meets by itself, it meets within the caller. -/
theorem meets_within {guard : List (Event Call Reply) → Call → Prop}
    {post : Except α α → List (Event Call Reply) → Prop}
    {outer : List (Event Outer Answer) → Outer → Prop}
    (inner : List (Event Outer Answer) → List (Event Call Reply))
    (keeps : List (Event Outer Answer) → Prop)
    (allowed : ∀ history c, keeps history → guard (inner history) c → outer history (inject c))
    (kept : ∀ history c answer, keeps history → keeps (history ++ [⟨inject c, answer⟩]))
    (seen : ∀ history c answer,
      inner (history ++ [⟨inject c, answer⟩]) = inner history ++ [⟨c, hand c answer⟩])
    (p : Program Call Reply α α) (history : List (Event Outer Answer)) (start : keeps history)
    (meets : p.Meets guard post (inner history)) :
    (p.within inject hand : Program Outer Answer ε α).Meets outer (fun outcome reached =>
      keeps reached ∧ ∃ ended, post ended (inner reached) ∧ outcome = .ok (returned ended))
      history := by
  induction p generalizing history with
  | done value => exact ⟨start, .ok value, meets, rfl⟩
  | exit code => exact ⟨start, .error code, meets, rfl⟩
  | call c next ih =>
      refine ⟨allowed history c start meets.1, fun answer => ?_⟩
      apply ih (hand c answer) _ (kept history c answer start)
      rw [seen]
      exact meets.2 (hand c answer)

end Within

end Program

end CallProgram
