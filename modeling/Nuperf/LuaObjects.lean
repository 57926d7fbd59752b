import Nuperf.BuildRun
import Nuperf.Library.Ownership

set_option autoImplicit false

namespace Nuperf.LuaBindings

open ByteString Cli Ownership

/-- `LuaKeyset`, with its `ks_`. -/
structure LuaKeyset where
  ks : Option Handle
  deriving DecidableEq

/-- `LuaTable`, with its `tbl_`. -/
structure LuaTable where
  tbl : Option Handle
  deriving DecidableEq

section Classes

/-- The members of `LuaKeyset`: the constructor, once the keyset is created, the two moves, and
the destructor, with the handles that go to `nuperf_keyset_destroy`. -/
def luaKeyset : OwnerClass LuaKeyset Handle where
  held := LuaKeyset.ks
  construct := fun ks => ⟨some ks⟩
  moveConstruct := fun other => (⟨other.ks⟩, ⟨none⟩)
  moveAssign := fun this other => (⟨other.ks⟩, ⟨none⟩, this.ks)
  destroy := LuaKeyset.ks

/-- The members of `LuaTable`, with the handles that go to `nuperf_table_destroy`. -/
def luaTable : OwnerClass LuaTable Handle where
  held := LuaTable.tbl
  construct := fun tbl => ⟨some tbl⟩
  moveConstruct := fun other => (⟨other.tbl⟩, ⟨none⟩)
  moveAssign := fun this other => (⟨other.tbl⟩, ⟨none⟩, this.tbl)
  destroy := LuaTable.tbl

theorem luaKeyset_lawful : luaKeyset.Lawful where
  constructed := fun _ => rfl
  moved := fun _ => ⟨rfl, rfl⟩
  assigned := fun _ _ => ⟨rfl, rfl, rfl⟩
  destroyed := fun _ => rfl

theorem luaTable_lawful : luaTable.Lawful where
  constructed := fun _ => rfl
  moved := fun _ => ⟨rfl, rfl⟩
  assigned := fun _ _ => ⟨rfl, rfl, rfl⟩
  destroyed := fun _ => rfl

end Classes

section World

/-- The objects of the two classes, in userdata and in temporaries. -/
structure LuaWorld (Place : Type) where
  keysets : Objects Place LuaKeyset
  tables : Objects Place LuaTable

def LuaWorld.empty {Place : Type} : LuaWorld Place := ⟨fun _ => none, fun _ => none⟩

/-- What is done to them: `new_keyset` and `new_table` with what the library replies, moves, calls
of methods with the status that they check last, `build`, which takes a keyset, with the statuses
of `nuperf_table_set_keyset` and `nuperf_table_build`, and destructions. -/
inductive LuaAction (Place : Type)
  | newKeyset (place : Place) (reply : Status × Handle)
  | newTable (place : Place) (reply : Status × Handle)
  | moveKeyset (place source : Place)
  | moveTable (place source : Place)
  | assignKeyset (target source : Place)
  | assignTable (target source : Place)
  | callKeyset (place : Place) (st : Status)
  | callTable (place : Place) (st : Status)
  | build (table keyset : Place) (set built : Status)
  | dropKeyset (place : Place)
  | dropTable (place : Place)

/-- What becomes of the handles, and the `sol::error`s. -/
inductive LuaEvent
  | keyset (event : Event Handle)
  | table (event : Event Handle)
  | raised (message : Bytes)

def LuaEvent.ofKeyset : LuaEvent → Option (Event Handle)
  | .keyset event => some event
  | _ => none

def LuaEvent.ofTable : LuaEvent → Option (Event Handle)
  | .table event => some event
  | _ => none

variable {Place : Type}

/-- The part that keysets have in an action. -/
def keysetActions : LuaAction Place → List (Action Place Handle)
  | .newKeyset place (st, ks) => if st = .ok then [.construct place ks] else []
  | .moveKeyset place source => [.moveConstruct place source]
  | .assignKeyset target source => [.moveAssign target source]
  | .callKeyset place _ => [.use place]
  | .build _ keyset _ _ => [.use keyset]
  | .dropKeyset place => [.destroy place]
  | _ => []

/-- The part that tables have in it. `nuperf_table_build` is not reached where
`nuperf_table_set_keyset` fails. -/
def tableActions : LuaAction Place → List (Action Place Handle)
  | .newTable place (st, tbl) => if st = .ok then [.construct place tbl] else []
  | .moveTable place source => [.moveConstruct place source]
  | .assignTable target source => [.moveAssign target source]
  | .callTable place _ => [.use place]
  | .build table _ set _ => if set = .ok then [.use table, .use table] else [.use table]
  | .dropTable place => [.destroy place]
  | _ => []

/-- The status that goes to `throw_on_error`, the first one that is no success. -/
def LuaAction.status : LuaAction Place → Status
  | .newKeyset _ reply => reply.1
  | .newTable _ reply => reply.1
  | .callKeyset _ st => st
  | .callTable _ st => st
  | .build _ _ set built => if set = .ok then built else set
  | _ => .ok

def throwOnError (strerror : Status → Bytes) (st : Status) : List LuaEvent :=
  if st = .ok then [] else [.raised (strerror st)]

variable [DecidableEq Place] (strerror : Status → Bytes)

def LuaWorld.step (world : LuaWorld Place) (action : LuaAction Place) :
    Option (LuaWorld Place × List LuaEvent) := do
  let (keysets, first) ← Ownership.run luaKeyset world.keysets (keysetActions action)
  let (tables, second) ← Ownership.run luaTable world.tables (tableActions action)
  some (⟨keysets, tables⟩,
    first.map .keyset ++ (second.map .table ++ throwOnError strerror action.status))

/-- Scripts, with what the collector and the binding library do to the objects between. -/
def LuaWorld.run (world : LuaWorld Place) :
    List (LuaAction Place) → Option (LuaWorld Place × List LuaEvent)
  | [] => some (world, [])
  | action :: rest => do
      let (next, events) ← LuaWorld.step strerror world action
      let (last, later) ← LuaWorld.run next rest
      some (last, events ++ later)

end World

section Handles

variable {Place : Type} [DecidableEq Place] {strerror : Status → Bytes}

theorem keyset_part (first second : List (Event Handle)) (st : Status) (later : List LuaEvent) :
    (first.map LuaEvent.keyset ++ (second.map LuaEvent.table ++ throwOnError strerror st) ++
      later).filterMap LuaEvent.ofKeyset = first ++ later.filterMap LuaEvent.ofKeyset := by
  have raised : (throwOnError strerror st).filterMap LuaEvent.ofKeyset = [] := by
    rw [throwOnError]
    split_ifs
    · rfl
    · rfl
  rw [List.filterMap_append, List.filterMap_append, List.filterMap_append, raised,
    List.filterMap_map, List.filterMap_map]
  have own : LuaEvent.ofKeyset ∘ LuaEvent.keyset = some := rfl
  have foreign : LuaEvent.ofKeyset ∘ LuaEvent.table = fun _ => none := rfl
  rw [own, foreign, List.filterMap_some]
  simp

theorem table_part (first second : List (Event Handle)) (st : Status) (later : List LuaEvent) :
    (first.map LuaEvent.keyset ++ (second.map LuaEvent.table ++ throwOnError strerror st) ++
      later).filterMap LuaEvent.ofTable = second ++ later.filterMap LuaEvent.ofTable := by
  have raised : (throwOnError strerror st).filterMap LuaEvent.ofTable = [] := by
    rw [throwOnError]
    split_ifs
    · rfl
    · rfl
  rw [List.filterMap_append, List.filterMap_append, List.filterMap_append, raised,
    List.filterMap_map, List.filterMap_map]
  have own : LuaEvent.ofTable ∘ LuaEvent.table = some := rfl
  have foreign : LuaEvent.ofTable ∘ LuaEvent.keyset = fun _ => none := rfl
  rw [own, foreign, List.filterMap_some]
  simp

/-- What a run does to keysets, and what it does to tables, are runs of the one class. -/
theorem run_classes (world last : LuaWorld Place) (actions : List (LuaAction Place))
    (events : List LuaEvent) (ran : LuaWorld.run strerror world actions = some (last, events)) :
    Ownership.run luaKeyset world.keysets (actions.flatMap keysetActions) =
        some (last.keysets, events.filterMap LuaEvent.ofKeyset) ∧
      Ownership.run luaTable world.tables (actions.flatMap tableActions) =
        some (last.tables, events.filterMap LuaEvent.ofTable) := by
  induction actions generalizing world events with
  | nil =>
      cases ran
      exact ⟨rfl, rfl⟩
  | cons action rest ih =>
      simp only [LuaWorld.run, LuaWorld.step, Option.bind_eq_bind, Option.bind_eq_some_iff] at ran
      obtain ⟨⟨next, now⟩, ⟨⟨keysets, first⟩, one, ⟨tables, second⟩, two, same⟩, ⟨_, later⟩, ran,
        ended⟩ := ran
      cases same
      cases ended
      obtain ⟨keysetsRan, tablesRan⟩ := ih ⟨keysets, tables⟩ later ran
      rw [List.flatMap_cons, List.flatMap_cons]
      dsimp only
      rw [keyset_part, table_part]
      exact ⟨run_append luaKeyset _ _ _ _ _ _ _ one keysetsRan,
        run_append luaTable _ _ _ _ _ _ _ two tablesRan⟩

/-- A keyset and a table are moved into their userdata, the table is built, and all are
collected. -/
def builtAndCollected : List (LuaAction Bool) :=
  [.newKeyset false (.ok, 7), .moveKeyset true false, .dropKeyset false,
    .newTable false (.ok, 7), .moveTable true false, .dropTable false,
    .build true true .ok .errInvalidArgument, .dropKeyset true, .dropTable true]

end Handles

end Nuperf.LuaBindings
