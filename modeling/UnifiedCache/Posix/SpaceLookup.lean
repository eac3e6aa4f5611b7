import UnifiedCache.Lib.Transition
import UnifiedCache.Store.TaskWrapper

/-! The parallel lookups of `SpaceManager`. A round pushes one task per worker to a thread
pool and waits on a latch. The monitor of the pool may declare a running task timed out:
it sets the status of the round and releases the latch for the task, which goes on. A
round that timed out is followed by one on another backend, with data of its own. -/
namespace UnifiedCache.Posix.SpaceManager
open Store

structure Query where
  blocks : List BlockId
  /-- The blocks with an archived file. The backends are paths to one storage, so it is the
  same on all of them. -/
  stored : BlockId → Bool
  poolSize : Nat
  /-- A pool without workers does not run. -/
  positive : 0 < poolSize
  /-- `BlockIdHasher` of the zero id, which stands for all the blocks when a backend is chosen. -/
  hash : Nat := 0

namespace Query

def num (query : Query) : Nat := query.blocks.length

def present (query : Query) (index : Nat) : Bool := query.blocks[index]?.any query.stored

/-- An `Access` that fails is taken for the absence of the file, whatever the error is. -/
def lookupBlock (query : Query) (index : Nat) (accessed : Bool) : Bool :=
  accessed && query.present index

end Query

/-- What the environment decides in a step of a loop. -/
structure Outcome where
  /-- `Access` does not fail for another reason than that there is no file. -/
  accessed : Bool := true
  /-- A weak exchange that may succeed does so. -/
  exchanged : Bool := true

structure Service (Data Point Value : Type) where
  nWorker : Query → Nat
  empty : Value
  unset : Query → Data
  fresh : Query → Data
  value : Data → Value
  enter : Nat → Point
  /-- A step of the loop; the flag is whether the status of the round is still OK. Without a
  next point the loop is left. -/
  step : Query → Bool → Outcome → Point → Data → Option Point × Data

inductive LookupPoint where
  /-- Before the status is read. -/
  | top (index : Nat)
  | probing (index : Nat)

def flag (hit : Bool) : UInt8 := if hit then 1 else 0

def lookupStep (query : Query) (running : Bool) (outcome : Outcome) :
    LookupPoint → List UInt8 → Option LookupPoint × List UInt8
  | .top index, results =>
    if index < query.num ∧ running = true then (some (.probing index), results) else (none, results)
  | .probing index, results =>
    (some (.top (index + min query.num query.poolSize)),
      results.set index (flag (query.lookupBlock index outcome.accessed)))

def lookup : Service (List UInt8) LookupPoint (List UInt8) where
  nWorker query := min query.num query.poolSize
  empty := []
  unset query := List.replicate query.num 0
  fresh query := List.replicate query.num 0
  value results := results
  enter index := .top index
  step := lookupStep

inductive PrefixPoint where
  /-- Before the status is read. -/
  | top (index : Nat)
  /-- Before the bound is read. -/
  | bounding (index : Nat)
  | probing (index : Nat)
  /-- The block is absent. -/
  | lowering (index : Nat)
  /-- The bound was `cur`. -/
  | swapping (index cur : Nat)

def prefixStep (query : Query) (running : Bool) (outcome : Outcome) :
    PrefixPoint → Nat → Option PrefixPoint × Nat
  | .top index, firstFail =>
    (if index < query.num ∧ running = true then some (.bounding index) else none, firstFail)
  | .bounding index, firstFail =>
    (if firstFail < index then none else some (.probing index), firstFail)
  | .probing index, firstFail =>
    (if query.lookupBlock index outcome.accessed then some (.top (index + query.poolSize))
      else some (.lowering index), firstFail)
  | .lowering index, firstFail => (some (.swapping index firstFail), firstFail)
  | .swapping index cur, firstFail =>
    if index < cur then
      if firstFail = cur ∧ outcome.exchanged = true then (none, index)
      else (some (.swapping index firstFail), firstFail)
    else (none, firstFail)

def lookupOnPrefix : Service Nat PrefixPoint Int where
  nWorker query := query.poolSize
  empty := -1
  unset _ := 0
  fresh query := query.num
  value firstFail := (firstFail : Int) - 1
  enter index := .top index
  step := prefixStep

inductive Progress (Point : Type) where
  | queued
  | running (point : Point)
  /-- The loop was left; `Done` comes next. -/
  | leaving
  | gone

inductive Watch where
  | unseen
  /-- The monitor holds the task and has found it to be late. -/
  | held
  /-- The status was exchanged; `Done` comes next. -/
  | declared
  | released
  deriving DecidableEq

structure Task (Point : Type) where
  progress : Progress Point := .queued
  watch : Watch := .unseen

structure Round (Data Point : Type) where
  data : Data
  status : Status := .OK
  counter : Nat
  tasks : List (Task Point)

namespace Round
variable {Data Point Value : Type}

def start (service : Service Data Point Value) (query : Query) : Round Data Point where
  data := service.fresh query
  counter := service.nWorker query
  tasks := List.replicate (service.nWorker query) {}

def setProgress (index : Nat) (progress : Progress Point) (round : Round Data Point) :
    Round Data Point :=
  { round with tasks := round.tasks.modify index fun task => { task with progress } }

def setWatch (index : Nat) (watch : Watch) (round : Round Data Point) : Round Data Point :=
  { round with tasks := round.tasks.modify index fun task => { task with watch } }

/-- `Latch::Done`. -/
def done (round : Round Data Point) : Round Data Point :=
  { round with counter := round.counter - 1 }

def after : Option Point → Progress Point
  | some point => .running point
  | none => .leaving

def work (service : Service Data Point Value) (query : Query) (index : Nat) (outcome : Outcome)
    (task : Task Point) (round : Round Data Point) : Option (Round Data Point) :=
  match task.progress with
  | .queued => some (round.setProgress index (.running (service.enter index)))
  | .running point =>
    let result := service.step query round.status.success outcome point round.data
    some (({ round with data := result.2 } : Round Data Point).setProgress index (after result.1))
  | .leaving => some (round.setProgress index .gone).done
  | .gone => none

/-- The exchange of `OnLookupTimeout`: it is weak and tried once. -/
def exchange (lucky : Bool) (round : Round Data Point) : Round Data Point :=
  { round with status := if round.status.success ∧ lucky = true then .Timeout else round.status }

/-- A step of the monitor. It takes a task that some worker has; the worker lets go of the task
a little after the task is gone. -/
def monitor (index : Nat) (lucky : Bool) (task : Task Point) (round : Round Data Point) :
    Option (Round Data Point) :=
  match task.watch, task.progress with
  | .unseen, .queued => none
  | .unseen, _ => some (round.setWatch index .held)
  | .held, _ => some ((round.exchange lucky).setWatch index .declared)
  | .declared, _ => some (round.setWatch index .released).done
  | .released, _ => none

end Round

inductive Caller (Value : Type) where
  | entering
  | selecting
  | waiting
  /-- The latch is open; the status comes next. -/
  | woken
  /-- The status was OK. -/
  | reading
  | returned (result : Expected Value)

structure Call (Data Point Value : Type) where
  rounds : List (Round Data Point) := []
  attempted : List Nat := []
  status : Status := .OK
  caller : Caller Value := .entering

inductive Label where
  | enter (allocated : Bool)
  /-- The health of the backends when one is selected. -/
  | select (health : List Bool)
  | work (round task : Nat) (outcome : Outcome)
  | monitor (round task : Nat) (lucky : Bool)
  | wake
  | load
  | read

/-- `GetBackendForBlock`, by index. -/
def getBackendForBlock (hash : Nat) (health : List Bool) (excluded : List Nat) : Option Nat :=
  ((List.range health.length).map fun offset =>
    (hash % health.length + offset) % health.length).find? fun index =>
      health.getD index false && !excluded.contains index

namespace Call
variable {Data Point Value : Type}

def finish (status : Status) : Caller Value :=
  if status.failure then .returned (.error ⟨status.code, "failed to lookup some blocks"⟩)
  else .reading

def data (service : Service Data Point Value) (query : Query) (call : Call Data Point Value) :
    Data :=
  (call.rounds.getLast?.map Round.data).getD (service.unset query)

def step (service : Service Data Point Value) (query : Query) (call : Call Data Point Value) :
    Label → Option (Call Data Point Value)
  | .enter allocated =>
    match call.caller with
    | .entering =>
      if query.num = 0 then some { call with caller := .returned (.ok service.empty) }
      else if allocated then some { call with caller := .selecting }
      else some { call with caller := .returned (.error ⟨.outOfMemory, ""⟩) }
    | _ => none
  | .select health =>
    match call.caller with
    | .selecting =>
      match getBackendForBlock query.hash health call.attempted with
      | some index => some { call with
          rounds := call.rounds ++ [Round.start service query]
          attempted := call.attempted ++ [index]
          caller := .waiting }
      | none => some { call with caller := finish call.status }
    | _ => none
  | .work round task outcome =>
    match call.rounds[round]? with
    | some found =>
      match found.tasks[task]? with
      | some which => (found.work service query task outcome which).map fun next =>
          { call with rounds := call.rounds.set round next }
      | none => none
    | none => none
  | .monitor round task lucky =>
    match call.rounds[round]? with
    | some found =>
      match found.tasks[task]? with
      | some which => (found.monitor task lucky which).map fun next =>
          { call with rounds := call.rounds.set round next }
      | none => none
    | none => none
  | .wake =>
    match call.caller, call.rounds.getLast? with
    | .waiting, some round => if round.counter = 0 then some { call with caller := .woken } else none
    | _, _ => none
  | .load =>
    match call.caller, call.rounds.getLast? with
    | .woken, some round => some { call with
        status := round.status
        caller := if round.status.same .Timeout then .selecting else finish round.status }
    | _, _ => none
  | .read =>
    match call.caller with
    | .reading => some { call with
        caller := .returned (.ok (service.value (call.data service query))) }
    | _ => none

def system (service : Service Data Point Value) (query : Query) :
    Transition.System (Call Data Point Value) Label where
  init call := call = {}
  step call label next := call.step service query label = some next

end Call
end UnifiedCache.Posix.SpaceManager
