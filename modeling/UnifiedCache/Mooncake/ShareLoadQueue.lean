import UnifiedCache.Mooncake.LoadPipeline

/-! The share queues of all processes and the buffer between them. The block tasks of
all queues are kept in one list, oldest first, each with the place in the code it has
reached; the reader of a task lives as long as the task. -/
namespace UnifiedCache.Mooncake
open Store Function

inductive Stage where
  /-- In the dispatcher's own list. -/
  | made
  /-- In `waitList_`. -/
  | queued
  /-- In `loadList_`. -/
  | listed
  /-- `HandleLoadTask` -/
  | handling
  /-- In `Ready4Read`, which has found the status `INIT`. -/
  | claiming
  /-- `Ready4Read` has returned `DuplicateKey` to `HandleLoadTask`. -/
  | owning
  /-- `Ready4Read` has returned another error to it. -/
  | failing
  /-- `HandleReadyTask` -/
  | ready (status : Status)
  /-- `HandleBackendComplete` -/
  | completing
  /-- The same after `MarkLoaded`. -/
  | loaded
  /-- The copy to the device is on its way. -/
  | copying
  /-- `done` was called; the reader is not released yet. -/
  | finished
  deriving DecidableEq

structure BlockTask where
  process : Nat
  taskHandle : TaskHandle
  slice : Slice
  /-- The slot of a shared reader. -/
  reader : Option Nat
  /-- Zero if there is no load to wait for. -/
  backendTaskHandle : TaskHandle := 0
  stage : Stage := .made
  /-- What the memory of a reader without a slot holds. -/
  data : Option Slice := none

structure Answer where
  submit : Option TaskHandle
  waited : Bool
  copied : Bool
  synced : Bool
  /-- A call that has failed leaves nothing under way: the backend does not write any more
  after a failed `Wait`, and the device does not read after a failed copy. -/
  settled : Bool

structure Advance where
  stage : Stage
  backendTaskHandle : TaskHandle := 0
  mark : Option ShareBlockStatus := none
  /-- Whether the task's load enters the failure set. -/
  fails : Bool := false
  /-- A backend load has ended, well or not. -/
  load : Option Bool := none
  /-- A backend load is left behind. -/
  abandons : Bool := false
  /-- A copy to the device is left behind. -/
  strays : Bool := false

namespace Advance

def header (move : Advance) (header : ShareBlockHeader) : ShareBlockHeader :=
  match move.mark with
  | some status => { header with status }
  | none => header

/-- What the memory holds when a backend load has ended; a failed one may have written
anything. -/
def bytes (move : Advance) (slice : Slice) (held : Option Slice) : Option Slice :=
  match move.load with
  | some true => some slice
  | some false => none
  | none => held

end Advance

def BlockTask.become (move : Advance) (task : BlockTask) : BlockTask :=
  { task with
    stage := move.stage
    backendTaskHandle := move.backendTaskHandle
    data := match task.reader with
      | some _ => task.data
      | none => move.bytes task.slice task.data }

/-- `HostToDeviceScatterAsync`, which may fail when some of its copies are under way, and what
follows if it fails. -/
def copyFrom (answer : Answer) : Advance :=
  if answer.copied then { stage := .copying }
  else { stage := .finished, fails := true, strays := !answer.settled }

def BlockTask.advance (backend failed : Bool) (status : ShareBlockStatus) (answer : Answer)
    (task : BlockTask) : Option Advance :=
  match task.stage with
  | .handling =>
    if failed then some { stage := .finished }
    else
      match task.reader with
      | none => some { stage := .owning }
      | some _ =>
        match status with
        | .LOADED => some { stage := .ready .OK }
        | .FAILURE => some { stage := .failing }
        | .LOADING => some { stage := .listed }
        | .INIT => some { stage := .claiming }
  | .claiming =>
    if status = .INIT then some { stage := .owning, mark := some .LOADING }
    else some { stage := .listed }
  | .owning =>
    if ¬backend then some { stage := .finished, mark := some .FAILURE, fails := true }
    else
      match answer.submit with
      | none => some { stage := .finished, mark := some .FAILURE, fails := true }
      | some backendTaskHandle => some { stage := .listed, backendTaskHandle }
  | .failing => some { stage := .finished, mark := some .FAILURE, fails := true }
  | .completing =>
    if failed then some { stage := .finished, mark := some .FAILURE, abandons := true }
    else if ¬answer.waited then
      -- `Wait` also fails when it has run out of time
      some { stage := .finished, mark := some .FAILURE, fails := true, load := some false,
             abandons := !answer.settled }
    else some { stage := .loaded, mark := some .LOADED, load := some true }
  | .ready status =>
    if failed then some { stage := .finished }
    else if status.failure then some { stage := .finished, fails := true }
    else some (copyFrom answer)
  | .loaded => some (copyFrom answer)
  | .copying =>
    if answer.synced then some { stage := .finished }
    else some { stage := .finished, fails := true, strays := !answer.settled }
  | _ => none

/-- The share queue's `Submit` gives up. -/
def Process.dropShare (handle : TaskHandle) (process : Process) : Process :=
  ({ process with
     dispatcher := .idle
     remaining := update process.remaining handle 0 }.fail handle).complete handle

structure Host where
  headers : Headers := fun _ => {}
  mem : Nat → Option Slice := fun _ => none
  tasks : List BlockTask := []
  /-- Loads into slots that nobody waits for. -/
  abandoned : List (Nat × Slice) := []
  /-- Copies from slots that nobody waits for, each with the shard it is for. -/
  strays : List (Nat × Slice) := []
  processes : Nat → Process := fun _ => {}

namespace Host

def setProcess (index : Nat) (process : Process) (host : Host) : Host :=
  { host with processes := update host.processes index process }

/-- The status of the slot of a task; a task without a slot does not look at it. -/
def status (task : BlockTask) (host : Host) : ShareBlockStatus :=
  match task.reader with
  | some pos => (host.headers pos).status
  | none => .INIT

def content (task : BlockTask) (host : Host) : Option Slice :=
  match task.reader with
  | some pos => host.mem pos
  | none => task.data

def acquired (hash : Key → UInt64) (config : Config) (key : Key) (host : Host) :
    Host × Option Nat :=
  let result := host.headers.acquireBlock hash config.shareBufferNumber key
  ({ host with headers := result.1 }, result.2)

def processAfter (task : BlockTask) (move : Advance) (host : Host) : Process :=
  let process := host.processes task.process
  let process := if move.fails then process.fail task.taskHandle else process
  if move.stage = .finished then process.blockDone task.taskHandle else process

/-- What is under way in the slot of a task, if the task leaves it behind. -/
def leftBy (task : BlockTask) (leaves : Bool) : List (Nat × Slice) :=
  match task.reader, leaves with
  | some pos, true => [(pos, task.slice)]
  | _, _ => []

/-- The state after a worker has advanced a task; `before` and `after` are the others. -/
def advanced (before after : List BlockTask) (task : BlockTask) (move : Advance) (host : Host) :
    Host where
  headers := match task.reader with
    | some pos => update host.headers pos (move.header (host.headers pos))
    | none => host.headers
  mem := match task.reader with
    | some pos => update host.mem pos (move.bytes task.slice (host.mem pos))
    | none => host.mem
  tasks := before ++ task.become move :: after
  abandoned := host.abandoned ++ leftBy task move.abandons
  strays := host.strays ++ leftBy task move.strays
  processes := update host.processes task.process (host.processAfter task move)

def listedCount (index : Nat) (host : Host) : Nat :=
  host.tasks.countP fun task => task.process = index ∧ task.stage = .listed

def isMade (index : Nat) (handle : TaskHandle) (task : BlockTask) : Bool :=
  task.process = index ∧ task.taskHandle = handle ∧ task.stage = .made

def restage (index : Nat) (handle : TaskHandle) (stage : Stage) (host : Host) : Host :=
  { host with
    tasks := host.tasks.map fun task =>
      if isMade index handle task then { task with stage } else task }

def made (index : Nat) (handle : TaskHandle) (shard : TransShard) (reader : Option Nat) :
    BlockTask :=
  { process := index, taskHandle := handle, slice := shard.slice, reader }

def push (tasks : List BlockTask) (host : Host) : Host := { host with tasks := host.tasks ++ tasks }

/-- `Ready4Read` on a task of `loadList_`. -/
def poll (task : BlockTask) (host : Host) : Status :=
  match task.reader with
  | none => .DuplicateKey
  | some pos =>
    match (host.headers pos).status with
    | .LOADED => .OK
    | .FAILURE => .Error ""
    | .LOADING => .Retry
    | .INIT => .DuplicateKey

def without (before after : List BlockTask) (task : BlockTask) (host : Host) : Host :=
  { host with
    tasks := before ++ after
    headers := match task.reader with
      | some pos => host.headers.releaseBlock pos
      | none => host.headers }

def moved (before after : List BlockTask) (task : BlockTask) (stage : Stage) (host : Host) : Host :=
  { host with tasks := before ++ { task with stage } :: after }

inductive Label where
  | act (index : Nat) (act : Act)
  | makeReader (index : Nat) (made : Bool)
  | splice (index : Nat)
  | takeQueued (task : BlockTask)
  | takeListed (task : BlockTask)
  | poll (task : BlockTask)
  | advance (task : BlockTask) (answer : Answer)
  | release (task : BlockTask)
  | discard (task : BlockTask)
  | write (pos : Nat) (slice : Slice)
  | wait (index : Nat) (handle : TaskHandle)

/-- The steps of a host. Which task of `loadList_` a worker finds first depends on when
it looks, so any may be taken; there may be any number of workers. -/
inductive Step (hash : Key → UInt64) (config : Config) (host : Host) : Label → Host → Prop where
  | act : (host.processes index).act config act = some process →
    Step hash config host (.act index act) (host.setProcess index process)
  | makeReader : (host.processes index).dispatcher = .making handle (position :: rest) →
    ((host.processes index).shards handle)[position]? = some shard →
    host.acquired hash config shard.key = (got, reader) →
    Step hash config host (.makeReader index true)
      ((got.push [made index handle shard reader]).setProcess index
        { host.processes index with dispatcher := .making handle rest })
  -- there is no memory for a reader; one that has a slot gives it back
  | makeNone : (host.processes index).dispatcher = .making handle (position :: rest) →
    ((host.processes index).shards handle)[position]? = some shard →
    host.acquired hash config shard.key = (got, reader) →
    Step hash config host (.makeReader index false)
      (((got.push (reader.map fun pos => made index handle shard (some pos)).toList).restage
        index handle .finished).setProcess index ((host.processes index).dropShare handle))
  | splice : (host.processes index).dispatcher = .making handle [] →
    Step hash config host (.splice index) ((host.restage index handle .queued).setProcess index
        { host.processes index with dispatcher := .idle })
  | takeQueued : host.tasks = before ++ task :: after → task.stage = .queued →
    (∀ earlier ∈ before, earlier.process = task.process → earlier.stage ≠ .queued) →
    host.listedCount task.process < config.streamNumber →
    (host.processes task.process).shareStop = false →
    Step hash config host (.takeQueued task) (host.moved before after task .handling)
  | takeListed : host.tasks = before ++ task :: after → task.stage = .listed →
    task.backendTaskHandle ≠ 0 → (host.processes task.process).shareStop = false →
    Step hash config host (.takeListed task) (host.moved before after task .completing)
  | poll : host.tasks = before ++ task :: after → task.stage = .listed →
    task.backendTaskHandle = 0 → (host.processes task.process).shareStop = false →
    host.poll task ≠ .Retry →
    Step hash config host (.poll task)
      { host.moved before after task (.ready (host.poll task)) with
        headers := if host.poll task = .DuplicateKey then host.headers.mark task.reader .LOADING
          else host.headers }
  | advance (answer : Answer) : host.tasks = before ++ task :: after →
    task.advance config.backend ((host.processes task.process).failed task.taskHandle)
      (host.status task) answer = some move →
    answer.submit ≠ some 0 →
    Step hash config host (.advance task answer) (host.advanced before after task move)
  | release : host.tasks = before ++ task :: after → task.stage = .finished →
    Step hash config host (.release task) (host.without before after task)
  -- a queue that is destroyed after `Close` takes the tasks in its lists with it
  | discard : host.tasks = before ++ task :: after →
    task.stage = .queued ∨ task.stage = .listed →
    (host.processes task.process).shareStop = true →
    Step hash config host (.discard task)
      { host.without before after task with
        abandoned := host.abandoned ++ leftBy task (task.backendTaskHandle ≠ 0) }
  -- a backend load writes its bytes some time before its wait returns
  | write : task ∈ host.tasks → task.backendTaskHandle ≠ 0 → task.reader = some pos →
    Step hash config host (.write pos task.slice)
      { host with mem := update host.mem pos (some task.slice) }
  | writeLate : (pos, slice) ∈ host.abandoned → Step hash config host (.write pos slice)
      { host with mem := update host.mem pos (some slice) }
  | wait : (host.processes index).wrapper.WaitStep config.policy handle next →
    Step hash config host (.wait index handle)
      (host.setProcess index { host.processes index with wrapper := next })

def system (hash : Key → UInt64) (config : Config) : Transition.System Host Label where
  init host := host = {}
  step := Step hash config

end Host
end UnifiedCache.Mooncake
