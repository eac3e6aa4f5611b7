import UnifiedCache.Lib.Transition
import UnifiedCache.Mooncake.ShareBuffer

/-! The load path of the Mooncake store in all processes of a host. A task goes from the
wrapper through the waiting queue to the dispatcher; what the batch read has missed is
loaded from the backend, over host buffers by the transfer thread or over the shared
buffer by the workers of the share queue. Metrics are left out, and the holder of the
transfer thread, which only keeps host buffers alive. -/
namespace UnifiedCache.Mooncake
open Store Function

structure TransShard where
  key : Key
  owner : BlockId
  index : UInt64
  addrs : List Address := []
  sizes : List UInt64 := []

def TransShard.slice (shard : TransShard) : Slice := (shard.owner, shard.index)

structure TransTask where
  shards : List TransShard

structure Config where
  backend : Bool := true
  localRankSize : Nat := 1
  loadQueueDepth : Nat := 524288
  streamNumber : Nat := 4
  timeoutMs : Nat := 0
  shareBufferNumber : Nat := 0
  tensorSizeList : List UInt64 := []

def Config.shared (config : Config) : Bool := 1 < config.localRankSize ∧ config.backend

def Config.policy (config : Config) : WaitPolicy TransTask := { timeoutMs := config.timeoutMs }

def buildShards (config : Config) (desc : List Shard) : List TransShard :=
  desc.map fun shard =>
    let count := min shard.addrs.length config.tensorSizeList.length
    { key := shardKey (shard.owner, shard.index)
      owner := shard.owner
      index := shard.index
      addrs := shard.addrs.take count
      sizes := config.tensorSizeList.take count }

structure ShardTask where
  taskHandle : TaskHandle
  backendTaskHandle : TaskHandle
  position : Nat
  /-- The last shard of a task has the waiter. -/
  waiter : Bool

inductive Dispatcher where
  | idle
  /-- It has taken a task that is not in the failure set. -/
  | loading (handle : TaskHandle)
  /-- In `SubmitMissShards`, before the shard `next`. -/
  | submitting (handle : TaskHandle) (results : List Int) (next pushed : Nat)
  /-- It calls `Submit` of the share queue. -/
  | sharing (handle : TaskHandle) (results : List Int)
  /-- In the loop of that; `rest` are the positions without a reader. -/
  | making (handle : TaskHandle) (rest : List Nat)

structure Process where
  wrapper : TaskWrapper TransTask := {}
  nextId : TaskHandle := 1
  waiting : List TaskHandle := []
  dispatcher : Dispatcher := .idle
  running : List ShardTask := []
  transfer : Option ShardTask := none
  /-- The counters that the block tasks of a load share. -/
  remaining : TaskHandle → Nat := fun _ => 0
  stop : Bool := false
  dispatcherLeft : Bool := false
  transferLeft : Bool := false
  joined : Bool := false
  shareStop : Bool := false

structure TransferAnswer where
  waited : Bool
  copied : Bool
  synced : Bool

namespace Process

/-- `waiter->Done()` -/
def complete (handle : TaskHandle) (process : Process) : Process :=
  { process with wrapper := process.wrapper.done handle }

def fail (handle : TaskHandle) (process : Process) : Process :=
  { process with wrapper := process.wrapper.fail handle }

def failed (handle : TaskHandle) (process : Process) : Bool := process.wrapper.failureSet handle

def shards (handle : TaskHandle) (process : Process) : List TransShard :=
  match process.wrapper.task? handle with
  | some task => task.shards
  | none => []

/-- `Submit` with `Up` on the waiter and the attempt to queue the task. -/
def submit (config : Config) (desc : List Shard) (process : Process) : Process :=
  let registered : Process :=
    { process with
      nextId := process.nextId + 1
      wrapper := process.wrapper.register process.nextId
        { task := ⟨buildShards config desc⟩, counter := 1 } }
  if process.waiting.length + 1 < config.loadQueueDepth then
    { registered with waiting := process.waiting ++ [process.nextId] }
  else (registered.fail process.nextId).complete process.nextId

def takeTask (process : Process) : Option Process :=
  match process.dispatcherLeft, process.dispatcher, process.waiting with
  | false, .idle, handle :: rest =>
    if process.failed handle then some ({ process with waiting := rest }.complete handle)
    else some { process with waiting := rest, dispatcher := .loading handle }
  | _, _, _ => none

def missCount (results : List Int) : Nat := results.countP fun result => result < 0

def missPositions (results : List Int) : List Nat :=
  (List.range results.length).filter fun position => results.getD position 0 < 0

/-- The rest of `DispatchOneTask` with the results of the batch read. -/
def batchGet (config : Config) (results : List Int) (process : Process) : Option Process :=
  match process.dispatcher with
  | .loading handle =>
    if results.length ≠ (process.shards handle).length then
      some (({ process with dispatcher := .idle }.fail handle).complete handle)
    else if missCount results = 0 then some ({ process with dispatcher := .idle }.complete handle)
    else if ¬config.backend then some ({ process with dispatcher := .idle }.complete handle)
    else if config.shared then some { process with dispatcher := .sharing handle results }
    else some { process with dispatcher := .submitting handle results 0 0 }
  | _ => none

/-- One iteration of `SubmitMissShards`; the answer is the backend's handle, if there
was a host buffer and the backend took the shard. -/
def submitShard (config : Config) (answer : Option TaskHandle) (process : Process) :
    Option Process :=
  match process.dispatcher with
  | .submitting handle results next pushed =>
    match results[next]? with
    | none => some { process with dispatcher := .idle }
    | some result =>
      if 0 ≤ result then
        some { process with dispatcher := .submitting handle results (next + 1) pushed }
      else
        match answer with
        | none => some (({ process with dispatcher := .idle }.fail handle).complete handle)
        | some backendTaskHandle =>
          -- `Push` waits for room, also when the transfer thread has left
          if process.running.length + 1 < config.loadQueueDepth then
            some { process with
              running := process.running ++
                [⟨handle, backendTaskHandle, next, pushed + 1 = missCount results⟩]
              dispatcher := .submitting handle results (next + 1) (pushed + 1) }
          else none
  | _ => none

/-- The start of the share queue's `Submit`. -/
def enterShare (process : Process) : Option Process :=
  match process.dispatcher with
  | .sharing handle results =>
    if process.failed handle then some ({ process with dispatcher := .idle }.complete handle)
    else
      some { process with
        dispatcher := .making handle (missPositions results)
        remaining := update process.remaining handle (missPositions results).length }
  | _ => none

def takeShard (process : Process) : Option Process :=
  match process.transferLeft, process.transfer, process.running with
  | false, none, shard :: rest =>
    if process.failed shard.taskHandle then
      if shard.waiter then some ({ process with running := rest }.complete shard.taskHandle)
      else some { process with running := rest }
    else some { process with running := rest, transfer := some shard }
  | _, _, _ => none

/-- The rest of `TransferOneTask`. -/
def transferOne (answer : TransferAnswer) (process : Process) : Option Process :=
  match process.transfer with
  | none => none
  | some shard =>
    if answer.waited ∧ answer.copied then
      if ¬shard.waiter then some { process with transfer := none }
      else if answer.synced then some ({ process with transfer := none }.complete shard.taskHandle)
      else
        some (({ process with transfer := none }.fail shard.taskHandle).complete shard.taskHandle)
    else if shard.waiter then
      some (({ process with transfer := none }.fail shard.taskHandle).complete shard.taskHandle)
    else some ({ process with transfer := none }.fail shard.taskHandle)

def blockDone (handle : TaskHandle) (process : Process) : Process :=
  let process' : Process := { process with
    remaining := update process.remaining handle (process.remaining handle - 1) }
  if process.remaining handle = 1 then process'.complete handle else process'

/-- `ConsumerLoop` looks at the stop flag between two tasks. -/
def leaveDispatch (process : Process) : Option Process :=
  match process.stop, process.dispatcher with
  | true, .idle => some { process with dispatcherLeft := true }
  | _, _ => none

def leaveTransfer (process : Process) : Option Process :=
  match process.stop, process.transfer with
  | true, none => some { process with transferLeft := true }
  | _, _ => none

/-- `Close` of the load queue has joined both threads. -/
def join (process : Process) : Option Process :=
  match process.dispatcherLeft, process.transferLeft, process.joined with
  | true, true, false => some { process with joined := true }
  | _, _, _ => none

/-- The loops of `Close` over the two queues. -/
def drain (process : Process) : Option Process :=
  match process.joined, process.waiting, process.running with
  | true, handle :: rest, _ => some ({ process with waiting := rest }.complete handle)
  | true, [], shard :: rest =>
    if shard.waiter then some ({ process with running := rest }.complete shard.taskHandle)
    else some { process with running := rest }
  | _, _, _ => none

/-- `Close` of the share queue comes last. -/
def stopShare (process : Process) : Option Process :=
  match process.joined, process.waiting, process.running with
  | true, [], [] => some { process with shareStop := true }
  | _, _, _ => none

end Process

inductive Act where
  | submit (desc : List Shard)
  | takeTask
  | batchGet (results : List Int)
  | submitShard (answer : Option TaskHandle)
  | enterShare
  | takeShard
  | transferOne (answer : TransferAnswer)
  | stop
  | leaveDispatch
  | leaveTransfer
  | join
  | drain
  | stopShare

def Process.act (config : Config) (process : Process) : Act → Option Process
  | .submit desc => some (process.submit config desc)
  | .takeTask => process.takeTask
  | .batchGet results => process.batchGet config results
  | .submitShard answer => process.submitShard config answer
  | .enterShare => process.enterShare
  | .takeShard => process.takeShard
  | .transferOne answer => process.transferOne answer
  | .stop => some { process with stop := true }
  | .leaveDispatch => process.leaveDispatch
  | .leaveTransfer => process.leaveTransfer
  | .join => process.join
  | .drain => process.drain
  | .stopShare => process.stopShare

/-! The tasks of a process do not change once they are registered. -/

namespace Process
variable {cfg : Config} {proc next : Process} {handle : TaskHandle}

theorem shards_congr (h : next.wrapper.task? = proc.wrapper.task?) :
    next.shards handle = proc.shards handle := by
  unfold shards
  rw [h]

@[simp] theorem task?_complete (handle : TaskHandle) (proc : Process) :
    (proc.complete handle).wrapper.task? = proc.wrapper.task? :=
  TaskWrapper.task?_done handle proc.wrapper

@[simp] theorem task?_blockDone (handle : TaskHandle) (proc : Process) :
    (proc.blockDone handle).wrapper.task? = proc.wrapper.task? := by
  unfold blockDone
  split
  · exact task?_complete handle _
  · rfl

@[simp] theorem task?_submit (d : List Shard) (proc : Process) : (proc.submit cfg d).wrapper.task? =
    update proc.wrapper.task? proc.nextId (some ⟨buildShards cfg d⟩) := by
  unfold submit
  split
  · exact TaskWrapper.task?_register _ _ _
  · rw [task?_complete]
    exact TaskWrapper.task?_register _ _ _

theorem act_task? {act : Act} (h : proc.act cfg act = some next) (hs : ∀ desc, act ≠ .submit desc) :
    next.wrapper.task? = proc.wrapper.task? := by
  cases act with
  | submit desc => exact absurd rfl (hs desc)
  | stop =>
    cases h
    rfl
  | _ =>
    simp only [Process.act, takeTask, batchGet, submitShard, enterShare, takeShard, transferOne,
      leaveDispatch, leaveTransfer, join, drain, stopShare] at h
    repeat' split at h
    all_goals cases h
    all_goals first | exact task?_complete _ _ | rfl

end Process
end UnifiedCache.Mooncake
