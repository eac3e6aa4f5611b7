import UnifiedCache.Cache.Buffer

/-! The load queue of a cache store, in both cores. The dispatcher gets a handle for every
shard of a task, asks the backend for what it owns and has not got, and queues the shard;
the transfer thread waits until a shard is there, copies it to the device and synchronises
behind the last one. What the backend and the streams answer is an input of each move. -/
namespace UnifiedCache.Cache
open Store

inductive TaskType where
  | LOAD | DUMP
  deriving DecidableEq

structure TransTask where
  type : TaskType
  desc : List Key
  prerequisite : Bool := false
  distributeBackendLoad : Bool := false

structure Config where
  core : Core
  cacheLoadBackendOnly : Bool := false
  nShardPerBlock : Nat := 1
  deviceId : Nat := 0
  localRankSize : Nat := 1
  /-- Whether there is a backend; `cc` insists on one. -/
  backend : Bool := true
  hostAccessible : Nat → Bool := fun _ => true
  timeoutMs : Nat := 0

def Config.policy (config : Config) : WaitPolicy TransTask := { timeoutMs := config.timeoutMs }

def rearrangeIndex (n iProc nProc : Nat) : List Nat :=
  (List.range nProc).flatMap fun r =>
    (List.range n).filter fun i => i % nProc = (iProc + r) % nProc

namespace Config

def order (config : Config) (task : TransTask) : List Nat :=
  if config.core = .cc ∨ task.distributeBackendLoad = true then
    rearrangeIndex task.desc.length config.deviceId config.localRankSize
  else List.range task.desc.length

def mayOwn (config : Config) (task : TransTask) (index : Nat) : Bool :=
  config.core = .cc || !task.distributeBackendLoad ||
    index % config.localRankSize = config.deviceId % config.localRankSize

def upcoming (config : Config) (task : TransTask) : List Key :=
  (config.order task).filterMap fun index =>
    match task.desc[index]? with
    | some key =>
      if key.shard + 1 ≠ config.nShardPerBlock ∧ config.mayOwn task index then
        some ⟨key.block, key.shard + 1⟩
      else none
    | none => none

def reaches (config : Config) (node : Nat) : Bool :=
  config.core = .cc || (config.backend && config.hostAccessible node)

end Config

structure ShardTask where
  task : TaskHandle
  key : Key
  handle : Handle
  backend : Option TaskHandle
  /-- Whether it carries the waiter of the task. -/
  last : Bool
  first : Bool
  deriving DecidableEq

inductive Dispatcher where
  | idle
  /-- Before the `Get` of a shard, with the indexes behind it. -/
  | shards (task : TaskHandle) (position : Nat) (index : Nat) (rest : List Nat)
  | holding (task : TaskHandle) (position : Nat) (rest : List Nat) (key : Key) (handle : Handle)
  | pushing (item : ShardTask) (position : Nat) (rest : List Nat)
  | refused (task : TaskHandle) (handle : Handle)
  | dropping (handle : Handle)
  | preallocating (keys : List Key)
  deriving DecidableEq

def Dispatcher.go (task : TaskHandle) (position : Nat) (upcoming : List Key) :
    List Nat → Dispatcher
  | [] => .preallocating upcoming
  | index :: rest => .shards task position index rest

inductive TransferPhase where
  | start
  | waiting
  | event
  | copying
  | syncing
  /-- `holder_.clear()`, after which the shard may turn out to have failed. -/
  | clearing (failed : Bool)
  | failing
  /-- The `Synchronize` of `ReleaseHolder`. -/
  | releasing
  | finishing
  | dropping
  deriving DecidableEq

structure Transfer where
  item : ShardTask
  phase : TransferPhase
  deriving DecidableEq

structure LoadQueue where
  waiting : List TaskHandle := []
  dispatcher : Dispatcher := .idle
  running : List ShardTask := []
  transfer : Option Transfer := none
  holder : List ShardTask := []
  /-- The copies since the last `Synchronize`: the node and the task. -/
  copies : List (Nat × TaskHandle) := []
  /-- The backend loads that were not waited for, with the node each fills. -/
  loads : List (TaskHandle × Nat) := []
  stop : Bool := false

/-- What all processes see. The lists record what the backend has accepted and delivered;
no code reads them. -/
structure Shared where
  buffer : Buffer
  nextBackend : TaskHandle := 1
  accepted : List Key := []
  loaded : List Key := []

def Shared.setBuffer (buffer : Buffer) (shared : Shared) : Shared := { shared with buffer }

def Shared.state (shared : Shared) (handle : Handle) : State :=
  (shared.buffer.nodes handle.node).state

structure LoadState where
  shared : Shared
  wrapper : TaskWrapper TransTask
  queue : LoadQueue

inductive LoadMove where
  | take
  | get (victim : Nat)
  | load (accepted : Bool)
  | pass
  | push
  | fail
  | drop
  | prealloc (victim : Option Nat)
  | rest
  | pop
  | check
  | wait (ok : Bool)
  | poll
  | event (ok : Bool)
  /-- A copy that fails may have issued some of its fragments. -/
  | copy (ok issued : Bool)
  | sync (ok : Bool)
  | clear
  | report
  | resync
  | finish
  | discard
  | close
  | drainWaiting
  | drainRunning

namespace LoadState
variable (config : Config) (state : LoadState)

def goTo (dispatcher : Dispatcher) : LoadState :=
  { state with queue := { state.queue with dispatcher } }

def turnTo (transfer : Option Transfer) : LoadState :=
  { state with queue := { state.queue with transfer } }

def setBuffer (buffer : Buffer) : LoadState :=
  { state with shared := state.shared.setBuffer buffer }

def setWrapper (wrapper : TaskWrapper TransTask) : LoadState := { state with wrapper }

/-- `DispatchOneTask` takes a task from the queue. -/
def take : Option LoadState :=
  match state.queue.dispatcher, state.queue.waiting with
  | .idle, handle :: rest =>
    if state.queue.stop then none
    else
      match state.wrapper.task? handle with
      | none => none
      | some task =>
        let taken : LoadState := { state with queue := { state.queue with waiting := rest } }
        if state.wrapper.failureSet handle then
          some (taken.setWrapper (state.wrapper.done handle))
        else some (taken.goTo (.go handle 0 (config.upcoming task) (config.order task)))
  | _, _ => none

def get (victim : Nat) : Option LoadState :=
  match state.queue.dispatcher with
  | .shards handle position index rest =>
    match state.wrapper.task? handle with
    | none => none
    | some task =>
      match task.desc[index]? with
      | none => none
      | some key =>
        (state.shared.buffer.get config.core
          ⟨key, config.cacheLoadBackendOnly, config.mayOwn task index⟩ victim).map
          fun (got, buffer) =>
            (state.setBuffer buffer).goTo (.holding handle position rest key got)
  | _ => none

/-- Whether the dispatcher has to ask the backend for the shard of a handle. -/
def missing (handle : Handle) : Bool := handle.owner && state.shared.state handle ≠ .READY

def item (handle : TaskHandle) (position : Nat) (rest : List Nat) (key : Key) (got : Handle)
    (backend : Option TaskHandle) : ShardTask where
  task := handle
  key := key
  handle := got
  backend := backend
  last := rest.isEmpty
  first := position = 0

def load (accepted : Bool) : Option LoadState :=
  match state.queue.dispatcher with
  | .holding handle position rest key got =>
    if state.missing got then
      if accepted then
        if config.reaches got.node then
          let backend := state.shared.nextBackend
          some {
            shared := { state.shared with nextBackend := backend + 1 }
            wrapper := state.wrapper
            queue := { state.queue with
              dispatcher :=
                .pushing (item handle position rest key got (some backend)) position rest
              loads := state.queue.loads ++ [(backend, got.node)] } }
        else none
      else
        some ((state.setBuffer (state.shared.buffer.markBy config.core got .FAILED)).goTo
          (.refused handle got))
    else none
  | _ => none

def pass : Option LoadState :=
  match state.queue.dispatcher with
  | .holding handle position rest key got =>
    if state.missing got then none
    else some (state.goTo (.pushing (item handle position rest key got none) position rest))
  | _ => none

/-- `running_.Push` has no bound here: where it waits for room, the step comes later. -/
def push : Option LoadState :=
  match state.queue.dispatcher with
  | .pushing shard position rest =>
    match state.wrapper.task? shard.task with
    | none => none
    | some task => some { state with queue := { state.queue with
        dispatcher := .go shard.task (position + 1) (config.upcoming task) rest
        running := state.queue.running ++ [shard] } }
  | _ => none

def fail : Option LoadState :=
  match state.queue.dispatcher with
  | .refused handle got =>
    some ((state.setWrapper ((state.wrapper.fail handle).done handle)).goTo (.dropping got))
  | _ => none

def drop : Option LoadState :=
  match state.queue.dispatcher with
  | .dropping got =>
    some ((state.setBuffer (state.shared.buffer.release config.core got)).goTo .idle)
  | _ => none

def prealloc (victim : Option Nat) : Option LoadState :=
  match state.queue.dispatcher with
  | .preallocating (key :: keys) =>
    (state.shared.buffer.prealloc config.core key victim).map fun buffer =>
      (state.setBuffer buffer).goTo (.preallocating keys)
  | _ => none

def rest : Option LoadState :=
  match state.queue.dispatcher with
  | .preallocating [] => some (state.goTo .idle)
  | _ => none

def pop : Option LoadState :=
  match state.queue.transfer, state.queue.running with
  | none, shard :: rest =>
    if state.queue.stop then none
    else some { state with queue := { state.queue with
      running := rest
      transfer := some ⟨shard, .start⟩ } }
  | _, _ => none

/-- `DiscardFailedShard` -/
def condemned (shard : ShardTask) : Buffer :=
  if state.shared.state shard.handle = .READY then state.shared.buffer
  else state.shared.buffer.markBy config.core shard.handle .FAILED

def check : Option LoadState :=
  match state.queue.transfer with
  | some ⟨shard, .start⟩ =>
    if state.wrapper.failureSet shard.task then
      match config.core with
      | .cc =>
        some (state.turnTo (some ⟨shard, if shard.last then .clearing false else .dropping⟩))
      | .v2 => some ((state.setBuffer (state.condemned config shard)).turnTo
          (some ⟨shard, .failing⟩))
    else some (state.turnTo (some ⟨shard, .waiting⟩))
  | _ => none

/-- The backend is done with the memory once its `Wait` has returned. -/
def waited (shard : ShardTask) (backend : TaskHandle) (ok : Bool) : LoadState where
  shared := { state.shared with
    buffer := state.shared.buffer.markBy config.core shard.handle (if ok then .READY else .FAILED)
    loaded := if ok then state.shared.loaded ++ [shard.key] else state.shared.loaded }
  wrapper := state.wrapper
  queue := { state.queue with
    transfer := some ⟨shard, if ok then .event else .failing⟩
    loads := state.queue.loads.filter fun load => load.1 ≠ backend }

def wait (ok : Bool) : Option LoadState :=
  match state.queue.transfer with
  | some ⟨shard, .waiting⟩ =>
    match shard.backend with
    | some backend => some (state.waited config shard backend ok)
    | none => none
  | _ => none

def poll : Option LoadState :=
  match state.queue.transfer with
  | some ⟨shard, .waiting⟩ =>
    match shard.backend with
    | some _ => none
    | none =>
      if state.shared.state shard.handle = .READY then
        some (state.turnTo (some ⟨shard, .event⟩))
      else if state.shared.state shard.handle = .FAILED ∨
          state.wrapper.failureSet shard.task = true then
        some (state.turnTo (some ⟨shard, .failing⟩))
      else none
  | _ => none

/-- Only the first shard waits for the prerequisite of its task. -/
def event (ok : Bool) : Option LoadState :=
  match state.queue.transfer with
  | some ⟨shard, .event⟩ =>
    if ok then some (state.turnTo (some ⟨shard, .copying⟩))
    else if shard.first && (state.wrapper.task? shard.task).any (·.prerequisite) then
      some (state.turnTo (some ⟨shard, .failing⟩))
    else none
  | _ => none

/-- In `v2` the stream is drained after a failure. -/
def copy (ok issued : Bool) : Option LoadState :=
  match state.queue.transfer with
  | some ⟨shard, .copying⟩ =>
    let copies := state.queue.copies ++ [(shard.handle.node, shard.task)]
    if ok then
      if shard.last then
        some { state with queue := { state.queue with
          copies
          transfer := some ⟨shard, .syncing⟩ } }
      else some { state with queue := { state.queue with
        copies
        transfer := none
        holder := state.queue.holder ++ [shard] } }
    else
      some { state with queue := { state.queue with
        copies := if issued && config.core = .cc then copies else state.queue.copies
        transfer := some ⟨shard, .failing⟩ } }
  | _ => none

def sync (ok : Bool) : Option LoadState :=
  match state.queue.transfer with
  | some ⟨shard, .syncing⟩ => some { state with queue := { state.queue with
      copies := []
      transfer := some ⟨shard, .clearing (!ok)⟩ } }
  | _ => none

def clear : Option LoadState :=
  match state.queue.transfer with
  | some ⟨shard, .clearing failed⟩ =>
    match state.queue.holder with
    | held :: rest => some {
        shared := state.shared.setBuffer (state.shared.buffer.release config.core held.handle)
        wrapper := state.wrapper
        queue := { state.queue with holder := rest } }
    | [] => some (state.turnTo (some ⟨shard, if failed then .failing else .finishing⟩))
  | _ => none

/-- The task goes into the failure set; in `v2` what was copied before is given up. -/
def report : Option LoadState :=
  match state.queue.transfer with
  | some ⟨shard, .failing⟩ =>
    some ((state.setWrapper (state.wrapper.fail shard.task)).turnTo (some ⟨shard,
      if config.core = .v2 ∧ state.queue.holder ≠ [] then .releasing else .finishing⟩))
  | _ => none

def resync : Option LoadState :=
  match state.queue.transfer with
  | some ⟨shard, .releasing⟩ => some { state with queue := { state.queue with
      copies := []
      transfer := some ⟨shard, .clearing false⟩ } }
  | _ => none

def finish : Option LoadState :=
  match state.queue.transfer with
  | some ⟨shard, .finishing⟩ =>
    let wrapper := if shard.last then state.wrapper.done shard.task else state.wrapper
    some ((state.setWrapper wrapper).turnTo (some ⟨shard, .dropping⟩))
  | _ => none

def discard : Option LoadState :=
  match state.queue.transfer with
  | some ⟨shard, .dropping⟩ =>
    some ((state.setBuffer (state.shared.buffer.release config.core shard.handle)).turnTo none)
  | _ => none

def close : Option LoadState :=
  match config.core with
  | .cc => none
  | .v2 => some { state with queue := { state.queue with stop := true } }

/-- `DrainWaiting`, after the dispatcher has ended. -/
def drainWaiting : Option LoadState :=
  match state.queue.dispatcher, state.queue.waiting with
  | .idle, handle :: rest =>
    if state.queue.stop then some {
      shared := state.shared
      wrapper := (state.wrapper.fail handle).done handle
      queue := { state.queue with waiting := rest } }
    else none
  | _, _ => none

/-- `DrainRunning`, after the transfer thread has ended as well. -/
def drainRunning : Option LoadState :=
  match state.queue.dispatcher, state.queue.waiting, state.queue.transfer, state.queue.running with
  | .idle, [], none, shard :: rest =>
    if state.queue.stop then
      let failed := state.wrapper.fail shard.task
      some {
        shared := state.shared.setBuffer (state.shared.buffer.release config.core shard.handle)
        wrapper := if shard.last then failed.done shard.task else failed
        queue := { state.queue with running := rest } }
    else none
  | _, _, _, _ => none

def step : LoadMove → Option LoadState
  | .take => state.take config
  | .get victim => state.get config victim
  | .load accepted => state.load config accepted
  | .pass => state.pass
  | .push => state.push config
  | .fail => state.fail
  | .drop => state.drop config
  | .prealloc victim => state.prealloc config victim
  | .rest => state.rest
  | .pop => state.pop
  | .check => state.check config
  | .wait ok => state.wait config ok
  | .poll => state.poll
  | .event ok => state.event ok
  | .copy ok issued => state.copy config ok issued
  | .sync ok => state.sync ok
  | .clear => state.clear config
  | .report => state.report config
  | .resync => state.resync
  | .finish => state.finish
  | .discard => state.discard config
  | .close => state.close config
  | .drainWaiting => state.drainWaiting
  | .drainRunning => state.drainRunning config

end LoadState
end UnifiedCache.Cache
