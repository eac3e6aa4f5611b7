import UnifiedCache.Posix.BlockCommit

/-! Loads of the POSIX store. `TransManager` makes one engine task for each shard and, when it
fails, another one on the next backend. The callback of an engine task runs when the latch of
the task opens: because its I/O unit is done, or because the monitor of the thread pool or the
deadline sweep of the asynchronous engine has opened it. -/
namespace UnifiedCache.Posix.TransManager

abbrev Addr := Nat

structure ShardTask where
  addrs : List Addr
  attempted : List Nat := []
  result : Status := .OK

structure Request where
  shardTasks : List ShardTask
  next : Nat := 0
  /-- The latch of the request. -/
  counter : Nat
  returned : Option Status := none

inductive Stage where
  /-- In the ring of the dispatcher. -/
  | waiting
  | queued
  | taken
  | opening
  /-- Open, before the failure set is read. -/
  | opened
  /-- The failure set was read; the read is submitted next. -/
  | checked
  /-- A read into the address at `next` is outstanding. -/
  | reading (next : Nat)
  | finishing (result : Status)
  /-- `Done` comes next. -/
  | leaving
  | gone
  deriving DecidableEq

inductive Watch where
  | unseen
  | held
  /-- The task was failed; `Done` comes next. -/
  | failed
  | released
  deriving DecidableEq

inductive Sweep where
  | idle
  | marked
  | inserted
  /-- `CancelTask` is over. -/
  | cancelled
  /-- `CancelQueued` is over; `Abort` comes next. -/
  | purged
  | aborted
  deriving DecidableEq

inductive Epilog where
  | unset
  /-- The latch is open; the callback comes next. -/
  | due
  | over
  deriving DecidableEq

structure Attempt where
  request : Nat
  shard : Nat
  reads : Nat
  stage : Stage
  /-- Whether the failure set has the task. -/
  failed : Bool := false
  failureStatus : Status := .OK
  started : Bool := false
  latch : Bool := true
  watch : Watch := .unseen
  sweep : Sweep := .idle
  epilog : Epilog := .unset

namespace Attempt

def goTo (stage : Stage) (attempt : Attempt) : Attempt := { attempt with stage }

/-- `TransTask::Fail` and the failure set. -/
def fail (status : Status) (attempt : Attempt) : Attempt :=
  { attempt with
    failed := true
    failureStatus := if attempt.failureStatus.success then status else attempt.failureStatus }

def done (attempt : Attempt) : Attempt :=
  { attempt with
    latch := false
    epilog := if attempt.latch then .due else attempt.epilog }

def giveUp (status : Status) (attempt : Attempt) : Attempt :=
  (attempt.fail status).goTo .leaving

def leave (attempt : Attempt) : Attempt := attempt.done.goTo .gone

def timeoutInQueue : Status := ⟨.timeoutInQueue, ""⟩

def timeoutStatus (started : Bool) : Status := if started then .Timeout else timeoutInQueue

/-- `DispatchOne`, `LoadWorker` and `S2H`: `late` tells whether the latch is past its time, and
`result` what a call returns. -/
def workPsync (late : Bool) (result : Status) (attempt : Attempt) : Option Attempt :=
  match attempt.stage with
  | .waiting => some (if attempt.failed then attempt.leave else attempt.goTo .queued)
  | .queued => some (attempt.goTo .taken)
  | .taken =>
    some (if attempt.failed then attempt.goTo .leaving
      else if late then attempt.giveUp timeoutInQueue
      else attempt.goTo .opening)
  | .opening =>
    some (attempt.goTo (if result.failure then .finishing result else .reading 0))
  | .reading next =>
    some (if result.failure then attempt.goTo (.finishing result)
      else if next + 1 < attempt.reads then attempt.goTo (.reading (next + 1))
      else attempt.goTo (.finishing .OK))
  | .finishing status =>
    some (if status.failure then attempt.giveUp status else attempt.goTo .leaving)
  | .leaving => some attempt.leave
  | _ => none

/-- `Open`, `OnOpenCallback`, `ReadAsync` and `OnIoCallback`: `late` tells whether the deadline is
over. -/
def workAio (late : Bool) (result : Status) (attempt : Attempt) : Option Attempt :=
  match attempt.stage with
  | .queued => some (attempt.goTo .taken)
  | .taken =>
    some (if late then attempt.giveUp (timeoutStatus attempt.started)
      else ({ attempt with started := true } : Attempt).goTo .opening)
  | .opening =>
    some (if result.failure then attempt.giveUp result else attempt.goTo .opened)
  | .opened => some (attempt.goTo (if attempt.failed then .leaving else .checked))
  | .checked =>
    some (if result.failure then attempt.giveUp result else attempt.goTo (.reading 0))
  | .reading _ =>
    some (if result.failure then attempt.giveUp result else attempt.goTo .leaving)
  | .leaving => some attempt.leave
  | _ => none

def work : IoEngine → Bool → Status → Attempt → Option Attempt
  | .psync => workPsync
  | .aio => workAio

def isTaken (attempt : Attempt) : Bool :=
  match attempt.stage with
  | .waiting => false
  | .queued => false
  | _ => true

/-- `ThreadPool::Monitor` and `OnIoUnitTimeout`. -/
def monitor (attempt : Attempt) : Option Attempt :=
  match attempt.watch with
  | .unseen => if attempt.isTaken then some { attempt with watch := .held } else none
  | .held => some { attempt.fail .Timeout with watch := .failed }
  | .failed => some { attempt.done with watch := .released }
  | .released => none

/-- `AioImpl::CancelTask`; the kernel may refuse it. -/
def cancelTask (granted : Bool) (attempt : Attempt) : Attempt :=
  match attempt.stage, granted with
  | .reading _, true => (attempt.giveUp (.Error "")).leave
  | _, _ => attempt

def cancelQueued (attempt : Attempt) : Attempt :=
  match attempt.stage with
  | .queued => (attempt.giveUp (.Error "")).leave
  | _ => attempt

/-- `SweepDeadlines` and `ForceComplete`. -/
def sweepOne (granted : Bool) (attempt : Attempt) : Option Attempt :=
  match attempt.sweep with
  | .idle =>
    if attempt.epilog = .over then none
    else
      some { attempt with
        sweep := .marked
        failureStatus := if attempt.failureStatus.success then timeoutStatus attempt.started
          else attempt.failureStatus }
  | .marked => some { attempt with sweep := .inserted, failed := true }
  | .inserted => some { attempt.cancelTask granted with sweep := .cancelled }
  | .cancelled => some { attempt.cancelQueued with sweep := .purged }
  | .purged => some { attempt.done with sweep := .aborted }
  | .aborted => none

/-- `TaskWrapper::Wait` of an open latch. -/
def status (attempt : Attempt) : Status :=
  if attempt.failed then
    if attempt.failureStatus.success then .Error "" else attempt.failureStatus
  else .OK

/-- The task is reclaimed; the asynchronous engine keeps the mark of a failure. -/
def reclaim : IoEngine → Attempt → Attempt
  | .psync, attempt => { attempt with epilog := .over, failed := false }
  | .aio, attempt => { attempt with epilog := .over }

def isReading (attempt : Attempt) : Bool :=
  match attempt.stage with
  | .reading _ => true
  | _ => false

end Attempt

/-- What `TryNextBackend` comes upon. -/
inductive Selection where
  | late
  | noBackend (error : Status)
  | backend (index : Nat)
  /-- A backend was found, but the engine did not take the task. -/
  | refused (index : Nat) (error : Status)

structure Manager where
  requests : List Request := []
  attempts : List Attempt := []

inductive Label where
  | submit (shards : List (List Addr))
  /-- `Submit` starts the next shard of a request. -/
  | start (request : Nat) (selection : Selection)
  | work (attempt : Nat) (late : Bool) (result : Status)
  | monitor (attempt : Nat)
  | sweep (attempt : Nat) (granted : Bool)
  /-- The callback of an engine task. -/
  | complete (attempt : Nat) (selection : Selection)
  | wait (request : Nat)

namespace Manager

def setRequest (index : Nat) (request : Request) (manager : Manager) : Manager :=
  { manager with requests := manager.requests.set index request }

def setAttempt (index : Nat) (attempt : Attempt) (manager : Manager) : Manager :=
  { manager with attempts := manager.attempts.set index attempt }

def firstStage : IoEngine → Stage
  | .psync => .waiting
  | .aio => .queued

/-- A shard is over; `waiter.Done()`. -/
def finish (shard : Nat) (shardTask : ShardTask) (request : Request) : Request :=
  { request with
    shardTasks := request.shardTasks.set shard shardTask
    counter := request.counter - 1 }

/-- `TryNextBackend`; `request` is the one at `index`. -/
def tryNextBackend (engine : IoEngine) (index shard : Nat) (request : Request)
    (shardTask : ShardTask) (selection : Selection) (manager : Manager) : Option Manager :=
  if shardTask.addrs = [] then
    some (manager.setRequest index (finish shard
      { shardTask with result := .InvalidParam "empty shard addresses" } request))
  else
    match selection with
    | .late => some (manager.setRequest index
        (finish shard { shardTask with result := .Timeout } request))
    | .noBackend error => some (manager.setRequest index (finish shard
        { shardTask with
          result := if shardTask.attempted = [] then error else shardTask.result } request))
    | .refused backend error =>
      if backend ∈ shardTask.attempted then none
      else
        some (manager.setRequest index (finish shard
          { shardTask with
            attempted := shardTask.attempted ++ [backend]
            result := error } request))
    | .backend backend =>
      if backend ∈ shardTask.attempted then none
      else
        some
          { requests := manager.requests.set index { request with
              shardTasks := request.shardTasks.set shard { shardTask with
                attempted := shardTask.attempted ++ [backend] } }
            attempts := manager.attempts ++
              [{ request := index, shard, reads := shardTask.addrs.length,
                 stage := firstStage engine }] }

/-- `ShouldRetry` of a load. -/
def shouldRetry (status : Status) : Bool := status.failure && !status.same .NotFound

/-- The result of an attempt is kept; a backend that was only queued for may be taken again. -/
def ShardTask.record (status : Status) (shardTask : ShardTask) : ShardTask :=
  { shardTask with
    result := status
    attempted := if shouldRetry status && status.same Attempt.timeoutInQueue then
      shardTask.attempted.dropLast else shardTask.attempted }

def Request.outcome (request : Request) : Status :=
  ((request.shardTasks.find? fun shardTask => shardTask.result.failure).map
    ShardTask.result).getD .OK

def perform (engine : IoEngine) (manager : Manager) : Label → Option Manager
  | .submit shards => some { manager with
      requests := manager.requests ++
        [{ shardTasks := shards.map fun addrs => { addrs }, counter := shards.length }] }
  | .start index selection =>
    match manager.requests[index]? with
    | some request =>
      match request.shardTasks[request.next]? with
      | some shardTask =>
        manager.tryNextBackend engine index request.next { request with next := request.next + 1 }
          shardTask selection
      | none => none
    | none => none
  | .work index late result =>
    match manager.attempts[index]? with
    | some attempt => (attempt.work engine late result).map fun next => manager.setAttempt index next
    | none => none
  | .monitor index =>
    match engine, manager.attempts[index]? with
    | .psync, some attempt => attempt.monitor.map fun next => manager.setAttempt index next
    | _, _ => none
  | .sweep index granted =>
    match engine, manager.attempts[index]? with
    | .aio, some attempt => (attempt.sweepOne granted).map fun next => manager.setAttempt index next
    | _, _ => none
  | .complete index selection =>
    match manager.attempts[index]? with
    | some attempt =>
      if attempt.epilog = .due then
        let manager := manager.setAttempt index (attempt.reclaim engine)
        match manager.requests[attempt.request]? with
        | some request =>
          match request.shardTasks[attempt.shard]? with
          | some shardTask =>
            let shardTask := ShardTask.record attempt.status shardTask
            if shouldRetry attempt.status then
              manager.tryNextBackend engine attempt.request attempt.shard request shardTask selection
            else some (manager.setRequest attempt.request (finish attempt.shard shardTask request))
          | none => none
        | none => none
      else none
    | none => none
  | .wait index =>
    match manager.requests[index]? with
    | some request =>
      if request.next = request.shardTasks.length ∧ request.counter = 0 ∧ request.returned = none then
        some (manager.setRequest index { request with returned := some (Request.outcome request) })
      else none
    | none => none

def system (engine : IoEngine) : Transition.System Manager Label where
  init manager := manager = {}
  step manager label next := manager.perform engine label = some next

end Manager
end UnifiedCache.Posix.TransManager
