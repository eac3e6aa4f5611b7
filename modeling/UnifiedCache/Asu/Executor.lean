import Mathlib
import UnifiedCache.Asu.Response
import UnifiedCache.Lib.Replay

/-! The task executor of an ASU transport: `Execute` on the worker, `Poll` on the
completion thread, `Cancel` from any thread, and the node that answers into flag buffers. -/
namespace UnifiedCache.Asu

inductive TransportSubBatchState where
  | PENDING | COMPLETED
  deriving DecidableEq

inductive TransportTaskState where
  | PENDING | INFLIGHT | COMPLETED
  deriving DecidableEq

/-- A task, and the position of a sub-batch in it: this also names its request. -/
abbrev SubBatchId := Nat × Nat

structure TransportSubBatchContext where
  cid : UInt16 := 0
  opType : AsuOpType
  state : TransportSubBatchState := .PENDING
  status : Status := .OK
  useSeekControl : Bool := false
  /-- The slot of the flag buffer. -/
  flagBuffer : Option Nat := none
  entryStatus : List Status
  /-- The request whose response the sub-batch has been completed with. -/
  answeredBy : Option SubBatchId := none

/-- What the provider sends to a node: the node is to write its response into the slot. -/
structure Request where
  subBatch : SubBatchId
  slot : Nat
  deriving DecidableEq

/-- How far `Execute` is with a task. Until a task is published its sub-batches are in a
local vector of `Execute`. -/
inductive Stage where
  | queued | preparing | aborting | sending | sent | published
  deriving DecidableEq

structure TransportTask where
  opType : AsuOpType
  useSeekControl : Bool := false
  /-- The sizes of the sub-batches that `SplitForAsu` makes. -/
  sizes : List Nat
  entryStatus : List Status
  state : TransportTaskState := .PENDING
  stage : Stage := .queued
  subBatchContexts : List TransportSubBatchContext := []
  remainingSubBatchCount : UInt32 := 0
  finalStatus : Status := .OK

namespace TransportSubBatchContext
variable (context : TransportSubBatchContext)

/-- `SetSubBatchBuildFailed`, `SetSubBatchSendFailed` and the like. -/
def failed (status : Status) : TransportSubBatchContext :=
  { context with
    state := .COMPLETED, status, entryStatus := context.entryStatus.map fun _ => status }

def releaseSubBatchResources : TransportSubBatchContext := { context with flagBuffer := none }

def completeWithError (status : Status) : TransportSubBatchContext :=
  (context.failed status).releaseSubBatchResources

def completed : Bool := context.state = .COMPLETED

/-- What `Poll` makes of a sub-batch whose flag buffer holds a response to `source`. -/
def pollResponse (source : SubBatchId) (data : List UInt32) : TransportSubBatchContext :=
  if pollResponseCid data = 0 ∨ pollResponseCid data ≠ context.cid.toUInt32 then context
  else
    let count := context.entryStatus.length
    match unpackResponse context.opType data (count % 65536) with
    | .error status => { context.completeWithError status with answeredBy := some source }
    | .ok response =>
      let status := kvResponseStatusToSubBatchStatus response.status
      let queryResultBufferStatus :=
        context.opType = .QUERY ∧ status.code = .CQE_CHECK_RESULT_BUFFER
      { context.releaseSubBatchResources with
        state := .COMPLETED
        status := if status.ok ∨ queryResultBufferStatus then .OK else status
        entryStatus := fillEntryStatusFromCqeResult response context.opType
          context.useSeekControl status count
        answeredBy := some source }

end TransportSubBatchContext

/-- The words of each slot and the request they answer; a zeroed slot holds none. -/
abbrev FlagMemory := Nat → Option (SubBatchId × List UInt32)

namespace TransportTask
variable (task : TransportTask)

def done : Bool := task.state = .COMPLETED

def slots : List Nat := task.subBatchContexts.filterMap TransportSubBatchContext.flagBuffer

def buildFinalStatus : Status :=
  if task.subBatchContexts.all fun context => context.status.ok then .OK
  else ⟨.PARTIAL_FAILED, "transport task partially failed"⟩

def pending (contexts : List TransportSubBatchContext) : Nat :=
  contexts.countP fun context => !context.completed

def initializeRemainingSubBatchCount : TransportTask :=
  { task with remainingSubBatchCount := UInt32.ofNat (pending task.subBatchContexts) }

/-- `CompleteSubBatch` counts down for each sub-batch that it completes. -/
def completeSubBatches (contexts : List TransportSubBatchContext) : TransportTask :=
  { task with
    subBatchContexts := contexts
    remainingSubBatchCount := task.remainingSubBatchCount -
      UInt32.ofNat (pending task.subBatchContexts - pending contexts) }

def tryFinalizeFromSubBatches : TransportTask :=
  if task.subBatchContexts = [] then
    { task with
      finalStatus := ⟨.PARTIAL_FAILED, "transport task partially failed"⟩, state := .COMPLETED }
  else if task.remainingSubBatchCount ≠ 0 then task
  else { task with finalStatus := task.buildFinalStatus, state := .COMPLETED }

def fillEntryStatus (status : Status) : TransportTask :=
  { task with entryStatus := task.entryStatus.map fun _ => status }

/-- The next sub-batch, as `Build…SubBatchRequest` begins it. -/
def nextContext (size : Nat) : TransportSubBatchContext where
  opType := task.opType
  useSeekControl := task.useSeekControl
  entryStatus := List.replicate size .OK

def requests (t : Nat) : List Request :=
  (List.range task.subBatchContexts.length).filterMap fun position =>
    (task.subBatchContexts[position]?.bind TransportSubBatchContext.flagBuffer).map fun slot =>
      ⟨(t, position), slot⟩

def append (context : TransportSubBatchContext) (stage : Stage) : TransportTask :=
  { task with subBatchContexts := task.subBatchContexts ++ [context], stage }

/-- The loop of `AbortSubBatchesBeforeSend`. -/
def abortContexts (hasFailedSubBatch : Bool) :
    List TransportSubBatchContext → List TransportSubBatchContext
  | [] => []
  | context :: rest =>
    let released := { context.releaseSubBatchResources with state := .COMPLETED }
    if !context.status.ok then released :: abortContexts true rest
    else if hasFailedSubBatch then
      context.completeWithError ⟨.CANCELED, "sub-batch canceled after pre-send failure"⟩ ::
        abortContexts true rest
    else released :: abortContexts false rest

/-- The section of `Execute` under the lock of the task. -/
def finish : TransportTask :=
  if task.done then { task with subBatchContexts := [], stage := .published }
  else
    let published :=
      if task.stage = .aborting then
        { task.fillEntryStatus ⟨.CANCELED, "sub-batch canceled after pre-send failure"⟩ with
          subBatchContexts := abortContexts false task.subBatchContexts, stage := .published }
      else { task with stage := .published }
    published.initializeRemainingSubBatchCount.tryFinalizeFromSubBatches

/-- `SendSubBatchBuffers`, once the provider has returned. -/
def sendReturn (sendStatuses : List Status) : TransportTask :=
  { task with
    stage := .sent
    subBatchContexts :=
      if sendStatuses.length ≠ task.subBatchContexts.length then
        task.subBatchContexts.map fun context => context.completeWithError
          ⟨.INTERNAL_ERROR, "transport send returned unexpected status count"⟩
      else
        task.subBatchContexts.mapIdx fun index context =>
          let status := sendStatuses.getD index .OK
          if status.ok then context else context.completeWithError status }

def cancel : TransportTask :=
  let status : Status := ⟨.CANCELED, "transport task canceled"⟩
  { task.fillEntryStatus status with
    finalStatus := status
    state := .COMPLETED
    subBatchContexts :=
      if task.stage = .published then
        task.subBatchContexts.map fun context =>
          if context.completed then context.releaseSubBatchResources
          else context.completeWithError status
      else task.subBatchContexts }

/-- `Poll` at its deadline. -/
def pollTimeout : TransportTask :=
  let status : Status := ⟨.TIMEOUT, "transport task execution timeout"⟩
  let completed := (task.fillEntryStatus status).completeSubBatches
    (task.subBatchContexts.map fun context =>
      if context.completed then context else context.completeWithError status)
  { completed with finalStatus := status, state := .COMPLETED }

/-- `Poll` before its deadline. A response may arrive while the loop runs: `sees` says
whether it was there when the loop came to its sub-batch. -/
def poll (memory : FlagMemory) (sees : List Bool) : TransportTask :=
  (task.completeSubBatches (task.subBatchContexts.mapIdx fun index context =>
    if context.completed ∨ !sees.getD index false then context
    else match context.flagBuffer.bind memory with
      | some (source, data) => context.pollResponse source data
      | none => context)).tryFinalizeFromSubBatches

end TransportTask

/-- A task that nobody has submitted is there without sub-batches and is never executed. -/
structure Executor where
  tasks : Nat → TransportTask := fun _ => { opType := .KEEP_ALIVE, sizes := [], entryStatus := [] }
  submitted : Nat := 0
  /-- The flag buffer: the sub-batch each slot has been handed out to. -/
  owner : Nat → Option SubBatchId := fun _ => none
  memory : FlagMemory := fun _ => none
  nextRequestCid : UInt16 := 1
  /-- The provider has them and the node does not. A send may fail after the request has left,
  so they stay when the provider has returned. -/
  posted : List Request := []
  /-- The node has them and has not answered. -/
  owed : List Request := []

inductive Event where
  | submit (opType : AsuOpType) (useSeekControl : Bool) (sizes : List Nat)
  | execute (task : Nat)
  /-- A sub-batch is refused before it has a flag buffer, perhaps with a command id, or
  the task is for having none. -/
  | refuse (task : Nat) (status : Status) (numbered : Bool)
  /-- A sub-batch gets a flag buffer; `failure` if the rest of its request fails. -/
  | build (task slot : Nat) (failure : Option Status)
  /-- `AssignSubBatchConnections`; `failure` is the sub-batch that gets none. -/
  | connect (task : Nat) (failure : Option Nat)
  | receive (request : Request)
  | lose (request : Request)
  | sendReturn (task : Nat) (sendStatuses : List Status)
  | finish (task : Nat)
  | poll (task : Nat) (expired : Bool) (sees : List Bool)
  | cancel (task : Nat)
  | answer (request : Request) (data : List UInt32)

namespace Executor
variable (executor : Executor)

/-- `AllocateRequestCid`: the command id, and the counter after it. -/
def allocateRequestCid : UInt16 × UInt16 :=
  let cid := executor.nextRequestCid
  if cid = 0 then (cid + 1, cid + 2) else (cid, cid + 1)

def reaction : Event → Option (Nat × TransportTask)
  | .execute t =>
    let task := executor.tasks t
    if t < executor.submitted ∧ task.state = .PENDING then
      some (t, { task with state := .INFLIGHT, stage := .preparing })
    else none
  | .refuse t status _ =>
    let task := executor.tasks t
    if task.stage = .preparing ∧ !status.ok then
      match task.sizes[task.subBatchContexts.length]? with
      | some size => some (t, task.append ((task.nextContext size).failed status) .aborting)
      | none => if task.sizes = [] then some (t, { task with stage := .aborting }) else none
    else none
  | .connect t failure =>
    let task := executor.tasks t
    if task.stage = .preparing ∧ task.sizes ≠ [] ∧
        task.subBatchContexts.length = task.sizes.length then
      match failure with
      | none => some (t, { task with stage := .sending })
      | some position =>
        some (t, { task with
          stage := .aborting
          subBatchContexts := task.subBatchContexts.modify position fun context =>
            context.failed ⟨.CONNECTION_ERROR, "no available connection channel"⟩ })
    else none
  | .sendReturn t sendStatuses =>
    let task := executor.tasks t
    if task.stage = .sending then some (t, task.sendReturn sendStatuses) else none
  | .finish t =>
    let task := executor.tasks t
    if task.stage = .aborting ∨ task.stage = .sent then some (t, task.finish) else none
  | .poll t expired sees =>
    let task := executor.tasks t
    if task.state = .INFLIGHT ∧ task.stage = .published ∧ task.subBatchContexts ≠ [] then
      some (t, if expired then task.pollTimeout else task.poll executor.memory sees)
    else none
  | .cancel t =>
    let task := executor.tasks t
    if t < executor.submitted ∧ !task.done then some (t, task.cancel) else none
  | _ => none

/-- The slots that a step gives back: `ReleaseSubBatchResources` frees the slot that it
takes from a sub-batch. -/
def released (event : Event) : List Nat :=
  match executor.reaction event with
  | some (t, task) => (executor.tasks t).slots.filter (· ∉ task.slots)
  | none => []

def put (t : Nat) (task : TransportTask) (freed : List Nat) : Executor :=
  { executor with
    tasks := Function.update executor.tasks t task
    owner := fun slot => if slot ∈ freed then none else executor.owner slot
    memory := fun slot => if slot ∈ freed then none else executor.memory slot }

def take (t slot : Nat) (context : TransportSubBatchContext) (stage : Stage) : Executor :=
  { executor with
    tasks := Function.update executor.tasks t ((executor.tasks t).append context stage)
    owner := Function.update executor.owner slot
      (some (t, (executor.tasks t).subBatchContexts.length))
    nextRequestCid := executor.allocateRequestCid.2 }

/-- Tasks of any kind are submitted; any free slot may be handed out, any outcome of
sending, any response and any delay is possible. -/
def perform (event : Event) : Option Executor :=
  match event with
  | .submit opType useSeekControl sizes =>
    let entryStatus := List.replicate sizes.sum .OK
    some { executor with
      tasks := Function.update executor.tasks executor.submitted
        { opType, useSeekControl, sizes, entryStatus }
      submitted := executor.submitted + 1 }
  | .build t slot failure =>
    let task := executor.tasks t
    match task.sizes[task.subBatchContexts.length]? with
    | some size =>
      if task.stage = .preparing ∧ executor.owner slot = none then
        let context :=
          { task.nextContext size with
            cid := executor.allocateRequestCid.1, flagBuffer := some slot }
        match failure with
        | none => some (executor.take t slot context .preparing)
        | some status => some (executor.take t slot (context.failed status) .aborting)
      else none
    | none => none
  | .receive request =>
    if request ∈ executor.posted then
      some { executor with
        posted := executor.posted.erase request, owed := request :: executor.owed }
    else none
  | .lose request => some { executor with posted := executor.posted.erase request }
  | .answer request data =>
    if request ∈ executor.owed then
      some { executor with
        memory := Function.update executor.memory request.slot (some (request.subBatch, data))
        owed := executor.owed.erase request }
    else none
  | event =>
    match executor.reaction event with
    | some (t, task) =>
      let next := executor.put t task (executor.released event)
      match event with
      | .connect _ none => some { next with posted := task.requests t ++ next.posted }
      | .refuse _ _ true => some { next with nextRequestCid := executor.allocateRequestCid.2 }
      | _ => some next
    | none => none

def system : Transition.System Executor Event where
  init executor := executor = {}
  step executor event next := executor.perform event = some next

end Executor
end UnifiedCache.Asu
