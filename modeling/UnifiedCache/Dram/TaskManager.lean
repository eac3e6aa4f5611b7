import UnifiedCache.Dram.BoundedQueue
import UnifiedCache.Dram.Types
import UnifiedCache.Lib.Chunks
import UnifiedCache.Lib.SizeT
import UnifiedCache.Lib.Table

/-! The task manager of the DramStore client. One worker thread turns a task into
requests for the nodes and collects their completions; a task's promise is known
by its id. The worker's reaction to an exception is left out, and so is the map of
futures, which only hands promised values on. -/
namespace UnifiedCache.Dram

structure Shard where
  owner : BlockId
  index : Nat
  addrs : List UInt64
  deriving DecidableEq, Repr

structure TaskDesc where
  shards : List Shard
  prerequisiteHandle : UInt64 := 0
  deriving DecidableEq, Repr

inductive TaskInput where
  | transfer (task : TaskDesc)
  | lookup (blocks : List BlockId)
  deriving DecidableEq, Repr

structure TimeoutConfig where
  lookup : Int64 := 0
  dump : Int64 := 0
  load : Int64 := 0

/-- The capacities are those that `DramConfig::Validate` lets through. -/
structure TaskManagerConfig where
  tensorSizes : List UInt64 := []
  maxIoEntries : Nat
  requestBatchEntries : Nat
  timeouts : TimeoutConfig := {}
  fits : maxIoEntries < SizeT.modulus
  batching : 0 < requestBatchEntries

/-- A router that sends every key to some node: the positions listed for the
nodes are those of the keys, each once. -/
structure Routing where
  routeKeys : List (List UInt8) → List (NodeId × List Nat)
  complete : ∀ keys, ((routeKeys keys).flatMap Prod.snd).Perm (List.range keys.length)

structure Submission where
  taskId : TaskId
  op : OpType
  deadline : TimePoint
  input : TaskInput
  deriving DecidableEq, Repr

structure TaskResult where
  status : Status
  lookupResults : List UInt8 := []
  deriving DecidableEq, Repr

structure ActiveTask where
  op : OpType
  remainingRequests : Nat
  entryCount : Nat
  failure : Option Status := none
  lookupResults : List UInt8 := []
  deriving DecidableEq, Repr

structure TaskManager where
  accepting : Bool := true
  submissions : BoundedQueue Submission
  completions : BoundedQueue RequestCompleted
  nextTaskId : TaskId := 1
  activeTasks : Table TaskId ActiveTask := .empty
  usedIoEntries : Nat := 0
  nextRequestId : RequestId := 1

namespace TaskManager
variable (config : TaskManagerConfig) (routing : Routing)

def start : TaskManager where
  submissions := .ofCapacity config.maxIoEntries
  completions := .ofCapacity config.maxIoEntries

def timeout (op : OpType) : Int64 :=
  match op with
  | .lookup => config.timeouts.lookup
  | .dump => config.timeouts.dump
  | .load => config.timeouts.load

def normalizeLookup (blocks : List BlockId) : List IoEntry :=
  blocks.mapIdx fun index blockId => { blockId := blockId, originalIndex := index }

/-- One entry for each shard and tensor. A shard lists an address per tensor. -/
def normalizeTransfer (task : TaskDesc) : List IoEntry :=
  task.shards.flatMap fun shard =>
    config.tensorSizes.mapIdx fun tensorIndex size =>
      { blockId := shard.owner
        shardId := UInt32.ofNat (shard.index * config.tensorSizes.length + tensorIndex)
        buffer := { address := shard.addrs[tensorIndex]?.getD 0, length := size } }

def normalizeInput : TaskInput → List IoEntry
  | .transfer task => normalizeTransfer config task
  | .lookup blocks => normalizeLookup blocks

def batchLimit : Nat := min config.requestBatchEntries kMaxProtocolBatchEntries

def buildRequests (op : OpType) (entries : List IoEntry) (deadline : TimePoint) : List Request :=
  (routing.routeKeys (entries.map fun entry => entry.blockId.toList)).flatMap fun routed =>
    (Chunks.chunks (batchLimit config) routed.2).map fun batch =>
      { nodeId := routed.1, op := op, entries := batch.filterMap (entries[·]?)
        deadline := deadline }

def prerequisiteOf (submission : Submission) : UInt64 :=
  match submission.input with
  | .transfer task => if submission.op = .dump then task.prerequisiteHandle else 0
  | .lookup _ => 0

def numberRequests (submission : Submission) (first : RequestId) (requests : List Request) :
    List Request :=
  requests.mapIdx fun index request =>
    { request with
      prerequisiteHandle := prerequisiteOf submission
      taskId := submission.taskId
      requestId := first + UInt64.ofNat index }

def activeTask (submission : Submission) (entryCount requestCount : Nat) : ActiveTask where
  op := submission.op
  remainingRequests := requestCount
  entryCount := entryCount
  lookupResults := if submission.op = .lookup then List.replicate entryCount 0 else []

inductive Planned where
  | refused (result : TaskResult)
  | admitted (manager : TaskManager) (requests : List Request)

/-- `ProcessSubmission` up to the loop that submits the requests. -/
def planSubmission (submission : Submission) (now : TimePoint) (manager : TaskManager) :
    Planned :=
  if submission.deadline ≤ now then .refused { status := .Timeout }
  else
    let entries := normalizeInput config submission.input
    let entryCount := entries.length
    if entryCount > SizeT.sub config.maxIoEntries manager.usedIoEntries then
      .refused { status := .NoSpace }
    else
      let requests := numberRequests submission manager.nextRequestId
        (buildRequests config routing submission.op entries submission.deadline)
      .admitted
        { manager with
          usedIoEntries := SizeT.add manager.usedIoEntries entryCount
          nextRequestId := manager.nextRequestId + UInt64.ofNat requests.length
          activeTasks := manager.activeTasks.emplace submission.taskId
            (activeTask submission entryCount requests.length) }
        requests

def applyLookupResults (lookupResults : List UInt8) (results : List EntryResult) : List UInt8 :=
  results.foldl (fun written result =>
    written.set result.originalIndex (if result.found then 1 else 0)) lookupResults

def settleRequest (status : Status) (results : List EntryResult) (task : ActiveTask) :
    ActiveTask :=
  let task := { task with remainingRequests := SizeT.sub task.remainingRequests 1 }
  if status.failure then { task with failure := some (task.failure.getD status) }
  else if task.failure.isNone ∧ task.op = .lookup then
    { task with lookupResults := applyLookupResults task.lookupResults results }
  else task

def resultOf (task : ActiveTask) : TaskResult :=
  let status := task.failure.getD .OK
  { status := status, lookupResults := if status.success then task.lookupResults else [] }

/-- The value given to the promise, if this was the task's last request. -/
def completeRequest (taskId : TaskId) (status : Status) (results : List EntryResult)
    (manager : TaskManager) : TaskManager × Option TaskResult :=
  match manager.activeTasks.find? taskId with
  | none => (manager, none)
  | some task =>
    let task := settleRequest status results task
    if task.remainingRequests ≠ 0 then
      ({ manager with
          activeTasks := manager.activeTasks.modify taskId (settleRequest status results) }, none)
    else
      ({ manager with
          usedIoEntries := SizeT.sub manager.usedIoEntries task.entryCount
          activeTasks := manager.activeTasks.erase taskId }, some (resultOf task))

/-- What `WaitLookup` makes of the promised value. -/
def waitLookup (result : TaskResult) : Expected (List UInt8) :=
  if result.status.failure then .error result.status else .ok result.lookupResults

end TaskManager
end UnifiedCache.Dram
