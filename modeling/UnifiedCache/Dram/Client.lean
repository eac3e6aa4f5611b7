import UnifiedCache.Dram.Pipeline
import UnifiedCache.Dram.ReplyLeases

/-! The composed client: one actor for each node on any number of runner threads, the
transport executor with its workers, the reply slots with their observer, and the
peers. Actors take part by the entries of their histories: each entry is one step, so
that other threads come in between any two calls of one actor. -/
namespace UnifiedCache.Dram
open NodeActor Function
open DramPool (BufferPool)

structure ClientConfig where
  nodes : List NodeEndpoint
  limits : NodeLimits
  reconnectInterval : Int64 := 0
  pollInterval : Int64 := 50
  workerCount : Nat := 1
  /-- `std::hash<NodeId>`. -/
  hash : NodeId → Nat
  replySlotSize : Nat
  replySlotCount : Nat

namespace ClientConfig

def nodeIds (config : ClientConfig) : List NodeId := config.nodes.map NodeEndpoint.nodeId

def actor (config : ClientConfig) (endpoint : NodeEndpoint) : NodeActor.Config where
  endpoint := endpoint
  limits := config.limits
  reconnectInterval := config.reconnectInterval
  pollInterval := config.pollInterval

def executorOptions (config : ClientConfig) : TransportExecutor.Options where
  workerCount := config.workerCount
  nodeCount := config.nodes.length
  maxInflightRequestsPerNode := config.limits.maxInflightRequests

/-- `Parse` numbers the nodes and derives a reply slot for each request in flight. -/
structure Valid (config : ClientConfig) : Prop where
  distinct : config.nodeIds.Nodup
  slots : config.nodes.length * config.limits.maxInflightRequests ≤ config.replySlotCount

end ClientConfig

/-- A call of the transport or of the reply slots that an actor is in the middle of:
`posting` has pushed its command, `leasing` has taken a slot from the pool and
`releasing` has put it back and still holds the lock of the slot. -/
inductive Calling where
  | idle
  | posting (command : TransportCommand)
  | leasing (token : RequestToken) (op : OpType) (entryCount payloadSize : Nat)
      (slot : BufferPool.Slot)
  | releasing (token : RequestToken) (index : Nat)

/-- `received` are the requests that have reached their peers. -/
structure Client where
  history : NodeId → List Observation := fun _ => []
  calling : NodeId → Calling := fun _ => .idle
  inbox : NodeId → List NodeEvent := fun _ => []
  executor : TransportExecutor
  replies : ReplyService
  received : List RequestToken := []
  acceptingMessages : Bool := true

namespace Client

def record (nodeId : NodeId) (o : Observation) (client : Client) : Client :=
  { client with history := update client.history nodeId (o :: client.history nodeId) }

def call (nodeId : NodeId) (calling : Calling) (client : Client) : Client :=
  { client with calling := update client.calling nodeId calling }

@[simp] theorem history_record_self (nodeId : NodeId) (o : Observation) (c : Client) :
    (c.record nodeId o).history nodeId = o :: c.history nodeId :=
  update_self _ _ _

@[simp] theorem history_record_of_ne {node other : NodeId} (h : other ≠ node) (entry : Observation)
    (client : Client) : (client.record node entry).history other = client.history other :=
  update_of_ne h _ _

@[simp] theorem calling_call_self (n : NodeId) (calling : Calling) (c : Client) :
    (c.call n calling).calling n = calling :=
  update_self _ _ _

@[simp] theorem calling_call_of_ne {node other : NodeId} (h : other ≠ node) (calling : Calling)
    (client : Client) : (client.call node calling).calling other = client.calling other :=
  update_of_ne h _ _

/-- `NodeScheduler::Publish`. -/
def publish (nodeId : NodeId) (event : NodeEvent) (client : Client) : Client :=
  if client.acceptingMessages then
    { client with inbox := update client.inbox nodeId (client.inbox nodeId ++ [event]) }
  else client

def SlotFree (index : Nat) (client : Client) : Prop :=
  ∀ nodeId token, client.calling nodeId ≠ .releasing token index

/-- `node` can go on with the entry `o`. -/
def Next (config : ClientConfig) (client : Client) (node : NodeEndpoint) (o : Observation) : Prop :=
  node ∈ config.nodes ∧ client.calling node.nodeId = .idle ∧
    Possible (config.actor node) (o :: client.history node.nodeId)

/-- The label is what the device answered if the step zeroes a slot. -/
inductive Step (config : ClientConfig) : Client → Status → Client → Prop where
  | act : client.Next config node o → Idle o → Step config client .OK (client.record node.nodeId o)
  /-- The events in front of an accepted one were stale. -/
  | accept : client.Next config node (.accepted event) →
    client.inbox node.nodeId = stale ++ event :: rest →
    Step config client .OK
      { client.record node.nodeId (.accepted event) with
        inbox := update client.inbox node.nodeId rest }
  | postRefused : client.Next config node (.submitted command status) →
    client.executor.admission = none ∨ client.executor.acceptingCommands = false →
    client.executor.admitCommand config.hash command = .error status →
    Step config client .OK (client.record node.nodeId (.submitted command status))
  | post : client.Next config node (.submitted command .OK) → client.executor.admission = none →
    client.executor.admitCommand config.hash command = .ok admitted →
    Step config client .OK
      ({ client.record node.nodeId (.submitted command .OK) with executor := admitted }.call node.nodeId
        (.posting command))
  | posted : client.calling nodeId = .posting command → Step config client .OK
      ({ client with executor := client.executor.countCommand command }.call nodeId .idle)
  | acquireRefused : client.Next config node (.acquired token (.error status)) →
    client.replies.checkAcquire token op entryCount = .error status →
    Step config client .OK (client.record node.nodeId (.acquired token (.error status)))
  | allocateFailed : client.Next config node (.acquired token (.error status)) →
    client.replies.checkAcquire token op entryCount = .ok payloadSize →
    client.replies.allocateSlot = .error status →
    Step config client .OK (client.record node.nodeId (.acquired token (.error status)))
  | allocate : client.Next config node (.acquired token result) →
    client.replies.checkAcquire token op entryCount = .ok payloadSize →
    client.replies.allocateSlot = .ok (slot, left) →
    Step config client .OK
      ({ client with replies := left }.call node.nodeId (.leasing token op entryCount payloadSize slot))
  | lease : node ∈ config.nodes →
    client.calling node.nodeId = .leasing token op entryCount payloadSize slot →
    client.SlotFree slot.slotIndex →
    client.replies.registerLease token op entryCount payloadSize slot = .ok registered →
    Possible (config.actor node)
      (.acquired token (.ok (ReplyService.replySlot slot)) :: client.history node.nodeId) →
    Step config client .OK
      (({ client with replies := registered }.record node.nodeId
        (.acquired token (.ok (ReplyService.replySlot slot)))).call node.nodeId .idle)
  /-- The slot goes back to the pool, if it can be zeroed. -/
  | leaseRefused (memset : Status) : node ∈ config.nodes →
    client.calling node.nodeId = .leasing token op entryCount payloadSize slot →
    client.replies.invalidSlot slot = true ∨ client.SlotFree slot.slotIndex →
    client.replies.registerLease token op entryCount payloadSize slot = .error refusal →
    client.replies.freeSlot memset slot.slotIndex = freed →
    Possible (config.actor node)
      (.acquired token (.error (ReplyService.refusalStatus freed refusal)) ::
        client.history node.nodeId) →
    Step config client memset
      (({ client with replies := freed.toOption.getD client.replies }.record node.nodeId
        (.acquired token (.error (ReplyService.refusalStatus freed refusal)))).call node.nodeId
          .idle)
  | releaseRefused : client.Next config node (.released token slot) →
    client.SlotFree slot.slotIndex.toNat →
    (client.replies.checkRelease token slot).failure = true →
    Step config client .OK (client.record node.nodeId (.released token slot))
  /-- The lease stays for good if the slot cannot be zeroed. -/
  | releaseFailed (memset : Status) : client.Next config node (.released token slot) →
    client.SlotFree slot.slotIndex.toNat →
    (client.replies.checkRelease token slot).success = true →
    client.replies.freeSlot memset slot.slotIndex.toNat = .error status →
    Step config client memset (client.record node.nodeId (.released token slot))
  | release (memset : Status) : client.Next config node (.released token slot) →
    client.SlotFree slot.slotIndex.toNat →
    (client.replies.checkRelease token slot).success = true →
    client.replies.freeSlot memset slot.slotIndex.toNat = .ok freed →
    Step config client memset
      (({ client with replies := freed }.record node.nodeId (.released token slot)).call node.nodeId
        (.releasing token slot.slotIndex.toNat))
  | released : client.calling nodeId = .releasing token index → Step config client .OK
      ({ client with replies := client.replies.forgetLease index }.call nodeId .idle)
  | pop : index < config.workerCount → (client.executor.workers index).state = .waiting →
    (client.executor.workers index).queue.pop = some (command, rest) →
    Step config client .OK
      { client with executor := client.executor.setQueue index rest (.popped command) }
  | uncount : index < config.workerCount →
    (client.executor.workers index).state = .popped command → client.executor.admission = none →
    Step config client .OK
      { client with executor := client.executor.uncountCommand index command }
  | reach : index < config.workerCount →
    (client.executor.workers index).state = .executing (.transmit token op payload) →
    Step config client .OK { client with received := token :: client.received }
  | finish (status : Status) : index < config.workerCount →
    (client.executor.workers index).state = .executing command →
    Step config client .OK
      ({ client with executor := client.executor.setState index .waiting }.publish command.node
        (TransportExecutor.completionOf status command))
  | exit : index < config.workerCount → (client.executor.workers index).state = .waiting →
    (client.executor.workers index).queue.empty = true →
    client.executor.acceptingCommands = false →
    Step config client .OK { client with executor := client.executor.setState index .exited }
  /-- The observer finds the peer's answer in the slot of the request. -/
  | reply (status : Status) (results : List EntryResult) :
    client.replies.leases index = some lease → lease.delivered = false →
    client.SlotFree index → lease.token ∈ client.received →
    Step config client .OK
      ({ client with replies := client.replies.setDelivered index lease }.publish
        lease.token.nodeId (.replyObserved lease.token status results))
  | stopMessages : Step config client .OK { client with acceptingMessages := false }
  | stopReplies : Step config client .OK
      { client with replies := { client.replies with acceptingLeases := false } }
  | stopCommands : Step config client .OK
      { client with executor := { client.executor with acceptingCommands := false } }

def Init (config : ClientConfig) (client : Client) : Prop :=
  ∃ executor replies replyAddr, TransportExecutor.start config.executorOptions = .ok executor ∧
    ReplyService.create config.replySlotSize config.replySlotCount replyAddr = .ok replies ∧
    client = { executor, replies }

def system (config : ClientConfig) : Transition.System Client Status where
  init := Init config
  step := Step config

end Client
end UnifiedCache.Dram
