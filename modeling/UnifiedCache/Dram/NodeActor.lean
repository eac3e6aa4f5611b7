import UnifiedCache.Dram.KvProtocol
import UnifiedCache.Lib.Table
import UnifiedCache.Lib.Transition

/-! The actor that owns one DramPool node on the client. It is driven by calls
from its runner; what it does to its surroundings and what they answer is kept
in `history`, newest first. -/
namespace UnifiedCache.Dram

inductive NodeState where
  | disconnected | connecting | active | fencing
  deriving DecidableEq, Repr

structure RequestRecord where
  request : Request
  state : RequestState := .transmitting
  token : RequestToken := {}
  replySlot : ReplySlot := {}
  failure : Status := .OK
  entryResults : List EntryResult := []
  deriving DecidableEq, Repr

namespace RequestRecord

def complete (record : RequestRecord) (status : Status) (results : List EntryResult := []) :
    RequestRecord :=
  { record with failure := status, entryResults := results, state := .completed }

def isExposed (record : RequestRecord) : Bool :=
  record.state == .transmitting || record.state == .inflight

theorem ne_completed_of_isExposed {record : RequestRecord} (h : record.isExposed = true) :
    record.state ≠ .completed := by
  intro hd
  simp [isExposed, hd] at h

end RequestRecord

/-- What can be seen of an actor from outside. `accepted` is an event that was
not dropped as stale. -/
inductive Observation where
  | requested (request : Request)
  | accepted (event : NodeEvent)
  | queried (handle : UInt64)
  | acquired (token : RequestToken) (slot : Expected ReplySlot)
  | released (token : RequestToken) (slot : ReplySlot)
  | submitted (command : TransportCommand) (status : Status)
  | completed (completion : RequestCompleted)
  | published (batch : List RequestCompleted)
  deriving DecidableEq

inductive QueryOutcome where
  | threw
  | returned (ready : Expected Bool)

/-- What happens inside one call of `submitTransport`: it may hand events to the
actor before it returns, as a transport that completes synchronously does. -/
structure TransportCall where
  events : List (NodeEvent × TimePoint) := []
  status : Status

/-- The callbacks may answer anything, and differently each time: they see the
whole history. The status of a release is only logged. -/
structure NodeDependencies where
  submitTransport : List Observation → TransportCommand → TransportCall
  acquireReplySlot : List Observation → RequestToken → OpType → Nat → Expected ReplySlot
  queryPrerequisite : List Observation → UInt64 → QueryOutcome
  /-- The order in which the hash map of active requests is walked. -/
  walk : List Observation → List RequestId → List RequestId
  walk_perm : ∀ history ids, (walk history ids).Perm ids

structure NodeActor.Config where
  endpoint : NodeEndpoint := {}
  limits : NodeLimits := {}
  /-- In milliseconds. -/
  reconnectInterval : Int64 := 0
  /-- In microseconds. -/
  pollInterval : Int64 := 50

structure NodeActor where
  state : NodeState := .disconnected
  epoch : ConnectionEpoch := 1
  activeRequests : Table RequestId RequestRecord := .empty
  completionBatch : List RequestCompleted := []
  nextActionAt : TimePoint := .min
  pendingRequests : List Request := []
  pendingCheckAt : TimePoint := .max
  nextPrerequisitePollAt : TimePoint := .min
  history : List Observation := []

namespace NodeActor

def seedOf (key : BlockId) : UInt32 :=
  UInt32.ofNat (Bytes.ofLeBytes (key.toList.take 4))

/-- Folds a non-zero shard into the first four bytes of the key. -/
def storageKey (blockId : BlockId) (shardId : UInt32) : BlockId :=
  if shardId = 0 then blockId
  else
    let seed : UInt32 := seedOf blockId
    let seed : UInt32 := seed ^^^ (shardId + (0x9e3779b9 : UInt32) +
      (seed <<< (6 : UInt32)) + (seed >>> (2 : UInt32)))
    Vector.ofFn fun i => (Bytes.leBytes 4 seed.toNat)[i.val]?.getD blockId[i]

def fillTransferEntries (entries : List IoEntry) : List KvTransferEntry :=
  entries.map fun source => {
    key := storageKey source.blockId source.shardId
    addr := source.buffer.address
    len := source.buffer.length.toUInt32
    idx := source.shardId }

def kvRequest (replySlot : ReplySlot) (requestId : RequestId) (op : OpType)
    (entries : List IoEntry) : KvRequest :=
  let batchSize := UInt16.ofNat entries.length
  match op with
  | .lookup => .lookup {
      opcode := .lookup, request_id := requestId, resp_addr := replySlot.localAddr
      batch_size := batchSize
      entries := entries.map fun entry => ⟨storageKey entry.blockId entry.shardId⟩ }
  | .dump => .dump {
      opcode := .dump, request_id := requestId, resp_addr := replySlot.localAddr, ttl := 0
      batch_size := batchSize, entries := fillTransferEntries entries }
  | .load => .load {
      opcode := .load, request_id := requestId, resp_addr := replySlot.localAddr
      batch_size := batchSize, entries := fillTransferEntries entries }

/-- The payload is sized first; `data()` of an empty vector counts as non-null
because a request of a known type never has size zero. -/
def encodeRequest (replySlot : ReplySlot) (requestId : RequestId) (op : OpType)
    (entries : List IoEntry) : Expected (List UInt8) :=
  let request := kvRequest replySlot requestId op entries
  let payload := List.replicate (getPackedRequestSize request.opcode request) 0
  packRequest (some payload) request.opcode request

def observe (actor : NodeActor) (o : Observation) : NodeActor :=
  { actor with history := o :: actor.history }

def restoreIndexes (entries : List IoEntry) (results : List EntryResult) : List EntryResult :=
  results.mapIdx fun index result =>
    { result with
      originalIndex := (entries[index]?.map IoEntry.originalIndex).getD result.originalIndex }

variable (config : Config) (dependencies : NodeDependencies)

def completionOf (request : Request) (status : Status) (entryResults : List EntryResult) :
    RequestCompleted where
  taskId := request.taskId
  requestId := request.requestId
  nodeId := config.endpoint.nodeId
  status := status
  entryResults := restoreIndexes request.entries entryResults

def queueCompletion (request : Request) (status : Status) (entryResults : List EntryResult)
    (actor : NodeActor) : NodeActor :=
  let completion := completionOf config request status entryResults
  { actor with
    completionBatch := actor.completionBatch ++ [completion]
    history := .completed completion :: actor.history }

def releaseReplySlot (record : RequestRecord) (actor : NodeActor) : NodeActor :=
  if record.replySlot.localAddr = 0 then actor
  else actor.observe (.released record.token record.replySlot)

/-- The lookup never fails: callers pass the id of a record they just touched. -/
def retireRequest (requestId : RequestId) (actor : NodeActor) : NodeActor :=
  match actor.activeRequests.find? requestId with
  | none => actor
  | some record =>
    queueCompletion config record.request record.failure record.entryResults
      (releaseReplySlot record
        { actor with activeRequests := actor.activeRequests.erase requestId })

/-! Completed requests are retired; an expired exposed one starts the fence. -/

def finalizeStep (active : Bool) (now : TimePoint) (walked : NodeActor × Bool)
    (requestId : RequestId) : NodeActor × Bool :=
  let (actor, needsFence) := walked
  match actor.activeRequests.find? requestId with
  | none => (actor, needsFence)
  | some record =>
    if record.state ≠ .completed then
      if active && record.isExposed then
        ({ actor with nextActionAt := min actor.nextActionAt record.request.deadline },
          needsFence || decide (record.request.deadline ≤ now))
      else (actor, needsFence)
    else (retireRequest config requestId actor, needsFence)

def waitForFence (record : RequestRecord) : RequestRecord :=
  if record.isExposed then { record with state := .waitingFence, failure := .Timeout } else record

def startFence (now : TimePoint) (actor : NodeActor) : NodeActor :=
  { actor with
    state := .fencing
    activeRequests := actor.activeRequests.mapValues waitForFence
    nextActionAt := now }

def finalizeRequests (now : TimePoint) (actor : NodeActor) : NodeActor :=
  let active := decide (actor.state = .active)
  let actor := if active then { actor with nextActionAt := .max } else actor
  let ids := dependencies.walk actor.history actor.activeRequests.keys
  let (actor, needsFence) := ids.foldl (finalizeStep config active now) (actor, false)
  if needsFence then startFence now actor else actor

def reconnectAt (now : TimePoint) : TimePoint :=
  now + TimePoint.milliseconds config.reconnectInterval

/-- Zero is never a valid epoch, so a wrapped counter skips it. -/
def nextEpoch (epoch : ConnectionEpoch) : ConnectionEpoch :=
  if epoch + 1 = kInvalidConnectionEpoch then epoch + 1 + 1 else epoch + 1

def passFence (record : RequestRecord) : RequestRecord :=
  if record.state = .waitingFence then { record with state := .completed } else record

/-- A failed fence counts as done: an unreachable peer cannot write either. -/
def handleFenceCompleted (event : NodeEvent) (epoch : ConnectionEpoch) (now : TimePoint)
    (actor : NodeActor) : NodeActor :=
  if actor.state ≠ .fencing ∨ epoch ≠ actor.epoch then actor
  else { actor.observe (.accepted event) with
    activeRequests := actor.activeRequests.mapValues passFence
    epoch := nextEpoch actor.epoch
    state := .disconnected
    nextActionAt := now }

def replyOutcome (op : OpType) (status : Status) (entryResults : List EntryResult) :
    Status × List EntryResult :=
  if status.success ∧ op ≠ .lookup then
    if entryResults.any (fun result => result.code ≠ 0) then
      (.Error "DramPool returned an item failure", [])
    else (status, [])
  else if status.success then (status, entryResults)
  else (status, [])

def replied (status : Status) (entryResults : List EntryResult) (now : TimePoint)
    (record : RequestRecord) : RequestRecord :=
  if record.failure.same .Timeout ∨ record.request.deadline ≤ now then record.complete .Timeout
  else
    let (status, results) := replyOutcome record.request.op status entryResults
    record.complete status results

def handleReplyObserved (event : NodeEvent) (token : RequestToken) (status : Status)
    (entryResults : List EntryResult) (now : TimePoint) (actor : NodeActor) : NodeActor :=
  match actor.activeRequests.find? token.requestId with
  | none => actor
  | some record =>
    if record.token ≠ token ∨ record.state = .completed then actor
    else { actor.observe (.accepted event) with
      activeRequests := actor.activeRequests.modify token.requestId
        (replied status entryResults now) }

def transmitted (status : Status) (record : RequestRecord) : RequestRecord :=
  if status.success then { record with state := .inflight } else record.complete status

def handleTransmitCompleted (event : NodeEvent) (token : RequestToken) (status : Status)
    (actor : NodeActor) : NodeActor :=
  match actor.activeRequests.find? token.requestId with
  | none => actor
  | some record =>
    if record.state ≠ .transmitting ∨ record.token ≠ token then actor
    else { actor.observe (.accepted event) with
      activeRequests := actor.activeRequests.modify token.requestId (transmitted status) }

def handleConnectCompleted (event : NodeEvent) (epoch : ConnectionEpoch) (status : Status)
    (now : TimePoint) (actor : NodeActor) : NodeActor :=
  if epoch ≠ actor.epoch ∨ actor.state ≠ .connecting then actor
  else
    let actor := actor.observe (.accepted event)
    if status.success then { actor with state := .active, nextActionAt := .max }
    else { actor with state := .disconnected, nextActionAt := reconnectAt config now }

def handle (event : NodeEvent) (now : TimePoint) (actor : NodeActor) : NodeActor :=
  match event with
  | .transmitCompleted token status => handleTransmitCompleted event token status actor
  | .connectCompleted _ _ epoch status =>
    handleConnectCompleted config event epoch status now actor
  | .fenceCompleted _ _ epoch _ => handleFenceCompleted event epoch now actor
  | .replyObserved token status entryResults =>
    handleReplyObserved event token status entryResults now actor

def handleAll (events : List (NodeEvent × TimePoint)) (actor : NodeActor) : NodeActor :=
  events.foldl (fun actor event => handle config event.1 event.2 actor) actor

def submit (command : TransportCommand) (actor : NodeActor) : NodeActor × Status :=
  let submission := dependencies.submitTransport actor.history command
  let actor := actor.observe (.submitted command submission.status)
  (handleAll config submission.events actor, submission.status)

/-! Pending requests: expiry, then dispatch in order. -/

/-- `kept` is the part of the queue behind the iterator. -/
def expireLoop (now : TimePoint) (kept : List Request) : List Request → NodeActor → NodeActor
  | [], actor => actor
  | request :: rest, actor =>
    if now < request.deadline then
      expireLoop now (kept ++ [request]) rest
        { actor with pendingCheckAt := min actor.pendingCheckAt request.deadline }
    else
      let actor := if kept.isEmpty then { actor with nextPrerequisitePollAt := .min } else actor
      expireLoop now kept rest (queueCompletion config request .Timeout []
        { actor with pendingRequests := kept ++ rest })

def expirePendingRequests (now : TimePoint) (actor : NodeActor) : NodeActor :=
  if now < actor.pendingCheckAt then actor
  else expireLoop config now [] actor.pendingRequests { actor with pendingCheckAt := .max }

def tokenOf (requestId : RequestId) (actor : NodeActor) : RequestToken :=
  ⟨config.endpoint.nodeId, kDefaultLaneId, actor.epoch, requestId⟩

def completeActive (requestId : RequestId) (status : Status) (actor : NodeActor) : NodeActor :=
  { actor with
    activeRequests := actor.activeRequests.modify requestId fun record => record.complete status }

/-- A reply may have completed the record while the transport was being called. -/
def concludeTransmit (requestId : RequestId) (status : Status) (actor : NodeActor) : NodeActor :=
  match actor.activeRequests.find? requestId with
  | none => actor
  | some active =>
    if active.state = .completed then retireRequest config requestId actor
    else if status.failure then
      retireRequest config requestId (completeActive requestId status actor)
    else actor

/-- The tail of `StartRequest`, once the payload is encoded. -/
def transmitRequest (requestId : RequestId) (record : RequestRecord) (payload : List UInt8)
    (actor : NodeActor) : NodeActor :=
  let (actor, status) := submit config dependencies
    (.transmit record.token record.request.op payload) actor
  concludeTransmit config requestId status actor

def startRequest (request : Request) (actor : NodeActor) : NodeActor :=
  let requestId := request.requestId
  let actor := { actor with
    activeRequests := actor.activeRequests.emplace requestId
      { request := request, token := tokenOf config requestId actor } }
  match actor.activeRequests.find? requestId with
  | none => actor
  | some active =>
    let acquired := dependencies.acquireReplySlot actor.history active.token active.request.op
      active.request.entries.length
    let actor := actor.observe (.acquired active.token acquired)
    match acquired with
    | .error status =>
      retireRequest config requestId (completeActive requestId status actor)
    | .ok slot =>
      let active := { active with replySlot := slot }
      let actor := { actor with
        activeRequests := actor.activeRequests.modify requestId
          fun record => { record with replySlot := slot } }
      match encodeRequest slot active.request.requestId active.request.op
        active.request.entries with
      | .error status =>
        retireRequest config requestId (completeActive requestId status actor)
      | .ok payload => transmitRequest config dependencies requestId active payload actor

/-- `false` leaves the request at the head of the queue. -/
def tryStartRequest (request : Request) (now : TimePoint) (actor : NodeActor) :
    NodeActor × Bool :=
  if request.deadline ≤ now then (queueCompletion config request .Timeout [] actor, true)
  else if request.prerequisiteHandle ≠ 0 then
    let outcome := dependencies.queryPrerequisite actor.history request.prerequisiteHandle
    let actor := actor.observe (.queried request.prerequisiteHandle)
    match outcome with
    | .threw =>
      (queueCompletion config request (.Error "prerequisite event query threw") [] actor, true)
    | .returned (.error status) => (queueCompletion config request status [] actor, true)
    | .returned (.ok false) => (actor, false)
    | .returned (.ok true) =>
      (startRequest config dependencies { request with prerequisiteHandle := 0 } actor, true)
  else (startRequest config dependencies request actor, true)

def dispatchLoop (now : TimePoint) : List Request → NodeActor → NodeActor
  | [], actor => actor
  | request :: rest, actor =>
    if actor.activeRequests.size < config.limits.maxInflightRequests then
      if request.prerequisiteHandle ≠ 0 ∧ now < actor.nextPrerequisitePollAt then actor
      else
        match tryStartRequest config dependencies request now actor with
        | (actor, false) =>
          { actor with
            nextPrerequisitePollAt := now + TimePoint.microseconds config.pollInterval }
        | (actor, true) =>
          let actor := { actor with pendingRequests := rest, nextPrerequisitePollAt := .min }
          if actor.state ≠ .active then actor else dispatchLoop now rest actor
    else actor

def dispatchPendingRequests (now : TimePoint) (actor : NodeActor) : NodeActor :=
  if actor.state ≠ .active then actor
  else
    let actor := dispatchLoop config dependencies now actor.pendingRequests actor
    if actor.pendingRequests.isEmpty then { actor with pendingCheckAt := .max } else actor

def flushCompletions (actor : NodeActor) : NodeActor :=
  if actor.completionBatch.isEmpty then actor
  else { actor.observe (.published actor.completionBatch) with completionBatch := [] }

def tryFence (now : TimePoint) (actor : NodeActor) : NodeActor :=
  let (actor, status) := submit config dependencies
    (.fenceEpoch config.endpoint.nodeId kDefaultLaneId actor.epoch) actor
  if status.success then { actor with nextActionAt := .max }
  else { actor with nextActionAt := reconnectAt config now }

def tryConnect (now : TimePoint) (actor : NodeActor) : NodeActor :=
  let (actor, status) := submit config dependencies
    (.connect config.endpoint.nodeId kDefaultLaneId actor.epoch config.endpoint.peerAddr) actor
  if status.success then { actor with state := .connecting, nextActionAt := .max }
  else { actor with nextActionAt := reconnectAt config now }

def retryConnection (now : TimePoint) (actor : NodeActor) : NodeActor :=
  if actor.nextActionAt ≤ now then
    match actor.state with
    | .disconnected => tryConnect config dependencies now actor
    | .fencing => tryFence config dependencies now actor
    | _ => actor
  else actor

def handleRequest (request : Request) (now : TimePoint) (actor : NodeActor) : NodeActor :=
  let actor := actor.observe (.requested request)
  if request.deadline ≤ now then queueCompletion config request .Timeout [] actor
  else { actor with
    pendingCheckAt := min actor.pendingCheckAt request.deadline
    pendingRequests := actor.pendingRequests ++ [request] }

def advance (now : TimePoint) (actor : NodeActor) : NodeActor :=
  let actor := finalizeRequests config dependencies now actor
  let actor := retryConnection config dependencies now actor
  let actor := expirePendingRequests config now actor
  let actor := dispatchPendingRequests config dependencies now actor
  flushCompletions actor

def nextWakeup (actor : NodeActor) : TimePoint :=
  let next := min actor.nextActionAt actor.pendingCheckAt
  match actor.pendingRequests with
  | [] => next
  | front :: _ =>
    if actor.state = .active ∧ actor.activeRequests.size < config.limits.maxInflightRequests ∧
        front.prerequisiteHandle ≠ 0 then
      min next actor.nextPrerequisitePollAt
    else next

/-! Runs: the runner's calls in the order it makes them. -/

inductive Call where
  | request (request : Request) (now : TimePoint)
  | event (event : NodeEvent) (now : TimePoint)
  | advance (now : TimePoint)

def step (actor : NodeActor) : Call → NodeActor
  | .request request now => handleRequest config request now actor
  | .event event now => handle config event now actor
  | .advance now => advance config dependencies now actor

def after (calls : List Call) : NodeActor :=
  Transition.run (step config dependencies) {} calls

def handed (calls : List Call) : List Request :=
  calls.filterMap fun
    | .request request _ => some request
    | _ => none

end NodeActor
end UnifiedCache.Dram
