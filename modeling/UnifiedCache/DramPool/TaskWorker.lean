import UnifiedCache.Dram.KvProtocol
import UnifiedCache.DramPool.Metadata
import UnifiedCache.DramPool.Types
import UnifiedCache.SpscQueue

/-! The worker thread of a DramPool server. Between two steps it holds no lock,
except for the read lock of an eviction inside `StoreBegin`; what it has done of a
request is in its locals. -/
namespace UnifiedCache.DramPool
open Dram

/-- `entry` is a ghost: the metadata entry that the item was created for. -/
structure TransferItem where
  index_in_request : Nat
  key : BlockId
  entry : EntryId
  deriving DecidableEq, Repr

inductive CompletionStage where
  | pollDataTransfer | submitResponse | pollResponseTransfer
  deriving DecidableEq, Repr

inductive TransferStatus where
  | waiting | completed | failed
  deriving DecidableEq, Repr

abbrev TransferHandle := UInt64

def kInvalidTransferHandle : TransferHandle := 0

/-- The ghosts `keys`, `begun` and `failed` are the keys of the request, the time
at which its processing began and the keys whose data transfer failed. -/
structure CompletionRecord where
  stage : CompletionStage := .pollDataTransfer
  request_id : UInt64 := 0
  data_handle : TransferHandle := kInvalidTransferHandle
  transfer_items : List TransferItem := []
  opcode : OpType := .lookup
  remote_resp_addr : UInt64 := 0
  peer_one_sided_id : String := ""
  results : List UInt8 := []
  response_handle : TransferHandle := kInvalidTransferHandle
  local_resp_slot : Nat := kMaxIndex
  keys : List BlockId := []
  begun : Nat := 0
  failed : List BlockId := []
  deriving DecidableEq, Repr

structure RequestTask where
  request : KvRequest
  peer_one_sided_id : String
  deriving DecidableEq, Repr

structure ServerConfig where
  metadata : MetadataConfig
  flagBufferSlotSizeBytes : Nat
  defaultDumpTtlMs : UInt64
  pollerPendingDepth : Nat

/-- The locals of `ProcessDump`, `ProcessLoad` and `ProcessLookup`; an entry of a
LOOKUP has a key only. -/
structure Batch where
  request_id : UInt64
  resp_addr : UInt64
  peer : String
  entries : List KvTransferEntry
  index : Nat := 0
  results : List UInt8
  transfer_items : List TransferItem := []
  begun : Nat := 0
  deriving DecidableEq, Repr

namespace Batch

def keys (batch : Batch) : List BlockId := batch.entries.map (·.key)

def conclude (result : UInt8) (batch : Batch) : Batch :=
  { batch with
    results := batch.results.set batch.index result
    index := batch.index + 1 }

/-- `mark_remaining_failed` and the `break` behind it. -/
def failRemaining (batch : Batch) : Batch :=
  { batch with
    results := batch.results.mapIdx fun i result =>
      if batch.index ≤ i then DumpLoadResult.failed.toByte else result
    index := batch.entries.length }

def transfer (entry : KvTransferEntry) (id : EntryId) (batch : Batch) : Batch :=
  { batch with
    transfer_items := batch.transfer_items ++ [⟨batch.index, entry.key, id⟩]
    index := batch.index + 1 }

/-- What `ProcessDump` makes of the status of `StoreBegin`. -/
def stored (entry : KvTransferEntry) (id : EntryId) (status : Status) (batch : Batch) : Batch :=
  if status.same Status.DuplicateKey then batch.conclude DumpLoadResult.ok.toByte
  else if status.failure then batch.failRemaining
  else batch.transfer entry id

/-- All items are `Failed` after a transfer that could not be submitted. -/
def failItems (batch : Batch) : List UInt8 :=
  batch.transfer_items.foldl
    (fun results item => results.set item.index_in_request DumpLoadResult.failed.toByte)
    batch.results

/-- The record that `QueueResponse` builds. -/
def response (opcode : OpType) (results : List UInt8) (failed : List BlockId) (batch : Batch) :
    CompletionRecord where
  stage := .submitResponse
  request_id := batch.request_id
  opcode := opcode
  remote_resp_addr := batch.resp_addr
  peer_one_sided_id := batch.peer
  results := results
  keys := batch.keys
  begun := batch.begun
  failed := failed

def submitted (opcode : OpType) (handle : TransferHandle) (batch : Batch) : CompletionRecord where
  stage := .pollDataTransfer
  request_id := batch.request_id
  opcode := opcode
  data_handle := handle
  remote_resp_addr := batch.resp_addr
  peer_one_sided_id := batch.peer
  results := batch.results
  transfer_items := batch.transfer_items
  keys := batch.keys
  begun := batch.begun

end Batch

/-- What the threads share. `clock` and `lastReady` are ghosts: the number of steps
taken, and when the map last held a ready entry for a key. -/
structure Shared where
  manager : MetadataManager
  flagBufferPool : BufferPool
  requestQueue : SpscQueue RequestTask
  completionQueue : SpscQueue CompletionRecord
  receiverStop : Bool := false
  workerStop : Bool := false
  pollerStop : Bool := false
  clock : Nat := 0
  lastReady : BlockId → Option Nat := fun _ => none

/-- Where the worker stands: `polled` is behind an empty `TryPop`, `storing` inside
`StoreBegin`, `pinned` behind a successful `LoadBegin`, `submittingDump` and
`submittingLoad` in front of `ExecuteAsync`, `aborting` and `deleting` in `DeleteItemsMetadata`, `releasing` in
`LoadEndItems` and `pushing` in `SubmitCompletion`. -/
inductive Worker where
  | polling
  | polled
  | dumping (lifeTimeout : TimePoint) (batch : Batch)
  | storing (lifeTimeout : TimePoint) (batch : Batch) (entry : KvTransferEntry) (id : EntryId)
      (call : Call)
  | loading (batch : Batch)
  | pinned (batch : Batch) (entry : KvTransferEntry) (id : EntryId)
  | lookingUp (batch : Batch)
  | submittingDump (batch : Batch)
  | submittingLoad (batch : Batch)
  | aborting (batch : Batch) (left : List TransferItem)
  | deleting (batch : Batch) (left : List TransferItem) (call : Call)
  | releasing (batch : Batch) (left : List TransferItem)
  | pushing (record : CompletionRecord)
  | exited

namespace Worker

def lifeTimeout (now : TimePoint) (ttlMs : UInt64) : TimePoint :=
  if ttlMs = 0 then 0 else now + TimePoint.milliseconds ttlMs.toInt64

/-- `ProcessOneRequest` up to the head of the loop over the entries. A request that
is refused leaves no trace but a log line. -/
def start (config : ServerConfig) (now : TimePoint) (clock : Nat) (task : RequestTask) : Worker :=
  if task.peer_one_sided_id = "" then .polling
  else
    match task.request with
    | .dump r =>
      if r.opcode ≠ .dump ∨
          config.flagBufferSlotSizeBytes < getPackedResponseSize .dump r.batch_size.toNat then
        .polling
      else
        .dumping (lifeTimeout now (if r.ttl ≠ 0 then r.ttl.toUInt64 else config.defaultDumpTtlMs))
          { request_id := r.request_id, resp_addr := r.resp_addr
            peer := task.peer_one_sided_id, entries := r.entries, begun := clock
            results := List.replicate r.batch_size.toNat DumpLoadResult.ok.toByte }
    | .load r =>
      if r.opcode ≠ .load ∨
          config.flagBufferSlotSizeBytes < getPackedResponseSize .load r.batch_size.toNat then
        .polling
      else
        .loading
          { request_id := r.request_id, resp_addr := r.resp_addr
            peer := task.peer_one_sided_id, entries := r.entries, begun := clock
            results := List.replicate r.batch_size.toNat DumpLoadResult.ok.toByte }
    | .lookup r =>
      if r.opcode ≠ .lookup ∨
          config.flagBufferSlotSizeBytes < getPackedResponseSize .lookup r.batch_size.toNat then
        .polling
      else
        .lookingUp
          { request_id := r.request_id, resp_addr := r.resp_addr
            peer := task.peer_one_sided_id, entries := r.entries.map fun e => { key := e.key }
            begun := clock
            results := List.replicate r.batch_size.toNat LookupResult.notFound.toByte }

/-- Behind the loop of `ProcessDump`. -/
def finishDump (batch : Batch) : Worker :=
  if batch.transfer_items = [] then .pushing (batch.response .dump batch.results [])
  else .submittingDump batch

/-- Behind the loop of `ProcessLoad`. -/
def finishLoad (batch : Batch) : Worker :=
  if batch.transfer_items = [] then .pushing (batch.response .load batch.results [])
  else .submittingLoad batch

def calls : Worker → List Call
  | .storing _ _ _ _ call => [call]
  | .deleting _ _ call => [call]
  | _ => []

/-- One step of the worker, from the shared state and its own to the next. `others`
are the operations that the other threads have in progress. -/
inductive Step (config : ServerConfig) (others : List Call) :
    Shared → Worker → Shared → Worker → Prop where
  | pop (now : TimePoint) : s.requestQueue.tryPop = some (task, queue) →
    Step config others s .polling { s with requestQueue := queue } (start config now s.clock task)
  | popEmpty : s.requestQueue.tryPop = none → Step config others s .polling s .polled
  | stopRead : Step config others s .polled s (if s.workerStop then .exited else .polling)
  | storeBegin : batch.entries[batch.index]? = some entry →
    s.manager.newEntry config.metadata entry.key entry.len.toNat life entry.idx = (eid, manager) →
    Step config others s (.dumping life batch) { s with manager }
      (.storing life batch entry eid (.storeBegin entry.key eid 0))
  | storeAdvance (now : TimePoint) : pick < kShardCnt → call.Unlocked config.metadata others →
    call.advance config.metadata now pick s.manager = (manager, .running call') →
    Step config others s (.storing life batch entry eid call) { s with manager }
      (.storing life batch entry eid call')
  | storeReturn (now : TimePoint) : pick < kShardCnt → call.Unlocked config.metadata others →
    call.advance config.metadata now pick s.manager = (manager, .returned status) →
    Step config others s (.storing life batch entry eid call) { s with manager }
      (.dumping life (batch.stored entry eid status))
  | dumpEnd : batch.entries[batch.index]? = none →
    Step config others s (.dumping life batch) s (finishDump batch)
  | loadBegin : batch.entries[batch.index]? = some entry →
    s.manager.loadBegin config.metadata entry.key = (.ok eid, manager) →
    Step config others s (.loading batch) { s with manager } (.pinned batch entry eid)
  | loadRefused : batch.entries[batch.index]? = some entry →
    s.manager.loadBegin config.metadata entry.key = (.error status, manager) →
    Step config others s (.loading batch) { s with manager }
      (.loading (batch.conclude DumpLoadResult.failed.toByte))
  | loadTooLong : (s.manager.heap eid).size < entry.len.toNat →
    Step config others s (.pinned batch entry eid)
      { s with manager := (s.manager.loadEnd config.metadata entry.key).2 }
      (.loading (batch.conclude DumpLoadResult.failed.toByte))
  | loadItem : entry.len.toNat ≤ (s.manager.heap eid).size →
    Step config others s (.pinned batch entry eid) s (.loading (batch.transfer entry eid))
  | loadEnd : batch.entries[batch.index]? = none →
    Step config others s (.loading batch) s (finishLoad batch)
  | exist (now : TimePoint) : batch.entries[batch.index]? = some entry →
    s.manager.exist config.metadata now entry.key = (result, manager) →
    Step config others s (.lookingUp batch) { s with manager }
      (.lookingUp (if result.isOk then batch.conclude LookupResult.found.toByte
        else { batch with index := batch.index + 1 }))
  | lookupEnd : batch.entries[batch.index]? = none →
    Step config others s (.lookingUp batch) s (.pushing (batch.response .lookup batch.results []))
  | dumpSubmitted : handle ≠ kInvalidTransferHandle →
    Step config others s (.submittingDump batch) s (.pushing (batch.submitted .dump handle))
  | dumpFailed : Step config others s (.submittingDump batch) s
      (.aborting batch batch.transfer_items)
  | loadSubmitted : handle ≠ kInvalidTransferHandle →
    Step config others s (.submittingLoad batch) s (.pushing (batch.submitted .load handle))
  | loadFailed : Step config others s (.submittingLoad batch) s
      (.releasing batch batch.transfer_items)
  | delete : s.manager.tryDelete config.metadata item.key = (.ok eid, manager) →
    Step config others s (.aborting batch (item :: left)) { s with manager }
      (.deleting batch left (.deleteFree item.key eid))
  | deleteRefused : s.manager.tryDelete config.metadata item.key = (.error status, manager) →
    Step config others s (.aborting batch (item :: left)) { s with manager } (.aborting batch left)
  | deleteAdvance (now : TimePoint) : pick < kShardCnt → call.Unlocked config.metadata others →
    call.advance config.metadata now pick s.manager = (manager, .running call') →
    Step config others s (.deleting batch left call) { s with manager } (.deleting batch left call')
  | deleteReturn (now : TimePoint) : pick < kShardCnt → call.Unlocked config.metadata others →
    call.advance config.metadata now pick s.manager = (manager, .returned status) →
    Step config others s (.deleting batch left call) { s with manager } (.aborting batch left)
  | abortEnd : Step config others s (.aborting batch []) s
      (.pushing (batch.response .dump batch.failItems (batch.transfer_items.map (·.key))))
  | release : Step config others s (.releasing batch (item :: left))
      { s with manager := (s.manager.loadEnd config.metadata item.key).2 } (.releasing batch left)
  | releaseEnd : Step config others s (.releasing batch []) s
      (.pushing (batch.response .load batch.failItems (batch.transfer_items.map (·.key))))
  | push : s.completionQueue.tryPush record = some queue →
    Step config others s (.pushing record) { s with completionQueue := queue } .polling

end Worker
end UnifiedCache.DramPool
