import UnifiedCache.DramPool.TaskWorker

/-! The completion poller of a DramPool server: it fills a window of pending
records from the completion queue and scans it, settling finished data transfers
and sending the responses. -/
namespace UnifiedCache.DramPool
open Dram

/-- The record that `PollPendingCompletions` looks at, between the part of the
window it has scanned and the part it has not. -/
structure Cursor where
  done : List CompletionRecord
  record : CompletionRecord
  todo : List CompletionRecord

namespace CompletionRecord

def setResult (index : Nat) (result : DumpLoadResult) (record : CompletionRecord) :
    CompletionRecord :=
  { record with results := record.results.set index result.toByte }

/-- Behind `SettleDataTransfer`. -/
def settled (record : CompletionRecord) : CompletionRecord :=
  { record with
    transfer_items := []
    data_handle := kInvalidTransferHandle
    stage := .submitResponse }

end CompletionRecord

/-- Where the poller stands: `filled` is in front of the read of the stop flag,
`settling` at the head of the loop of `SettleDataTransfer` with the items left,
`aborting` in front of a `Delete` and `deleting` inside it. -/
inductive Poller where
  | filling (pending : List CompletionRecord)
  | filled (pending : List CompletionRecord)
  | scanning (done todo : List CompletionRecord)
  | settling (cursor : Cursor) (terminal : TransferStatus) (left : List TransferItem)
  | aborting (cursor : Cursor) (terminal : TransferStatus) (item : TransferItem)
      (left : List TransferItem)
  | deleting (cursor : Cursor) (terminal : TransferStatus) (item : TransferItem)
      (left : List TransferItem) (call : Call)
  | responding (cursor : Cursor)
  | exited

namespace Poller

def calls : Poller → List Call
  | .deleting _ _ _ _ call => [call]
  | _ => []

/-- The records of `pending_`. -/
def window : Poller → List CompletionRecord
  | .filling pending => pending
  | .filled pending => pending
  | .scanning done todo => done ++ todo
  | .settling cursor _ _ => cursor.done ++ cursor.record :: cursor.todo
  | .aborting cursor _ _ _ => cursor.done ++ cursor.record :: cursor.todo
  | .deleting cursor _ _ _ _ => cursor.done ++ cursor.record :: cursor.todo
  | .responding cursor => cursor.done ++ cursor.record :: cursor.todo
  | .exited => []

/-- The result of `SubmitResponse`: the flag buffer pool, and the record if it stays
pending. `bytes` is what the slot held before; `handle` is what `ExecuteAsync` returned, with the
invalid handle for a failure. -/
def submitResponse (handle : TransferHandle) (bytes : List UInt8) (pool : BufferPool)
    (record : CompletionRecord) : BufferPool × Option CompletionRecord :=
  match pool.allocate with
  | .error status => (pool, if status.code = .noSpace then some record else none)
  | .ok (slot, taken) =>
    let released := (taken.free slot.slotIndex).toOption.getD taken
    match packResponse (some bytes) record.opcode ⟨record.request_id, record.results⟩ with
    | .error _ => (released, none)
    | .ok _ =>
      if handle = kInvalidTransferHandle then (released, none)
      else (taken, some { record with
        response_handle := handle
        local_resp_slot := slot.slotIndex
        results := []
        stage := .pollResponseTransfer })

inductive Step (config : ServerConfig) (others : List Call) :
    Shared → Poller → Shared → Poller → Prop where
  | fill : pending.length < config.pollerPendingDepth →
    s.completionQueue.tryPop = some (record, queue) →
    Step config others s (.filling pending) { s with completionQueue := queue }
      (.filling (pending ++ [record]))
  | fillEmpty : pending.length < config.pollerPendingDepth → s.completionQueue.tryPop = none →
    Step config others s (.filling pending) s (.filled pending)
  | fillFull : config.pollerPendingDepth ≤ pending.length →
    Step config others s (.filling pending) s (.filled pending)
  | stopRead : Step config others s (.filled pending) s
      (if pending = [] then if s.pollerStop then .exited else .filling []
        else .scanning [] pending)
  | scanEnd : Step config others s (.scanning done []) s (.filling done)
  | dataWaiting : record.stage = .pollDataTransfer →
    Step config others s (.scanning done (record :: todo)) s (.scanning (done ++ [record]) todo)
  | dataTerminal : record.stage = .pollDataTransfer → terminal ≠ .waiting →
    Step config others s (.scanning done (record :: todo)) s
      (.settling ⟨done, record, todo⟩ terminal record.transfer_items)
  | storeEnd : cursor.record.opcode = .dump →
    s.manager.storeEnd config.metadata item.key = (.ok eid, manager) →
    Step config others s (.settling cursor .completed (item :: left)) { s with manager }
      (.settling { cursor with record := cursor.record.setResult item.index_in_request .ok }
        .completed left)
  | storeEndRefused : cursor.record.opcode = .dump →
    s.manager.storeEnd config.metadata item.key = (.error status, manager) →
    Step config others s (.settling cursor .completed (item :: left)) { s with manager }
      (.aborting cursor .completed item left)
  | abort : cursor.record.opcode = .dump → terminal ≠ .completed →
    Step config others s (.settling cursor terminal (item :: left)) s
      (.aborting { cursor with
        record := { cursor.record with failed := item.key :: cursor.record.failed } }
        terminal item left)
  | delete : s.manager.tryDelete config.metadata item.key = (.ok eid, manager) →
    Step config others s (.aborting cursor terminal item left) { s with manager }
      (.deleting cursor terminal item left (.deleteFree item.key eid))
  | deleteRefused : s.manager.tryDelete config.metadata item.key = (.error status, manager) →
    Step config others s (.aborting cursor terminal item left) { s with manager }
      (.settling { cursor with record := cursor.record.setResult item.index_in_request .failed }
        terminal left)
  | deleteAdvance (now : TimePoint) : pick < kShardCnt → call.Unlocked config.metadata others →
    call.advance config.metadata now pick s.manager = (manager, .running call') →
    Step config others s (.deleting cursor terminal item left call) { s with manager }
      (.deleting cursor terminal item left call')
  | deleteReturn (now : TimePoint) : pick < kShardCnt → call.Unlocked config.metadata others →
    call.advance config.metadata now pick s.manager = (manager, .returned status) →
    Step config others s (.deleting cursor terminal item left call) { s with manager }
      (.settling { cursor with record := cursor.record.setResult item.index_in_request .failed }
        terminal left)
  | loadEnd : cursor.record.opcode = .load →
    s.manager.loadEnd config.metadata item.key = (result, manager) →
    Step config others s (.settling cursor terminal (item :: left)) { s with manager }
      (.settling { cursor with
        record := cursor.record.setResult item.index_in_request
          (if result.isOk ∧ terminal = .completed then .ok else .failed) } terminal left)
  | neither : cursor.record.opcode = .lookup →
    Step config others s (.settling cursor terminal (item :: left)) s
      (.settling { cursor with record := cursor.record.setResult item.index_in_request .failed }
        terminal left)
  | settled : Step config others s (.settling cursor terminal []) s
      (.responding { cursor with record := cursor.record.settled })
  | respond : record.stage = .submitResponse →
    Step config others s (.scanning done (record :: todo)) s (.responding ⟨done, record, todo⟩)
  | submitResponse (handle : TransferHandle) (bytes : List UInt8) :
    submitResponse handle bytes s.flagBufferPool cursor.record = (flagBufferPool, kept) →
    Step config others s (.responding cursor) { s with flagBufferPool }
      (.scanning (cursor.done ++ kept.toList) cursor.todo)
  | responseWaiting : record.stage = .pollResponseTransfer →
    Step config others s (.scanning done (record :: todo)) s (.scanning (done ++ [record]) todo)
  | responseTerminal : record.stage = .pollResponseTransfer →
    Step config others s (.scanning done (record :: todo))
      { s with flagBufferPool := (s.flagBufferPool.free record.local_resp_slot).toOption.getD
                s.flagBufferPool }
      (.scanning done todo)

end Poller
end UnifiedCache.DramPool
