import UnifiedCache.Dram.WireFormat
import UnifiedCache.DramPool.CompletionPoller
import UnifiedCache.DramPool.MetadataRuns

/-! A DramPool server: the receiver, the worker, the poller and the GC thread around
the shared queues and metadata, and the order in which `Stop` ends them. -/
namespace UnifiedCache.DramPool
open Dram

/-- The request receiver: `holding` has a task and has just seen whether it should
stop. -/
inductive Receiver where
  | receiving
  | holding (task : RequestTask) (admitted : Bool)
  | exited

/-- What `UnpackRequest` guarantees of the requests that it returns. -/
def KvRequestShape : KvRequest → Prop
  | .dump r => r.batch_size.toNat = r.entries.length
  | .load r => r.batch_size.toNat = r.entries.length
  | .lookup r => r.batch_size.toNat = r.entries.length

structure Server where
  shared : Shared
  receiver : Receiver := .receiving
  worker : Worker := .polling
  poller : Poller := .filling []
  gc : Option Call := none

namespace Server

def calls (server : Server) : List Call :=
  server.worker.calls ++ server.poller.calls ++ server.gc.toList

def ReadyKey (config : ServerConfig) (manager : MetadataManager) (key : BlockId) : Prop :=
  ∃ id, manager.find config.metadata key = some id ∧ (manager.heap id).status = .ready

instance decidableReadyKey (config : ServerConfig) (manager : MetadataManager) (key : BlockId) :
    Decidable (ReadyKey config manager key) :=
  match h : manager.find config.metadata key with
  | none => isFalse (by
      rintro ⟨id, hid, -⟩
      rw [h] at hid
      cases hid)
  | some id =>
    if hready : (manager.heap id).status = .ready then isTrue ⟨id, h, hready⟩
    else isFalse (by
      rintro ⟨other, hother, hstatus⟩
      rw [h] at hother
      cases hother
      exact hready hstatus)

def observe (config : ServerConfig) (shared : Shared) : Shared :=
  { shared with
    clock := shared.clock + 1
    lastReady := fun key =>
      if ReadyKey config shared.manager key then some (shared.clock + 1)
      else shared.lastReady key }

/-- One step of a thread, or of `Stop`, which joins the receiver before it sets the
worker's flag and the worker before it sets the poller's. -/
inductive Move (config : ServerConfig) : Server → Server → Prop where
  | receive : KvRequestShape task.request → s.shared.receiverStop = false →
    s.receiver = .receiving → Move config s { s with receiver := .holding task false }
  | receiverExit : s.receiver = .receiving → Move config s { s with receiver := .exited }
  | allowTask : s.receiver = .holding task false → s.shared.receiverStop = false →
    Move config s { s with receiver := .holding task true }
  | abandonTask : s.receiver = .holding task false → s.shared.receiverStop = true →
    Move config s { s with receiver := .receiving }
  | pushTask : s.receiver = .holding task true → s.shared.requestQueue.tryPush task = some queue →
    Move config s
      { s with shared := { s.shared with requestQueue := queue }, receiver := .receiving }
  | pushFull : s.receiver = .holding task true → s.shared.requestQueue.tryPush task = none →
    Move config s { s with receiver := .holding task false }
  | worker : Worker.Step config (s.poller.calls ++ s.gc.toList) s.shared s.worker after next →
    Move config s { s with shared := after, worker := next }
  | poller : Poller.Step config (s.worker.calls ++ s.gc.toList) s.shared s.poller after next →
    Move config s { s with shared := after, poller := next }
  | gcStart (now : TimePoint) : s.gc = none →
    Move config s
      { s with gc := some (.evict (Eviction.start config.metadata 0 false now s.shared.manager)
          (List.range' 1 (kShardCnt - 1))) }
  | gcAdvance (now : TimePoint) : s.gc = some call →
    call.Unlocked config.metadata (s.worker.calls ++ s.poller.calls) → pick < kShardCnt →
    call.advance config.metadata now pick s.shared.manager = (manager, outcome) →
    Move config s { s with shared := { s.shared with manager }, gc := outcome.calls.head? }
  | stopReceiver : Move config s { s with shared := { s.shared with receiverStop := true } }
  | stopWorker : s.shared.receiverStop = true → s.receiver = .exited →
    Move config s { s with shared := { s.shared with workerStop := true } }
  | stopPoller : s.shared.workerStop = true → s.worker = .exited →
    Move config s { s with shared := { s.shared with pollerStop := true } }

structure Setup where
  localAddr : Nat → Nat
  slots : List (Nat × Nat)
  flagBufferSlotCount : Nat
  flagBufferSlotAlignment : Nat
  requestQueueDepth : Nat
  completionQueueDepth : Nat

def Init (config : ServerConfig) (setup : Setup) (server : Server) : Prop :=
  ∃ buffers flagBufferPool, ∃ hrequest : 0 < setup.requestQueueDepth,
    ∃ hcompletion : 0 < setup.completionQueueDepth,
    BufferManager.create setup.localAddr setup.slots = .ok buffers ∧
    BufferPool.init "drampool_flag_buffer_pool" config.flagBufferSlotSizeBytes
      setup.flagBufferSlotCount setup.flagBufferSlotAlignment (setup.localAddr 0) =
        .ok flagBufferPool ∧
    server =
      { shared :=
        { manager := MetadataManager.create config.metadata buffers
          flagBufferPool
          requestQueue := SpscQueue.setup setup.requestQueueDepth hrequest
          completionQueue := SpscQueue.setup setup.completionQueueDepth hcompletion } }

def system (config : ServerConfig) (setup : Setup) : Transition.System Server Unit where
  init := Init config setup
  step s _ t := ∃ u, Move config s u ∧ t = { u with shared := observe config u.shared }

end Server
end UnifiedCache.DramPool
