import UnifiedCache.DramPool.ServerBooks

/-! Runs of a server that take one request after the other while the GC thread
rests, put together from the steps of the worker and of the poller. -/
namespace UnifiedCache.DramPool
open Dram Batch Worker DumpLoadResult

namespace Server
variable {config : ServerConfig} {setup : Setup} {s t : Server}

section
variable {ok : Server → Unit → Server → Prop} {worker next : Worker} {poller follow : Poller}
  {manager left : MetadataManager} {records : List CompletionRecord}

def Stands (config : ServerConfig) (setup : Setup) (ok : Server → Unit → Server → Prop)
    (manager : MetadataManager) (records : List CompletionRecord) (worker : Worker)
    (poller : Poller) : Prop :=
  ∃ shared : Shared, shared.manager = manager ∧ shared.completionQueue.contents = records ∧
    shared.completionQueue.capacity = setup.completionQueueDepth ∧
    shared.requestQueue.contents = [] ∧
    shared.requestQueue.capacity = setup.requestQueueDepth ∧ shared.receiverStop = false ∧
    BufferPool.init "drampool_flag_buffer_pool" config.flagBufferSlotSizeBytes
      setup.flagBufferSlotCount setup.flagBufferSlotAlignment (setup.localAddr 0) =
        .ok shared.flagBufferPool ∧
    Transition.Reachable ((system config setup).restrict ok) { shared, worker, poller }

theorem reach_move {u : Server} (h : Transition.Reachable ((system config setup).restrict ok) s)
    (hm : Move config s u) (ho : ok s () { u with shared := observe config u.shared }) :
    Transition.Reachable ((system config setup).restrict ok)
      { u with shared := observe config u.shared } :=
  h.next (a := ()) ⟨⟨u, hm, rfl⟩, ho⟩

def Allows (ok : Server → Unit → Server → Prop) (worker next : Worker)
    (manager left : MetadataManager) : Prop :=
  ∀ s t : Server, s.worker = worker → t.worker = next → s.shared.manager = manager →
    t.shared.manager = left → ok s () t

def Gentle : Worker → Prop
  | .pinned _ _ _ => False
  | .storing _ _ _ _ (.storeRollback _ _ _) => False
  | .dumping _ batch => batch.keys.Nodup
  | _ => True

def Lenient (ok : Server → Unit → Server → Prop) : Prop :=
  ∀ s t, Gentle t.worker → ok s () t

theorem Lenient.allows (ho : Lenient ok) (h : Gentle next) : Allows ok worker next manager left :=
  fun s t _ hn _ _ => ho s t (hn ▸ h)

namespace Stands

theorem init {b : BufferManager} {f : BufferPool}
    (hr : 0 < setup.requestQueueDepth) (hc : 0 < setup.completionQueueDepth)
    (hb : BufferManager.create setup.localAddr setup.slots = .ok b)
    (hf : BufferPool.init "drampool_flag_buffer_pool" config.flagBufferSlotSizeBytes
      setup.flagBufferSlotCount setup.flagBufferSlotAlignment (setup.localAddr 0) = .ok f) :
    Stands config setup ok (.create config.metadata b) [] .polling (.filling []) :=
  ⟨_, rfl, SpscQueue.contents_setup hc, SpscQueue.capacity_setup hc,
    SpscQueue.contents_setup hr, SpscQueue.capacity_setup hr, rfl, hf,
    .start ⟨_, _, hr, hc, hb, hf, rfl⟩⟩

section
variable (h : Stands config setup ok manager records worker poller)
include h

theorem work (hs : ∀ shared : Shared, Worker.Step config (poller.calls ++ [])
      { shared with manager } worker { shared with manager := left } next)
    (ho : Allows ok worker next manager left) :
    Stands config setup ok left records next poller := by
  obtain ⟨shared, rfl, hre, hd, he, hq, hu, hf, hr⟩ := h
  exact ⟨observe config { shared with manager := left }, rfl, hre, hd, he,
    hq, hu, hf, reach_move hr (.worker (hs shared)) (ho _ _ rfl rfl rfl rfl)⟩

theorem poll (hs : ∀ shared : Shared, Poller.Step config (worker.calls ++ [])
      { shared with manager } poller { shared with manager := left } follow)
    (ho : Allows ok worker worker manager left) :
    Stands config setup ok left records worker follow := by
  obtain ⟨shared, rfl, hre, hd, he, hq, hu, hf, hr⟩ := h
  exact ⟨observe config { shared with manager := left }, rfl, hre, hd, he,
    hq, hu, hf, reach_move hr (.poller (hs shared)) (ho _ _ rfl rfl rfl rfl)⟩

end

theorem request (h : Stands config setup ok manager records .polling poller)
    (hd : Allows ok .polling .polling manager manager) (task : RequestTask) (now : TimePoint)
    (ho : ∀ c, Allows ok .polling (.start config now c task) manager manager)
    (hh : KvRequestShape task.request) (hro : 1 < setup.requestQueueDepth) :
    ∃ c, Stands config setup ok manager records (.start config now c task) poller := by
  obtain ⟨shared, hm, hre, hde, he, hq, hu, hf, hr⟩ := h
  obtain ⟨queue, hpu, hqu, ha⟩ :=
    shared.requestQueue.exists_push (by simpa [he, hq] using hro) task
  rw [he] at hqu
  obtain ⟨rest, hp, hrs, hc⟩ := queue.exists_pop hqu
  have hrc := reach_move hr (.receive hh hu rfl) (hd _ _ rfl rfl hm hm)
  have hl := reach_move hrc (.allowTask rfl hu) (hd _ _ rfl rfl hm hm)
  have hs := reach_move hl (.pushTask rfl hpu) (hd _ _ rfl rfl hm hm)
  have hpo := reach_move hs (.worker (.pop now hp)) (ho _ _ _ rfl rfl hm hm)
  refine ⟨_, _, ?_, ?_, ?_, ?_, ?_, ?_, ?_, hpo⟩
  · exact hm
  · exact hre
  · exact hde
  · exact hrs
  · exact hc.trans (ha.trans hq)
  · exact hu
  · exact hf

theorem record {record : CompletionRecord}
    (h : Stands config setup ok manager records (.pushing record) poller)
    (ho : Allows ok (.pushing record) .polling manager manager)
    (hro : records.length + 1 < setup.completionQueueDepth) :
    Stands config setup ok manager (records ++ [record]) .polling poller := by
  obtain ⟨shared, hm, hre, hd, he, hq, hru, hf, hr⟩ := h
  obtain ⟨queue, hp, hu, hs⟩ :=
    shared.completionQueue.exists_push (by simpa [hre, hd] using hro) record
  rw [hre] at hu
  exact ⟨observe config { shared with completionQueue := queue }, hm, hu, hs.trans hd, he, hq, hru,
    hf, reach_move hr (.worker (.push hp)) (ho _ _ rfl rfl hm hm)⟩

theorem window {record : CompletionRecord}
    (h : Stands config setup ok manager [record] .polling (.filling []))
    (ho : Allows ok .polling .polling manager manager) (hro : 1 < config.pollerPendingDepth) :
    Stands config setup ok manager [] .polling (.scanning [] [record]) := by
  obtain ⟨shared, hm, hc, hde, he, hq, hu, hi, hr⟩ := h
  obtain ⟨rest, hp, hs, ha⟩ := shared.completionQueue.exists_pop hc
  have hf := reach_move hr (.poller (.fill (Nat.zero_lt_of_lt hro) hp)) (ho _ _ rfl rfl hm hm)
  have hd := reach_move hf (.poller (.fillEmpty hro (SpscQueue.tryPop_eq_none.2 hs)))
    (ho _ _ rfl rfl hm hm)
  have hre := reach_move hd (.poller .stopRead) (ho _ _ rfl rfl hm hm)
  refine ⟨_, ?_, ?_, ?_, ?_, ?_, ?_, ?_, hre⟩
  · exact hm
  · exact hs
  · exact ha.trans hde
  · exact he
  · exact hq
  · exact hu
  · exact hi

end Stands

def pinned (id : EntryId) (n : Nat) (manager : MetadataManager) : MetadataManager :=
  manager.setEntry id { manager.heap id with
    refCnt := (manager.heap id).refCnt + UInt32.ofNat n }

@[simp]
theorem pinned_zero (id : EntryId) (manager : MetadataManager) : pinned id 0 manager = manager := by
  simp [pinned, MetadataManager.setEntry]

@[simp] theorem pinned_pinned (id : EntryId) (count more : Nat) (manager : MetadataManager) :
    pinned id more (pinned id count manager) = pinned id (count + more) manager := by
  simp [pinned, MetadataManager.setEntry, UInt32.add_assoc, UInt32.ofNat_add]

@[simp] theorem heap_pinned (id : EntryId) (n : Nat) : (pinned id n manager).heap id =
      { manager.heap id with refCnt := (manager.heap id).refCnt + UInt32.ofNat n } := by
  simp [pinned]

theorem loadBegin_eq {key : BlockId} {id : EntryId}
    (hf : manager.find config.metadata key = some id) (hr : (manager.heap id).status = .ready) :
    manager.loadBegin config.metadata key = (.ok id, pinned id 1 manager) :=
  MetadataManager.visit_eq hf (Entry.tryIncRef_eq_some.2 ⟨hr, rfl⟩)

theorem loaded_eq (entry : KvTransferEntry) (id : EntryId) (batch : Batch) (n : Nat) :
    ((transfer entry id)^[n] batch).index = batch.index + n ∧
    ((transfer entry id)^[n] batch).entries = batch.entries ∧
    ((transfer entry id)^[n] batch).transfer_items.map (·.key) = batch.transfer_items.map (·.key) ++
    List.replicate n entry.key := by
  induction n with
  | zero => simp
  | succ n ih =>
    rw [Function.iterate_succ_apply']
    simp [transfer, ih, List.replicate_succ', Nat.add_assoc]

structure Loadable (config : ServerConfig) (manager : MetadataManager) (entry : KvTransferEntry)
    (id : EntryId) : Prop where
  find : manager.find config.metadata entry.key = some id
  ready : (manager.heap id).status = .ready
  len : entry.len.toNat ≤ (manager.heap id).size

theorem Loadable.pinned {entry : KvTransferEntry} {id : EntryId}
    (h : Loadable config manager entry id) (n : Nat) :
    Loadable config (pinned id n manager) entry id :=
  ⟨h.find, by simpa using h.ready, by simpa using h.len⟩

def MayPin (ok : Server → Unit → Server → Prop) (manager : MetadataManager) (id : EntryId)
    (n : Nat) : Prop :=
  ∀ j < n, ∀ batch entry, Allows ok (.loading batch) (.pinned batch entry id)
    (pinned id j manager) (pinned id (j + 1) manager)

namespace Stands
variable {entry : KvTransferEntry} {id : EntryId}

theorem loads {batch : Batch} (n : Nat) (ho : Lenient ok) (hpi : MayPin ok manager id n)
    (h : Stands config setup ok manager records (.loading batch) poller)
    (he : ∀ j < n, batch.entries[batch.index + j]? = some entry)
    (hl : Loadable config manager entry id) : Stands config setup ok (pinned id n manager) records
    (.loading ((transfer entry id)^[n] batch)) poller := by
  induction n with
  | zero => rwa [pinned_zero]
  | succ n ih =>
    have hb := ih (fun j hj => hpi j (by omega)) (fun j hj => he j (by omega))
    obtain ⟨hd, ha, -⟩ := loaded_eq entry id batch n
    have hn := he n (by omega)
    rw [← ha, ← hd] at hn
    have hbe : (Server.pinned id n manager).loadBegin config.metadata entry.key =
        (.ok id, Server.pinned id (n + 1) manager) := by
      rw [← pinned_pinned]
      exact loadBegin_eq (hl.pinned n).find (hl.pinned n).ready
    have hp := hb.work (fun _ => .loadBegin hn hbe) (hpi n (by omega) _ _)
    rw [Function.iterate_succ_apply']
    exact hp.work (fun _ => .loadItem (hl.pinned (n + 1)).len) (ho.allows trivial)

end Stands

def loadTask (entry : KvTransferEntry) (n : Nat) : RequestTask where
  request := .load { opcode := .load, batch_size := UInt16.ofNat n, entries := List.replicate n entry }
  peer_one_sided_id := "client"

def dumpTask (entry : KvTransferEntry) : RequestTask where
  request := .dump { opcode := .dump, request_id := 1, batch_size := 1, entries := [entry] }
  peer_one_sided_id := "client"

namespace Stands
variable {entry : KvTransferEntry} {id : EntryId}

theorem load {n : Nat} (hpo : n ≠ 0) (hz : n < 65536)
    (hl : getPackedResponseSize .load n ≤ config.flagBufferSlotSizeBytes) (ho : Lenient ok)
    (hpi : MayPin ok manager id n) (h : Stands config setup ok manager records .polling poller)
    (hr : 1 < setup.requestQueueDepth) (hro : records.length + 1 < setup.completionQueueDepth)
    (hlo : Loadable config manager entry id) : ∃ record, record.loads.map (·.key) =
    List.replicate n entry.key ∧ Stands config setup ok (pinned id n manager) (records ++ [record])
    .polling poller := by
  have hb : (UInt16.ofNat n).toNat = n := by
    simpa using hz
  have hs : ∀ c, ∃ batch, start config 0 c (loadTask entry n) = .loading batch ∧
      batch.index = 0 ∧ batch.entries = List.replicate n entry ∧ batch.transfer_items = [] := by
    simp [start, loadTask, hb, Nat.not_lt.2 hl]
  have hp : ∀ c, Gentle (.start config 0 c (loadTask entry n)) := by
    intro c
    obtain ⟨batch, hq, -⟩ := hs c
    rw [hq]
    trivial
  obtain ⟨c, ht⟩ := h.request (ho.allows trivial) _ _ (fun c => ho.allows (hp c))
    (by simp [KvRequestShape, loadTask, hb]) hr
  obtain ⟨batch, hq, hd, hen, his⟩ := hs c
  rw [hq] at ht
  have hld := ht.loads n ho hpi (fun j hj => by simp [hen, hd, hj]) hlo
  obtain ⟨ha, hsa, hk⟩ := loaded_eq entry id batch n
  rw [his, List.map_nil, List.nil_append] at hk
  have hno : ((transfer entry id)^[n] batch).transfer_items ≠ [] := by
    intro hni
    simp [hni, hpo] at hk
  have he : Stands config setup ok (Server.pinned id n manager) records
      (.submittingLoad ((transfer entry id)^[n] batch)) poller := by
    apply hld.work
    · intro shared
      have hn : finishLoad ((transfer entry id)^[n] batch) = .submittingLoad _ :=
        if_neg hno
      rw [← hn]
      exact .loadEnd (by simp [ha, hsa, hd, hen])
    · exact ho.allows trivial
  have hu : Stands config setup ok (Server.pinned id n manager) records
      (.pushing (((transfer entry id)^[n] batch).submitted .load 1)) poller :=
    he.work (fun _ => .loadSubmitted (by decide)) (ho.allows trivial)
  exact ⟨_, by simpa [CompletionRecord.loads, submitted] using hk,
    hu.record (ho.allows trivial) hro⟩

theorem flood {n : Nat} (hp : n ≠ 0) (hs : n < 65536)
    (hsl : getPackedResponseSize .load n ≤ config.flagBufferSlotSizeBytes) (hk : ∀ s t, ok s () t)
    (h : Stands config setup ok manager [] .polling poller) (hr : 1 < setup.requestQueueDepth)
    (hlo : Loadable config manager entry id) (k : Nat) (hro : k < setup.completionQueueDepth) :
    ∃ records, records.length = k ∧ (records.flatMap CompletionRecord.loads).map (·.key) =
    List.replicate (k * n) entry.key ∧ Stands config setup ok (pinned id (k * n) manager)
    records .polling poller := by
  induction k with
  | zero => exact ⟨[], rfl, by simp, by simpa using h⟩
  | succ k ih =>
    obtain ⟨records, hl, hks, hb⟩ := ih (by omega)
    obtain ⟨record, ho, ha⟩ := hb.load hp hs hsl (fun s t _ => hk s t)
      (fun _ _ _ _ s t _ _ _ _ => hk s t) hr (by omega) (hlo.pinned _)
    refine ⟨records ++ [record], by simp [hl], ?_, ?_⟩
    · simp [hks, ho, Nat.succ_mul]
    · rwa [pinned_pinned, ← Nat.succ_mul] at ha

end Stands
end

def oneSlot : ServerConfig where
  metadata := Threads.singleSlot
  flagBufferSlotSizeBytes := 131072
  defaultDumpTtlMs := 0
  pollerPendingDepth := 64

def deepQueues : Setup where
  localAddr _ := 4096
  slots := [(64, 1)]
  flagBufferSlotCount := 64
  flagBufferSlotAlignment := 64
  requestQueueDepth := 1024
  completionQueueDepth := 131072

def onlyEntry : KvTransferEntry where
  key := Vector.replicate 16 1
  addr := 4096
  len := 64

theorem stocked {ok : Server → Unit → Server → Prop} (ho : Lenient ok) :
    ∃ manager record, record.opcode = .dump ∧ record.request_id = 1 ∧
      record.keys = [onlyEntry.key] ∧ record.results = [DumpLoadResult.ok.toByte] ∧ Loadable oneSlot
      manager onlyEntry 0 ∧
      (manager.heap 0).refCnt = 0 ∧ Stands oneSlot deepQueues ok manager [] .polling
        (.settling ⟨[], record, []⟩ .completed []) := by
  have h : Stands oneSlot deepQueues ok _ [] .polling (.filling []) :=
    .init (by decide) (by decide) rfl rfl
  have hk : 0 < kShardCnt := by decide
  obtain ⟨c, h⟩ := h.request (ho.allows (by trivial)) (dumpTask onlyEntry) 0
    (fun _ => ho.allows (by exact List.nodup_singleton _)) rfl (by decide)
  have h := h.work (fun _ => .storeBegin rfl (by dsimp only)) (ho.allows (by trivial))
  have h := h.work (fun _ => .storeAdvance 0 hk (by simp [Call.Unlocked, Call.writes])
    (by dsimp only; rfl))
    (ho.allows (by trivial))
  have h := h.work (fun _ => .storeReturn 0 hk (by simp [Call.Unlocked, Poller.calls])
    (by dsimp only; rfl))
    (ho.allows (by exact List.nodup_singleton _))
  have h := h.work (fun _ => .dumpEnd rfl) (ho.allows (by trivial))
  have h := h.work (fun _ => .dumpSubmitted (show 1 ≠ _ by decide)) (ho.allows (by trivial))
  have h := (h.record (ho.allows (by trivial)) (by decide)).window (ho.allows (by trivial)) (by decide)
  have h := h.poll (fun _ => .dataTerminal rfl (show TransferStatus.completed ≠ _ by decide))
    (ho.allows (by trivial))
  have h := h.poll (fun _ => .storeEnd rfl (by dsimp only; rfl)) (ho.allows (by trivial))
  exact ⟨_, _, rfl, rfl, rfl, rfl, ⟨by rfl, by rfl, by decide⟩, by rfl, h⟩

end Server
end UnifiedCache.DramPool
