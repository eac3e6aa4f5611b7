import UnifiedCache.DramPool.PinAccounting

/-! The books of a running server. What each thread holds is read off its state, and
every step of a thread is one of the changes that keep the books balanced. -/
namespace UnifiedCache.DramPool
open List MetadataManager
open Dram (BlockId OpType)

namespace Call

/-- The stages of the `StoreBegin` of an entry; a rollback has a failure to report. -/
def StoresFor (key : BlockId) (id : EntryId) : Call → Prop
  | .storeBegin k i _ => k = key ∧ i = id
  | .storeEvict k i _ _ => k = key ∧ i = id
  | .storePublish k i => k = key ∧ i = id
  | .storeRollback k i status => k = key ∧ i = id ∧ status.success = false
  | _ => False

def Removes : Call → Prop
  | .deleteFree _ _ => True
  | .deleteUnlink _ _ => True
  | .evict _ _ => True
  | _ => False

variable {cfg : MetadataConfig} {now : TimePoint} {pick : Nat} {m left : MetadataManager}
  {call next : Call} {key : BlockId} {id : EntryId} {status : Status}

theorem StoresFor.running (h : call.StoresFor key id) (ha : call.advance cfg now pick m = (left,
    .running next)) : next.StoresFor key id := by
  cases call with
  | storeBegin =>
    simp only [advance] at ha
    split at ha
    · cases ha
      exact h
    split at ha
    · cases ha
      exact h
    · cases ha
  | storeEvict =>
    simp only [advance] at ha
    split at ha <;> cases ha <;> exact h
  | storePublish k i =>
    simp only [advance] at ha
    split at ha
    · cases ha
    · rename_i hf
      cases ha
      exact ⟨h.1, h.2, by simpa using hf⟩
  | storeRollback => cases ha
  | _ => exact False.elim h

theorem StoresFor.returned (h : call.StoresFor key id)
    (ha : call.advance cfg now pick m = (left, .returned status)) :
    (call = .storePublish key id ∧ status = Status.OK) ∨ status.success = false := by
  cases call with
  | storeBegin =>
    simp only [advance] at ha
    split at ha
    · cases ha
    split at ha
    · cases ha
    · cases ha
      exact .inr rfl
  | storeEvict =>
    simp only [advance] at ha
    split at ha <;> cases ha
  | storePublish k i =>
    obtain ⟨rfl, rfl⟩ := h
    simp only [advance] at ha
    cases hs : m.shardStoreBegin (cfg.shardIdx k) k i with
    | mk st after =>
      rw [hs] at ha
      split at ha
      · rename_i hu
        cases ha
        exact .inl ⟨rfl, (shardStoreBegin_ok hs hu).1⟩
      · cases ha
  | storeRollback =>
    cases ha
    exact .inr h.2.2
  | _ => exact False.elim h

theorem Removes.running (h : call.Removes)
    (ha : call.advance cfg now pick m = (left, .running next)) : next.Removes := by
  cases call with
  | deleteFree =>
    cases ha
    exact h
  | deleteUnlink => cases ha
  | evict _ r =>
    simp only [advance] at ha
    split at ha
    · cases ha
      exact h
    · cases r <;> cases ha
      exact h
  | _ => exact False.elim h

theorem Removes.not_publish (h : call.Removes) (k : BlockId) (i : EntryId) :
    call ≠ .storePublish k i := by
  rintro rfl
  exact h

end Call

namespace CompletionRecord

def dumps (record : CompletionRecord) : List TransferItem :=
  if record.opcode = .dump then record.transfer_items else []

def loads (record : CompletionRecord) : List TransferItem :=
  if record.opcode = .load then record.transfer_items else []

def Drained (record : CompletionRecord) : Prop :=
  record.stage ≠ .pollDataTransfer → record.transfer_items = []

end CompletionRecord

namespace Worker

def dumps : Worker → List TransferItem
  | .dumping _ batch => batch.transfer_items
  | .storing _ batch _ _ _ => batch.transfer_items
  | .submittingDump batch => batch.transfer_items
  | .aborting _ left => left
  | .deleting _ left _ => left
  | .pushing record => record.dumps
  | _ => []

def loads : Worker → List TransferItem
  | .loading batch => batch.transfer_items
  | .pinned batch entry id => ⟨batch.index, entry.key, id⟩ :: batch.transfer_items
  | .submittingLoad batch => batch.transfer_items
  | .releasing _ left => left
  | .pushing record => record.loads
  | _ => []

def Formed : Worker → Prop
  | .storing _ _ entry id call => call.StoresFor entry.key id
  | .deleting _ _ call => call.Removes
  | .pushing record => record.Drained
  | _ => True

end Worker

namespace Cursor

def others (cursor : Cursor) : List CompletionRecord := cursor.done ++ cursor.todo

end Cursor

namespace Poller

def records : Poller → List CompletionRecord
  | .filling pending => pending
  | .filled pending => pending
  | .scanning done todo => done ++ todo
  | .settling cursor _ _ => cursor.others
  | .aborting cursor _ _ _ => cursor.others
  | .deleting cursor _ _ _ _ => cursor.others
  | .responding cursor => cursor.others
  | .exited => []

def dumps (poller : Poller) : List TransferItem :=
  (match poller with
    | .settling cursor _ left => if cursor.record.opcode = .dump then left else []
    | .aborting _ _ item left => item :: left
    | .deleting _ _ _ left _ => left
    | _ => []) ++ poller.records.flatMap CompletionRecord.dumps

def loads (poller : Poller) : List TransferItem :=
  (match poller with
    | .settling cursor _ left => if cursor.record.opcode = .load then left else []
    | _ => []) ++ poller.records.flatMap CompletionRecord.loads

def Formed (poller : Poller) : Prop :=
  (∀ record ∈ poller.records, record.Drained) ∧
    match poller with
    | .aborting cursor _ _ _ => cursor.record.opcode = .dump
    | .deleting cursor _ _ _ call => cursor.record.opcode = .dump ∧ call.Removes
    | .responding cursor => cursor.record.transfer_items = []
    | _ => True

end Poller

namespace Worker
variable {cfg : ServerConfig} {others C : List Call} {D L : List TransferItem}
  {shared after : Shared} {worker next : Worker}

open Books (Balanced)

theorem start_empty (cfg : ServerConfig) (now : TimePoint) (clock : Nat) (task : RequestTask) :
    (start cfg now clock task).calls = [] ∧ (start cfg now clock task).dumps = [] ∧
    (start cfg now clock task).loads = [] ∧ (start cfg now clock task).Formed := by
  unfold start
  split
  · exact ⟨rfl, rfl, rfl, trivial⟩
  · split <;> split <;> exact ⟨rfl, rfl, rfl, trivial⟩

variable {entry : Dram.KvTransferEntry}

theorem items_stored {b : Batch} {id : EntryId} {status : Status} (h : status.success = false) :
    (b.stored entry id status).transfer_items = b.transfer_items := by
  have hf : status.failure = true := by simp [Status.failure, h]
  unfold Batch.stored
  rw [hf]
  split
  · rfl
  · rfl

theorem balanced_stored {m : MetadataManager} {batch : Batch} {id : EntryId} {now : TimePoint}
    {pick : Nat} (h : Balanced cfg.metadata ⟨shared.manager, .storePublish entry.key id :: C,
      batch.transfer_items ++ D, L⟩)
    (ha : (Call.storePublish entry.key id).advance cfg.metadata now pick shared.manager =
      (m, .returned Status.OK)) :
    Balanced cfg.metadata ⟨m, C, (batch.stored entry id Status.OK).transfer_items ++ D, L⟩ := by
  have hp : Balanced cfg.metadata
      ⟨m, C, ⟨batch.index, entry.key, id⟩ :: (batch.transfer_items ++ D), L⟩ :=
    h.publish (List.Perm.refl _) ha
  refine hp.same ⟨rfl, .refl _, ?_, .refl _⟩
  have hs : (batch.stored entry id Status.OK).transfer_items ++ D =
      batch.transfer_items ++ ⟨batch.index, entry.key, id⟩ :: D :=
    append_assoc _ _ _
  rw [hs]
  exact perm_middle.symm

section
variable (hstep : Step cfg others shared worker after next)
include hstep

theorem Step.balanced (hf : worker.Formed)
    (hr : ∀ b entry id, worker = .loading b → next = .pinned b entry id →
      (shared.manager.heap id).refCnt ≠ 0xFFFFFFFF)
    (h : Balanced cfg.metadata ⟨shared.manager, worker.calls ++ C,
      worker.dumps ++ (shared.completionQueue.contents.flatMap CompletionRecord.dumps ++ D),
      worker.loads ++ (shared.completionQueue.contents.flatMap CompletionRecord.loads ++ L)⟩) :
    Balanced cfg.metadata ⟨after.manager, next.calls ++ C,
      next.dumps ++ (after.completionQueue.contents.flatMap CompletionRecord.dumps ++ D),
      next.loads ++ (after.completionQueue.contents.flatMap CompletionRecord.loads ++ L)⟩ := by
  cases hstep with
  | pop now =>
    obtain ⟨hca, hu, hl, -⟩ := start_empty cfg now shared.clock _
    rw [hca, hu, hl]
    exact h
  | stopRead =>
    split <;> exact h
  | storeBegin _ hne =>
    cases hne
    exact h.quiet (quiet_newEntry h.owned) h.owned.newEntry
  | storeAdvance _ _ _ ha =>
    exact h.advance (List.Perm.refl _) ha (by simp)
  | storeReturn _ _ _ ha =>
    rcases hf.returned ha with ⟨rfl, rfl⟩ | hfa
    · exact balanced_stored h ha
    have hk : Balanced cfg.metadata _ := h.advance (List.Perm.refl _) ha (by
      rintro k i rfl he
      cases he
      cases hfa)
    simp only [dumps, items_stored hfa]
    exact hk
  | dumpEnd hen =>
    unfold finishDump
    split
    · rename_i hn
      simp only [dumps, hn] at h
      exact h
    · exact h
  | loadBegin _ ho => exact h.pin ho (hr _ _ _ rfl rfl)
  | loadRefused _ ho =>
    rw [visit_error ho]
    exact h
  | loadTooLong | release => exact h.unpin (List.Perm.refl _) rfl
  | loadItem =>
    refine h.same ⟨rfl, .refl _, .refl _, ?_⟩
    simp only [loads, Batch.transfer, append_assoc]
    exact perm_middle.symm
  | loadEnd hen =>
    unfold finishLoad
    split
    · rename_i hn
      simp only [loads, hn] at h
      exact h
    · exact h
  | exist _ _ hx =>
    split <;> exact h.exist hx
  | delete hd => exact h.delete (List.Perm.refl _) hd
  | deleteRefused hd =>
    rw [h.tryDelete_eq mem_cons_self] at hd
    cases hd
  | deleteAdvance _ _ _ ha | deleteReturn _ _ _ ha =>
    exact h.advance (List.Perm.refl _) ha fun k i he => absurd he (hf.not_publish k i)
  | push hp =>
    have hc := SpscQueue.contents_of_push hp
    refine h.same ⟨rfl, .refl _, ?_, ?_⟩
    · simp only [dumps, hc, flatMap_append, flatMap_cons, flatMap_nil,
        append_nil, nil_append, append_assoc]
      exact perm_append_comm_assoc _ _ _
    · simp only [loads, hc, flatMap_append, flatMap_cons, flatMap_nil,
        append_nil, nil_append, append_assoc]
      exact perm_append_comm_assoc _ _ _
  | _ => exact h

theorem Step.formed (h : worker.Formed) (hq : ∀ record ∈ shared.completionQueue.contents,
    record.Drained) : next.Formed ∧ ∀ record ∈ after.completionQueue.contents, record.Drained := by
  cases hstep with
  | pop now => exact ⟨(start_empty cfg now shared.clock _).2.2.2, hq⟩
  | stopRead =>
    split <;> exact ⟨trivial, hq⟩
  | storeBegin => exact ⟨⟨rfl, rfl⟩, hq⟩
  | storeAdvance _ _ _ ha | deleteAdvance _ _ _ ha => exact ⟨h.running ha, hq⟩
  | dumpEnd =>
    refine ⟨?_, hq⟩
    unfold finishDump
    split
    · exact fun _ => rfl
    · trivial
  | loadEnd =>
    refine ⟨?_, hq⟩
    unfold finishLoad
    split
    · exact fun _ => rfl
    · trivial
  | lookupEnd he | abortEnd | releaseEnd => exact ⟨fun _ => rfl, hq⟩
  | dumpSubmitted hh | loadSubmitted hh => exact ⟨fun hs => absurd rfl hs, hq⟩
  | push hp =>
    refine ⟨trivial, ?_⟩
    rw [SpscQueue.contents_of_push hp]
    intro record hm
    rcases mem_append.1 hm with ho | hn
    · exact hq record ho
    · exact mem_singleton.1 hn ▸ h
  | _ => exact ⟨trivial, hq⟩

end
end Worker

namespace Poller
variable {cfg : ServerConfig} {others C : List Call} {D L : List TransferItem}
  {shared after : Shared} {poller next : Poller}

open Books (Balanced)

section
variable {cursor : Cursor} {terminal : TransferStatus} {left : List TransferItem}

theorem dumps_settling (h : cursor.record.opcode = .dump) : (settling cursor terminal left).dumps =
    left ++ cursor.others.flatMap CompletionRecord.dumps ∧ (settling cursor terminal left).loads =
    cursor.others.flatMap CompletionRecord.loads := by
  simp [dumps, loads, records, h]

theorem loads_settling (h : cursor.record.opcode = .load) : (settling cursor terminal left).dumps =
    cursor.others.flatMap CompletionRecord.dumps ∧ (settling cursor terminal left).loads = left ++
    cursor.others.flatMap CompletionRecord.loads := by
  simp [dumps, loads, records, h]

theorem dumps_cursor {done todo : List CompletionRecord} {record : CompletionRecord} :
    ((done ++ record :: todo).flatMap CompletionRecord.dumps).Perm
      (record.dumps ++ (done ++ todo).flatMap CompletionRecord.dumps) ∧
    ((done ++ record :: todo).flatMap CompletionRecord.loads).Perm
      (record.loads ++ (done ++ todo).flatMap CompletionRecord.loads) := by
  simp only [flatMap_append, flatMap_cons]
  exact ⟨perm_append_comm_assoc _ _ _, perm_append_comm_assoc _ _ _⟩

end

variable {done todo : List CompletionRecord} {record : CompletionRecord}

theorem dumps_drained (h : record.Drained) (hs : record.stage ≠ .pollDataTransfer) :
    ((done ++ record :: todo).flatMap CompletionRecord.dumps).Perm
      ((done ++ todo).flatMap CompletionRecord.dumps) ∧
    ((done ++ record :: todo).flatMap CompletionRecord.loads).Perm
      ((done ++ todo).flatMap CompletionRecord.loads) := by
  simp [CompletionRecord.dumps, CompletionRecord.loads, h hs]

variable {handle : TransferHandle} {bytes : List UInt8} {pool : BufferPool}
  {kept : Option CompletionRecord}

theorem items_submitResponse {left : BufferPool} (h : record.transfer_items = [])
    (hs : submitResponse handle bytes pool record = (left, kept)) :
    kept.toList.flatMap CompletionRecord.dumps = [] ∧
      kept.toList.flatMap CompletionRecord.loads = [] := by
  have his : ∀ r, kept = some r → r.transfer_items = [] := by
    rintro r rfl
    unfold submitResponse at hs
    grind
  cases kept with
  | none => exact ⟨rfl, rfl⟩
  | some r => simp [CompletionRecord.dumps, CompletionRecord.loads, his r rfl]

theorem Step.balanced (hstep : Step cfg others shared poller after next) (hf : poller.Formed)
    (h : Balanced cfg.metadata ⟨shared.manager, poller.calls ++ C,
      poller.dumps ++ (shared.completionQueue.contents.flatMap CompletionRecord.dumps ++ D),
      poller.loads ++ (shared.completionQueue.contents.flatMap CompletionRecord.loads ++ L)⟩) :
    Balanced cfg.metadata ⟨after.manager, next.calls ++ C,
      next.dumps ++ (after.completionQueue.contents.flatMap CompletionRecord.dumps ++ D),
      next.loads ++ (after.completionQueue.contents.flatMap CompletionRecord.loads ++ L)⟩ := by
  cases hstep with
  | fill _ hp =>
    have hc := SpscQueue.contents_of_pop hp
    rw [hc] at h
    simpa [dumps, loads, records, calls] using h
  | fillEmpty | fillFull => exact h
  | stopRead =>
    split
    · rename_i hn
      subst hn
      split <;> exact h
    · exact h
  | dataTerminal =>
    exact h.same ⟨rfl, .refl _, dumps_cursor.1.append_right _, dumps_cursor.2.append_right _⟩
  | storeEnd ho hs =>
    rw [(dumps_settling ho).1, (dumps_settling ho).2] at h
    rw [(dumps_settling _).1, (dumps_settling _).2]
    · exact h.storeEnd (List.Perm.refl _) hs
    all_goals exact ho
  | storeEndRefused ho hs =>
    rw [(dumps_settling ho).1] at h
    rw [h.storeEnd_eq mem_cons_self] at hs
    cases hs
  | abort ho =>
    rw [(dumps_settling ho).1, (dumps_settling ho).2] at h
    exact h
  | delete hd => exact h.delete (List.Perm.refl _) hd
  | deleteRefused hd =>
    rw [h.tryDelete_eq mem_cons_self] at hd
    cases hd
  | deleteAdvance _ _ _ ha =>
    exact h.advance (List.Perm.refl _) ha fun k i he =>
      absurd he (hf.2.2.not_publish k i)
  | deleteReturn _ _ _ ha =>
    rw [(dumps_settling _).1, (dumps_settling _).2]
    · exact h.advance (List.Perm.refl _) ha fun k i he =>
        absurd he (hf.2.2.not_publish k i)
    all_goals exact hf.2.1
  | loadEnd ho hl =>
    rw [(loads_settling ho).1, (loads_settling ho).2] at h
    rw [(loads_settling _).1, (loads_settling _).2]
    · exact h.unpin (List.Perm.refl _) hl
    all_goals exact ho
  | neither ho =>
    simpa [dumps, loads, records, calls, CompletionRecord.setResult, Cursor.others, ho] using h
  | respond hg | responseTerminal hg =>
    have hr := hf.1 _ (mem_append_right _ mem_cons_self)
    exact h.same ⟨rfl, .refl _, (dumps_drained hr (by simp [hg])).1.append_right _,
      (dumps_drained hr (by simp [hg])).2.append_right _⟩
  | submitResponse _ _ hu =>
    have hk := items_submitResponse hf.2 hu
    simpa [dumps, loads, records, calls, Cursor.others, hk.1, hk.2] using h
  | _ => simpa [dumps, loads, records, calls, Cursor.others] using h

theorem forall_others {P : CompletionRecord → Prop} (h : ∀ r ∈ done ++ record :: todo, P r) :
    ∀ r ∈ done ++ todo, P r := by
  intro r hr
  apply h
  simp only [mem_append, mem_cons] at hr ⊢
  tauto

theorem drained_submitResponse {left : BufferPool} (h : record.transfer_items = [])
    (hs : submitResponse handle bytes pool record = (left, kept)) :
    ∀ r ∈ kept.toList, r.Drained := by
  intro r hr _
  rw [Option.mem_toList] at hr
  unfold submitResponse at hs
  grind

theorem Step.keeps {P : CompletionRecord → Prop} (hstep : Step cfg others shared poller after next)
    (hr : ∀ r ∈ poller.records, P r) (hq : ∀ r ∈ shared.completionQueue.contents, P r)
    (hk : ∀ {cursor handle bytes pool left kept}, poller = .responding cursor →
      Poller.submitResponse handle bytes pool cursor.record = (left, kept) → ∀ r ∈ kept.toList, P r) :
    (∀ r ∈ next.records, P r) ∧ ∀ r ∈ after.completionQueue.contents, P r := by
  cases hstep with
  | fill _ hp =>
    rw [SpscQueue.contents_of_pop hp] at hq
    refine ⟨fun record hm => ?_, fun record hm => hq record (mem_cons_of_mem _ hm)⟩
    rcases mem_append.1 hm with ho | hn
    · exact hr record ho
    · exact hq record (mem_singleton.1 hn ▸ mem_cons_self)
  | stopRead =>
    refine ⟨?_, hq⟩
    split
    · split <;> exact fun _ hm => absurd hm not_mem_nil
    · exact hr
  | scanEnd => exact ⟨fun record hm => hr record (mem_append_left _ hm), hq⟩
  | dataWaiting | responseWaiting =>
    refine ⟨?_, hq⟩
    simpa [records] using hr
  | dataTerminal | respond | responseTerminal => exact ⟨forall_others hr, hq⟩
  | submitResponse _ _ hu =>
    have hk := hk rfl hu
    refine ⟨?_, hq⟩
    simp only [records, Cursor.others, mem_append] at hr ⊢
    grind
  | _ => exact ⟨hr, hq⟩

theorem Step.formed (hstep : Step cfg others shared poller after next) (h : poller.Formed)
    (hq : ∀ record ∈ shared.completionQueue.contents, record.Drained) :
    next.Formed ∧ ∀ record ∈ after.completionQueue.contents, record.Drained := by
  obtain ⟨hr, hc⟩ := h
  have hk := hstep.keeps hr hq fun he hu => drained_submitResponse (by subst he; exact hc) hu
  refine ⟨⟨hk.1, ?_⟩, hk.2⟩
  cases hstep with
  | storeEndRefused hp | abort hp => exact hp
  | delete => exact ⟨hc, trivial⟩
  | deleteAdvance _ _ _ ha => exact ⟨hc.1, hc.2.running ha⟩
  | settled => rfl
  | respond hs => exact hr _ (mem_append_right _ mem_cons_self) (by simp [hs])
  | stopRead => split_ifs <;> trivial
  | _ => trivial

end Poller

namespace Server

def dumpItems (s : Server) : List TransferItem :=
  s.worker.dumps ++ (s.shared.completionQueue.contents.flatMap CompletionRecord.dumps ++
    s.poller.dumps)

def loadItems (s : Server) : List TransferItem :=
  s.worker.loads ++ (s.shared.completionQueue.contents.flatMap CompletionRecord.loads ++
    s.poller.loads)

def books (s : Server) : Books where
  manager := s.shared.manager
  calls := s.calls
  dumps := s.dumpItems
  loads := s.loadItems

structure Formed (s : Server) : Prop where
  worker : s.worker.Formed
  poller : s.poller.Formed
  queue : ∀ record ∈ s.shared.completionQueue.contents, record.Drained
  gc : ∀ call ∈ s.gc, call.Removes

def Room (s t : Server) : Prop :=
  ∀ batch entry id, s.worker = .loading batch → t.worker = .pinned batch entry id →
    (s.shared.manager.heap id).refCnt ≠ 0xFFFFFFFF

variable {cfg : ServerConfig} {s t : Server}
open Books (Balanced)

theorem Move.formed (hm : Move cfg s t) (h : s.Formed) : t.Formed := by
  cases hm with
  | worker hstep =>
    obtain ⟨hw, hq⟩ := hstep.formed h.worker h.queue
    exact ⟨hw, h.poller, hq, h.gc⟩
  | poller hstep =>
    obtain ⟨hp, hq⟩ := hstep.formed h.poller h.queue
    exact ⟨h.worker, hp, hq, h.gc⟩
  | gcStart =>
    refine { h with gc := ?_ }
    rintro call ⟨⟩
    trivial
  | gcAdvance now hg hu hpi ha =>
    rename_i call pick ma outcome
    refine { h with gc := ?_ }
    intro next hn
    cases outcome with
    | running running =>
      cases hn
      exact (h.gc call hg).running ha
    | returned => cases hn
  | _ => exact { h with }

theorem calls_perm (calls : List Call) (s : Server) : (s.worker.calls ++ calls ++ s.gc.toList).Perm
    (calls ++ (s.worker.calls ++ s.gc.toList)) := by
  rw [append_assoc]
  exact perm_append_comm_assoc _ _ _

theorem calls_of_gc {call : Call} (hg : s.gc = some call) :
    s.calls.Perm (call :: (s.worker.calls ++ s.poller.calls)) := by
  rw [calls, hg]
  exact perm_append_singleton _ _

@[simp] theorem head?_calls (outcome : Outcome) : outcome.calls.head?.toList = outcome.calls := by
  cases outcome <;> rfl

theorem Move.balanced (hm : Move cfg s t) (hf : s.Formed) (hr : Room s t)
    (h : Balanced cfg.metadata s.books) : Balanced cfg.metadata t.books := by
  cases hm with
  | worker hstep =>
    have hc : s.books.calls.Perm (s.worker.calls ++ (s.poller.calls ++ s.gc.toList)) := by
      rw [← append_assoc]
      exact .refl _
    have hn := hstep.balanced hf.worker hr (h.same ⟨rfl, hc, .refl _, .refl _⟩)
    refine hn.same ⟨rfl, ?_, .refl _, .refl _⟩
    rw [← append_assoc]
    exact .refl _
  | poller hstep =>
    have hs : ∀ (a b c : List TransferItem), (a ++ (b ++ c)).Perm (c ++ (b ++ a)) := by
      intro a b c
      rw [← append_assoc]
      exact perm_append_comm.trans (perm_append_comm.append_left c)
    have hn := hstep.balanced hf.poller (h.same ⟨rfl, calls_perm _ s, hs _ _ _, hs _ _ _⟩)
    exact hn.same ⟨rfl, (calls_perm _ s).symm, hs _ _ _, hs _ _ _⟩
  | gcStart now hg =>
    have hc : s.calls.Perm (s.worker.calls ++ s.poller.calls) := by
      simp [calls, hg]
    have ht : Balanced cfg.metadata ⟨s.shared.manager,
        .evict (Eviction.start cfg.metadata 0 false now s.shared.manager)
          (List.range' 1 (kShardCnt - 1)) :: s.calls, s.dumpItems, s.loadItems⟩ :=
      h.quiet .refl h.owned.start
    refine ht.same ⟨rfl, ?_, .refl _, .refl _⟩
    exact (hc.cons _).trans (perm_append_singleton _ _).symm
  | gcAdvance now hg hu hp ha =>
    rename_i call pick ma outcome
    have hn := h.advance (calls_of_gc hg) ha fun k i he =>
      absurd he ((hf.gc call hg).not_publish k i)
    refine hn.same ⟨rfl, ?_, .refl _, .refl _⟩
    change (outcome.calls ++ _).Perm (_ ++ outcome.calls.head?.toList)
    rw [head?_calls]
    exact perm_append_comm
  | _ => exact h

theorem Init.formed {setup : Setup} (h : Init cfg setup s) : s.Formed := by
  obtain ⟨b, flagBufferPool, _, _, -, -, rfl⟩ := h
  refine ⟨trivial, ⟨?_, trivial⟩, ?_, ?_⟩
  · exact fun _ hm => absurd hm not_mem_nil
  · simp
  · exact fun _ hc => absurd hc (by simp)

theorem Init.balanced {setup : Setup} (h : Init cfg setup s) : Balanced cfg.metadata s.books := by
  obtain ⟨b, flagBufferPool, _, _, hb, -, rfl⟩ := h
  have hc : Balanced cfg.metadata { manager := create cfg.metadata b } :=
    { owned := MetadataManager.Owned.create (BufferManager.Covers.create hb)
      dump := fun _ ht => absurd ht not_mem_nil
      load := fun _ ht => absurd ht not_mem_nil
      once := nodup_nil
      reserved := fun hf => by cases hf
      pins := fun hf => by cases hf }
  refine hc.same ⟨rfl, .refl _, ?_, ?_⟩ <;>
    simp [books, dumpItems, loadItems, Worker.dumps, Worker.loads, Poller.dumps, Poller.loads,
      Poller.records]

end Server
end UnifiedCache.DramPool
