import UnifiedCache.DramPool.Schedules
import UnifiedCache.DramPool.ServerThreads

/-! What the response to a DUMP says about the metadata. The ghosts of the server
tell when a key was last ready and which keys of a request failed to be stored. -/
namespace UnifiedCache.DramPool
open List Dram DumpLoadResult Batch Call

/-- What is known of the results of a DUMP: an `Ok` that is not `pending` belongs to
a key that was `seen` ready, and never to a key that failed. -/
structure Vouched (seen : BlockId → Prop) (keys : List BlockId) (results : List UInt8)
    (pending : Nat → Prop) (failed : List BlockId) : Prop where
  ok : ∀ i key, keys[i]? = some key → results[i]? = some DumpLoadResult.ok.toByte →
    pending i ∨ seen key
  failed : ∀ i key, keys[i]? = some key → key ∈ failed →
    pending i ∨ results[i]? ≠ some DumpLoadResult.ok.toByte

namespace Vouched
variable {seen seen' : BlockId → Prop} {keys failed : List BlockId} {res : List UInt8}
  {pending pending' : Nat → Prop} {index : Nat} {key : BlockId}

section
variable (h : Vouched seen keys res pending failed)
include h

theorem mono (hs : ∀ key, seen key → seen' key) : Vouched seen' keys res pending failed where
  ok i key hk ho := (h.ok i key hk ho).imp_right (hs key)
  failed := h.failed

theorem pending_congr (hp : ∀ i < keys.length, pending i → pending' i) :
    Vouched seen keys res pending' failed where
  ok i key hk ho := (h.ok i key hk ho).imp_left (hp i (List.getElem?_eq_some_iff.1 hk).1)
  failed i key hk hf := (h.failed i key hk hf).imp_left (hp i (List.getElem?_eq_some_iff.1 hk).1)

theorem setFailed (hp : ∀ i, pending i → i = index ∨ pending' i) :
    Vouched seen keys (res.set index DumpLoadResult.failed.toByte) pending' failed := by
  constructor <;> intro i key hk
  · intro hok
    by_cases hi : i = index
    · subst hi
      simp [getElem?_set, DumpLoadResult.toByte] at hok
    rw [getElem?_set_ne (Ne.symm hi)] at hok
    have ho := h.ok i key hk hok
    have hn := hp i
    tauto
  · intro hf
    by_cases hi : i = index
    · subst hi
      simp [getElem?_set, DumpLoadResult.toByte]
    rw [getElem?_set_ne (Ne.symm hi)]
    have ho := h.failed i key hk hf
    have hn := hp i
    tauto

end

theorem setOk (h : Vouched seen keys res pending []) (hp : ∀ i, pending i → i = index ∨ pending' i)
    (hs : ∀ key, keys[index]? = some key → seen key) : Vouched seen keys
    (res.set index DumpLoadResult.ok.toByte) pending' [] := by
  constructor <;> intro i key hk
  · intro hok
    by_cases hi : i = index
    · subst hi
      exact .inr (hs key hk)
    rw [getElem?_set_ne (Ne.symm hi)] at hok
    have ho := h.ok i key hk hok
    have hn := hp i
    tauto
  · simp

theorem fail (h : Vouched seen keys res pending failed) (hn : keys.Nodup)
    (hd : keys[index]? = some key) (hp : pending index) :
    Vouched seen keys res pending (key :: failed) where
  ok := h.ok
  failed i o hk hf := by
    rcases mem_cons.1 hf with rfl | ho
    · obtain ⟨hi, hke⟩ := List.getElem?_eq_some_iff.1 hk
      obtain ⟨hj, he⟩ := List.getElem?_eq_some_iff.1 hd
      have hq : i = index := (hn.getElem_inj_iff).1 (hke.trans he.symm)
      exact .inl (hq ▸ hp)
    · exact h.failed i o hk ho

end Vouched

namespace Shared

/-- The map held a ready entry for the key at a time that is not before `begun`. -/
def Seen (shared : Shared) (begun : Nat) (key : BlockId) : Prop :=
  ∃ time, shared.lastReady key = some time ∧ begun ≤ time

structure Clocked (config : ServerConfig) (shared : Shared) : Prop where
  ready : ∀ key, Server.ReadyKey config shared.manager key → shared.lastReady key = some shared.clock
  past : ∀ key time, shared.lastReady key = some time → time ≤ shared.clock

variable {cfg : ServerConfig} {shared after now : Shared} {begun : Nat} {key : BlockId}

section
variable (h : Clocked cfg shared)
include h

theorem Clocked.seen (hr : Server.ReadyKey cfg shared.manager key)
    (hb : begun ≤ shared.clock) : shared.Seen begun key :=
  ⟨shared.clock, h.ready key hr, hb⟩

theorem Clocked.observe (hc : after.clock = shared.clock) (hl : after.lastReady = shared.lastReady)
    : Clocked cfg (Server.observe cfg after) := by
  constructor
  · intro key hr
    exact if_pos hr
  intro key ti ht
  simp only [Server.observe, hc, hl] at ht ⊢
  split at ht
  · simp_all
  · have hp := h.past key ti ht
    omega

theorem Seen.observe (hc : after.clock = shared.clock) (hl : after.lastReady = shared.lastReady)
    (hs : shared.Seen begun key) : (Server.observe cfg after).Seen begun key := by
  obtain ⟨ti, ht, hb⟩ := hs
  have hp := h.past key ti ht
  unfold Seen
  simp only [Server.observe, hc, hl]
  split
  · exact ⟨_, rfl, by omega⟩
  · exact ⟨ti, ht, hb⟩

end
end Shared

structure Batch.Vouched (shared : Shared) (batch : Batch) : Prop where
  begun : batch.begun ≤ shared.clock
  nodup : batch.keys.Nodup
  items : ∀ item ∈ batch.transfer_items, batch.keys[item.index_in_request]? = some item.key
  results : DramPool.Vouched (shared.Seen batch.begun) batch.keys batch.results
    (fun i => i ∈ batch.transfer_items.map (·.index_in_request) ∨ batch.index ≤ i) []

structure CompletionRecord.Vouched (shared : Shared) (left : List TransferItem)
    (record : CompletionRecord) : Prop where
  begun : record.begun ≤ shared.clock
  nodup : record.keys.Nodup
  items : ∀ item ∈ left, record.keys[item.index_in_request]? = some item.key
  results : DramPool.Vouched (shared.Seen record.begun) record.keys record.results
    (· ∈ left.map (·.index_in_request)) record.failed

def CompletionRecord.Honest (shared : Shared) (record : CompletionRecord) : Prop :=
  record.opcode = .dump → record.Vouched shared record.transfer_items ∧
    (record.stage = .pollDataTransfer → record.failed = [])

namespace Batch.Vouched
variable {shared : Shared} {batch : Batch} {entry : KvTransferEntry} {id : EntryId} {status : Status}

theorem keys_getElem? (he : batch.entries[batch.index]? = some entry) :
    batch.keys[batch.index]? = some entry.key := by
  simp [keys, he]

section
variable (h : batch.Vouched shared)
include h

theorem stored (he : batch.entries[batch.index]? = some entry)
    (hs : status.same Status.DuplicateKey = true → shared.Seen batch.begun entry.key) :
    (batch.stored entry id status).Vouched shared := by
  unfold Batch.stored
  split
  · -- an entry that was there counts as stored
    rename_i hd
    refine { h with results := ?_ }
    apply h.results.setOk
    · rintro i (ht | hl)
      · exact .inr (.inl ht)
      · exact (Nat.eq_or_lt_of_le hl).imp Eq.symm .inr
    intro key hk
    rw [keys_getElem? he] at hk
    cases hk
    exact hs hd
  split
  · refine { h with results := ?_ }
    constructor
    · intro i key hk hok
      by_cases hi : batch.index ≤ i
      · simp [Batch.failRemaining, hi, DumpLoadResult.toByte] at hok
      · simp only [Batch.failRemaining, getElem?_mapIdx, if_neg hi, Option.map_id'] at hok
        have ho := h.results.ok i key hk hok
        tauto
    · simp
  refine ⟨h.begun, h.nodup, ?_, ?_⟩
  · intro item ht
    simp only [Batch.transfer, mem_append, mem_singleton] at ht
    rcases ht with ho | rfl
    · exact h.items item ho
    · exact keys_getElem? he
  apply h.results.pending_congr
  rintro i - (ht | hl)
  · simp [Batch.transfer, ht]
  · rcases Nat.eq_or_lt_of_le hl with rfl | hlt
    · simp [Batch.transfer]
    · exact .inr hlt

section
variable (hend : batch.entries.length ≤ batch.index)
include hend

theorem looped : DramPool.Vouched (shared.Seen batch.begun) batch.keys batch.results
      (· ∈ batch.transfer_items.map (·.index_in_request)) [] := by
  apply h.results.pending_congr
  intro i hi hp
  have hl : batch.keys.length = batch.entries.length := by simp [keys]
  exact hp.resolve_right (by omega)

theorem submitted (handle : TransferHandle) : (batch.submitted .dump handle).Honest shared :=
  fun _ => ⟨{ h with results := h.looped hend }, fun _ => rfl⟩

theorem response (hs : batch.transfer_items = []) :
    (batch.response .dump batch.results []).Honest shared := by
  have hl := h.looped hend
  rw [hs] at hl
  exact fun _ => ⟨⟨h.begun, h.nodup, by simp [Batch.response], hl⟩, fun _ => rfl⟩

end
end

theorem failItems_aux {seen : BlockId → Prop} {keys failed all : List BlockId} (hn : keys.Nodup)
    (ite : List TransferItem) (results : List UInt8)
    (hs : ∀ item ∈ ite, keys[item.index_in_request]? = some item.key)
    (ha : ∀ key ∈ all, key ∈ ite.map (·.key) ∨ key ∈ failed)
    (h : DramPool.Vouched seen keys results (· ∈ ite.map (·.index_in_request)) failed) :
    DramPool.Vouched seen keys (ite.foldl (fun results item =>
        results.set item.index_in_request DumpLoadResult.failed.toByte) results)
      (fun _ => False) all := by
  induction ite generalizing results failed with
  | nil =>
    refine ⟨by simpa using h.ok, fun i key hk hm => ?_⟩
    have ho := h.failed i key hk ((ha key hm).resolve_left not_mem_nil)
    simpa using ho
  | cons item _ ih =>
    have hf := h.fail hn (hs item mem_cons_self) (by simp)
    refine ih _ ?_ ?_ (hf.setFailed fun i hi => mem_cons.1 hi)
    · exact fun o ht => hs o (mem_cons_of_mem _ ht)
    intro key hk
    have ho := ha key hk
    simp only [map_cons, mem_cons] at ho ⊢
    tauto

theorem aborted (h : batch.Vouched shared) (hend : batch.entries.length ≤ batch.index) :
    (batch.response .dump batch.failItems (batch.transfer_items.map (·.key))).Honest shared := by
  have hf := failItems_aux h.nodup _ _ h.items (fun _ => .inl) (h.looped hend)
  refine fun _ => ⟨⟨h.begun, h.nodup, by simp [Batch.response], ?_⟩, nofun⟩
  exact hf.pending_congr fun _ _ => False.elim

end Batch.Vouched

/-- A `StoreBegin` that is about to report that the key was there. -/
def Call.Duplicate : Call → Prop
  | .storeRollback _ _ status => status.same Status.DuplicateKey = true
  | _ => False

namespace Worker

def Honest (shared : Shared) : Worker → Prop
  | .dumping _ batch => batch.Vouched shared
  | .storing _ batch entry _ call => batch.Vouched shared ∧
      batch.entries[batch.index]? = some entry ∧
      (call.Duplicate → shared.Seen batch.begun entry.key)
  | .submittingDump batch => batch.Vouched shared ∧ batch.entries.length ≤ batch.index
  | .aborting batch _ => batch.Vouched shared ∧ batch.entries.length ≤ batch.index
  | .deleting batch _ _ => batch.Vouched shared ∧ batch.entries.length ≤ batch.index
  | .pushing record => record.Honest shared
  | _ => True

variable {cfg : ServerConfig} {others : List Call} {shared after now : Shared}
  {worker next : Worker}

theorem honest_start (time : TimePoint) (task : RequestTask) (hc : shared.clock ≤ now.clock)
    (hn : ∀ l batch, start cfg time shared.clock task = .dumping l batch → batch.keys.Nodup) :
    (start cfg time shared.clock task).Honest now := by
  generalize hs : start cfg time shared.clock task = next at hn ⊢
  unfold start at hs
  split at hs
  · subst hs
    trivial
  · split at hs <;> split at hs <;> subst hs <;> try trivial
    exact ⟨hc, hn _ _ rfl, by simp, fun _ _ _ _ => .inl (by simp), by simp⟩

section
variable {m left : MetadataManager} {now : TimePoint} {pick : Nat} {key : BlockId} {id : EntryId}
  {status : Status} {call next : Call}

theorem find_of_duplicate {k : BlockId} {i : EntryId}
    (hn : ∀ shard, MetadataManager.Indexed (m.shards shard))
    (h : (storePublish key id).advance cfg.metadata now pick m =
      (left, .running (.storeRollback k i status))) (hs : status.same Status.DuplicateKey = true) :
    ∃ found, m.find cfg.metadata key = some found := by
  cases hf : m.find cfg.metadata key with
  | some found => exact ⟨found, rfl⟩
  | none =>
    unfold MetadataManager.find at hf
    have hp := (hn (cfg.metadata.shardIdx key)).periodic key
    have hd := (hn (cfg.metadata.shardIdx key)).deep key
    rw [hf] at hp hd
    simp only [advance, MetadataManager.shardStoreBegin, hf,
      EvictionPolicy.addKey_of_none hp, EvictionPolicy.addKey_of_none hd] at h
    split at h
    · cases h
      cases hs
    · cases h

theorem duplicate_running (hc : call.StoresFor key id)
    (h : call.advance cfg.metadata now pick m = (left, .running next))
    (hd : next.Duplicate) : ∃ status, call = .storePublish key id ∧
      next = .storeRollback key id status ∧ status.same Status.DuplicateKey = true := by
  cases call with
  | storeBegin =>
    simp only [advance] at h
    split at h
    · cases h
      exact hd.elim
    · split at h <;> cases h
      exact hd.elim
  | storeEvict =>
    simp only [advance] at h
    split at h <;> cases h <;> exact hd.elim
  | storePublish =>
    obtain ⟨rfl, rfl⟩ := hc
    simp only [advance] at h
    split at h <;> cases h
    exact ⟨_, rfl, rfl, hd⟩
  | storeRollback => cases h
  | _ => exact hc.elim

theorem duplicate_returned (hc : call.StoresFor key id)
    (h : call.advance cfg.metadata now pick m = (left, .returned status))
    (hs : status.same Status.DuplicateKey = true) : call.Duplicate := by
  cases call with
  | storeBegin =>
    simp only [advance] at h
    split at h
    · cases h
    split at h
    · cases h
    · cases h
      exact absurd hs (by decide)
  | storeEvict =>
    simp only [advance] at h
    split at h <;> cases h
  | storePublish =>
    obtain ho | hf := hc.returned h
    · rw [ho.2] at hs
      exact absurd hs (by decide)
    simp only [advance] at h
    split at h
    · cases h
      simp_all
    · cases h
  | storeRollback =>
    cases h
    exact hs
  | _ => exact hc.elim

end

section
variable (hstep : Step cfg others shared worker after next)
include hstep

theorem Step.ghosts : after.clock = shared.clock ∧ after.lastReady = shared.lastReady := by
  cases hstep <;> exact ⟨rfl, rfl⟩

theorem Step.honest (hw : worker.Honest now) (hfo : worker.Formed) (hc : shared.clock ≤ now.clock)
    (hn : ∀ sh, MetadataManager.Indexed (shared.manager.shards sh))
    (hd : ∀ l batch, worker = .polling → next = .dumping l batch → batch.keys.Nodup)
    (hr : ∀ l batch entry id status,
      worker = .storing l batch entry id (.storePublish entry.key id) →
      next = .storing l batch entry id (.storeRollback entry.key id status) → ∀ f,
      shared.manager.find cfg.metadata entry.key = some f → now.Seen batch.begun entry.key)
    (hq : ∀ record ∈ shared.completionQueue.contents, record.Honest now) : next.Honest now ∧
    ∀ record ∈ after.completionQueue.contents, record.Honest now := by
  cases hstep with
  | pop ti =>
    exact ⟨honest_start ti _ hc fun l batch heq => hd l batch rfl heq, hq⟩
  | stopRead => split <;> exact ⟨trivial, hq⟩
  | storeBegin he => exact ⟨⟨hw, he, False.elim⟩, hq⟩
  | storeAdvance _ _ _ ha =>
    obtain ⟨hb, he, _⟩ := hw
    refine ⟨⟨hb, he, ?_⟩, hq⟩
    intro hu
    obtain ⟨status, rfl, rfl, hs⟩ := duplicate_running hfo ha hu
    obtain ⟨f, hf⟩ := find_of_duplicate hn ha hs
    exact hr _ _ _ _ status rfl rfl f hf
  | storeReturn _ _ _ ha =>
    obtain ⟨hb, he, hsn⟩ := hw
    exact ⟨hb.stored he fun hs => hsn (duplicate_returned hfo ha hs), hq⟩
  | dumpEnd he =>
    refine ⟨?_, hq⟩
    have hend := getElem?_eq_none_iff.1 he
    unfold finishDump
    split
    · exact Batch.Vouched.response hw hend ‹_›
    · exact ⟨hw, hend⟩
  | loadEnd =>
    refine ⟨?_, hq⟩
    unfold finishLoad
    split
    · exact nofun
    · trivial
  | lookupEnd | loadSubmitted | releaseEnd => exact ⟨nofun, hq⟩
  | dumpSubmitted => exact ⟨hw.1.submitted hw.2 _, hq⟩
  | dumpFailed | delete | deleteRefused | deleteAdvance | deleteReturn => exact ⟨hw, hq⟩
  | abortEnd => exact ⟨hw.1.aborted hw.2, hq⟩
  | push hp =>
    refine ⟨trivial, ?_⟩
    rw [SpscQueue.contents_of_push hp]
    intro record hm
    rcases mem_append.1 hm with ho | hne
    · exact hq record ho
    · exact mem_singleton.1 hne ▸ hw
  | _ => exact ⟨trivial, hq⟩

end
end Worker

namespace CompletionRecord.Vouched
variable {now : Shared} {record : CompletionRecord} {item : TransferItem} {left : List TransferItem}

section
variable (h : record.Vouched now (item :: left))
include h

theorem failing : { record with failed := item.key :: record.failed }.Vouched now (item :: left) :=
  { h with results := h.results.fail h.nodup (h.items item mem_cons_self) (by simp) }

theorem setFailed : (record.setResult item.index_in_request .failed).Vouched now left :=
  ⟨h.begun, h.nodup, fun o ho => h.items o (mem_cons_of_mem _ ho),
    h.results.setFailed fun _ hi => mem_cons.1 hi⟩

theorem setOk (hf : record.failed = []) (hs : now.Seen record.begun item.key) :
    (record.setResult item.index_in_request .ok).Vouched now left := by
  refine ⟨h.begun, h.nodup, fun o ho => h.items o (mem_cons_of_mem _ ho), ?_⟩
  have hr := h.results
  rw [hf] at hr
  simp only [setResult, hf]
  apply hr.setOk fun _ hi => mem_cons.1 hi
  intro key hk
  rw [h.items item mem_cons_self] at hk
  cases hk
  exact hs

end
end CompletionRecord.Vouched

namespace Poller

def Honest (shared : Shared) (poller : Poller) : Prop :=
  (∀ record ∈ poller.records, record.Honest shared) ∧
    match poller with
    | .settling cursor terminal left => cursor.record.opcode = .dump →
        cursor.record.Vouched shared left ∧ (terminal = .completed → cursor.record.failed = [])
    | .aborting cursor terminal item left => cursor.record.opcode = .dump →
        cursor.record.Vouched shared (item :: left) ∧
          (terminal = .completed → cursor.record.failed = [])
    | .deleting cursor terminal item left _ => cursor.record.opcode = .dump →
        cursor.record.Vouched shared (item :: left) ∧
          (terminal = .completed → cursor.record.failed = [])
    | .responding cursor => cursor.record.stage = .submitResponse ∧
        (cursor.record.opcode = .dump → cursor.record.Vouched shared [])
    | _ => True

variable {cfg : ServerConfig} {others : List Call} {shared after now : Shared}
  {poller next : Poller}

theorem Step.ghosts (hstep : Step cfg others shared poller after next) :
    after.clock = shared.clock ∧ after.lastReady = shared.lastReady := by
  cases hstep <;> exact ⟨rfl, rfl⟩

theorem readyKey_storeEnd {m left : MetadataManager} {key : BlockId} {id : EntryId}
    (h : m.storeEnd cfg.metadata key = (.ok id, left)) : Server.ReadyKey cfg left key := by
  obtain ⟨hf, entry, hm, rfl⟩ := MetadataManager.visit_ok h
  obtain ⟨-, rfl⟩ := Entry.tryMarkReady_eq_some.1 hm
  exact ⟨id, hf, by simp⟩

theorem honest_submitResponse {handle : TransferHandle} {bytes : List UInt8}
    {pool left : BufferPool}
    {record : CompletionRecord} {kept : Option CompletionRecord} (hs : record.transfer_items = [])
    (hg : record.stage = .submitResponse) (h : record.opcode = .dump → record.Vouched now [])
    (hu : submitResponse handle bytes pool record = (left, kept)) : ∀ r ∈ kept.toList, r.Honest
    now := by
  intro r hr hp
  rw [Option.mem_toList] at hr
  have hk : r = record ∨ r.results = [] ∧ r.stage = .pollResponseTransfer ∧
      r.begun = record.begun ∧ r.keys = record.keys ∧ r.transfer_items = record.transfer_items ∧
      r.opcode = record.opcode := by
    unfold submitResponse at hu
    grind
  rcases hk with rfl | ⟨he, hn, hb, hks, ha, ho⟩
  · rw [hs]
    exact ⟨h hp, by simp [hg]⟩
  have hv := h (ho ▸ hp)
  rw [ha, hs]
  refine ⟨⟨hb ▸ hv.begun, hks ▸ hv.nodup, by simp, ?_⟩, by simp [hn]⟩
  constructor <;> simp [he]

theorem Step.honest (hstep : Step cfg others shared poller after next) (h : poller.Honest now)
    (hf : poller.Formed) (hl : now.Clocked cfg) (hma : now.manager = after.manager)
    (hq : ∀ record ∈ shared.completionQueue.contents, record.Honest now) :
    next.Honest now ∧ ∀ record ∈ after.completionQueue.contents, record.Honest now := by
  obtain ⟨hr, hc⟩ := h
  have hk := hstep.keeps hr hq fun he hu => by
    subst he
    exact honest_submitResponse hf.2 hc.1 hc.2 hu
  refine ⟨⟨hk.1, ?_⟩, hk.2⟩
  cases hstep with
  | stopRead => split_ifs <;> trivial
  | dataTerminal hs =>
    have hrc := hr _ (mem_append_right _ mem_cons_self)
    exact fun hop => ⟨(hrc hop).1, fun _ => (hrc hop).2 hs⟩
  | storeEnd hp ht =>
    obtain ⟨hv, ha⟩ := hc hp
    refine fun _ => ⟨hv.setOk (ha rfl) ?_, ha⟩
    apply hl.seen _ hv.begun
    rw [hma]
    exact readyKey_storeEnd ht
  | abort hp he => exact fun _ => ⟨(hc hp).1.failing, fun hco => absurd hco he⟩
  | deleteRefused | deleteReturn => exact fun hop => ⟨(hc hop).1.setFailed, (hc hop).2⟩
  | loadEnd hp | neither hp => exact fun hop => nomatch hp.symm.trans hop
  | settled =>
    refine ⟨rfl, fun hop => ?_⟩
    obtain ⟨hv, -⟩ := hc hop
    exact { hv with }
  | respond hs =>
    refine ⟨hs, fun hop => ?_⟩
    have hv := (hr _ (mem_append_right _ mem_cons_self) hop).1
    rw [hf.1 _ (mem_append_right _ mem_cons_self) (by simp [hs])] at hv
    exact hv
  | storeEndRefused | delete | deleteAdvance => exact hc
  | _ => trivial

end Poller

namespace Server
variable {config : ServerConfig} {setup : Setup} {s t : Server}

structure Honest (config : ServerConfig) (s : Server) : Prop where
  clocked : s.shared.Clocked config
  worker : s.worker.Honest s.shared
  poller : s.poller.Honest s.shared
  queue : ∀ record ∈ s.shared.completionQueue.contents, record.Honest s.shared

/-- The requests name each key once, and a key that a `StoreBegin` finds in the map
has a ready entry. -/
def Clean (config : ServerConfig) (s t : Server) : Prop :=
  (∀ life batch, s.worker = .polling → t.worker = .dumping life batch → batch.keys.Nodup) ∧
  ∀ life batch entry id status,
    s.worker = .storing life batch entry id (.storePublish entry.key id) →
    t.worker = .storing life batch entry id (.storeRollback entry.key id status) →
    ∀ found, s.shared.manager.find config.metadata entry.key = some found →
      (s.shared.manager.heap found).status = .ready

section
variable {shared after : Shared}

structure Later (shared after : Shared) : Prop where
  clock : shared.clock ≤ after.clock
  seen : ∀ begun key, shared.Seen begun key → after.Seen begun key

section
variable (h : Later shared after)
include h

theorem Later.batch {batch : Batch} (hb : batch.Vouched shared) : batch.Vouched after :=
  ⟨hb.begun.trans h.clock, hb.nodup, hb.items, hb.results.mono (h.seen _)⟩

theorem Later.vouched {record : CompletionRecord} {left : List TransferItem}
    (hr : record.Vouched shared left) : record.Vouched after left :=
  ⟨hr.begun.trans h.clock, hr.nodup, hr.items, hr.results.mono (h.seen _)⟩

theorem Later.record {record : CompletionRecord} (hr : record.Honest shared) :
    record.Honest after :=
  fun ho => ⟨h.vouched (hr ho).1, (hr ho).2⟩

theorem Later.worker {worker : Worker} (hw : worker.Honest shared) : worker.Honest after := by
  cases worker with
  | dumping _ batch => exact h.batch hw
  | storing _ batch =>
    exact ⟨h.batch hw.1, hw.2.1, fun hd => h.seen _ _ (hw.2.2 hd)⟩
  | submittingDump batch | aborting batch | deleting batch => exact ⟨h.batch hw.1, hw.2⟩
  | pushing record => exact h.record hw
  | _ => trivial

theorem Later.poller {poller : Poller} (hp : poller.Honest shared) : poller.Honest after := by
  obtain ⟨hr, hc⟩ := hp
  refine ⟨fun record hm => h.record (hr record hm), ?_⟩
  cases poller with
  | settling | aborting | deleting =>
    exact fun ho => ⟨h.vouched (hc ho).1, (hc ho).2⟩
  | responding c => exact ⟨hc.1, fun ho => h.vouched (hc.2 ho)⟩
  | _ => trivial

end
end

theorem Move.ghosts (hm : Move config s t) :
    t.shared.clock = s.shared.clock ∧ t.shared.lastReady = s.shared.lastReady := by
  cases hm with
  | worker hstep | poller hstep => exact hstep.ghosts
  | _ => exact ⟨rfl, rfl⟩

theorem Move.honest (hv : Move config s t) (hcl : Clean config s t) (hfo : s.Formed)
    (hac : Threads.Accounted config.metadata ⟨s.shared.manager, s.calls⟩) (h : s.Honest config) :
    Honest config { t with shared := observe config t.shared } := by
  obtain ⟨ho, ha⟩ := hv.ghosts
  have hl : Later s.shared (observe config t.shared) :=
    ⟨by simp [observe, ho], fun _ _ => Shared.Seen.observe h.clocked ho ha⟩
  have hc := h.clocked.observe ho ha
  have hq : ∀ record ∈ s.shared.completionQueue.contents, record.Honest (observe config t.shared) :=
    fun record hm => hl.record (h.queue record hm)
  have hd : ∀ l batch entry id status,
      s.worker = .storing l batch entry id (.storePublish entry.key id) →
      t.worker = .storing l batch entry id (.storeRollback entry.key id status) →
      ∀ f, s.shared.manager.find config.metadata entry.key = some f →
        (observe config t.shared).Seen batch.begun entry.key := by
    intro l batch entry id status hs ht f hf
    have hst := hcl.2 l batch entry id status hs ht f hf
    have hw := h.worker
    rw [hs] at hw
    exact hl.seen _ _ (h.clocked.seen ⟨f, hf, hst⟩ hw.1.begun)
  cases hv with
  | worker hstep =>
    obtain ⟨hw, hr⟩ := hstep.honest (hl.worker h.worker) hfo.worker hl.clock hac.indexed hcl.1 hd hq
    exact ⟨hc, hw, hl.poller h.poller, hr⟩
  | poller hstep =>
    obtain ⟨hp, hr⟩ :=
      hstep.honest (hl.poller h.poller) hfo.poller hc rfl hq
    exact ⟨hc, hl.worker h.worker, hp, hr⟩
  | _ => exact ⟨hc, hl.worker h.worker, hl.poller h.poller, hq⟩

theorem reachable_honest
    (h : Transition.Reachable ((system config setup).restrict fun s _ t => Clean config s t) s) :
    Honest config s := by
  apply h.invariant (I := Honest config)
  · rintro s ⟨b, flagBufferPool, _, _, -, -, rfl⟩
    refine ⟨⟨?_, by simp⟩, trivial, ⟨by simp [Poller.records], trivial⟩, by simp⟩
    rintro key ⟨id, hf, -⟩
    cases hf
  · rintro s _ _ hs hh ⟨⟨u, hm, rfl⟩, hc⟩
    exact hm.honest hc (reachable_formed hs.of_restrict) (reachable_accounted hs.of_restrict) hh

/-- In every run in which the requests name each key once and `StoreBegin` finds only
ready entries: when the response to a DUMP is packed, an `Ok` belongs to a key that was ready
at some time since the request was taken, and to none whose transfer failed. -/
theorem dump_honest
    (h : Transition.Reachable ((system config setup).restrict fun s _ t => Clean config s t) s)
    {cursor : Cursor} (hresponse : s.poller = .responding cursor)
    (hdump : cursor.record.opcode = .dump) {i : Nat} {key : BlockId}
    (hkey : cursor.record.keys[i]? = some key)
    (hok : cursor.record.results[i]? = some DumpLoadResult.ok.toByte) :
    s.shared.Seen cursor.record.begun key ∧ key ∉ cursor.record.failed := by
  have hp := (reachable_honest h).poller
  rw [hresponse] at hp
  have hv := (hp.2.2 hdump).results
  constructor
  · simpa using hv.ok i key hkey hok
  · intro hf
    simpa [hok] using hv.failed i key hkey hf

/-- The DUMP of one entry, when its response is due. -/
theorem dump_honest_stored : ∃ s,
    Transition.Reachable ((system oneSlot deepQueues).restrict fun s _ t => Clean oneSlot s t) s ∧
      ∃ cursor, s.poller = .responding cursor ∧ cursor.record.opcode = .dump ∧
        cursor.record.keys = [onlyEntry.key] ∧
        cursor.record.results = [DumpLoadResult.ok.toByte] ∧
        s.shared.Seen cursor.record.begun onlyEntry.key ∧ onlyEntry.key ∉ cursor.record.failed := by
  have ho : Lenient fun s _ t => Clean oneSlot s t := by
    intro s t hg
    constructor
    · intro life batch _ ht
      rw [ht] at hg
      exact hg
    · intro life batch entry id status _ ht
      rw [ht] at hg
      exact hg.elim
  obtain ⟨manager, record, hp, -, hk, he, -, -, hs⟩ := stocked ho
  have hse := hs.poll (fun _ => .settled) (ho.allows trivial)
  obtain ⟨shared, -, -, -, -, -, -, -, hr⟩ := hse
  refine ⟨_, hr, _, rfl, hp, hk, he, ?_⟩
  exact dump_honest hr rfl hp (i := 0) (by simp [CompletionRecord.settled, hk])
    (by simp [CompletionRecord.settled, he])

def twiceTask (entry : KvTransferEntry) : RequestTask where
  request := .dump { opcode := .dump, batch_size := 2, entries := [entry, entry] }
  peer_one_sided_id := "client"

theorem never_seen {key : BlockId} (h : Transition.Reachable ((system config setup).restrict
      fun _ _ t => ¬ ReadyKey config t.shared.manager key) s) : s.shared.lastReady key = none := by
  apply h.invariant (I := fun s => s.shared.lastReady key = none)
  · rintro s ⟨b, flagBufferPool, _, _, -, -, rfl⟩
    rfl
  · rintro s _ _ - hs ⟨⟨u, hm, rfl⟩, _⟩
    have hl := hm.ghosts.2
    simp_all [observe]

def twoSlots : Setup := { deepQueues with slots := [(64, 2)] }

/-- One request names a key twice and its transfer fails: the second entry is `Ok`,
although the key never was ready. -/
theorem duplicate_ok : ∃ s, Transition.Reachable (system oneSlot twoSlots) s ∧
    ∃ cursor, s.poller = .responding cursor ∧ cursor.record.opcode = .dump ∧
      cursor.record.keys = [onlyEntry.key, onlyEntry.key] ∧
      cursor.record.results = [DumpLoadResult.failed.toByte, DumpLoadResult.ok.toByte] ∧
      onlyEntry.key ∈ cursor.record.failed ∧ s.shared.lastReady onlyEntry.key = none := by
  let ok : Server → Unit → Server → Prop :=
    fun _ _ t => ¬ ReadyKey oneSlot t.shared.manager onlyEntry.key
  have ho : ∀ {worker next manager left}, ¬ ReadyKey oneSlot left onlyEntry.key →
      Allows ok worker next manager left := by
    rintro _ _ _ _ hn _ _ _ _ _ rfl
    exact hn
  have h : Stands oneSlot twoSlots ok _ [] .polling (.filling []) :=
    .init (by decide) (by decide) rfl rfl
  have hk : 0 < kShardCnt := by decide
  obtain ⟨c, h⟩ := h.request (ho (by decide +kernel)) (twiceTask onlyEntry) 0
    (fun _ => ho (by decide +kernel)) rfl (by decide)
  -- the first entry is stored
  have h := h.work (fun _ => .storeBegin rfl (by dsimp only)) (ho (by decide +kernel))
  have h := h.work (fun _ => .storeAdvance 0 hk (by simp [Call.Unlocked, Call.writes])
    (by dsimp only; rfl)) (ho (by decide +kernel))
  have h := h.work (fun _ => .storeReturn 0 hk (by simp [Call.Unlocked, Poller.calls])
    (by dsimp only; rfl)) (ho (by decide +kernel))
  -- the second one is a duplicate
  have h := h.work (fun _ => .storeBegin rfl (by dsimp only)) (ho (by decide +kernel))
  have h := h.work (fun _ => .storeAdvance 0 hk (by simp [Call.Unlocked, Call.writes])
    (by dsimp only; rfl)) (ho (by decide +kernel))
  have h := h.work (fun _ => .storeAdvance 0 hk (by simp [Call.Unlocked, Poller.calls])
    (by dsimp only; rfl)) (ho (by decide +kernel))
  have h := h.work (fun _ => .storeReturn 0 hk (by simp [Call.Unlocked, Call.writes])
    (by dsimp only; rfl)) (ho (by decide +kernel))
  -- the transfer fails, and the first entry goes
  have h := h.work (fun _ => .dumpEnd rfl) (ho (by decide +kernel))
  have h := h.work (fun _ => .dumpFailed) (ho (by decide +kernel))
  have h := h.work (fun _ => .delete (by dsimp only; rfl)) (ho (by decide +kernel))
  have h := h.work (fun _ => .deleteAdvance 0 hk (by simp [Call.Unlocked, Call.writes])
    (by dsimp only; rfl)) (ho (by decide +kernel))
  have h := h.work (fun _ => .deleteReturn 0 hk (by simp [Call.Unlocked, Poller.calls])
    (by dsimp only; rfl)) (ho (by decide +kernel))
  have h := h.work (fun _ => .abortEnd) (ho (by decide +kernel))
  have h := (h.record (ho (by decide +kernel)) (by decide)).window (ho (by decide +kernel)) (by decide)
  obtain ⟨shared, -, -, -, -, -, -, -, hr⟩ := h.poll (fun _ => .respond rfl) (ho (by decide +kernel))
  exact ⟨_, hr.of_restrict, _, rfl, rfl, rfl, rfl, .head _, never_seen hr⟩

end Server
end UnifiedCache.DramPool
