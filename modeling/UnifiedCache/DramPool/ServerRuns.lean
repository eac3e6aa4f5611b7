import UnifiedCache.DramPool.Schedules

/-! Whole runs of a server: its pins and reservations as long as no reference count
wraps around, and the run in which one does. -/
namespace UnifiedCache.DramPool
open List Dram
open Books (Balanced)

namespace TransferItem

/-- A DUMP item is settled when either `StoreEnd` or `Delete` finds the entry that it
was created for; the status of the entry tells which. -/
def Settles (config : ServerConfig) (item : TransferItem) (before after : MetadataManager) : Prop :=
  (before.storeEnd config.metadata item.key = (.ok item.entry, after) ∧
    (after.heap item.entry).status = .ready) ∨
  (before.tryDelete config.metadata item.key = (.ok item.entry, after) ∧
    (after.heap item.entry).status = .deleting)

variable {cfg : ServerConfig} {item : TransferItem} {b : Books} {id : EntryId}
  {after : MetadataManager}

section
variable (h : Balanced cfg.metadata b) (hit : item ∈ b.dumps)
include h hit

theorem settles_storeEnd (hs : b.manager.storeEnd cfg.metadata item.key = (.ok id, after)) :
    item.Settles cfg b.manager after := by
  left
  rw [h.storeEnd_eq hit] at hs
  cases hs
  exact ⟨h.storeEnd_eq hit, by simp⟩

theorem settles_delete (hd : b.manager.tryDelete cfg.metadata item.key = (.ok id, after)) :
    item.Settles cfg b.manager after := by
  right
  rw [h.tryDelete_eq hit] at hd
  cases hd
  exact ⟨h.tryDelete_eq hit, by simp⟩

end
end TransferItem

def Shared.dumps (shared : Shared) : List TransferItem :=
  shared.completionQueue.contents.flatMap CompletionRecord.dumps

namespace Worker
variable {cfg : ServerConfig} {others C : List Call} {shared after : Shared}
  {worker next : Worker} {D L : List TransferItem} {item : TransferItem}

theorem Step.settles (hs : Step cfg others shared worker after next)
    (h : Balanced cfg.metadata ⟨shared.manager, C, D, L⟩) (hh : ∀ i ∈ worker.dumps, i ∈ D)
    (hit : item ∈ worker.dumps ++ shared.dumps) :
    item ∈ next.dumps ++ after.dumps ∨ item.Settles cfg shared.manager after.manager := by
  cases hs with
  | pop now =>
    left
    simp only [start_empty cfg now shared.clock _]
    exact hit
  | stopRead | exist =>
    left
    split <;> exact hit
  | storeReturn =>
    left
    simp only [dumps, Batch.stored, mem_append] at hit ⊢
    apply hit.imp_left
    intro ho
    split
    · exact ho
    · split
      · exact ho
      · simp [Batch.transfer, ho]
  | dumpEnd =>
    left
    unfold finishDump
    split
    · simp_all [dumps, CompletionRecord.dumps, Batch.response]
    · exact hit
  | loadEnd =>
    left
    unfold finishLoad
    split <;> exact hit
  | delete hd =>
    simp only [dumps, cons_append, mem_cons] at hit ⊢
    rcases hit with rfl | ht
    · exact .inr (TransferItem.settles_delete h (hh _ mem_cons_self) hd)
    · exact .inl ht
  | deleteRefused hd =>
    rw [h.tryDelete_eq (hh _ mem_cons_self)] at hd
    cases hd
  | push hp =>
    left
    simp only [Shared.dumps, SpscQueue.contents_of_push hp, dumps, flatMap_append,
      flatMap_singleton, mem_append, nil_append] at hit ⊢
    exact hit.symm
  | _ => exact .inl hit

end Worker

namespace Poller
variable {cfg : ServerConfig} {others C : List Call} {shared after : Shared}
  {poller next : Poller} {D L : List TransferItem} {item : TransferItem}

theorem Step.settles (hs : Step cfg others shared poller after next)
    (hf : poller.Formed) (h : Balanced cfg.metadata ⟨shared.manager, C, D, L⟩)
    (hh : ∀ i ∈ poller.dumps, i ∈ D) (hit : item ∈ shared.dumps ++ poller.dumps) :
    item ∈ after.dumps ++ next.dumps ∨ item.Settles cfg shared.manager after.manager := by
  cases hs with
  | fill _ hp =>
    left
    simp only [Shared.dumps, SpscQueue.contents_of_pop hp, dumps, records, flatMap_append,
      flatMap_cons, flatMap_nil, append_nil, nil_append,
      mem_append] at hit ⊢
    tauto
  | stopRead =>
    left
    split
    · split <;> simp_all [dumps, records]
    · exact hit
  | scanEnd | dataWaiting | responseWaiting | settled =>
    left
    simpa [dumps, records, Cursor.others] using hit
  | dataTerminal =>
    left
    simp only [dumps, records, Cursor.others, CompletionRecord.dumps, flatMap_append,
      flatMap_cons, nil_append, mem_append] at hit ⊢
    tauto
  | storeEnd ho ht =>
    rw [(dumps_settling ho).1] at hit hh
    rw [(dumps_settling (by exact ho)).1]
    simp only [mem_append, cons_append, mem_cons] at hit ⊢
    rcases hit with hq | rfl | hot
    · exact .inl (.inl hq)
    · exact .inr (TransferItem.settles_storeEnd h (hh _ mem_cons_self) ht)
    · exact .inl (.inr hot)
  | storeEndRefused ho ht =>
    rw [(dumps_settling ho).1] at hh
    rw [h.storeEnd_eq (hh _ mem_cons_self)] at ht
    cases ht
  | abort ho | loadEnd ho | neither ho =>
    left
    simpa [Shared.dumps, dumps, records, Cursor.others, CompletionRecord.setResult, ho] using hit
  | delete hd =>
    simp only [dumps, mem_append, cons_append, mem_cons] at hit ⊢
    rcases hit with hq | rfl | hot
    · exact .inl (.inl hq)
    · exact .inr (TransferItem.settles_delete h (hh _ mem_cons_self) hd)
    · exact .inl (.inr hot)
  | deleteRefused hd =>
    rw [h.tryDelete_eq (hh _ mem_cons_self)] at hd
    cases hd
  | deleteReturn =>
    left
    rw [(dumps_settling (by exact hf.2.1)).1]
    exact hit
  | respond hg | responseTerminal hg =>
    left
    have his := hf.1 _ (mem_append_right _ mem_cons_self) (by simp [hg])
    simpa [Shared.dumps, dumps, records, Cursor.others, CompletionRecord.dumps, his] using hit
  | submitResponse _ _ hu =>
    left
    have hk := items_submitResponse hf.2 hu
    simpa [Shared.dumps, dumps, records, Cursor.others, hk.1] using hit
  | _ => exact .inl hit

end Poller

namespace Server
variable {config : ServerConfig} {setup : Setup} {s t : Server}

theorem Move.settles (hm : Move config s t) (hf : s.Formed)
    (h : Balanced config.metadata s.books) {item : TransferItem} (hit : item ∈ s.dumpItems) :
    item ∈ t.dumpItems ∨ item.Settles config s.shared.manager t.shared.manager := by
  cases hm with
  | worker hs =>
    have hw : ∀ i ∈ s.worker.dumps, i ∈ s.dumpItems := by simp +contextual [dumpItems]
    simp only [dumpItems, ← append_assoc, mem_append (s := _ ++ _)] at hit ⊢
    rcases hit with ho | hp
    · exact (hs.settles h hw ho).imp_left .inl
    · exact .inl (.inr hp)
  | poller hs =>
    have hp : ∀ i ∈ s.poller.dumps, i ∈ s.dumpItems := by simp +contextual [dumpItems]
    rw [dumpItems, mem_append] at hit ⊢
    rcases hit with hw | ho
    · exact .inl (.inl hw)
    · exact (hs.settles hf.poller h hp ho).imp_left .inr
  | _ => exact .inl hit

theorem reachable_balanced
    (h : Transition.Reachable ((system config setup).restrict fun s _ t => Room s t) s) :
    s.Formed ∧ Balanced config.metadata s.books := by
  apply h.invariant (I := fun s => s.Formed ∧ Balanced config.metadata s.books)
  · intro s hs
    exact ⟨hs.formed, hs.balanced⟩
  · rintro s _ _ - ⟨hf, hb⟩ ⟨⟨u, hm, rfl⟩, hr⟩
    have hu := hm.formed hf
    exact ⟨{ hu with }, hm.balanced hf hr hb⟩

/-- Pins and reservations agree with the items that are not settled, which all find
the entries they were created for. -/
structure Accounted (config : ServerConfig) (s : Server) : Prop where
  pins : ∀ {key id}, s.shared.manager.find config.metadata key = some id →
    (s.shared.manager.heap id).status = .ready →
    (s.shared.manager.heap id).refCnt.toNat = (s.loadItems.map (·.key)).count key
  reservation : ∀ {key id}, s.shared.manager.find config.metadata key = some id →
    (s.shared.manager.heap id).status = .initialized → (s.dumpItems.map (·.key)).count key = 1
  dump : ∀ item ∈ s.dumpItems, s.shared.manager.find config.metadata item.key = some item.entry ∧
    (s.shared.manager.heap item.entry).status = .initialized ∧
    (s.shared.manager.storeEnd config.metadata item.key).1 = .ok item.entry ∧
    (s.shared.manager.tryDelete config.metadata item.key).1 = .ok item.entry
  load : ∀ item ∈ s.loadItems, s.shared.manager.find config.metadata item.key = some item.entry ∧
    (s.shared.manager.heap item.entry).status = .ready ∧
    (s.shared.manager.loadEnd config.metadata item.key).1 = .ok item.entry
  delete : ∀ {key id}, .deleteUnlink key id ∈ s.calls →
    s.shared.manager.find config.metadata key = some id ∧
    (s.shared.manager.shardDelete (config.metadata.shardIdx key) key).1 = Status.OK

theorem count_key {books : Books} (h : Balanced config.metadata books) {items : List TransferItem}
    (hs : ∀ item ∈ items, books.manager.find config.metadata item.key = some item.entry)
    {key : BlockId} {id : EntryId} (hf : books.manager.find config.metadata key = some id) :
    (items.map (·.key)).count key = (items.map (·.entry)).count id := by
  simp only [count_eq_countP, countP_map]
  apply countP_congr
  intro item hit
  have ht := hs item hit
  simp only [Function.comp_apply, beq_iff_eq]
  constructor
  · intro hk
    rw [hk, hf] at ht
    exact (Option.some.inj ht).symm
  · rintro rfl
    exact (h.owned.linked_of_find ht).2.symm.trans (h.owned.linked_of_find hf).2

/-- In every run in which no pin is taken on a full reference count; and no item
goes without being settled, whatever step comes next. -/
theorem pins_accounted
    (h : Transition.Reachable ((system config setup).restrict fun s _ t => Room s t) s) :
    Accounted config s ∧ ∀ t, (system config setup).step s () t → ∀ item ∈ s.dumpItems,
      item ∈ t.dumpItems ∨ item.Settles config s.shared.manager t.shared.manager := by
  obtain ⟨ho, hb⟩ := reachable_balanced h
  refine ⟨?_, ?_⟩
  · constructor
    · intro key id hf hr
      exact (hb.pins hf hr).trans (count_key hb (fun item hit => (hb.load item hit).1) hf).symm
    · intro key id hf hs
      exact (count_key hb (fun item hit => (hb.dump item hit).1) hf).trans
        (count_eq_one_of_mem hb.once (hb.reserved hf hs))
    · intro item hit
      obtain ⟨hf, hs⟩ := hb.dump item hit
      exact ⟨hf, hs, congrArg Prod.fst (hb.storeEnd_eq hit),
        congrArg Prod.fst (hb.tryDelete_eq hit)⟩
    · intro item hit
      obtain ⟨hf, hs⟩ := hb.load item hit
      exact ⟨hf, hs, congrArg Prod.fst (hb.loadEnd_eq hit)⟩
    intro key id hc
    have ht : Threads.Accounted config.metadata ⟨s.shared.manager, s.calls⟩ := hb.owned
    obtain ⟨-, hl, rfl, -⟩ := Threads.emptied_of_unlinks ht hc rfl
    refine ⟨hl, ?_⟩
    unfold MetadataManager.Linked MetadataManager.find at hl
    simp only [MetadataManager.shardDelete, hl]
  · rintro _ ⟨u, hm, rfl⟩ item hit
    exact hm.settles ho hb hit

/-- One LOAD of one entry; `Room` holds of all the steps. -/
theorem pins_accounted_loaded : ∃ s,
    Transition.Reachable ((system oneSlot deepQueues).restrict fun s _ t => Room s t) s ∧
      (s.shared.manager.heap 0).refCnt = 1 ∧ s.loadItems.map (·.key) = [onlyEntry.key] ∧
      Accounted oneSlot s := by
  have ho : Lenient fun s _ t => Room s t := by
    intro s t hg batch entry id _ hpi
    rw [hpi] at hg
    exact hg.elim
  obtain ⟨manager, dumped, hop, -, -, -, hl, hre, hst⟩ := stocked ho
  have hp : MayPin (fun s _ t => Room s t) manager 0 1 := by
    intro j hj b e s t hs ht _ _ b' e' id _ _
    simp_all
  obtain ⟨record, hk, shared, hm, he, -, -, -, -, -, hr⟩ :=
    hst.load (n := 1) (by decide) (by decide) (by decide) ho hp (by decide) (by decide) hl
  refine ⟨_, hr, ?_, ?_, (pins_accounted hr).1⟩
  · simp [hm, hre]
  · simpa [loadItems, Worker.loads, Poller.loads, Poller.records, Cursor.others, hop, he] using hk

/-- 65537 LOADs of 65535 entries each and one of a single entry, all for one key,
before the poller looks at the queue. -/
theorem refCnt_wraps : ∃ s, Transition.Reachable (system oneSlot deepQueues) s ∧
    s.shared.manager.find oneSlot.metadata onlyEntry.key = some 0 ∧
    (s.shared.manager.heap 0).status = .ready ∧ (s.shared.manager.heap 0).refCnt = 0 ∧
    (s.loadItems.map (·.key)).count onlyEntry.key = 4294967296 := by
  have hk : Lenient fun _ _ _ => True := fun _ _ _ => trivial
  obtain ⟨manager, dumped, _, -, -, -, ho, hre, hs⟩ := stocked hk
  obtain ⟨records, hl, hks, hf⟩ := hs.flood (n := 65535) (by decide) (by decide)
    (by decide) (fun _ _ => trivial) (by decide) ho 65537 (by decide)
  obtain ⟨record, hla, shared, hm, he, -, -, -, -, -, hr⟩ :=
    hf.load (n := 1) (by decide) (by decide) (by decide) hk (fun _ _ _ _ _ _ _ _ _ _ => trivial)
      (by decide) (by rw [hl]; decide) (ho.pinned _)
  rw [pinned_pinned] at hm
  have ha := ho.pinned (65537 * 65535 + 1)
  rw [← hm] at ha
  refine ⟨_, hr.of_restrict, ha.find, ha.ready, ?_, ?_⟩
  · have hz : (0 : UInt32) + UInt32.ofNat (65537 * 65535 + 1) = 0 := by decide
    rw [hm, heap_pinned, hre]
    exact hz
  have hp : (Poller.settling ⟨[], dumped, []⟩ .completed []).loads = [] := by
    simp [Poller.loads, Poller.records, Cursor.others]
  simp only [loadItems, Worker.loads, hp, he, nil_append, append_nil,
    flatMap_append, flatMap_singleton, map_append, hks, hla,
    count_append, count_replicate_self]

end Server
end UnifiedCache.DramPool
