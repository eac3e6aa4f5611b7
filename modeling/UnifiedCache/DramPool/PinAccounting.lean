import UnifiedCache.DramPool.Server

/-! Which transfer items of a DramPool server still have to be settled, and what the
metadata owes them. The books are the metadata, the operations in progress, and the
unsettled items of DUMP and LOAD requests; there is one lemma for each way in which a
step changes them. -/
namespace UnifiedCache.DramPool
open List MetadataManager Call Entry
open Dram (BlockId)
open MetadataManager (Owned)

namespace MetadataManager
variable {config : MetadataConfig} {m left : MetadataManager} {duties : List (EntryId × Duty)}
  {todo : List (EntryId × Nat)} {id : EntryId} {entry : Entry}

/-- Nothing that a transfer depends on changes: reserved and pinned entries stay as
they are, and no entry becomes reserved or ready. -/
structure Quiet (config : MetadataConfig) (m left : MetadataManager) : Prop where
  kept : ∀ {key id}, m.find config key = some id → (m.heap id).status ≠ .deleting →
    ((m.heap id).status = .ready → (m.heap id).refCnt ≠ 0) →
    left.find config key = some id ∧ (left.heap id).status = (m.heap id).status ∧
      (left.heap id).refCnt = (m.heap id).refCnt
  old : ∀ {key id}, left.find config key = some id → (left.heap id).status ≠ .deleting →
    m.find config key = some id ∧ (left.heap id).status = (m.heap id).status ∧
      (left.heap id).refCnt = (m.heap id).refCnt

theorem Quiet.of_eq (hf : ∀ key, left.find config key = m.find config key)
    (hs : ∀ id, (left.heap id).status = (m.heap id).status)
    (hr : ∀ id, (left.heap id).refCnt = (m.heap id).refCnt) : Quiet config m left := by
  constructor
  · intro key id hk _ _
    exact ⟨(hf key).trans hk, hs id, hr id⟩
  · intro key id hk _
    exact ⟨(hf key).symm.trans hk, hs id, hr id⟩

theorem Quiet.refl : Quiet config m m := .of_eq (fun _ => rfl) (fun _ => rfl) (fun _ => rfl)

theorem quiet_setEntry (hs : entry.status = (m.heap id).status)
    (hr : entry.refCnt = (m.heap id).refCnt) : Quiet config m (m.setEntry id entry) := by
  apply Quiet.of_eq
  · exact fun key => find_setEntry key
  · intro o
    by_cases he : o = id
    · rw [he, heap_setEntry_self, hs]
    · rw [heap_setEntry_of_ne _ _ he]
  intro o
  by_cases he : o = id
  · rw [he, heap_setEntry_self, hr]
  · rw [heap_setEntry_of_ne _ _ he]

theorem quiet_free : Quiet config m (m.free id) := by
  apply Quiet.of_eq
  · intro key
    unfold find
    rw [shards_free]
  · simp
  · simp

theorem quiet_allocate (h : m.allocate id = .ok left) : Quiet config m left := by
  unfold allocate at h
  split at h
  · cases h
  rename_i buffer bu _
  cases h
  have hs : Quiet config m (m.setEntry id { m.heap id with buffer }) := quiet_setEntry rfl rfl
  exact ⟨hs.kept, hs.old⟩

variable {now : TimePoint}

theorem quiet_tryMarkEvicting (h : (m.heap id).tryMarkEvicting now = some entry) :
    Quiet config m (m.setEntry id entry) := by
  obtain ⟨hr, hpi, -, rfl⟩ := tryMarkEvicting_eq_some.1 h
  constructor
  · intro key o hk _ hp
    have hn : o ≠ id := by
      rintro rfl
      exact hp hr hpi
    rw [heap_setEntry_of_ne _ _ hn]
    exact ⟨hk, rfl, rfl⟩
  intro key o hk hl
  have hn : o ≠ id := by
    rintro rfl
    rw [heap_setEntry_self] at hl
    exact hl rfl
  rw [heap_setEntry_of_ne _ _ hn]
  exact ⟨hk, rfl, rfl⟩

theorem quiet_shardDelete {n : BlockId → Prop}
    (h : Owned config m ((id, .emptied n) :: duties) todo) :
    Quiet config m (m.shardDelete (config.shardIdx (m.heap id).key) (m.heap id).key).2 := by
  obtain ⟨⟨-, hs, hl⟩, -⟩ := h.head
  have hf : ∀ key, (m.shardDelete (config.shardIdx (m.heap id).key) (m.heap id).key).2.find
      config key = if key = (m.heap id).key then none else m.find config key := by
    intro key
    unfold find
    rw [Threads.find?_shardDelete hl]
    by_cases hk : key = (m.heap id).key
    · simp [hk]
    · simp [hk]
  have hh : (m.shardDelete (config.shardIdx (m.heap id).key) (m.heap id).key).2.heap = m.heap := by
    unfold shardDelete
    split <;> rfl
  constructor
  · intro key o hk hli _
    have hn : key ≠ (m.heap id).key := by
      rintro rfl
      obtain rfl := Option.some.inj (hk.symm.trans hl)
      exact hli hs
    rw [hf, if_neg hn, hh]
    exact ⟨hk, rfl, rfl⟩
  intro key o hk _
  rw [hf] at hk
  split at hk
  · cases hk
  · rw [hh]
    exact ⟨hk, rfl, rfl⟩

theorem quiet_evict {e : Eviction} (h : Owned config m (e.duties config ++ duties) (e.todo ++ todo))
    : Quiet config m (e.advance m).1 := by
  cases e with
  | scanning _ _ now _ p =>
    cases p with
    | nil => exact Quiet.refl
    | cons id =>
      simp only [Eviction.advance]
      split
      · exact Quiet.refl
      · cases hm : (m.heap id).tryMarkEvicting now with
        | none => exact Quiet.refl
        | some => exact quiet_tryMarkEvicting hm
  | freeing _ v =>
    cases v with
    | nil => exact Quiet.refl
    | cons => exact quiet_free
  | unlinking shard vi =>
    have hs : config.shardIdx (m.heap vi).key = shard := h.head.1.names
    subst hs
    exact quiet_shardDelete h

theorem quiet_advance {c : Call} {pick : Nat} {o : Outcome}
    (h : Owned config m (c.duties config ++ duties) (c.todo ++ todo))
    (ha : c.advance config now pick m = (left, o))
    (hu : ∀ key id, c = .storePublish key id → o ≠ .returned Status.OK) : Quiet config m left := by
  obtain rfl : (c.advance config now pick m).1 = left := by rw [ha]
  cases c with
  | storeBegin _ id =>
    simp only [advance]
    cases hl : m.allocate id with
    | ok => exact quiet_allocate hl
    | error =>
      simp only
      split <;> exact Quiet.refl
  | storeEvict _ _ _ e =>
    have he := quiet_evict (h.perm perm_middle.symm)
    simp only [advance]
    generalize e.advance m = result at he
    obtain ⟨a, n⟩ := result
    cases n <;> exact he
  | storePublish key id =>
    simp only [advance] at ha ⊢
    cases hs : m.shardStoreBegin (config.shardIdx key) key id with
    | mk =>
      rcases h.shardStoreBegin hs with ⟨rfl, -⟩ | ⟨rfl, rfl⟩
      · simp only [hs] at ha
        exact absurd (Prod.mk.inj ha).2.symm (hu key id rfl)
      · exact Quiet.refl
  | deleteUnlink key id =>
    have hk : (m.heap id).key = key := h.head.1.names
    subst hk
    exact quiet_shardDelete h
  | evict e rest =>
    have he := quiet_evict h
    simp only [advance]
    generalize e.advance m = result at he
    obtain ⟨a, n⟩ := result
    cases n with
    | some => exact he
    | none => cases rest <;> exact he
  | _ => exact quiet_free

theorem quiet_newEntry {key : BlockId} {s : Nat} {l : TimePoint} {pos : UInt32}
    (h : Owned config m duties todo) : Quiet config m (m.newEntry config key s l pos).2 := by
  have hh : ∀ other, other < m.fresh →
      (m.newEntry config key s l pos).2.heap other = m.heap other :=
    fun other hl => heap_setEntry_of_ne _ _ (Nat.ne_of_lt hl)
  constructor
  · intro key other hk _ _
    rw [hh other (h.mapped hk).1]
    exact ⟨hk, rfl, rfl⟩
  · intro key other hk _
    rw [hh other (h.mapped hk).1]
    exact ⟨hk, rfl, rfl⟩

theorem find_of_publish {key : BlockId} {pick : Nat}
    (h : (storePublish key id).advance config now pick m = (left, .returned Status.OK)) :
    left.heap = m.heap ∧ m.find config key = none ∧
      ∀ other, left.find config other = if other = key then some id else m.find config other := by
  simp only [advance] at h
  cases hs : m.shardStoreBegin (config.shardIdx key) key id with
  | mk =>
    rw [hs] at h
    split at h
    · rename_i hu
      cases h
      obtain ⟨-, hno, value, rfl, hv⟩ := shardStoreBegin_ok hs hu
      refine ⟨rfl, hno, ?_⟩
      have hn := Table.find?_eq_none.1 hno
      intro other
      unfold find setShard
      by_cases ho : other = key
      · subst ho
        simp [hv, Table.find?_emplace _ hn]
      · by_cases hh : config.shardIdx other = config.shardIdx key
        · simp [hh, ho, hv, Table.find?_emplace_ne _ hn ho]
        · simp [hh, ho]
    · cases h

end MetadataManager

/-- The metadata and the operations in progress, with the items of DUMP and LOAD
requests that are not settled. -/
structure Books where
  manager : MetadataManager
  calls : List Call := []
  dumps : List TransferItem := []
  loads : List TransferItem := []

namespace Books

structure Same (a b : Books) : Prop where
  manager : a.manager = b.manager
  calls : a.calls.Perm b.calls
  dumps : a.dumps.Perm b.dumps
  loads : a.loads.Perm b.loads

/-- Each reserved entry has its one DUMP item, and each ready entry as many LOAD
items as its reference count says. -/
structure Balanced (config : MetadataConfig) (b : Books) : Prop where
  owned : Owned config b.manager (b.calls.flatMap (Call.duties config)) (b.calls.flatMap Call.todo)
  dump : ∀ item ∈ b.dumps, b.manager.find config item.key = some item.entry ∧
    (b.manager.heap item.entry).status = .initialized
  load : ∀ item ∈ b.loads, b.manager.find config item.key = some item.entry ∧
    (b.manager.heap item.entry).status = .ready
  once : (b.dumps.map (·.entry)).Nodup
  reserved : ∀ {key id}, b.manager.find config key = some id →
    (b.manager.heap id).status = .initialized → id ∈ b.dumps.map (·.entry)
  pins : ∀ {key id}, b.manager.find config key = some id → (b.manager.heap id).status = .ready →
    (b.manager.heap id).refCnt.toNat = (b.loads.map (·.entry)).count id

namespace Balanced
variable {cfg : MetadataConfig} {b : Books} {m : MetadataManager} {calls : List Call}
  {item : TransferItem} {rest : List TransferItem}

section
variable (h : Balanced cfg b)
include h

theorem refCnt_ne_zero (ht : item ∈ b.loads) : (b.manager.heap item.entry).refCnt ≠ 0 := by
  intro hz
  obtain ⟨hf, hr⟩ := h.load item ht
  have hc := h.pins hf hr
  rw [hz] at hc
  have hp : 0 < (b.loads.map (·.entry)).count item.entry :=
    count_pos_iff.2 (mem_map_of_mem ht)
  exact absurd hc (Nat.ne_of_lt hp)

theorem quiet (hq : MetadataManager.Quiet cfg b.manager m)
    (ho : Owned cfg m (calls.flatMap (duties cfg)) (calls.flatMap todo)) :
    Balanced cfg { b with manager := m, calls } := by
  constructor
  · exact ho
  · intro item he
    obtain ⟨hfi, ht⟩ := h.dump item he
    obtain ⟨hf, hs, -⟩ := hq.kept hfi (by simp [ht]) (by simp [ht])
    exact ⟨hf, hs.trans ht⟩
  · intro item he
    obtain ⟨hfi, ht⟩ := h.load item he
    obtain ⟨hf, hs, -⟩ := hq.kept hfi (by simp [ht]) fun _ => h.refCnt_ne_zero he
    exact ⟨hf, hs.trans ht⟩
  · exact h.once
  · intro key id hfi ht
    obtain ⟨hf, hs, -⟩ := hq.old hfi (ne_of_eq_of_ne ht (by decide))
    exact h.reserved hf (hs.symm.trans ht)
  intro key id hfi ht
  obtain ⟨hf, hs, hr⟩ :=
    hq.old hfi (ne_of_eq_of_ne ht (by decide))
  rw [hr]
  exact h.pins hf (hs.symm.trans ht)

theorem same {c : Books} (hs : Same b c) : Balanced cfg c where
  owned := hs.manager ▸ (h.owned.perm (hs.calls.flatMap_right _)).forget fun _ =>
    ((hs.calls.flatMap_right todo).mem_iff).2
  dump item ht := hs.manager ▸ h.dump item (hs.dumps.mem_iff.2 ht)
  load item ht := hs.manager ▸ h.load item (hs.loads.mem_iff.2 ht)
  once := (hs.dumps.map _).nodup_iff.1 h.once
  reserved := by
    rw [← hs.manager]
    intro key id hf hst
    exact (hs.dumps.map _).mem_iff.1 (h.reserved hf hst)
  pins := by
    rw [← hs.manager]
    intro key id hf hst
    exact (h.pins hf hst).trans ((hs.loads.map _).count_eq _)

end

variable {id eid : EntryId} {key : BlockId}

theorem setEntry {entry : Entry} {dumps loads : List TransferItem} (h : Balanced cfg b)
    (hw : Owned cfg (b.manager.setEntry id entry) (calls.flatMap (duties cfg)) (calls.flatMap todo))
    (hf : b.manager.find cfg key = some id)
    (hd : ∀ item ∈ dumps, item ∈ b.dumps ∧ (item.entry = id → entry.status = .initialized))
    (hl : ∀ item ∈ loads, (item ∈ b.loads ∨ item.key = key ∧ item.entry = id) ∧
      (item.entry = id → entry.status = .ready)) (hn : (dumps.map (·.entry)).Nodup)
    (hr : ∀ o, o ∈ b.dumps.map (·.entry) → o ≠ id → o ∈ dumps.map (·.entry))
    (he : entry.status = .initialized → id ∈ dumps.map (·.entry))
    (hc : ∀ o, o ≠ id → (loads.map (·.entry)).count o = (b.loads.map (·.entry)).count o)
    (hp : entry.status = .ready → entry.refCnt.toNat = (loads.map (·.entry)).count id) :
    Balanced cfg { manager := b.manager.setEntry id entry, calls, dumps, loads } := by
  constructor
  · exact hw
  · intro item ht
    obtain ⟨ho, hs⟩ := hd item ht
    refine ⟨(h.dump item ho).1, ?_⟩
    by_cases hq : item.entry = id
    · rw [hq, heap_setEntry_self]
      exact hs hq
    · rw [heap_setEntry_of_ne _ _ hq]
      exact (h.dump item ho).2
  · intro item ht
    obtain ⟨ho | ⟨hk, hq⟩, hs⟩ := hl item ht
    · refine ⟨(h.load item ho).1, ?_⟩
      by_cases hq : item.entry = id
      · rw [hq, heap_setEntry_self]
        exact hs hq
      · rw [heap_setEntry_of_ne _ _ hq]
        exact (h.load item ho).2
    · rw [hk, hq, heap_setEntry_self]
      exact ⟨hf, hs hq⟩
  · exact hn
  · intro key o hot hs
    by_cases hq : o = id
    · subst hq
      rw [heap_setEntry_self] at hs
      exact he hs
    · rw [heap_setEntry_of_ne _ _ hq] at hs
      exact hr o (h.reserved hot hs) hq
  intro key o hot hs
  by_cases hq : o = id
  · subst hq
    rw [heap_setEntry_self] at hs ⊢
    exact hp hs
  · rw [heap_setEntry_of_ne _ _ hq] at hs ⊢
    rw [hc o hq]
    exact h.pins hot hs

variable {now : TimePoint} {pick idx : Nat}

theorem publish {rest : List Call} (h : Balanced cfg b)
    (hc : b.calls.Perm (.storePublish key eid :: rest))
    (ha : (storePublish key eid).advance cfg now pick b.manager = (m, .returned Status.OK)) :
    Balanced cfg { b with manager := m, calls := rest, dumps := ⟨idx, key, eid⟩ :: b.dumps } := by
  obtain ⟨hh, hn, hf⟩ := find_of_publish ha
  have hca := (h.owned.perm (hc.flatMap_right _)).forget fun _ =>
    ((hc.flatMap_right todo).mem_iff).2
  have hs := hca.head.1
  have hw := hca.advance ha
  have hk : ∀ {o id}, b.manager.find cfg o = some id → m.find cfg o = some id := by
    intro o id hot
    rw [hf, if_neg]
    · exact hot
    · rintro rfl
      exact absurd (hn.symm.trans hot) (by simp)
  have hfs : ∀ item ∈ b.dumps, item.entry ≠ eid := by
    rintro item ht rfl
    have hl := (h.owned.linked_of_find (h.dump item ht).1).1
    exact hs.unlinked hl
  constructor
  · exact hw
  · intro item ht
    rw [hh]
    obtain rfl | ho := mem_cons.1 ht
    · exact ⟨by simp [hf], hs.status⟩
    · exact ⟨hk (h.dump item ho).1, (h.dump item ho).2⟩
  · intro item ht
    rw [hh]
    exact ⟨hk (h.load item ht).1, (h.load item ht).2⟩
  · rw [map_cons, nodup_cons, mem_map]
    refine ⟨?_, h.once⟩
    rintro ⟨item, ht, he⟩
    exact hfs item ht he
  · intro o id hot hst
    rw [hf] at hot
    rw [hh] at hst
    split at hot
    · cases hot
      exact mem_cons_self
    · exact mem_cons_of_mem _ (h.reserved hot hst)
  intro o id hot hst
  rw [hf] at hot
  rw [hh] at hst ⊢
  split at hot
  · cases hot
    exact absurd (hs.status.symm.trans hst) (by decide)
  · exact h.pins hot hst

theorem toNat_succ {c : UInt32} (h : c ≠ 0xFFFFFFFF) : (c + 1).toNat = c.toNat + 1 := by
  have hl := c.toNat_lt
  have hn : c.toNat ≠ 0xFFFFFFFF := fun he => h (UInt32.toNat_inj.1 he)
  rw [UInt32.toNat_add]
  exact Nat.mod_eq_of_lt (by simp; omega)

theorem toNat_pred {count : UInt32} (h : count ≠ 0) : (count - 1).toNat + 1 = count.toNat := by
  have hn : count.toNat ≠ 0 := fun he => h (UInt32.toNat_inj.1 he)
  have hl : (1 : UInt32) ≤ count := by
    rw [UInt32.le_iff_toNat_le]
    simp; omega
  rw [UInt32.toNat_sub_of_le _ _ hl]
  simp; omega

section
variable (h : Balanced cfg b)
include h

theorem count_eq_zero (hs : (b.manager.heap id).status ≠ .ready) :
    (b.loads.map (·.entry)).count id = 0 := by
  rw [List.count_eq_zero, mem_map]
  rintro ⟨item, ht, rfl⟩
  exact hs (h.load item ht).2

theorem refCnt_eq_zero (hs : (b.manager.heap id).status ≠ .ready) :
    (b.manager.heap id).refCnt = 0 :=
  not_not.1 fun hp => hs (h.owned.pinned hp)

theorem entry_ne (hp : b.dumps.Perm (item :: rest)) : ∀ o ∈ rest, o.entry ≠ item.entry := by
  have hn := (hp.map (·.entry)).nodup_iff.1 h.once
  rw [map_cons, nodup_cons, mem_map] at hn
  exact fun o ho he => hn.1 ⟨o, ho, he⟩

theorem settle {entry : Entry} (hp : b.dumps.Perm (item :: rest))
    (hw : Owned cfg (b.manager.setEntry item.entry entry)
      (calls.flatMap (duties cfg)) (calls.flatMap todo))
    (hs : entry.status ≠ .initialized) (hre : entry.refCnt = 0) : Balanced cfg
      { b with manager := b.manager.setEntry item.entry entry, calls, dumps := rest } := by
  have hm : item ∈ b.dumps := hp.mem_iff.2 mem_cons_self
  obtain ⟨hf, hn⟩ := h.dump item hm
  have hz := h.count_eq_zero (ne_of_eq_of_ne hn (by decide))
  have hno : ∀ o ∈ b.loads, o.entry ≠ item.entry := by
    intro o ho he
    have hr := (h.load o ho).2
    rw [he, hn] at hr
    cases hr
  apply h.setEntry hw hf
  · intro o ho
    refine ⟨hp.mem_iff.2 (mem_cons_of_mem _ ho), ?_⟩
    exact fun he => absurd he (h.entry_ne hp o ho)
  · intro o ho
    exact ⟨.inl ho, fun he => absurd he (hno o ho)⟩
  · exact (nodup_cons.1 ((hp.map (·.entry)).nodup_iff.1 h.once)).2
  · intro o ho hne
    rw [(hp.map (·.entry)).mem_iff, map_cons, mem_cons] at ho
    exact ho.resolve_left hne
  · exact fun he => absurd he hs
  · exact fun _ _ => rfl
  · intro _
    rw [hre, hz]
    rfl

theorem storeEnd_eq (ht : item ∈ b.dumps) : b.manager.storeEnd cfg item.key = (.ok item.entry,
      b.manager.setEntry item.entry { b.manager.heap item.entry with status := .ready }) := by
  obtain ⟨hf, hs⟩ := h.dump item ht
  exact visit_eq hf (tryMarkReady_eq_some.2 ⟨hs, rfl⟩)

theorem tryDelete_eq (ht : item ∈ b.dumps) : b.manager.tryDelete cfg item.key = (.ok item.entry,
      b.manager.setEntry item.entry { b.manager.heap item.entry with status := .deleting }) := by
  obtain ⟨hf, hs⟩ := h.dump item ht
  have hp := h.refCnt_eq_zero (ne_of_eq_of_ne hs (by decide))
  refine visit_eq hf (tryMarkDeleting_eq_some.2 ⟨?_, hp, rfl⟩)
  exact ne_of_eq_of_ne hs (by decide)

theorem loadEnd_eq (ht : item ∈ b.loads) : b.manager.loadEnd cfg item.key = (.ok item.entry,
      b.manager.setEntry item.entry { b.manager.heap item.entry with
        refCnt := (b.manager.heap item.entry).refCnt - 1 }) := by
  obtain ⟨hf, hs⟩ := h.load item ht
  exact visit_eq hf (tryDecRef_eq_some.2 ⟨hs, h.refCnt_ne_zero ht, rfl⟩)

theorem pin (hl : b.manager.loadBegin cfg key = (.ok eid, m))
    (hro : (b.manager.heap eid).refCnt ≠ 0xFFFFFFFF) :
    Balanced cfg { b with manager := m, loads := ⟨idx, key, eid⟩ :: b.loads } := by
  have hw := h.owned.visit (fun _ _ => used_of_tryIncRef) hl
  obtain ⟨hf, entry, hn, rfl⟩ := visit_ok hl
  obtain ⟨hr, rfl⟩ := tryIncRef_eq_some.1 hn
  apply h.setEntry hw hf
  · intro item ht
    refine ⟨ht, ?_⟩
    rintro rfl
    exact (h.dump item ht).2
  · intro item ht
    obtain rfl | ho := mem_cons.1 ht
    · exact ⟨.inr ⟨rfl, rfl⟩, fun _ => hr⟩
    · exact ⟨.inl ho, fun _ => hr⟩
  · exact h.once
  · exact fun _ hot _ => hot
  · intro hin
    exact absurd (hr.symm.trans hin) (by decide)
  · intro o he
    rw [map_cons, count_cons_of_ne he.symm]
  · intro _
    rw [map_cons, count_cons_self, ← h.pins hf hr]
    exact toNat_succ hro

end

variable {result : Expected EntryId}

section
variable (h : Balanced cfg b)
include h

theorem unpin (hp : b.loads.Perm (item :: rest))
    (hl : b.manager.loadEnd cfg item.key = (result, m)) :
    Balanced cfg { b with manager := m, loads := rest } := by
  have ht : item ∈ b.loads := hp.mem_iff.2 mem_cons_self
  have hw := h.owned.visit (fun _ _ => used_of_tryDecRef) hl
  obtain ⟨hf, hr⟩ := h.load item ht
  rw [h.loadEnd_eq ht] at hl
  cases hl
  have hc := fun id => (hp.map (·.entry)).count_eq id
  apply h.setEntry hw hf
  · intro o ho
    refine ⟨ho, ?_⟩
    intro he
    rw [← he]
    exact (h.dump o ho).2
  · intro o ho
    exact ⟨.inl (hp.mem_iff.2 (mem_cons_of_mem _ ho)), fun _ => hr⟩
  · exact h.once
  · exact fun _ ho _ => ho
  · intro hn
    exact absurd (hr.symm.trans hn) (by decide)
  · intro o hne
    rw [hc, map_cons, count_cons_of_ne hne.symm]
  intro _
  have hto := h.pins hf hr
  rw [hc, map_cons, count_cons_self, ← toNat_pred (h.refCnt_ne_zero ht)] at hto
  exact Nat.succ.inj hto

theorem storeEnd (hp : b.dumps.Perm (item :: rest))
    (hs : b.manager.storeEnd cfg item.key = (.ok eid, m)) :
    Balanced cfg { b with manager := m, dumps := rest } := by
  have ht : item ∈ b.dumps := hp.mem_iff.2 mem_cons_self
  have ho := h.owned.visit (fun _ _ => used_of_tryMarkReady) hs
  rw [h.storeEnd_eq ht] at hs
  cases hs
  refine h.settle hp ho (by simp) (h.refCnt_eq_zero ?_)
  exact ne_of_eq_of_ne (h.dump item ht).2 (by decide)

theorem delete (hp : b.dumps.Perm (item :: rest))
    (hd : b.manager.tryDelete cfg item.key = (.ok eid, m)) : Balanced cfg
      { b with manager := m, calls := .deleteFree item.key eid :: b.calls, dumps := rest } := by
  have ht : item ∈ b.dumps := hp.mem_iff.2 mem_cons_self
  have ho := h.owned.tryDelete hd
  rw [h.tryDelete_eq ht] at hd
  cases hd
  refine h.settle hp ho (by simp) (h.refCnt_eq_zero ?_)
  exact ne_of_eq_of_ne (h.dump item ht).2 (by decide)

theorem exist (he : b.manager.exist cfg now key = (result, m)) :
    Balanced cfg { b with manager := m } := by
  have ho := h.owned.visit (fun _ _ => used_of_tryMarkHit) he
  refine h.quiet ?_ ho
  cases result with
  | error =>
    rw [visit_error he]
    exact MetadataManager.Quiet.refl
  | ok =>
    obtain ⟨-, entry, hh, rfl⟩ := visit_ok he
    obtain ⟨-, rfl⟩ := tryMarkHit_eq_some.1 hh
    exact quiet_setEntry rfl rfl

theorem advance {call : Call} {others : List Call} {outcome : Outcome}
    (hc : b.calls.Perm (call :: others)) (ha : call.advance cfg now pick b.manager = (m, outcome))
    (hu : ∀ key eid, call = .storePublish key eid → outcome ≠ .returned Status.OK) :
    Balanced cfg { b with manager := m, calls := outcome.calls ++ others } := by
  have hca := (h.owned.perm (hc.flatMap_right _)).forget fun _ =>
    ((hc.flatMap_right todo).mem_iff).2
  apply h.quiet (quiet_advance hca ha hu)
  rw [flatMap_append, flatMap_append]
  exact hca.advance ha

end
end Balanced
end Books
end UnifiedCache.DramPool
