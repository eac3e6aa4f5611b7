import UnifiedCache.DramPool.SlotOwnership

/-! Runs of the metadata operations of any number of threads. Each step is one
critical section; a section that takes a shard's write lock waits until no
eviction scans that shard. -/
namespace UnifiedCache.DramPool
open List Call
open Dram (BlockId)
open MetadataManager (Duty Owned)

namespace Eviction

def duties (config : MetadataConfig) : Eviction → List (EntryId × Duty)
  | .scanning shard _ _ _ _ victims => victims.map (·, .marked fun key => config.shardIdx key = shard)
  | .freeing shard victims => victims.map (·, .marked fun key => config.shardIdx key = shard)
  | .unlinking shard victim rest =>
    (victim, .emptied fun key => config.shardIdx key = shard) ::
      rest.map (·, .marked fun key => config.shardIdx key = shard)

def todo : Eviction → List (EntryId × Nat)
  | .scanning shard _ _ _ todo _ => todo.map (·, shard)
  | _ => []

end Eviction

namespace Call

def duties (config : MetadataConfig) : Call → List (EntryId × Duty)
  | .storeBegin key id _ => [(id, .drafting key)]
  | .storeEvict key id _ eviction => (id, .drafting key) :: eviction.duties config
  | .storePublish key id => [(id, .staged key)]
  | .storeRollback key id _ => [(id, .staged key)]
  | .deleteFree key id => [(id, .marked (· = key))]
  | .deleteUnlink key id => [(id, .emptied (· = key))]
  | .evict eviction _ => eviction.duties config

def todo : Call → List (EntryId × Nat)
  | .storeEvict _ _ _ eviction => eviction.todo
  | .evict eviction _ => eviction.todo
  | _ => []

end Call

namespace MetadataManager.Owned
variable {cfg : MetadataConfig} {mgr : MetadataManager} {duties : List (EntryId × Duty)}
  {todo : List (EntryId × Nat)}
variable {now : TimePoint}

theorem start {shard : Nat} {deep : Bool} (h : Owned cfg mgr duties todo) : Owned cfg mgr
    ((Eviction.start cfg shard deep now mgr).duties cfg ++ duties)
    ((Eviction.start cfg shard deep now mgr).todo ++ todo) := by
  have hs : Owned cfg mgr duties ((mgr.evictor shard deep).entries.map (·, shard) ++ todo) := by
    refine { h with scanned := ?_ }
    intro p hm
    rw [mem_append, mem_map] at hm
    rcases hm with ⟨id, hd, rfl⟩ | ho
    · apply h.ordered
      unfold evictor at hd
      split at hd
      · exact .inr hd
      · exact .inl hd
    · exact h.scanned p ho
  unfold Eviction.start Eviction.getEvictionResults
  split
  · exact hs
  · split
    · exact h
    · exact hs

theorem evict {e : Eviction} (h : Owned cfg mgr (e.duties cfg ++ duties) (e.todo ++ todo)) :
    Owned cfg (e.advance mgr).1 ((e.advance mgr).2.elim [] (Eviction.duties cfg) ++ duties)
    ((e.advance mgr).2.elim [] Eviction.todo ++ todo) := by
  cases e with
  | scanning shard _ now _ pe v =>
    cases pe with
    | nil => exact h
    | cons id pe =>
      have hr : Owned cfg mgr (v.map (·, Duty.marked fun key => cfg.shardIdx key = shard) ++ duties)
          (pe.map (·, shard) ++ todo) :=
        h.forget fun p hm => mem_cons_of_mem _ hm
      simp only [Eviction.advance]
      split
      · exact hr.forget fun p hm => mem_append_right _ hm
      cases hma : (mgr.heap id).tryMarkEvicting now with
      | none => exact hr
      | some en =>
        -- only a ready entry is marked, and those are in the map
        have hd := (Entry.tryMarkEvicting_eq_some.1 hma).1
        have hs : cfg.shardIdx (mgr.heap id).key = shard :=
          (h.scanned (id, shard) mem_cons_self).2
        have ha : Owned cfg (mgr.setEntry id en)
            ((id, .marked fun key => cfg.shardIdx key = shard) ::
              (v.map (·, Duty.marked fun key => cfg.shardIdx key = shard) ++ duties))
            (pe.map (·, shard) ++ todo) :=
          hr.retired (h.ready hd) (Entry.retired_of_tryMarkEvicting hma) hs
        apply ha.perm
        simp only [Option.elim_some, Eviction.duties, map_append, map_cons, map_nil, append_assoc]
        exact perm_middle.symm
  | freeing _ v =>
    cases v with
    | nil => exact h
    | cons => exact h.free_marked
  | unlinking shard vi =>
    have hs : cfg.shardIdx (mgr.heap vi).key = shard := h.head.1.names
    subst hs
    exact h.shardDelete

variable {left : MetadataManager}

theorem advance {c : Call} {p : Nat} {outcome : Outcome}
    (h : Owned cfg mgr (c.duties cfg ++ duties) (c.todo ++ todo))
    (ha : c.advance cfg now p mgr = (left, outcome)) :
    Owned cfg left (outcome.calls.flatMap (Call.duties cfg) ++ duties)
      (outcome.calls.flatMap Call.todo ++ todo) := by
  obtain ⟨rfl, rfl⟩ : (c.advance cfg now p mgr).1 = left ∧
      (c.advance cfg now p mgr).2 = outcome := by
    rw [ha]
    exact ⟨rfl, rfl⟩
  cases c with
  | storeBegin _ id =>
    simp only [Call.advance]
    cases hl : mgr.allocate id with
    | ok => exact h.allocate hl
    | error =>
      simp only
      split
      · simp only [Outcome.calls, flatMap_cons, flatMap_nil, append_nil,
          Call.duties, Call.todo, cons_append]
        exact (start h).perm perm_middle
      · exact h.tail
  | storeEvict _ _ _ e =>
    have he := (h.perm perm_middle.symm).evict
    simp only [Call.advance]
    generalize e.advance mgr = result at he
    obtain ⟨left, n⟩ := result
    cases n with
    | none => exact he
    | some =>
      simp only [Outcome.calls, flatMap_cons, flatMap_nil, append_nil,
        Call.duties, Call.todo, cons_append]
      exact he.perm perm_middle
  | storePublish key id =>
    simp only [Call.advance]
    cases hs : mgr.shardStoreBegin (cfg.shardIdx key) key id with
    | mk =>
      rcases h.shardStoreBegin hs with ⟨rfl, ho⟩ | ⟨rfl, rfl⟩
      · exact ho
      · exact h
  | storeRollback => exact h.free_staged
  | deleteFree => exact h.free_marked
  | deleteUnlink key id =>
    have hk : (mgr.heap id).key = key := h.head.1.names
    subst hk
    exact h.shardDelete
  | evict e left =>
    have he := h.evict
    simp only [Call.advance]
    generalize e.advance mgr = result at he
    obtain ⟨mgr, n⟩ := result
    cases n with
    | some => simpa [Outcome.calls, Call.duties, Call.todo] using he
    | none =>
      cases left with
      | nil => exact he
      | cons => simpa [Outcome.calls, Call.duties, Call.todo] using start he

theorem visit {section? : Entry → Option Entry} {key : BlockId} {r : Expected EntryId}
    (h : Owned cfg mgr duties todo)
    (hu : ∀ entry left, section? entry = some left → entry.Used left)
    (hv : mgr.visit cfg section? key = (r, left)) : Owned cfg left duties todo := by
  cases r with
  | error => rwa [visit_error hv]
  | ok =>
    obtain ⟨hf, entry, hs, rfl⟩ := visit_ok hv
    exact h.used (h.linked_of_find hf).1 (hu _ _ hs)

theorem tryDelete {key : BlockId} {id : EntryId} (h : Owned cfg mgr duties todo)
    (hd : mgr.tryDelete cfg key = (.ok id, left)) :
    Owned cfg left ((id, .marked (· = key)) :: duties) todo := by
  obtain ⟨hf, entry, hm, rfl⟩ := visit_ok hd
  obtain ⟨hl, hk⟩ := h.linked_of_find hf
  exact h.retired hl (Entry.retired_of_tryMarkDeleting hm) hk

theorem create {b : BufferManager} (h : b.Covers []) :
    Owned cfg (MetadataManager.create cfg b) [] [] where
  covers := h
  allocated := nodup_nil
  freed := nodup_nil
  obtained _ hm := absurd hm not_mem_nil
  created _ hm := absurd hm not_mem_nil
  distinct := nodup_nil
  duty _ hm := absurd hm not_mem_nil
  mapped hf := by cases hf
  ready hr := by cases hr
  pinned hp := absurd rfl hp
  live hl := by cases hl
  indexed _ := ⟨fun _ => rfl, fun _ => rfl⟩
  ordered hm := by simp [MetadataManager.create] at hm
  scanned _ hm := absurd hm not_mem_nil

end MetadataManager.Owned

structure Threads where
  manager : MetadataManager
  calls : List Call := []

namespace Threads

inductive Step (config : MetadataConfig) : Threads → Threads → Prop where
  | storeBegin (key : BlockId) (size : Nat) (lifeTimeout : TimePoint) (position : UInt32) :
    Step config s
      { manager := (s.manager.newEntry config key size lifeTimeout position).2
        calls := .storeBegin key (s.manager.newEntry config key size lifeTimeout position).1 0 ::
          s.calls }
  | storeEnd (key : BlockId) :
    Step config s { s with manager := (s.manager.storeEnd config key).2 }
  | loadBegin (key : BlockId) :
    Step config s { s with manager := (s.manager.loadBegin config key).2 }
  | loadEnd (key : BlockId) :
    Step config s { s with manager := (s.manager.loadEnd config key).2 }
  | exist (key : BlockId) (now : TimePoint) :
    Step config s { s with manager := (s.manager.exist config now key).2 }
  | delete {id : EntryId} : s.manager.tryDelete config key = (.ok id, left) →
    Step config s { manager := left, calls := .deleteFree key id :: s.calls }
  | deleteRefused : s.manager.tryDelete config key = (.error status, left) →
    Step config s { s with manager := left }
  | performEvict (shard : Nat) (rest : List Nat) (now : TimePoint) :
    Step config s
      { s with calls := .evict (Eviction.start config shard false now s.manager) rest :: s.calls }
  | advance (now : TimePoint) (pick : Nat) : pick < kShardCnt → s.calls.Perm (call :: rest) →
    call.Unlocked config rest →
    Step config s
      { manager := (call.advance config now pick s.manager).1
        calls := (call.advance config now pick s.manager).2.calls ++ rest }

/-- A server whose buffer manager was built from pairs of a slot size and a slot
count, at the addresses that the memory allocator returned. -/
def system (config : MetadataConfig) (localAddr : Nat → Nat) (slots : List (Nat × Nat)) :
    Transition.System Threads Unit where
  init s := ∃ buffers, BufferManager.create localAddr slots = .ok buffers ∧
    s = { manager := MetadataManager.create config buffers }
  step s _ t := Step config s t

variable {config : MetadataConfig} {localAddr : Nat → Nat} {slots : List (Nat × Nat)}

def Accounted (config : MetadataConfig) (s : Threads) : Prop :=
  Owned config s.manager (s.calls.flatMap (Call.duties config)) (s.calls.flatMap Call.todo)

variable {s : Threads}

theorem accounted_step {t : Threads} (h : Accounted config s) (hs : Step config s t) :
    Accounted config t := by
  unfold Accounted at h ⊢
  cases hs with
  | storeBegin => exact h.newEntry
  | storeEnd key => exact h.visit (fun _ _ => Entry.used_of_tryMarkReady) rfl
  | loadBegin key => exact h.visit (fun _ _ => Entry.used_of_tryIncRef) rfl
  | loadEnd key => exact h.visit (fun _ _ => Entry.used_of_tryDecRef) rfl
  | exist key now => exact h.visit (fun _ _ => Entry.used_of_tryMarkHit) rfl
  | delete hd => exact h.tryDelete hd
  | deleteRefused hd => rwa [MetadataManager.visit_error hd]
  | performEvict => exact h.start
  | advance _ _ _ hp =>
    have hc := (h.perm (hp.flatMap_right _)).forget fun p =>
      ((hp.flatMap_right todo).mem_iff).2
    simp only [flatMap_append]
    exact hc.advance rfl

theorem reachable_accounted (h : Transition.Reachable (system config localAddr slots) s) :
    Accounted config s := by
  apply h.invariant (I := Accounted config)
  · rintro s ⟨b, hc, rfl⟩
    exact MetadataManager.Owned.create (BufferManager.Covers.create hc)
  · intro s _ t _ hs ht
    exact accounted_step hs ht

def Holds (s : Threads) (id : EntryId) (size slot : Nat) : Prop :=
  id ∈ s.manager.owners ∧ s.manager.held id = (size, slot)

/-- Each slot is free or held by one entry, and what the operations in progress
will free or unlink is what they marked. -/
structure Exclusive (config : MetadataConfig) (s : Threads) : Prop where
  slot : ∀ {size pool slot}, (size, pool) ∈ s.manager.buffers.pools.entries → slot < pool.slotNum →
    (s.manager.buffers.Available size slot ∧ ∀ id, ¬ s.Holds id size slot) ∨
      (¬ s.manager.buffers.Available size slot ∧ ∃! id, s.Holds id size slot)
  freed : s.manager.freed.Nodup
  frees : ∀ call ∈ s.calls, ∀ id, call.frees = some id → id ∉ s.manager.freed ∧
      ¬ s.manager.buffers.Available (s.manager.heap id).size (s.manager.heap id).buffer.slot
  live : ∀ id, s.manager.Linked config id → (s.manager.heap id).status ≠ .deleting →
    ∃ size slot, s.Holds id size slot
  distinct : ∀ a b size slot, s.Holds a size slot → s.Holds b size slot → a = b
  pinned : ∀ id, 0 < (s.manager.heap id).refCnt →
    (s.manager.heap id).status = .ready ∧ s.manager.Linked config id ∧
      id ∈ s.manager.allocated ∧ id ∉ s.manager.freed
  unlinks : ∀ call ∈ s.calls, ∀ shard key id, call.unlinks config s.manager = some (shard, key, id) →
    id ∈ s.manager.freed ∧ (s.manager.shards shard).metadata.find? key = some id ∧
      ∀ otherShard otherKey,
        (((s.manager.shardDelete shard key).2.shards otherShard).metadata.find? otherKey =
          if otherShard = shard ∧ otherKey = key then none
          else (s.manager.shards otherShard).metadata.find? otherKey)

variable {id : EntryId}

theorem owner_of_frees {c : Call} (h : Accounted config s) (hc : c ∈ s.calls)
    (hf : c.frees = some id) : id ∈ s.manager.owners := by
  have hd : (∃ key, (id, Duty.staged key) ∈ c.duties config) ∨
      ∃ n, (id, Duty.marked n) ∈ c.duties config := by
    unfold frees at hf
    split at hf <;> cases hf
    · exact .inl ⟨_, mem_singleton_self _⟩
    · exact .inr ⟨_, mem_singleton_self _⟩
    · exact .inr ⟨_, mem_cons_of_mem _ mem_cons_self⟩
    · exact .inr ⟨_, mem_cons_self⟩
  rcases hd with ⟨key, hm⟩ | ⟨n, hm⟩
  · exact (h.duty _ (mem_flatMap.2 ⟨c, hc, hm⟩)).2
  · exact (h.duty _ (mem_flatMap.2 ⟨c, hc, hm⟩)).2

theorem emptied_of_unlinks {c : Call} {shard : Nat} {key : BlockId} (h : Accounted config s)
    (ha : c ∈ s.calls) (hu : c.unlinks config s.manager = some (shard, key, id)) :
    id ∈ s.manager.freed ∧ s.manager.Linked config id ∧ (s.manager.heap id).key = key ∧
    config.shardIdx key = shard := by
  have hd : ∃ n, (id, Duty.emptied n) ∈ c.duties config ∧
      (n (s.manager.heap id).key → (s.manager.heap id).key = key ∧
        config.shardIdx key = shard) := by
    unfold unlinks at hu
    split at hu <;> cases hu
    · exact ⟨_, mem_singleton_self _, fun hk => ⟨hk, rfl⟩⟩
    · exact ⟨_, mem_cons_of_mem _ mem_cons_self, fun hs => ⟨rfl, hs⟩⟩
    · exact ⟨_, mem_cons_self, fun hs => ⟨rfl, hs⟩⟩
  obtain ⟨n, hm, hn⟩ := hd
  obtain ⟨hc, hf⟩ := h.duty _ (mem_flatMap.2 ⟨c, ha, hm⟩)
  exact ⟨hf, hc.linked, hn hc.names⟩

theorem find?_shardDelete {mgr : MetadataManager} {shard : Nat} {key : BlockId}
    (h : (mgr.shards shard).metadata.find? key = some id) (other : Nat) (otherKey : BlockId) :
    ((mgr.shardDelete shard key).2.shards other).metadata.find? otherKey =
      if other = shard ∧ otherKey = key then none
      else (mgr.shards other).metadata.find? otherKey := by
  unfold MetadataManager.shardDelete MetadataManager.setShard
  simp only [h]
  by_cases hs : other = shard
  · subst hs
    by_cases hk : otherKey = key
    · subst hk
      simp
    · simp [hk, Table.find?_erase_ne _ hk]
  · simp [hs]

theorem held_inj {a b : EntryId} (h : Accounted config s) (ha : a ∈ s.manager.owners)
    (hb : b ∈ s.manager.owners) (hh : s.manager.held a = s.manager.held b) : a = b :=
  inj_on_of_nodup_map h.covers.nodup ha hb hh

/-- In every state that the worker, poller and eviction threads can reach. -/
theorem slots_exclusive {s : Threads}
    (h : Transition.Reachable (system config localAddr slots) s) : Exclusive config s := by
  have hs := reachable_accounted h
  constructor
  · intro size pool slot hp hlt
    have hu := hs.covers.exclusive hp hlt
    by_cases hr : s.manager.buffers.Available size slot
    · refine .inl ⟨hr, ?_⟩
      rintro id ⟨ho, hh⟩
      exact hu.1 (hh ▸ mem_map_of_mem ho) hr
    obtain ⟨id, ho, hh⟩ := mem_map.1 (hu.2 hr)
    refine .inr ⟨hr, id, ⟨ho, hh⟩, ?_⟩
    rintro other ⟨hot, hsl⟩
    exact held_inj hs hot ho (hsl.trans hh.symm)
  · exact hs.freed
  · intro call hc id he
    have ho := owner_of_frees hs hc he
    have hm : s.manager.held id ∈ s.manager.owners.map s.manager.held :=
      mem_map_of_mem ho
    obtain ⟨pool, hp⟩ := Table.mem_keys_iff.1 (hs.covers.known hm)
    obtain ⟨free, hpa⟩ := hs.covers.pool hp
    have hlt := hpa.lt (BufferManager.mem_slotsOf.2 hm)
    exact ⟨(MetadataManager.mem_owners.1 ho).2, (hs.covers.exclusive hp hlt).1 hm⟩
  · intro id hl hst
    exact ⟨_, _, hs.live hl hst, rfl⟩
  · rintro a b size slot ⟨ha, hso⟩ ⟨hb, ht⟩
    exact held_inj hs ha hb (hso.trans ht.symm)
  · intro id hpi
    have hd := hs.pinned fun hz => absurd (hz ▸ hpi) (by decide)
    have hl := hs.ready hd
    have ho := hs.live hl (by simp [hd])
    obtain ⟨hal, hf⟩ := MetadataManager.mem_owners.1 ho
    exact ⟨hd, hl, hal, hf⟩
  · intro call hc shard key id hn
    obtain ⟨hf, hl, rfl, rfl⟩ := emptied_of_unlinks hs hc hn
    exact ⟨hf, hl, find?_shardDelete hl⟩

def singleSlot : MetadataConfig where
  periodicType := .ttl
  deepType := .ttl
  leaseTime := 0
  defaultEvictRatio := ⟨true, fun _ => 0⟩
  hash _ := 0

/-- A key is stored, made ready and pinned by a load. -/
theorem pinned_exclusive : ∃ s, Transition.Reachable (system singleSlot (fun _ => 4096) [(64, 1)])
    s ∧ (s.manager.heap 0).refCnt = 1 ∧ Exclusive singleSlot s := by
  have hs : Transition.Reachable (system singleSlot (fun _ => 4096) [(64, 1)]) _ :=
    .start ⟨_, rfl, rfl⟩
  have hc := hs.next (a := ()) (.storeBegin (Vector.replicate 16 1) 64 0 0)
  have ha := hc.next (a := ())
    (.advance 0 0 (by decide) (List.Perm.refl _) (by simp [Call.Unlocked]))
  have hu := ha.next (a := ())
    (.advance 0 0 (by decide) (List.Perm.refl [storePublish (Vector.replicate 16 1) 0])
      (by simp [Call.Unlocked]))
  have hr := hu.next (a := ()) (.storeEnd (Vector.replicate 16 1))
  have hp := hr.next (a := ()) (.loadBegin (Vector.replicate 16 1))
  exact ⟨_, hp, by decide +kernel, slots_exclusive hp⟩

end Threads
end UnifiedCache.DramPool
