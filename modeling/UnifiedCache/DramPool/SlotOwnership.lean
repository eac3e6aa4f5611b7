import UnifiedCache.DramPool.Metadata
import UnifiedCache.Lib.Transition

/-! Who holds the slots of a DramPool server while any number of operations
interleave. The operations in progress owe duties to entries: an entry is being
drafted or is staged for publication by one of them, or is marked and waits for
its slot to be freed, or is emptied and waits to be unlinked. -/
namespace UnifiedCache.DramPool
open List Function MetadataManager EvictionPolicy Table
open Dram (BlockId)

namespace MetadataManager
variable (config : MetadataConfig)

def owners (manager : MetadataManager) : List EntryId :=
  manager.allocated.filter fun id => id ∉ manager.freed

def held (manager : MetadataManager) (id : EntryId) : Nat × Nat :=
  ((manager.heap id).size, (manager.heap id).buffer.slot)

def Linked (manager : MetadataManager) (id : EntryId) : Prop :=
  manager.find config (manager.heap id).key = some id

variable {manager : MetadataManager} {id : EntryId}

@[simp] theorem mem_owners : id ∈ manager.owners ↔ id ∈ manager.allocated ∧ id ∉ manager.freed := by
  simp [owners]

theorem owners_cons_allocated {buffers : BufferManager} (h : id ∉ manager.freed) :
    owners { manager with buffers, allocated := id :: manager.allocated } =
      id :: manager.owners := by
  unfold owners
  rw [filter_cons_of_pos (by simpa using h)]

theorem owners_perm_cons_freed (hn : manager.allocated.Nodup) (h : id ∈ manager.owners) :
    manager.owners.Perm (id :: manager.allocated.filter fun o => o ∉ id :: manager.freed) := by
  have he := perm_cons_erase h
  have hf := (hn.filter fun o => o ∉ manager.freed).erase_eq_filter id
  rw [filter_filter] at hf
  rw [show manager.owners.erase id = _ from hf] at he
  refine he.trans (List.Perm.of_eq ?_)
  congr 2
  funext o
  simp
  rfl

/-- What a duty requires of its entry. `names` tells by which keys the operation
will find the entry again. -/
inductive Duty where
  | drafting (key : BlockId)
  | staged (key : BlockId)
  | marked (names : BlockId → Prop)
  | emptied (names : BlockId → Prop)

structure Unpublished (manager : MetadataManager) (id : EntryId) (key : BlockId) : Prop where
  created : id < manager.fresh
  key : (manager.heap id).key = key
  status : (manager.heap id).status = .initialized
  unpinned : (manager.heap id).refCnt = 0
  unlinked : ¬ manager.Linked config id

structure Condemned (manager : MetadataManager) (id : EntryId) (names : BlockId → Prop) :
    Prop where
  names : names (manager.heap id).key
  status : (manager.heap id).status = .deleting
  linked : manager.Linked config id

def Duty.Holds (manager : MetadataManager) (id : EntryId) : Duty → Prop
  | .drafting key => manager.Unpublished config id key ∧ id ∉ manager.allocated
  | .staged key => manager.Unpublished config id key ∧ id ∈ manager.owners
  | .marked names => manager.Condemned config id names ∧ id ∈ manager.owners
  | .emptied names => manager.Condemned config id names ∧ id ∈ manager.freed

structure Indexed (shard : ShardMetadata) : Prop where
  periodic : ∀ key, shard.periodicEvictor.index.find? key = shard.metadata.find? key
  deep : ∀ key, shard.deepEvictor.index.find? key = shard.metadata.find? key

/-- The slots are accounted for. `duties` are those of all operations in progress
and `todo` the entries that evictions will still look at, with their shard. -/
structure Owned (manager : MetadataManager) (duties : List (EntryId × Duty))
    (todo : List (EntryId × Nat)) : Prop where
  covers : manager.buffers.Covers (manager.owners.map manager.held)
  allocated : manager.allocated.Nodup
  freed : manager.freed.Nodup
  obtained : ∀ id ∈ manager.freed, id ∈ manager.allocated
  created : ∀ id ∈ manager.allocated, id < manager.fresh
  distinct : (duties.map Prod.fst).Nodup
  duty : ∀ d ∈ duties, d.2.Holds config manager d.1
  mapped : ∀ {shard key id}, (manager.shards shard).metadata.find? key = some id →
    id < manager.fresh ∧ (manager.heap id).key = key ∧ config.shardIdx key = shard
  ready : ∀ {id}, (manager.heap id).status = .ready → manager.Linked config id
  pinned : ∀ {id}, (manager.heap id).refCnt ≠ 0 → (manager.heap id).status = .ready
  live : ∀ {id}, manager.Linked config id → (manager.heap id).status ≠ .deleting →
    id ∈ manager.owners
  indexed : ∀ shard, Indexed (manager.shards shard)
  ordered : ∀ {shard id}, id ∈ (manager.shards shard).periodicEvictor.entries ∨
      id ∈ (manager.shards shard).deepEvictor.entries →
    id < manager.fresh ∧ config.shardIdx (manager.heap id).key = shard
  scanned : ∀ p ∈ todo, p.1 < manager.fresh ∧ config.shardIdx (manager.heap p.1).key = p.2

variable {config} {manager left : MetadataManager} {duties : List (EntryId × Duty)}
  {todo : List (EntryId × Nat)} {id : EntryId} {entry : Entry} {duty : Duty}

theorem Duty.Holds.frame (h : duty.Holds config manager id)
    (heap : left.heap id = manager.heap id) (fresh : manager.fresh ≤ left.fresh)
    (linked : left.Linked config id ↔ manager.Linked config id)
    (allocated : id ∈ left.allocated ↔ id ∈ manager.allocated)
    (freed : id ∈ left.freed ↔ id ∈ manager.freed) : duty.Holds config left id := by
  have ho : id ∈ left.owners ↔ id ∈ manager.owners := by
    rw [mem_owners, mem_owners, allocated, freed]
  have hn : ∀ key, manager.Unpublished config id key →
      left.Unpublished config id key := by
    intro key hu
    exact ⟨lt_of_lt_of_le hu.created fresh, heap ▸ hu.key, heap ▸ hu.status, heap ▸ hu.unpinned,
      fun hl => hu.unlinked (linked.1 hl)⟩
  have hco : ∀ names, manager.Condemned config id names →
      left.Condemned config id names := by
    intro names hc
    exact ⟨heap ▸ hc.names, heap ▸ hc.status, linked.2 hc.linked⟩
  cases duty with
  | drafting key => exact ⟨hn key h.1, fun hm => h.2 (allocated.1 hm)⟩
  | staged key => exact ⟨hn key h.1, ho.2 h.2⟩
  | marked names => exact ⟨hco names h.1, ho.2 h.2⟩
  | emptied names => exact ⟨hco names h.1, freed.2 h.2⟩

@[simp] theorem find_setEntry (key : BlockId) :
    (manager.setEntry id entry).find config key = manager.find config key := rfl

theorem linked_setEntry_of_ne {other : EntryId} (hn : other ≠ id) :
    (manager.setEntry id entry).Linked config other ↔ manager.Linked config other := by
  unfold Linked
  rw [find_setEntry, heap_setEntry_of_ne _ _ hn]

theorem linked_setEntry_self (hk : entry.key = (manager.heap id).key) :
    (manager.setEntry id entry).Linked config id ↔ manager.Linked config id := by
  unfold Linked
  rw [find_setEntry, heap_setEntry_self, hk]

namespace Owned

theorem cons (h : Owned config manager duties todo) (hd : id ∉ duties.map Prod.fst)
    (hu : duty.Holds config manager id) : Owned config manager ((id, duty) :: duties) todo := by
  refine { h with distinct := ?_, duty := ?_ }
  · exact nodup_cons.2 ⟨hd, h.distinct⟩
  intro d hm
  obtain he | ho := mem_cons.1 hm
  · exact he ▸ hu
  · exact h.duty d ho

section
variable (h : Owned config manager ((id, duty) :: duties) todo)
include h

theorem tail : Owned config manager duties todo :=
  { h with
    distinct := (nodup_cons.1 h.distinct).2
    duty := fun d hm => h.duty d (mem_cons_of_mem _ hm) }

theorem head : duty.Holds config manager id :=
  h.duty _ mem_cons_self

theorem notMem : id ∉ duties.map Prod.fst :=
  (nodup_cons.1 h.distinct).1

end

section
variable (h : Owned config manager duties todo)
include h

theorem perm {o : List (EntryId × Duty)} (hp : duties.Perm o) : Owned config manager o todo :=
  { h with
    distinct := (hp.map _).nodup_iff.1 h.distinct
    duty := fun d hm => h.duty d (hp.mem_iff.2 hm) }

theorem forget {other : List (EntryId × Nat)} (hs : ∀ p ∈ other, p ∈ todo) :
    Owned config manager duties other :=
  { h with scanned := fun p hm => h.scanned p (hs p hm) }

section
variable (hd : id ∉ duties.map Prod.fst) (ready : entry.status = .ready → manager.Linked config id)
  (pinned : entry.refCnt ≠ 0 → entry.status = .ready)
  (live : manager.Linked config id → entry.status ≠ .deleting → id ∈ manager.owners)
include hd ready pinned live

/-- Another entry in the place of one that nobody works on. Its key may be another one if it has
not been created before, and its memory if it holds none. -/
theorem replaced (hk : id < manager.fresh → entry.key = (manager.heap id).key)
    (hh : id ∈ manager.owners → (manager.setEntry id entry).held id = manager.held id)
    (hl : (manager.setEntry id entry).Linked config id ↔ manager.Linked config id) :
    Owned config (manager.setEntry id entry) duties todo := by
  have he : ∀ {other}, other ≠ id → (manager.setEntry id entry).heap other = manager.heap other :=
    heap_setEntry_of_ne entry manager
  have hs := heap_setEntry_self id entry manager
  have hks : ∀ other < manager.fresh,
      ((manager.setEntry id entry).heap other).key = (manager.heap other).key := by
    grind
  have hls : ∀ other, (manager.setEntry id entry).Linked config other ↔
      manager.Linked config other := by
    intro other
    by_cases ho : other = id
    · exact ho ▸ hl
    · exact linked_setEntry_of_ne ho
  refine { h with covers := ?_, duty := ?_, mapped := ?_, ready := ?_, pinned := ?_,
                  live := ?_, ordered := ?_, scanned := ?_ }
  · have hm : manager.owners.map (manager.setEntry id entry).held =
        manager.owners.map manager.held := by
      refine map_congr_left fun other hm => ?_
      by_cases ho : other = id
      · subst ho
        exact hh hm
      · unfold held
        rw [he ho]
    exact hm ▸ h.covers
  · intro d hm
    have hn : d.1 ≠ id := fun he => hd (he ▸ mem_map_of_mem hm)
    exact (h.duty d hm).frame (he hn) (le_refl _) (hls _) Iff.rfl Iff.rfl
  · intro s key other hf
    obtain ⟨hl, ho, hs⟩ := h.mapped hf
    exact ⟨hl, (hks _ hl).trans ho, hs⟩
  · grind [h.ready]
  · grind [h.pinned]
  · have ho : (manager.setEntry id entry).owners = manager.owners := rfl
    have hv := @h.live
    grind
  · intro s other hm
    obtain ⟨hl, hs⟩ := h.ordered hm
    exact ⟨hl, (hks _ hl).symm ▸ hs⟩
  · intro p hm
    obtain ⟨hl, hs⟩ := h.scanned p hm
    exact ⟨hl, (hks _ hl).symm ▸ hs⟩

theorem setEntry (same : (manager.heap id).SameBlock entry) :
    Owned config (manager.setEntry id entry) duties todo := by
  refine h.replaced hd ready pinned live (fun _ => same.key) (fun _ => ?_)
    (linked_setEntry_self same.key)
  unfold held
  rw [heap_setEntry_self, same.size, same.buffer]

end

theorem notMem_of_linked (hl : manager.Linked config id)
    (hs : (manager.heap id).status ≠ .deleting) : id ∉ duties.map Prod.fst := by
  intro hm
  obtain ⟨⟨o, duty⟩, hd, rfl⟩ := mem_map.1 hm
  have hh := h.duty _ hd
  cases duty with
  | marked | emptied => exact hs hh.1.status
  | _ => exact hh.1.unlinked hl

end

variable {key : BlockId}

theorem linked_of_find (h : Owned config manager duties todo)
    (hf : manager.find config key = some id) :
    manager.Linked config id ∧ (manager.heap id).key = key := by
  have hk := (h.mapped hf).2.1
  refine ⟨?_, hk⟩
  unfold Linked
  rw [hk, hf]

theorem used (h : Owned config manager duties todo) (hl : manager.Linked config id)
    (hu : (manager.heap id).Used entry) : Owned config (manager.setEntry id entry) duties todo := by
  refine h.setEntry (h.notMem_of_linked hl hu.live) ?_ ?_ ?_ hu.toSameBlock
  · exact fun _ => hl
  · exact fun _ => hu.status
  · exact fun _ _ => h.live hl hu.live

variable {names : BlockId → Prop}

section
variable (h : Owned config manager duties todo)
include h

theorem retired (hl : manager.Linked config id) (hr : (manager.heap id).Retired entry)
    (hn : names (manager.heap id).key) :
    Owned config (manager.setEntry id entry) ((id, .marked names) :: duties) todo := by
  have hd := h.notMem_of_linked hl hr.live
  have hs : Owned config (manager.setEntry id entry) duties todo := by
    refine h.setEntry hd ?_ ?_ ?_ hr.toSameBlock
    · exact fun hrd => absurd (hr.status.symm.trans hrd) (by decide)
    · exact fun hp => absurd hr.unpinned hp
    · exact fun _ ht => absurd hr.status ht
  apply hs.cons hd
  refine ⟨⟨?_, ?_, ?_⟩, h.live hl hr.live⟩
  · rwa [heap_setEntry_self, hr.key]
  · rw [heap_setEntry_self, hr.status]
  · exact (linked_setEntry_self hr.key).2 hl

theorem not_found_of_unlinked {s : Nat} (hu : ¬ manager.Linked config id) :
    (manager.shards s).metadata.find? key ≠ some id := by
  intro hf
  obtain ⟨-, hk, hs⟩ := h.mapped hf
  apply hu
  unfold Linked find
  rwa [hk, hs]

theorem redrafted (hd : id ∉ duties.map Prod.fst) (hun : ¬ manager.Linked config id)
    (hou : id ∉ manager.owners) (hk : id < manager.fresh → entry.key = (manager.heap id).key)
    (ht : entry.status = .initialized) (hu : entry.refCnt = 0) :
    Owned config (manager.setEntry id entry) duties todo := by
  refine h.replaced hd ?_ (fun hp => absurd hu hp) (fun hl => absurd hl hun) hk
    (fun hm => absurd hm hou) (iff_of_false ?_ hun)
  · intro hr
    rw [ht] at hr
    cases hr
  · exact h.not_found_of_unlinked hun

theorem newEntry {size : Nat} {lifeTimeout : TimePoint} {position : UInt32} : Owned config
    (manager.newEntry config key size lifeTimeout position).2 ((manager.fresh,
    .drafting key) :: duties) todo := by
  have hn : ∀ key, manager.find config key ≠ some manager.fresh := by
    intro key hf
    exact Nat.lt_irrefl _ (h.mapped hf).1
  have ho : manager.fresh ∉ manager.allocated := fun hm =>
    Nat.lt_irrefl _ (h.created _ hm)
  have hid : manager.fresh ∉ duties.map Prod.fst := by
    intro hm
    obtain ⟨⟨o, duty⟩, hd, he⟩ := mem_map.1 hm
    subst he
    have hh := h.duty _ hd
    cases duty with
    | marked | emptied => exact hn _ hh.1.linked
    | _ => exact Nat.lt_irrefl _ hh.1.created
  have hr : Owned config (manager.setEntry manager.fresh
      { key, size, lifeTimeout, position, shard := config.shardIdx key }) duties todo :=
    h.redrafted hid (hn _) (fun hm => ho (mem_owners.1 hm).1)
      (fun hl => absurd hl (Nat.lt_irrefl _)) rfl rfl
  have hb : Owned config (manager.newEntry config key size lifeTimeout position).2
      duties todo := by
    refine { hr with created := ?_, duty := ?_, mapped := ?_, ordered := ?_, scanned := ?_ }
    · exact fun o hm => Nat.lt_succ_of_lt (hr.created o hm)
    · intro d hm
      exact (hr.duty d hm).frame rfl (Nat.le_succ _) Iff.rfl Iff.rfl Iff.rfl
    · intro shard key o hf
      obtain ⟨hl, hs⟩ := hr.mapped hf
      exact ⟨Nat.lt_succ_of_lt hl, hs⟩
    · intro shard o hm
      obtain ⟨hl, hs⟩ := hr.ordered hm
      exact ⟨Nat.lt_succ_of_lt hl, hs⟩
    · intro p hm
      obtain ⟨hl, hs⟩ := hr.scanned p hm
      exact ⟨Nat.lt_succ_of_lt hl, hs⟩
  apply hb.cons hid
  refine ⟨⟨Nat.lt_succ_self _, ?_, ?_, ?_, hn _⟩, ho⟩ <;>
    simp [MetadataManager.newEntry, MetadataManager.setEntry]

theorem obtain_slot {b : Buffer} {buffers : BufferManager} (hd : id ∉ duties.map Prod.fst)
    (hl : id < manager.fresh) (hu : id ∉ manager.allocated)
    (hb : manager.buffers.allocate (manager.heap id).size = .ok (b, buffers))
    (hbu : (manager.heap id).buffer = b) :
    Owned config { manager with buffers, allocated := id :: manager.allocated } duties todo := by
  have hf : id ∉ manager.freed := fun hm => hu (h.obtained id hm)
  refine { h with covers := ?_, allocated := ?_, obtained := ?_, created := ?_,
                  duty := ?_, live := ?_ }
  · rw [owners_cons_allocated hf, map_cons]
    have hn := h.covers.allocate hb
    rw [← hbu] at hn
    exact hn
  · exact nodup_cons.2 ⟨hu, h.allocated⟩
  · exact fun o hm => mem_cons_of_mem _ (h.obtained o hm)
  · intro o hm
    obtain he | ho := mem_cons.1 hm
    · exact he ▸ hl
    · exact h.created o ho
  · intro d hm
    have hne : d.1 ≠ id := fun he => hd (he ▸ mem_map_of_mem hm)
    refine (h.duty d hm).frame rfl (le_refl _) Iff.rfl ?_ Iff.rfl
    simp [hne]
  · intro o hk hs
    obtain ⟨ho, hno⟩ := mem_owners.1 (h.live hk hs)
    exact mem_owners.2 ⟨mem_cons_of_mem _ ho, hno⟩

end

theorem allocate (h : Owned config manager ((id, .drafting key) :: duties) todo)
    (ha : manager.allocate id = .ok left) :
    Owned config left ((id, .staged key) :: duties) todo := by
  obtain ⟨hd, ho⟩ := h.head
  unfold MetadataManager.allocate at ha
  cases hb : manager.buffers.allocate (manager.heap id).size with
  | error => simp [hb] at ha
  | ok r =>
    obtain ⟨buffer, b⟩ := r
    simp only [hb, Except.ok.injEq] at ha
    subst ha
    have hf : Owned config (manager.setEntry id { manager.heap id with buffer }) duties todo :=
      h.tail.redrafted h.notMem hd.unlinked (fun hm => ho (mem_owners.1 hm).1)
        (fun _ => rfl) hd.status hd.unpinned
    have hs := hf.obtain_slot h.notMem hd.created ho
      (by rw [heap_setEntry_self]; exact hb) (by rw [heap_setEntry_self])
    apply hs.cons h.notMem
    have hr : id ∉ manager.freed := fun hm => ho (h.obtained id hm)
    refine ⟨⟨hd.created, ?_, ?_, ?_, ?_⟩, mem_owners.2 ⟨mem_cons_self, hr⟩⟩
    · simpa [MetadataManager.setEntry] using hd.key
    · simpa [MetadataManager.setEntry] using hd.status
    · simpa [MetadataManager.setEntry] using hd.unpinned
    intro hl
    apply hd.unlinked
    have hk : (({ manager.heap id with buffer } : Entry)).key = (manager.heap id).key := rfl
    exact (linked_setEntry_self hk).1 hl

theorem free (h : Owned config manager duties todo) (hd : id ∉ duties.map Prod.fst)
    (hw : id ∈ manager.owners)
    (hde : manager.Linked config id → (manager.heap id).status = .deleting) :
    Owned config (manager.free id) duties todo := by
  obtain ⟨ha, hf⟩ := mem_owners.1 hw
  have hp := owners_perm_cons_freed h.allocated hw
  obtain ⟨buffers, hr, hc⟩ := (h.covers.perm (hp.map manager.held)).freed
  have hq : manager.free id = { manager with buffers, freed := id :: manager.freed } := by
    unfold MetadataManager.free
    simp only [hr]
  rw [hq]
  refine { h with covers := hc, freed := ?_, obtained := ?_, duty := ?_, live := ?_ }
  · exact nodup_cons.2 ⟨hf, h.freed⟩
  · intro o hm
    obtain he | ho := mem_cons.1 hm
    · exact he ▸ ha
    · exact h.obtained o ho
  · intro d hm
    have hn : d.1 ≠ id := fun hq => hd (hq ▸ mem_map_of_mem hm)
    refine (h.duty d hm).frame rfl (le_refl _) Iff.rfl Iff.rfl ?_
    simp [hn]
  intro o hl hs
  obtain ⟨ho, hno⟩ := mem_owners.1 (h.live hl hs)
  refine mem_owners.2 ⟨ho, ?_⟩
  intro hm
  obtain he | hb := mem_cons.1 hm
  · exact hs (he ▸ hde (he ▸ hl))
  · exact hno hb

theorem free_staged (h : Owned config manager ((id, .staged key) :: duties) todo) :
    Owned config (manager.free id) duties todo :=
  h.tail.free h.notMem h.head.2 fun hl => absurd hl h.head.1.unlinked

theorem free_marked (h : Owned config manager ((id, .marked names) :: duties) todo) :
    Owned config (manager.free id) ((id, .emptied names) :: duties) todo := by
  obtain ⟨hc, ho⟩ := h.head
  apply (h.tail.free h.notMem ho fun _ => hc.status).cons h.notMem
  refine ⟨⟨?_, ?_, ?_⟩, ?_⟩
  · rw [heap_free]
    exact hc.names
  · rw [heap_free]
    exact hc.status
  · unfold Linked find
    rw [heap_free, shards_free]
    exact hc.linked
  · rw [freed_free]
    exact mem_cons_self

structure Relinked (config : MetadataConfig) (manager : MetadataManager) (id : EntryId)
    (value : ShardMetadata) : Prop where
  rest : ∀ key, key ≠ (manager.heap id).key → value.metadata.find? key =
    (manager.shards (config.shardIdx (manager.heap id).key)).metadata.find? key
  now : ∀ other, value.metadata.find? (manager.heap id).key = some other → other = id
  before : ∀ other, manager.find config (manager.heap id).key = some other → other = id
  indexed : Indexed value
  ordered : ∀ other, other ∈ value.periodicEvictor.entries ∨ other ∈ value.deepEvictor.entries →
    other = id ∨
    other ∈ (manager.shards (config.shardIdx (manager.heap id).key)).periodicEvictor.entries ∨
    other ∈ (manager.shards (config.shardIdx (manager.heap id).key)).deepEvictor.entries

variable {value : ShardMetadata}

theorem Relinked.linked_of_ne {other : EntryId} (h : Relinked config manager id value)
    (hn : other ≠ id) :
    (manager.setShard (config.shardIdx (manager.heap id).key) value).Linked config other ↔
    manager.Linked config other := by
  unfold Linked find setShard
  simp only
  by_cases hk : (manager.heap other).key = (manager.heap id).key
  · rw [hk, update_self]
    exact ⟨fun hno => absurd (h.now _ hno) hn, fun ho => absurd (h.before _ ho) hn⟩
  by_cases hs : config.shardIdx (manager.heap other).key = config.shardIdx (manager.heap id).key
  · rw [hs, update_self, h.rest _ hk]
  · rw [update_of_ne hs]

theorem relinked (h : Owned config manager duties todo) (hr : Relinked config manager id value)
    (hd : id ∉ duties.map Prod.fst) (hl : id < manager.fresh)
    (hrd : (manager.heap id).status ≠ .ready)
    (hli : value.metadata.find? (manager.heap id).key = some id →
      (manager.heap id).status ≠ .deleting → id ∈ manager.owners) : Owned config
    (manager.setShard (config.shardIdx (manager.heap id).key) value) duties todo := by
  refine { h with duty := ?_, mapped := ?_, ready := ?_, live := ?_, indexed := ?_,
                  ordered := ?_ }
  · intro d hm
    have hn : d.1 ≠ id := fun he => hd (he ▸ mem_map_of_mem hm)
    exact (h.duty d hm).frame rfl (le_refl _) (hr.linked_of_ne hn) Iff.rfl Iff.rfl
  · intro s key o hf
    unfold setShard at hf ⊢
    simp only at hf ⊢
    by_cases hs : s = config.shardIdx (manager.heap id).key
    · subst hs
      rw [update_self] at hf
      by_cases hk : key = (manager.heap id).key
      · subst hk
        obtain rfl := hr.now _ hf
        exact ⟨hl, rfl, rfl⟩
      · rw [hr.rest _ hk] at hf
        exact h.mapped hf
    · rw [update_of_ne hs] at hf
      exact h.mapped hf
  · intro o ht
    by_cases he : o = id
    · exact absurd (he ▸ ht) hrd
    · exact (hr.linked_of_ne he).2 (h.ready ht)
  · intro o hlk ht
    by_cases he : o = id
    · subst he
      apply hli _ ht
      simpa [Linked, find, setShard] using hlk
    · exact h.live ((hr.linked_of_ne he).1 hlk) ht
  · intro s
    unfold setShard
    by_cases hs : s = config.shardIdx (manager.heap id).key
    · simp only [hs, update_self]
      exact hr.indexed
    · simp only [update_of_ne hs]
      exact h.indexed s
  intro s o hm
  unfold setShard at hm ⊢
  simp only at hm ⊢
  by_cases hs : s = config.shardIdx (manager.heap id).key
  · subst hs
    rw [update_self] at hm
    obtain rfl | ho := hr.ordered o hm
    · exact ⟨hl, rfl⟩
    · exact h.ordered ho
  · rw [update_of_ne hs] at hm
    exact h.ordered hm

theorem shardStoreBegin {s : Status} (h : Owned config manager ((id, .staged key) :: duties) todo)
    (hs : manager.shardStoreBegin (config.shardIdx key) key id = (s, left)) : (s = Status.OK ∧
    Owned config left duties todo) ∨ (s = Status.DuplicateKey ∧ left = manager) := by
  obtain ⟨ht, hw⟩ := h.head
  obtain ⟨hl, rfl, hst, hpi, _⟩ := ht
  unfold shardStoreBegin at hs
  cases hf : (manager.shards (config.shardIdx (manager.heap id).key)).metadata.find?
      (manager.heap id).key with
  | some o =>
    simp only [hf, Prod.mk.injEq] at hs
    exact .inr ⟨hs.1.symm, hs.2.symm⟩
  | none =>
    have hin : (manager.heap id).isInitial = true := by
      simp [Entry.isInitial, hst, hpi]
    obtain ⟨hp, hd⟩ := h.indexed (config.shardIdx (manager.heap id).key)
    simp only [hf, hin, addKey_of_none ((hp _).trans hf),
      addKey_of_none ((hd _).trans hf), Bool.true_eq_false, if_false,
      Prod.mk.injEq] at hs
    obtain ⟨rfl, rfl⟩ := hs
    have ho := find?_eq_none.1 hf
    refine .inl ⟨rfl, h.tail.relinked ⟨?_, ?_, ?_, ?_, ?_⟩ h.notMem hl ?_ fun _ _ => hw⟩
    · exact fun key he => find?_emplace_ne _ ho he
    · intro o hn
      rw [find?_emplace _ ho] at hn
      exact (Option.some.inj hn).symm
    · intro o hb
      exact absurd (hf.symm.trans hb) (by simp)
    · exact ⟨find?_emplace_congr hp ho, find?_emplace_congr hd ho⟩
    · intro o hm
      simp only [mem_insert] at hm
      tauto
    · rw [hst]
      decide

theorem shardDelete (h : Owned config manager ((id, .emptied names) :: duties) todo) :
    Owned config (manager.shardDelete (config.shardIdx (manager.heap id).key)
      (manager.heap id).key).2 duties todo := by
  obtain ⟨⟨-, hs, hl⟩, -⟩ := h.head
  obtain ⟨hp, hd⟩ := h.indexed (config.shardIdx (manager.heap id).key)
  have hf : (manager.shards (config.shardIdx (manager.heap id).key)).metadata.find?
      (manager.heap id).key = some id := hl
  unfold MetadataManager.shardDelete
  simp only [hf]
  refine h.tail.relinked ⟨?_, ?_, ?_, ⟨?_, ?_⟩, ?_⟩ h.notMem (h.mapped hf).1 ?_ ?_
  · exact fun key he => Table.find?_erase_ne _ he
  · intro o hn
    rw [Table.find?_erase] at hn
    cases hn
  · intro o hb
    exact Option.some.inj (hb.symm.trans hl)
  · rw [EvictionPolicy.index_deleteKey]
    exact Table.find?_erase_congr hp
  · rw [EvictionPolicy.index_deleteKey]
    exact Table.find?_erase_congr hd
  · intro o hm
    exact .inr (hm.imp EvictionPolicy.mem_of_mem_deleteKey EvictionPolicy.mem_of_mem_deleteKey)
  · rw [hs]
    decide
  · exact fun _ hli => absurd hs hli

end Owned
end MetadataManager
end UnifiedCache.DramPool
