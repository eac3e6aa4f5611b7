import UnifiedCache.Lib.Chain
import UnifiedCache.Lib.Table
import UnifiedCache.Status

/-! The slots of a DramPool server: a pool of equally sized slots whose free
ones are a linked list in an index array, and one such pool per block size.
Both of the server's pools are created without zeroing. -/
namespace UnifiedCache.DramPool
open List Chain Table

/-- `pointer_` is the head `slot` of the free list with its version `ver`; slots
are numbered from 1, and 0 ends the list. -/
structure IndexPool where
  capacity : Nat
  next : Nat → Nat
  slot : Nat
  ver : UInt32

namespace IndexPool

def setup (capacity : Nat) : IndexPool where
  capacity := capacity
  next slot := if slot = capacity then 0 else slot + 1
  slot := 1
  ver := 0

/-- `none` is `npos`. -/
def acquire (pool : IndexPool) : Option (Nat × IndexPool) :=
  if pool.slot = 0 then
    none
  else
    some (pool.slot - 1, { pool with slot := pool.next pool.slot, ver := pool.ver + 1 })

def release (pool : IndexPool) (index : Nat) : IndexPool :=
  if pool.capacity ≤ index then
    pool
  else
    { pool with
      next := Function.update pool.next (index + 1) pool.slot
      slot := index + 1
      ver := pool.ver + 1 }

def Free (pool : IndexPool) (free : List Nat) : Prop :=
  Links 0 pool.next pool.slot (free.map (· + 1))

variable {pool : IndexPool} {free : List Nat}

theorem Free.unique {other : List Nat} (h : pool.Free free) (ho : pool.Free other) : free = other :=
  map_injective_iff.2 (fun _ _ => Nat.succ.inj) (Links.unique h ho)

private theorem setup_links (capacity : Nat) (left first : Nat) (h : first + left = capacity)
    (hp : 0 < left) :
    Links 0 (setup capacity).next (first + 1) ((List.range' first left).map (· + 1)) := by
  induction left generalizing first with
  | zero => exact absurd hp (Nat.lt_irrefl _)
  | succ left ih =>
    rw [List.range'_succ, map_cons, links_cons]
    refine ⟨rfl, Nat.succ_ne_zero _, ?_⟩
    cases left with
    | zero =>
      have hl : first + 1 = capacity := by omega
      simp [setup, hl]
    | succ =>
      have hm : first + 1 ≠ capacity := by omega
      have hn : (setup capacity).next (first + 1) = first + 1 + 1 := if_neg hm
      rw [hn]
      exact ih (first + 1) (by omega) (Nat.succ_pos _)

theorem free_setup {c : Nat} (h : c ≠ 0) : (setup c).Free (List.range c) := by
  rw [range_eq_range']
  exact setup_links c c 0 (Nat.zero_add _) (Nat.pos_of_ne_zero h)

@[simp] theorem acquire_nil (h : pool.Free []) : pool.acquire = none :=
  if_pos h

theorem acquire_cons {index : Nat} {r : List Nat} (h : pool.Free (index :: r)) :
    ∃ left, pool.acquire = some (index, left) ∧ left.Free r ∧ left.capacity = pool.capacity := by
  obtain ⟨hs, hn, ht⟩ := h
  rw [← hs] at hn ht
  have hd : pool.slot - 1 = index := by
    rw [hs]
    rfl
  refine ⟨{ pool with slot := pool.next pool.slot, ver := pool.ver + 1 }, ?_, ht, rfl⟩
  unfold acquire
  rw [if_neg hn, hd]

theorem free_release {idx : Nat} (h : pool.Free free) (hl : idx < pool.capacity)
    (f : idx ∉ free) : (pool.release idx).Free (idx :: free) := by
  unfold release
  rw [if_neg (Nat.not_le.2 hl)]
  exact Links.push h (by simpa using f) (Nat.succ_ne_zero _)

@[simp] theorem capacity_release (pool : IndexPool) (idx : Nat) :
    (pool.release idx).capacity = pool.capacity := by
  unfold release
  split <;> rfl

end IndexPool

def kDefaultSlotAlignment : Nat := 64

/-- `numeric_limits<size_t>::max()`. -/
def kMaxSize : Nat := 0xFFFFFFFFFFFFFFFF

/-- `numeric_limits<IndexPool::Index>::max()`. -/
def kMaxIndex : Nat := 0xFFFFFFFF

structure BufferPool where
  name : String
  slotCapacity : Nat
  slotStride : Nat
  slotNum : Nat
  localAddr : Nat
  indexPool : IndexPool

namespace BufferPool

structure Slot where
  localAddr : Nat
  length : Nat
  slotIndex : Nat
  offset : Nat
  deriving DecidableEq, Repr

def computeSlotStride (capacity alignment : Nat) : Option Nat :=
  if capacity = 0 ∨ alignment = 0 ∨ kMaxSize - (alignment - 1) < capacity then
    none
  else
    some ((capacity + alignment - 1) / alignment * alignment)

/-- `localAddr` is the region that the memory allocator returned. -/
def init (name : String) (slotCapacity slotNum slotAlignment localAddr : Nat) :
    Expected BufferPool :=
  if slotCapacity = 0 ∨ slotNum = 0 ∨ slotAlignment = 0 then
    .error (Status.InvalidParam
      (name ++ ": slot_capacity, slot_num and slot_alignment must be non-zero"))
  else
    match computeSlotStride slotCapacity slotAlignment with
    | none => .error (Status.InvalidParam (name ++ ": slot layout size overflow"))
    | some slotStride =>
      if kMaxSize / slotStride < slotNum ∨ kMaxIndex ≤ slotNum then
        .error (Status.InvalidParam (name ++ ": slot layout size overflow"))
      else
        .ok { name, slotCapacity, slotStride, slotNum, localAddr
              indexPool := IndexPool.setup slotNum }

def allocate (pool : BufferPool) : Expected (Slot × BufferPool) :=
  match pool.indexPool.acquire with
  | none => .error ⟨.noSpace, pool.name ++ ": no free slots"⟩
  | some (index, indexPool) =>
    let offset := index * pool.slotStride
    .ok ({ localAddr := pool.localAddr + offset, length := pool.slotCapacity
           slotIndex := index, offset }, { pool with indexPool })

def free (pool : BufferPool) (slotIndex : Nat) : Expected BufferPool :=
  if pool.slotNum ≤ slotIndex then
    .error (Status.InvalidParam (pool.name ++ ": slot_index out of range"))
  else
    .ok { pool with indexPool := pool.indexPool.release slotIndex }

/-- The slots in `free` and in `held` are all the slots of the pool, each once. -/
structure Partition (pool : BufferPool) (free held : List Nat) : Prop where
  capacity : pool.indexPool.capacity = pool.slotNum
  list : pool.indexPool.Free free
  all : (free ++ held).Perm (List.range pool.slotNum)

variable {slotCapacity slotNum slotAlignment localAddr : Nat} {pool : BufferPool}

theorem partition_init {n : String}
    (h : init n slotCapacity slotNum slotAlignment localAddr = .ok pool) : pool.Partition
    (List.range pool.slotNum) [] := by
  unfold init at h
  split at h
  · cases h
  rename_i hz
  split at h
  · cases h
  split at h
  · cases h
  · cases h
    refine ⟨rfl, IndexPool.free_setup fun hn => hz (.inr (.inl hn)), ?_⟩
    rw [append_nil]

theorem slotNum_init {n : String}
    (h : init n slotCapacity slotNum slotAlignment localAddr = .ok pool) : pool.slotNum = slotNum ∧
    slotNum < kMaxIndex := by
  unfold init at h
  split_ifs at h
  split at h
  · cases h
  · split_ifs at h with hb
    cases h
    exact ⟨rfl, Nat.lt_of_not_le fun hl => hb (.inr hl)⟩

namespace Partition
variable {pool left : BufferPool} {free held : List Nat} {idx : Nat}

section
variable (h : pool.Partition free held)
include h

theorem lt (hm : idx ∈ held) : idx < pool.slotNum :=
  mem_range.1 (h.all.subset (mem_append_right _ hm))

theorem nodup : (free ++ held).Nodup :=
  h.all.nodup_iff.2 nodup_range

theorem perm {other : List Nat} (hp : held.Perm other) : pool.Partition free other :=
  ⟨h.capacity, h.list, (hp.append_left free).symm.trans h.all⟩

theorem allocate {slot : Slot} (ha : pool.allocate = .ok (slot, left)) : left.slotNum =
    pool.slotNum ∧ slot.slotIndex ∉ held ∧ ∃ rest, free = slot.slotIndex :: rest ∧
    left.Partition rest (slot.slotIndex :: held) := by
  unfold BufferPool.allocate at ha
  cases free with
  | nil =>
    rw [IndexPool.acquire_nil h.list] at ha
    cases ha
  | cons _ rest =>
    obtain ⟨i, hc, hf, hca⟩ := IndexPool.acquire_cons h.list
    rw [hc] at ha
    cases ha
    refine ⟨rfl, ?_, rest, rfl, hca.trans h.capacity, hf, ?_⟩
    · have hn := h.nodup
      rw [cons_append, nodup_cons] at hn
      exact fun hm => hn.1 (mem_append_right _ hm)
    · exact perm_middle.trans h.all

theorem allocate_error {s : Status} (ha : pool.allocate = .error s) :
    free = [] ∧ s.code = .noSpace := by
  unfold BufferPool.allocate at ha
  cases free with
  | nil =>
    rw [IndexPool.acquire_nil h.list] at ha
    cases ha
    exact ⟨rfl, rfl⟩
  | cons =>
    obtain ⟨i, hc, -, -⟩ := IndexPool.acquire_cons h.list
    rw [hc] at ha
    cases ha

end

theorem freed (h : pool.Partition free (idx :: held)) : ∃ left, pool.free idx = .ok left ∧
    left.slotNum = pool.slotNum ∧ left.Partition (idx :: free) held := by
  have hl := h.lt mem_cons_self
  refine ⟨_, if_neg (Nat.not_le.2 hl), rfl, ?_, ?_, ?_⟩
  · exact (IndexPool.capacity_release _ _).trans h.capacity
  · apply IndexPool.free_release h.list
    · rwa [h.capacity]
    · exact fun hm => (disjoint_of_nodup_append h.nodup) hm mem_cons_self
  · exact perm_middle.symm.trans h.all

end Partition
end BufferPool

structure Buffer where
  slot : Nat := 0
  length : Nat := 0
  addr : Nat := 0
  deriving DecidableEq, Repr

structure BufferManager where
  pools : Table Nat BufferPool

namespace BufferManager

def addPool (localAddr : Nat → Nat) (manager : BufferManager) (slots : Nat × Nat) :
    Expected BufferManager :=
  match manager.pools.find? slots.1 with
  | some _ => .ok manager
  | none =>
    match BufferPool.init ("buffer_pool_" ++ toString slots.1) slots.1 slots.2
      kDefaultSlotAlignment (localAddr slots.1) with
    | .error status => .error status
    | .ok pool => .ok { manager with pools := manager.pools.emplace slots.1 pool }

def create (localAddr : Nat → Nat) (slots : List (Nat × Nat)) : Expected BufferManager :=
  slots.foldlM (addPool localAddr) ⟨Table.empty⟩

def allocate (manager : BufferManager) (size : Nat) : Expected (Buffer × BufferManager) :=
  match manager.pools.find? size with
  | none => .error Status.NotFound
  | some pool =>
    match pool.allocate with
    | .error status => .error status
    | .ok (slot, pool) =>
      .ok ({ slot := slot.slotIndex, length := slot.length, addr := slot.localAddr },
        { manager with pools := manager.pools.modify size fun _ => pool })

def free (manager : BufferManager) (size slot : Nat) : Expected BufferManager :=
  match manager.pools.find? size with
  | none => .error Status.NotFound
  | some pool =>
    match pool.free slot with
    | .error status => .error status
    | .ok pool => .ok { manager with pools := manager.pools.modify size fun _ => pool }

def Available (manager : BufferManager) (size slot : Nat) : Prop :=
  ∃ pool free, (size, pool) ∈ manager.pools.entries ∧ pool.indexPool.Free free ∧ slot ∈ free

def slotsOf (size : Nat) (held : List (Nat × Nat)) : List Nat :=
  (held.filter fun p => p.1 = size).map Prod.snd

variable {size slot : Nat} {held : List (Nat × Nat)}

@[simp] theorem mem_slotsOf : slot ∈ slotsOf size held ↔ (size, slot) ∈ held := by
  simp [slotsOf]

@[simp] theorem slotsOf_cons_self :
    slotsOf size ((size, slot) :: held) = slot :: slotsOf size held := by
  simp [slotsOf]

@[simp] theorem slotsOf_cons_ne {other : Nat} (h : other ≠ size) :
    slotsOf size ((other, slot) :: held) = slotsOf size held := by
  simp [slotsOf, h]

/-- `held` are the slots that are out; the rest of each pool is free. -/
structure Covers (manager : BufferManager) (held : List (Nat × Nat)) : Prop where
  pool : ∀ {size pool}, (size, pool) ∈ manager.pools.entries →
    ∃ free, pool.Partition free (slotsOf size held)
  known : ∀ {p}, p ∈ held → p.1 ∈ manager.pools.keys

namespace Covers
variable {mgr left : BufferManager} {held other : List (Nat × Nat)} {size slot : Nat}

theorem empty : Covers ⟨empty⟩ [] :=
  ⟨fun h => absurd h not_mem_nil, fun h => absurd h not_mem_nil⟩

theorem perm (h : Covers mgr held) (hp : held.Perm other) : Covers mgr other := by
  constructor
  · intro size pool ho
    obtain ⟨free, ha⟩ := h.pool ho
    exact ⟨free, ha.perm ((hp.filter _).map _)⟩
  · intro p hm
    exact h.known (hp.mem_iff.2 hm)

variable {localAddr : Nat → Nat}

theorem addPool {s : Nat × Nat} (h : Covers mgr [])
    (ha : BufferManager.addPool localAddr mgr s = .ok left) : Covers left [] := by
  unfold BufferManager.addPool at ha
  split at ha
  · cases ha
    exact h
  rename_i hn
  split at ha
  · cases ha
  rename_i pool hin
  cases ha
  refine ⟨?_, fun hm => absurd hm not_mem_nil⟩
  intro size other hm
  rw [entries_emplace _ (find?_eq_none.1 hn), mem_append, mem_singleton] at hm
  obtain ho | he := hm
  · exact h.pool ho
  · cases he
    exact ⟨_, BufferPool.partition_init hin⟩

theorem create {s : List (Nat × Nat)} (h : BufferManager.create localAddr s = .ok mgr) :
    Covers mgr [] := by
  unfold BufferManager.create at h
  have hs := empty
  generalize (⟨Table.empty⟩ : BufferManager) = start at h hs
  induction s generalizing start with
  | nil =>
    cases h
    exact hs
  | cons first _ ih =>
    rw [foldlM_cons] at h
    cases ha : BufferManager.addPool localAddr start first with
    | error =>
      rw [ha] at h
      cases h
    | ok n =>
      rw [ha] at h
      exact ih n h (hs.addPool ha)

variable {pool : BufferPool}

private theorem replaced {free : List Nat} (h : Covers mgr held)
    (hp : pool.Partition free (slotsOf size other))
    (hr : ∀ s, s ≠ size → slotsOf s other = slotsOf s held)
    (hk : ∀ p ∈ other, p.1 ∈ mgr.pools.keys) :
    Covers { mgr with pools := mgr.pools.modify size fun _ => pool } other := by
  constructor
  · intro s p hm
    rcases mem_modify.1 hm with ⟨hs, ho⟩ | ⟨rfl, old, ho, he⟩
    · rw [hr s hs]
      exact h.pool ho
    · exact ⟨free, he ▸ hp⟩
  · intro p hm
    rw [keys_modify]
    exact hk p hm

theorem allocate {b : Buffer} (h : Covers mgr held) (ha : mgr.allocate size = .ok (b, left)) :
    Covers left ((size, b.slot) :: held) := by
  unfold BufferManager.allocate at ha
  split at ha
  · cases ha
  rename_i pool hf
  have hpo := find?_eq_some.1 hf
  split at ha
  · cases ha
  rename_i hl
  cases ha
  obtain ⟨free, hp⟩ := h.pool hpo
  obtain ⟨-, -, rest, -, hpa⟩ := hp.allocate hl
  rw [← slotsOf_cons_self] at hpa
  refine h.replaced hpa ?_ ?_
  · intro s hs
    exact slotsOf_cons_ne (Ne.symm hs)
  intro p hm
  obtain he | ho := mem_cons.1 hm
  · exact he ▸ mem_keys_of_mem hpo
  · exact h.known ho

theorem freed (h : Covers mgr ((size, slot) :: held)) :
    ∃ left, mgr.free size slot = .ok left ∧ Covers left held := by
  obtain ⟨pool, ho⟩ := mem_keys_iff.1 (h.known mem_cons_self)
  obtain ⟨free, ha⟩ := h.pool ho
  rw [slotsOf_cons_self] at ha
  obtain ⟨po, hf, -, hp⟩ := ha.freed
  refine ⟨_, ?_, h.replaced hp ?_ fun p hm => h.known (mem_cons_of_mem _ hm)⟩
  · unfold BufferManager.free
    rw [find?_eq_some.2 ho]
    simp only [hf]
  · intro s hs
    exact (slotsOf_cons_ne (Ne.symm hs)).symm

theorem nodup (h : Covers mgr held) : held.Nodup := by
  rw [nodup_iff_count_le_one]
  rintro ⟨size, slot⟩
  by_cases hm : (size, slot) ∈ held
  · obtain ⟨pool, hp⟩ := mem_keys_iff.1 (h.known hm)
    obtain ⟨free, ha⟩ := h.pool hp
    have hs : (slotsOf size held).Nodup := ha.nodup.of_append_right
    calc held.count (size, slot) = (held.filter fun p => p.1 = size).count (size, slot) := by
          rw [count_filter (by simp)]
      _ ≤ (slotsOf size held).count (Prod.snd (size, slot)) := count_le_count_map
      _ ≤ 1 := nodup_iff_count_le_one.1 hs _
  · rw [count_eq_zero_of_not_mem hm]
    exact Nat.zero_le _

theorem exclusive (h : Covers mgr held) (ho : (size, pool) ∈ mgr.pools.entries)
    (hl : slot < pool.slotNum) : (size, slot) ∈ held ↔ ¬ mgr.Available size slot := by
  obtain ⟨free, hp⟩ := h.pool ho
  constructor
  · rintro hm ⟨p, free', hpo, hf, hs⟩
    obtain rfl := eq_of_mem ho hpo
    obtain rfl := hp.list.unique hf
    exact disjoint_of_nodup_append hp.nodup hs (mem_slotsOf.2 hm)
  intro hu
  have ha := hp.all.mem_iff.2 (mem_range.2 hl)
  rw [mem_append, mem_slotsOf] at ha
  exact ha.resolve_left fun hm => hu ⟨pool, free, ho, hp.list, hm⟩

end Covers
end BufferManager
end UnifiedCache.DramPool
