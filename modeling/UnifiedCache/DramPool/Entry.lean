import UnifiedCache.Dram.Types
import UnifiedCache.DramPool.BufferPool

/-! The record kept for each key of a DramPool server, and the eviction policies
that order these records. Each `try…` function is one critical section of the
record's spin lock; `none` is the source's `false`. -/
namespace UnifiedCache.DramPool
open Dram (BlockId)

inductive EntryStatus where
  | initialized | ready | deleting
  deriving DecidableEq, Repr

structure Entry where
  key : BlockId
  shard : Nat := 0
  size : Nat := 0
  buffer : Buffer := {}
  refCnt : UInt32 := 0
  leaseTimeout : TimePoint := 0
  status : EntryStatus := .initialized
  lifeTimeout : TimePoint := 0
  position : UInt32 := 0
  deriving DecidableEq, Repr

namespace Entry

def isInitial (entry : Entry) : Bool :=
  entry.status = .initialized && entry.refCnt = 0

def tryMarkDeleting (entry : Entry) : Option Entry :=
  if entry.status = .deleting then none
  else if entry.refCnt ≠ 0 then none
  else some { entry with status := .deleting }

def tryMarkEvicting (now : TimePoint) (entry : Entry) : Option Entry :=
  if entry.status ≠ .ready then none
  else if entry.refCnt ≠ 0 then none
  else if now < entry.leaseTimeout then none
  else some { entry with status := .deleting }

def tryMarkReady (entry : Entry) : Option Entry :=
  if entry.status ≠ .initialized then none
  else some { entry with status := .ready }

def tryMarkHit (timeout : TimePoint) (entry : Entry) : Option Entry :=
  if entry.status ≠ .ready then none
  else some { entry with leaseTimeout := timeout }

def tryIncRef (entry : Entry) : Option Entry :=
  if entry.status ≠ .ready then none
  else some { entry with refCnt := entry.refCnt + 1 }

def tryDecRef (entry : Entry) : Option Entry :=
  if entry.status ≠ .ready then none
  else if entry.refCnt = 0 then none
  else some { entry with refCnt := entry.refCnt - 1 }

variable {entry left : Entry}

@[simp] theorem tryMarkDeleting_eq_some : entry.tryMarkDeleting = some left ↔
    entry.status ≠ .deleting ∧ entry.refCnt = 0 ∧ left = { entry with status := .deleting } := by
  grind [tryMarkDeleting]

variable {now timeout : TimePoint}

@[simp] theorem tryMarkEvicting_eq_some : entry.tryMarkEvicting now = some left ↔
    entry.status = .ready ∧ entry.refCnt = 0 ∧ ¬ now < entry.leaseTimeout ∧
      left = { entry with status := .deleting } := by
  grind [tryMarkEvicting]

@[simp] theorem tryMarkReady_eq_some : entry.tryMarkReady = some left ↔
    entry.status = .initialized ∧ left = { entry with status := .ready } := by
  grind [tryMarkReady]

@[simp] theorem tryMarkHit_eq_some : entry.tryMarkHit timeout = some left ↔
    entry.status = .ready ∧ left = { entry with leaseTimeout := timeout } := by
  grind [tryMarkHit]

@[simp] theorem tryIncRef_eq_some : entry.tryIncRef = some left ↔
    entry.status = .ready ∧ left = { entry with refCnt := entry.refCnt + 1 } := by
  grind [tryIncRef]

@[simp]
theorem tryDecRef_eq_some : entry.tryDecRef = some left ↔ entry.status = .ready ∧ entry.refCnt ≠ 0 ∧
      left = { entry with refCnt := entry.refCnt - 1 } := by
  grind [tryDecRef]

structure SameBlock (entry left : Entry) : Prop where
  key : left.key = entry.key
  size : left.size = entry.size
  buffer : left.buffer = entry.buffer

structure Used (entry left : Entry) : Prop extends SameBlock entry left where
  live : entry.status ≠ .deleting
  status : left.status = .ready

structure Retired (entry left : Entry) : Prop extends SameBlock entry left where
  live : entry.status ≠ .deleting
  status : left.status = .deleting
  unpinned : left.refCnt = 0

theorem used_of_tryMarkReady (h : entry.tryMarkReady = some left) : entry.Used left := by
  obtain ⟨hs, rfl⟩ := tryMarkReady_eq_some.1 h
  exact ⟨⟨rfl, rfl, rfl⟩, by simp [hs], rfl⟩

theorem used_of_tryMarkHit (h : entry.tryMarkHit timeout = some left) : entry.Used left := by
  obtain ⟨hs, rfl⟩ := tryMarkHit_eq_some.1 h
  exact ⟨⟨rfl, rfl, rfl⟩, by simp [hs], hs⟩

theorem used_of_tryIncRef (h : entry.tryIncRef = some left) : entry.Used left := by
  obtain ⟨hs, rfl⟩ := tryIncRef_eq_some.1 h
  exact ⟨⟨rfl, rfl, rfl⟩, by simp [hs], hs⟩

theorem used_of_tryDecRef (h : entry.tryDecRef = some left) : entry.Used left := by
  obtain ⟨hs, -, rfl⟩ := tryDecRef_eq_some.1 h
  exact ⟨⟨rfl, rfl, rfl⟩, by simp [hs], hs⟩

theorem retired_of_tryMarkDeleting (h : entry.tryMarkDeleting = some left) :
    entry.Retired left := by
  obtain ⟨hs, hp, rfl⟩ := tryMarkDeleting_eq_some.1 h
  exact ⟨⟨rfl, rfl, rfl⟩, hs, rfl, hp⟩

theorem retired_of_tryMarkEvicting (h : entry.tryMarkEvicting now = some left) :
    entry.Retired left := by
  obtain ⟨hs, hp, -, rfl⟩ := tryMarkEvicting_eq_some.1 h
  exact ⟨⟨rfl, rfl, rfl⟩, by simp [hs], rfl, hp⟩

end Entry

abbrev EntryId := Nat

inductive EvictionPolicyType where
  | ttl | position
  deriving DecidableEq, Repr

/-- `TtlEntryCmp` and `PosEntryCmp`. -/
def EvictionPolicyType.before : EvictionPolicyType → Entry → Entry → Bool
  | .ttl, a, b => a.lifeTimeout < b.lifeTimeout
  | .position, a, b =>
    if a.position ≠ b.position then b.position < a.position
    else a.lifeTimeout < b.lifeTimeout

/-- `OrderedEvictionPolicy`: a multiset of entries under the policy's order, and
the place of each key in it. -/
structure EvictionPolicy where
  type : EvictionPolicyType
  entries : List EntryId := []
  index : Table BlockId EntryId := Table.empty

namespace EvictionPolicy

/-- `multiset::insert`: behind the entries that are not ordered after the new one. -/
def insert (type : EvictionPolicyType) (heap : EntryId → Entry) (id : EntryId) :
    List EntryId → List EntryId
  | [] => [id]
  | first :: rest =>
    if type.before (heap id) (heap first) then id :: first :: rest
    else first :: insert type heap id rest

def addKey (heap : EntryId → Entry) (key : BlockId) (id : EntryId) (policy : EvictionPolicy) :
    Expected EvictionPolicy :=
  match policy.index.find? key with
  | some _ => .error Status.DuplicateKey
  | none =>
    .ok { policy with
          entries := insert policy.type heap id policy.entries
          index := policy.index.emplace key id }

def deleteKey (key : BlockId) (policy : EvictionPolicy) : EvictionPolicy :=
  match policy.index.find? key with
  | none => policy
  | some id =>
    { policy with
      entries := policy.entries.erase id
      index := policy.index.erase key }

variable {heap : EntryId → Entry} {id : EntryId}

@[simp] theorem mem_insert {t : EvictionPolicyType} {o : EntryId} {entries : List EntryId} :
    o ∈ insert t heap id entries ↔ o = id ∨ o ∈ entries := by
  induction entries with
  | nil => simp [insert]
  | cons _ _ ih =>
    unfold insert
    split
    · simp
    · simp only [List.mem_cons, ih]
      tauto

variable {key : BlockId} {policy : EvictionPolicy}

theorem addKey_of_none (h : policy.index.find? key = none) : policy.addKey heap key id = .ok
      { policy with
        entries := insert policy.type heap id policy.entries
        index := policy.index.emplace key id } := by
  unfold addKey
  rw [h]

theorem addKey_error {status : Status} (h : policy.addKey heap key id = .error status) :
    status = Status.DuplicateKey := by
  unfold addKey at h
  split at h
  · cases h
    rfl
  · cases h

theorem mem_of_mem_deleteKey (h : id ∈ (policy.deleteKey key).entries) : id ∈ policy.entries := by
  unfold deleteKey at h
  split at h
  · exact h
  · exact List.mem_of_mem_erase h

@[simp] theorem index_deleteKey (key : BlockId) (policy : EvictionPolicy) :
    (policy.deleteKey key).index = policy.index.erase key := by
  unfold deleteKey
  split
  · rename_i hn
    ext1
    rw [Table.entries_erase, List.filter_eq_self.2]
    intro p hp
    have he : p.1 ≠ key := by
      rintro rfl
      exact Table.find?_eq_none.1 hn (List.mem_map_of_mem hp)
    simpa using he
  · rfl

end EvictionPolicy
end UnifiedCache.DramPool
