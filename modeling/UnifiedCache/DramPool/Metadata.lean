import UnifiedCache.DramPool.Entry

/-! The metadata of a DramPool server. An operation that takes several locks in
turn is a `Call` that advances one critical section at a time, so that any number
of them can interleave; the operations on one entry are a single section each. -/
namespace UnifiedCache.DramPool
open Dram (BlockId)

def kShardCnt : Nat := 1024

/-- The floating-point `defaultEvictRatio_` through its two uses: the test for
zero, and the truncated product with the number of entries. -/
structure EvictRatio where
  isZero : Bool
  scale : Nat → Nat

/-- `hash` is `std::hash` on the bytes of a key. -/
structure MetadataConfig where
  periodicType : EvictionPolicyType
  deepType : EvictionPolicyType
  leaseTime : Int64
  defaultEvictRatio : EvictRatio
  hash : BlockId → Nat

def MetadataConfig.shardIdx (config : MetadataConfig) (key : BlockId) : Nat :=
  config.hash key % kShardCnt

structure ShardMetadata where
  metadata : Table BlockId EntryId := Table.empty
  periodicEvictor : EvictionPolicy
  deepEvictor : EvictionPolicy

/-- The entries live on a heap; an `EntryId` that is at least `fresh` has not been
created. `allocated` and `freed` are ghost logs of the entries for which a slot
was obtained and given back. -/
structure MetadataManager where
  heap : EntryId → Entry
  fresh : EntryId := 0
  shards : Nat → ShardMetadata
  buffers : BufferManager
  allocated : List EntryId := []
  freed : List EntryId := []

namespace MetadataManager

def create (config : MetadataConfig) (buffers : BufferManager) : MetadataManager where
  heap _ := { key := Vector.replicate 16 0 }
  shards _ := { periodicEvictor := { type := config.periodicType }
                deepEvictor := { type := config.deepType } }
  buffers := buffers

variable (config : MetadataConfig)

def find (key : BlockId) (manager : MetadataManager) : Option EntryId :=
  (manager.shards (config.shardIdx key)).metadata.find? key

def setEntry (id : EntryId) (entry : Entry) (manager : MetadataManager) : MetadataManager :=
  { manager with heap := Function.update manager.heap id entry }

def setShard (shard : Nat) (value : ShardMetadata) (manager : MetadataManager) :
    MetadataManager :=
  { manager with shards := Function.update manager.shards shard value }

@[simp] theorem heap_setEntry_self (id : EntryId) (entry : Entry) (mgr : MetadataManager) :
    (mgr.setEntry id entry).heap id = entry := by
  simp [setEntry]

@[simp] theorem heap_setEntry_of_ne {id other : EntryId} (e : Entry) (mgr : MetadataManager)
    (h : other ≠ id) : (mgr.setEntry id e).heap other = mgr.heap other := by
  simp [setEntry, h]

/-- An operation on the entry of a key, under the shard's read lock: `NotFound`
without one, `Error` if its critical section refuses. -/
def visit (section? : Entry → Option Entry) (key : BlockId) (manager : MetadataManager) :
    Expected EntryId × MetadataManager :=
  match manager.find config key with
  | none => (.error Status.NotFound, manager)
  | some id =>
    match section? (manager.heap id) with
    | none => (.error (Status.Error ""), manager)
    | some entry => (.ok id, manager.setEntry id entry)

section
variable {config} {section? : Entry → Option Entry} {key : BlockId} {id : EntryId}
  {mgr left : MetadataManager}

theorem visit_ok (h : mgr.visit config section? key = (.ok id, left)) :
    mgr.find config key = some id ∧ ∃ entry, section? (mgr.heap id) = some entry ∧ left =
    mgr.setEntry id entry := by
  unfold visit at h
  split at h
  · cases h
  rename_i hf
  split at h
  · cases h
  · rename_i entry hs
    cases h
    exact ⟨hf, entry, hs, rfl⟩

theorem visit_error {s : Status} (h : manager.visit config section? key = (.error s, left)) :
    left = manager := by
  unfold visit at h
  split at h
  · cases h
    rfl
  split at h
  · cases h
    rfl
  · cases h

theorem visit_eq {e : Entry} (hf : mgr.find config key = some id)
    (hs : section? (mgr.heap id) = some e) :
    mgr.visit config section? key = (.ok id, mgr.setEntry id e) := by
  unfold visit
  simp only [hf, hs]

end

def storeEnd := visit config Entry.tryMarkReady

/-- Both policies ignore the access that this reports to them. -/
def loadBegin := visit config Entry.tryIncRef

def loadEnd := visit config Entry.tryDecRef

def exist (now : TimePoint) := visit config (Entry.tryMarkHit (now + config.leaseTime))

def tryDelete := visit config Entry.tryMarkDeleting

def shardStoreBegin (shard : Nat) (key : BlockId) (id : EntryId) (manager : MetadataManager) :
    Status × MetadataManager :=
  match (manager.shards shard).metadata.find? key with
  | some _ => (Status.DuplicateKey, manager)
  | none =>
    if (manager.heap id).isInitial = false then
      (Status.InvalidParam "", manager)
    else
      match (manager.shards shard).periodicEvictor.addKey manager.heap key id with
      | .error status => (status, manager)
      | .ok periodicEvictor =>
        match (manager.shards shard).deepEvictor.addKey manager.heap key id with
        | .error status =>
          (status, manager.setShard shard
            { manager.shards shard with periodicEvictor := periodicEvictor.deleteKey key })
        | .ok deepEvictor =>
          (Status.OK, manager.setShard shard
            { metadata := (manager.shards shard).metadata.emplace key id
              periodicEvictor, deepEvictor })

theorem shardStoreBegin_ok {shard : Nat} {key : BlockId} {id : EntryId} {status : Status}
    {mgr left : MetadataManager} (h : mgr.shardStoreBegin shard key id = (status, left))
    (hs : status.success = true) : status = Status.OK ∧ (mgr.shards shard).metadata.find? key =
    none ∧ ∃ value, left = mgr.setShard shard value ∧ value.metadata =
    (mgr.shards shard).metadata.emplace key id := by
  unfold shardStoreBegin at h
  split at h
  · cases h
    cases hs
  rename_i hn
  split at h
  · cases h
    cases hs
  split at h
  · rename_i ha
    cases h
    rw [EvictionPolicy.addKey_error ha] at hs
    cases hs
  split at h
  · rename_i ha
    cases h
    rw [EvictionPolicy.addKey_error ha] at hs
    cases hs
  · cases h
    exact ⟨rfl, hn, _, rfl, rfl⟩

def shardDelete (shard : Nat) (key : BlockId) (manager : MetadataManager) :
    Status × MetadataManager :=
  match (manager.shards shard).metadata.find? key with
  | none => (Status.NotFound, manager)
  | some _ =>
    (Status.OK, manager.setShard shard
      { metadata := (manager.shards shard).metadata.erase key
        periodicEvictor := (manager.shards shard).periodicEvictor.deleteKey key
        deepEvictor := (manager.shards shard).deepEvictor.deleteKey key })

/-- `make_shared<Entry>` with the fields that the caller of `StoreBegin` fills in. -/
def newEntry (key : BlockId) (size : Nat) (lifeTimeout : TimePoint) (position : UInt32)
    (manager : MetadataManager) : EntryId × MetadataManager :=
  (manager.fresh,
    { manager.setEntry manager.fresh
        { key, size, lifeTimeout, position, shard := config.shardIdx key } with
      fresh := manager.fresh + 1 })

def allocate (id : EntryId) (manager : MetadataManager) : Expected MetadataManager :=
  match manager.buffers.allocate (manager.heap id).size with
  | .error status => .error status
  | .ok (buffer, buffers) =>
    .ok { manager.setEntry id { manager.heap id with buffer } with
          buffers, allocated := id :: manager.allocated }

def evictor (shard : Nat) (deep : Bool) (manager : MetadataManager) : EvictionPolicy :=
  if deep then (manager.shards shard).deepEvictor else (manager.shards shard).periodicEvictor

/-- A failed `Free` is only logged by the callers. -/
def free (id : EntryId) (manager : MetadataManager) : MetadataManager :=
  match manager.buffers.free (manager.heap id).size (manager.heap id).buffer.slot with
  | .error _ => { manager with freed := id :: manager.freed }
  | .ok buffers => { manager with buffers, freed := id :: manager.freed }

section
variable (id : EntryId) (mgr : MetadataManager)
include id mgr

@[simp] theorem heap_free : (mgr.free id).heap = mgr.heap := by
  unfold free
  split <;> rfl

@[simp] theorem shards_free : (mgr.free id).shards = mgr.shards := by
  unfold free
  split <;> rfl

@[simp] theorem freed_free : (mgr.free id).freed = id :: mgr.freed := by
  unfold free
  split <;> rfl

end
end MetadataManager

/-- Where an `EvictOneShard` stands: marking entries under the shard's read lock,
then freeing and unlinking one victim after the other. -/
inductive Eviction where
  | scanning (shard : Nat) (type : EvictionPolicyType) (now : TimePoint) (target : Nat)
      (todo victims : List EntryId)
  | freeing (shard : Nat) (victims : List EntryId)
  | unlinking (shard : Nat) (victim : EntryId) (rest : List EntryId)

namespace Eviction

/-- `GetEvictionResults` of either policy up to the head of its loop. -/
def getEvictionResults (config : MetadataConfig) (shard : Nat) (now : TimePoint)
    (policy : EvictionPolicy) : Eviction :=
  match policy.type with
  | .ttl => .scanning shard .ttl now 0 policy.entries []
  | .position =>
    if config.defaultEvictRatio.isZero || policy.entries.isEmpty then
      .freeing shard []
    else
      .scanning shard .position now
        (max 1 (config.defaultEvictRatio.scale policy.entries.length)) policy.entries []

/-- `EvictPeriodic` or `EvictDeep` of a shard. -/
def start (config : MetadataConfig) (shard : Nat) (deep : Bool) (now : TimePoint)
    (manager : MetadataManager) : Eviction :=
  getEvictionResults config shard now (manager.evictor shard deep)

/-- The `break` of the policy's loop. -/
def breaks (type : EvictionPolicyType) (now : TimePoint) (target : Nat) (entry : Entry)
    (victims : List EntryId) : Bool :=
  match type with
  | .ttl => now < entry.lifeTimeout
  | .position => target ≤ victims.length

/-- One critical section; `none` when the loop over the victims has ended. -/
def advance (manager : MetadataManager) : Eviction → MetadataManager × Option Eviction
  | .scanning shard _ _ _ [] victims => (manager, some (.freeing shard victims))
  | .scanning shard type now target (id :: todo) victims =>
    if breaks type now target (manager.heap id) victims then
      (manager, some (.freeing shard victims))
    else
      match (manager.heap id).tryMarkEvicting now with
      | none => (manager, some (.scanning shard type now target todo victims))
      | some entry =>
        (manager.setEntry id entry, some (.scanning shard type now target todo (victims ++ [id])))
  | .freeing _ [] => (manager, none)
  | .freeing shard (victim :: rest) =>
    (manager.free victim, some (.unlinking shard victim rest))
  | .unlinking shard victim rest =>
    ((manager.shardDelete shard (manager.heap victim).key).2, some (.freeing shard rest))

def reads : Eviction → Option Nat
  | .scanning shard _ _ _ _ _ => some shard
  | _ => none

def writes : Eviction → Option Nat
  | .unlinking shard _ _ => some shard
  | _ => none

end Eviction

/-- The operations in progress. `storeBegin` is about to call `Allocate` for the
`attempt`-th time; `evict` has the shards left that `PerformEvict` will visit. -/
inductive Call where
  | storeBegin (key : BlockId) (id : EntryId) (attempt : Nat)
  | storeEvict (key : BlockId) (id : EntryId) (attempt : Nat) (eviction : Eviction)
  | storePublish (key : BlockId) (id : EntryId)
  | storeRollback (key : BlockId) (id : EntryId) (status : Status)
  | deleteFree (key : BlockId) (id : EntryId)
  | deleteUnlink (key : BlockId) (id : EntryId)
  | evict (eviction : Eviction) (left : List Nat)

inductive Outcome where
  | running (call : Call)
  | returned (status : Status)

def Outcome.calls : Outcome → List Call
  | .running call => [call]
  | .returned _ => []

namespace Call

/-- `pick` is the `rand() % kShardCnt` of a `StoreBegin`, `now` the clock that an
eviction reads when it starts. -/
def advance (config : MetadataConfig) (now : TimePoint) (pick : Nat) (manager : MetadataManager) :
    Call → MetadataManager × Outcome
  | .storeBegin key id attempt =>
    match manager.allocate id with
    | .ok left => (left, .running (.storePublish key id))
    | .error status =>
      if status.code = .noSpace ∧ attempt < 2 then
        (manager, .running (.storeEvict key id (attempt + 1)
          (Eviction.start config pick (attempt = 1) now manager)))
      else
        (manager, .returned (Status.Error ""))
  | .storeEvict key id attempt eviction =>
    match eviction.advance manager with
    | (left, some eviction) => (left, .running (.storeEvict key id attempt eviction))
    | (left, none) => (left, .running (.storeBegin key id attempt))
  | .storePublish key id =>
    match manager.shardStoreBegin (config.shardIdx key) key id with
    | (status, left) =>
      if status.success then (left, .returned status)
      else (left, .running (.storeRollback key id status))
  | .storeRollback _ id status => (manager.free id, .returned status)
  | .deleteFree key id => (manager.free id, .running (.deleteUnlink key id))
  | .deleteUnlink key _ =>
    match manager.shardDelete (config.shardIdx key) key with
    | (status, left) => (left, .returned status)
  | .evict eviction left =>
    match eviction.advance manager with
    | (manager, some eviction) => (manager, .running (.evict eviction left))
    | (manager, none) =>
      match left with
      | [] => (manager, .returned Status.OK)
      | shard :: rest =>
        (manager, .running (.evict (Eviction.start config shard false now manager) rest))

def reads : Call → Option Nat
  | .storeEvict _ _ _ eviction => eviction.reads
  | .evict eviction _ => eviction.reads
  | _ => none

def writes (config : MetadataConfig) : Call → Option Nat
  | .storePublish key _ => some (config.shardIdx key)
  | .deleteUnlink key _ => some (config.shardIdx key)
  | .storeEvict _ _ _ eviction => eviction.writes
  | .evict eviction _ => eviction.writes
  | _ => none

/-- The next section does not wait for an eviction that scans the shard it writes. -/
def Unlocked (config : MetadataConfig) (call : Call) (others : List Call) : Prop :=
  ∀ shard, call.writes config = some shard → ∀ other ∈ others, other.reads ≠ some shard

def frees : Call → Option EntryId
  | .storeRollback _ id _ => some id
  | .deleteFree _ id => some id
  | .storeEvict _ _ _ (.freeing _ (victim :: _)) => some victim
  | .evict (.freeing _ (victim :: _)) _ => some victim
  | _ => none

/-- The shard from which the next section unlinks a key, and the entry that was
freed before it. -/
def unlinks (config : MetadataConfig) (manager : MetadataManager) :
    Call → Option (Nat × BlockId × EntryId)
  | .deleteUnlink key id => some (config.shardIdx key, key, id)
  | .storeEvict _ _ _ (.unlinking shard victim _) =>
    some (shard, (manager.heap victim).key, victim)
  | .evict (.unlinking shard victim _) _ => some (shard, (manager.heap victim).key, victim)
  | _ => none

end Call
end UnifiedCache.DramPool
