import Mathlib.Algebra.GCDMonoid.Nat
import Mathlib.Data.List.MinMax
import UnifiedCache.Lib.Scan

/-! The cache groups of the hybrid vLLM connector: full-attention groups with a hash for every
block, and mamba-align groups with a hash for the state at a position. `None` results of the
lookups are exceptions that they raise. -/
namespace UnifiedCache.Hybrid

abbrev Hash := List UInt8

structure GroupInfo where
  groupId : Nat
  blockSize : Nat
  seed : Hash
  isMambaAlign : Bool := false
  participatesInPrefixCaching : Bool := true

def GroupInfo.isFullAttention (group : GroupInfo) : Bool :=
  group.participatesInPrefixCaching && !group.isMambaAlign

structure KVCacheGroupManager where
  /-- The hash of a seed, the tag of the mamba-align states, a position and a prefix hash. -/
  requestHasher : Hash → Nat → Hash → Hash
  groupsById : List GroupInfo
  numbered : ∀ (index : Nat) (group : GroupInfo),
    groupsById[index]? = some group → group.groupId = index
  positive : ∀ group ∈ groupsById, 0 < group.blockSize
  attends : groupsById.filter GroupInfo.isFullAttention ≠ []

/-- A lookup in the store: the position it ends at or -1, nothing if it raises. -/
abbrev LookupOn := List Hash → Option Int

namespace KVCacheGroupManager
variable (manager : KVCacheGroupManager)

def fullAttnGroups : List GroupInfo := manager.groupsById.filter GroupInfo.isFullAttention

def stateGroups : List GroupInfo := manager.groupsById.filter GroupInfo.isMambaAlign

def lcmBlockSize : Nat :=
  ((manager.fullAttnGroups ++ manager.stateGroups).map GroupInfo.blockSize).foldr Nat.lcm 1

def primary : GroupInfo := manager.fullAttnGroups.head manager.attends

def blockIds (groupBlockIds : List (List Hash)) (group : GroupInfo) : List Hash :=
  groupBlockIds[group.groupId]?.getD []

def computeMambaAlignStateHash (group : GroupInfo) (seqLen : Nat)
    (groupBlockIds : List (List Hash)) : Option Hash :=
  if seqLen = 0 ∨ seqLen % manager.lcmBlockSize ≠ 0 then none
  else if seqLen / manager.primary.blockSize = 0 then none
  else
    match (blockIds groupBlockIds manager.primary)[seqLen / manager.primary.blockSize - 1]? with
    | none => none
    | some prefixHash =>
      if prefixHash = [] then none
      else some (manager.requestHasher group.seed seqLen prefixHash)

def candidate (numComputedTokens : Nat) (groupBlockIds : List (List Hash))
    (lookupOnPrefix : LookupOn) (fa : GroupInfo) : Nat :=
  let faExternal := (blockIds groupBlockIds fa).drop (numComputedTokens / fa.blockSize)
  if faExternal = [] then 0
  else
    match lookupOnPrefix faExternal with
    | none => 0
    | some last => (last + 1).toNat * fa.blockSize

/-- Python's `range` with a positive step. -/
def pyRange (start stop step : Nat) : List Nat :=
  List.range' start ((stop - start + step - 1) / step) step

def stateHashes (groupBlockIds : List (List Hash)) (sg : GroupInfo) (positions : List Nat) :
    List Hash :=
  positions.map fun pos => (manager.computeMambaAlignStateHash sg pos groupBlockIds).getD []

/-- The loop over the state groups, each of which looks at the positions up to the best one so
far. The outer result is missing if an index is out of range, the inner one if a group has no
state or its lookup raises. -/
def narrow (groupBlockIds : List (List Hash)) (lookupOnReverse : LookupOn)
    (positions : List Nat) : Nat → List GroupInfo → Option (Option Nat)
  | bestPos, [] => some (some bestPos)
  | bestPos, sg :: rest =>
    let sgPositions := positions.filter fun pos => pos ≤ bestPos
    match lookupOnReverse (manager.stateHashes groupBlockIds sg sgPositions) with
    | none => some none
    | some idx =>
      if idx < 0 then some none
      else
        match sgPositions[idx.toNat]? with
        | none => none
        | some sgPos => narrow groupBlockIds lookupOnReverse positions (min sgPos bestPos) rest

def prefetchHashes (groupBlockIds : List (List Hash)) (bestPos : Nat) : List Hash :=
  (pyRange manager.lcmBlockSize (bestPos + manager.lcmBlockSize) manager.lcmBlockSize).flatMap
    fun pos => manager.stateGroups.filterMap fun sg =>
      manager.computeMambaAlignStateHash sg pos groupBlockIds

/-- The external hit in tokens and in LCM blocks with the states to prefetch; nothing if an
assertion fails. -/
def lookupExternalHitTokens (numComputedTokens : Nat) (groupBlockIds : List (List Hash))
    (lookupOnPrefix lookupOnReverse : LookupOn) : Option (Nat × Nat × List Hash) :=
  let lcm := manager.lcmBlockSize
  if groupBlockIds.length ≠ manager.groupsById.length ∨ numComputedTokens % lcm ≠ 0 then none
  else
    let candidates := manager.fullAttnGroups.map
      (candidate numComputedTokens groupBlockIds lookupOnPrefix)
    let externalHitTokens := candidates.min?.getD 0 / lcm * lcm
    if externalHitTokens = 0 then some (0, 0, [])
    else
      let totalHitTokens := numComputedTokens + externalHitTokens
      if manager.stateGroups = [] then some (externalHitTokens, externalHitTokens / lcm, [])
      else
        let positions := pyRange (numComputedTokens + lcm) (totalHitTokens + lcm) lcm
        match manager.narrow groupBlockIds lookupOnReverse positions totalHitTokens
            manager.stateGroups with
        | none => none
        | some none => some (0, 0, [])
        | some (some bestPos) =>
          if bestPos - numComputedTokens = 0 then some (0, 0, [])
          else some (bestPos - numComputedTokens, (bestPos - numComputedTokens) / lcm,
            manager.prefetchHashes groupBlockIds bestPos)

end KVCacheGroupManager
end UnifiedCache.Hybrid
