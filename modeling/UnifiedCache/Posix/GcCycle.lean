import Mathlib.Algebra.Order.BigOperators.Group.List
import Mathlib.Data.Rat.Floor

/-! A cycle of the garbage collector of the POSIX store, over the numbers of files in its shards:
all shards are sampled, nobody writes, every removal succeeds, and ratios are exact. A round in
which a shard was limited is followed by another one without a look at the average. -/
namespace UnifiedCache.Posix.ShardGarbageCollector
open List Function

structure Config where
  posixCapacityGb : Nat
  blockSize : Nat
  posixGcTriggerThresholdRatio : ℚ
  posixGcRecyclePercent : ℚ
  posixGcMaxRecycleCountPerShard : Nat

def average (files : List Nat) : Nat := files.sum / files.length

namespace Config
variable (config : Config)

def maxFileCount : Nat := config.posixCapacityGb * 2 ^ 30 % 2 ^ 64 / config.blockSize

def threshold (shards : Nat) : Nat :=
  ⌊(config.maxFileCount / shards : Nat) * config.posixGcTriggerThresholdRatio⌋₊

/-- The files of a shard that are to go, before the limit. -/
def portion (files : Nat) : Nat := ⌊files * config.posixGcRecyclePercent⌋₊

/-- `ValidateAndInitCapacity` returns OK. -/
def accepted (shards : Nat) : Bool := config.portion (config.threshold shards) ≠ 0

def shouldTrigger (files : List Nat) : Bool :=
  files ≠ [] && config.threshold files.length ≤ average files

/-- How many files `GetOldestFiles` returns. -/
def recycleNum (files : Nat) : Nat :=
  min (config.portion files) config.posixGcMaxRecycleCountPerShard

/-- `Execute`: the files that are left, and whether a shard was limited. -/
def execute (files : List Nat) : List Nat × Bool :=
  (files.map fun count => count - config.recycleNum count,
    files.any fun count => config.posixGcMaxRecycleCountPerShard ≤ config.recycleNum count)

/-- The loop of `RunGcCycle`: the files that are left, and those that each round found. -/
def rounds : Nat → Bool → List Nat → Option (List Nat × List (List Nat))
  | _, false, files => some (files, [])
  | 0, true, _ => none
  | fuel + 1, true, files =>
    let (left, limited) := config.execute files
    (rounds fuel (limited || config.shouldTrigger left) left).map fun (final, starts) =>
      (final, files :: starts)

def shrink (count : Nat) : Nat := count - config.recycleNum count

variable {config} {files : List Nat}

section
variable (ht : config.threshold files.length ≤ average files)
include ht

end

def small (limit : Nat) : Config where
  posixCapacityGb := 2
  blockSize := 2 ^ 30
  posixGcTriggerThresholdRatio := 1
  posixGcRecyclePercent := 1
  posixGcMaxRecycleCountPerShard := limit

end Config
end UnifiedCache.Posix.ShardGarbageCollector
