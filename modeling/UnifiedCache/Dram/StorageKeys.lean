import UnifiedCache.Dram.NodeActor
import UnifiedCache.Lib.Layout

/-! Which shards of a block share a key in a DramPool. -/
namespace UnifiedCache.Dram.NodeActor
open Bytes Layout

def shardMix (seed shardId : UInt32) : UInt32 :=
  shardId + (0x9e3779b9 : UInt32) + (seed <<< (6 : UInt32)) + (seed >>> (2 : UInt32))

theorem shardMix_inj {seed shard other : UInt32} (h : shardMix seed shard = shardMix seed other) :
    shard = other := by
  unfold shardMix at h
  simpa using h

def reseed (blockId : BlockId) (seed : UInt32) : BlockId :=
  Vector.ofFn fun i => (leBytes 4 seed.toNat)[i.val]?.getD (blockId.get i)

section
variable (blockId : BlockId)
include blockId

@[simp] theorem storageKey_zero : storageKey blockId 0 = blockId := rfl

variable {shardId : UInt32}

theorem storageKey_of_ne (hs : shardId ≠ 0) : storageKey blockId shardId =
      reseed blockId (seedOf blockId ^^^ shardMix (seedOf blockId) shardId) := if_neg hs

@[simp] theorem toList_reseed (s : UInt32) :
    (reseed blockId s).toList = leBytes 4 s.toNat ++ blockId.toList.drop 4 := by
  apply List.ext_getElem
  · simp
  intro i hi _
  by_cases hw : i < 4
  · simp [reseed, List.getElem_append_left, hw]
  · have hp : 4 ≤ i := by omega
    simp [reseed, List.getElem_append_right, hp]
    rfl

@[simp] theorem seedOf_reseed (seed : UInt32) : seedOf (reseed blockId seed) = seed := by
  unfold seedOf
  rw [toList_reseed, List.take_left' (length_leBytes _ _), ofLeBytes_leBytes]
  exact (congrArg UInt32.ofNat (Nat.mod_eq_of_lt seed.toNat_lt)).trans UInt32.ofNat_toNat

@[simp] theorem reseed_seedOf : reseed blockId (seedOf blockId) = blockId := by
  apply Vector.toList_inj.1
  have hw : (blockId.toList.take 4).length = 4 := by simp
  have hl : ofLeBytes (blockId.toList.take 4) < 2 ^ 32 := by
    simpa [hw] using ofLeBytes_lt (blockId.toList.take 4)
  have hb := leBytes_ofLeBytes (blockId.toList.take 4)
  rw [hw] at hb
  rw [toList_reseed, seedOf, UInt32.toNat_ofNat', Nat.mod_eq_of_lt hl, hb, List.take_append_drop]

theorem storageKey_eq_self (hh : shardId ≠ 0) :
    storageKey blockId shardId = blockId ↔ shardMix (seedOf blockId) shardId = 0 := by
  rw [storageKey_of_ne blockId hh]
  constructor
  · intro he
    have hs := congrArg seedOf he
    rw [seedOf_reseed] at hs
    exact (UInt32.xor_right_inj (seedOf blockId)).1 (hs.trans UInt32.xor_zero.symm)
  · intro hz
    rw [hz, UInt32.xor_zero, reseed_seedOf]

theorem storageKey_inj {s t : UInt32} (hs : s ≠ 0) (ht : t ≠ 0)
    (he : storageKey blockId s = storageKey blockId t) : s = t := by
  rw [storageKey_of_ne blockId hs, storageKey_of_ne blockId ht] at he
  have hse := congrArg seedOf he
  rw [seedOf_reseed, seedOf_reseed] at hse
  exact shardMix_inj (by simpa using hse)

theorem storageKeys_distinct_iff (s t : UInt32) (hne : s ≠ t) :
    storageKey blockId s ≠ storageKey blockId t ↔
      (s = 0 → shardMix (seedOf blockId) t ≠ 0) ∧ (t = 0 → shardMix (seedOf blockId) s ≠ 0) := by
  by_cases hs : s = 0
  · subst hs
    rw [ne_comm]
    simpa [hne.symm] using (storageKey_eq_self blockId hne.symm).not
  by_cases ht : t = 0
  · subst ht
    simpa [hs] using (storageKey_eq_self blockId hs).not
  · simp only [hs, ht, false_imp_iff, and_self, iff_true]
    exact fun he => hne (storageKey_inj blockId hs ht he)

end

/-- Shards 0 and 1 of this block, the first two tensors of its first shard, share a key. -/
theorem shard_keys_collide : ∃ blockId : BlockId, storageKey blockId 0 = storageKey blockId 1 :=
  ⟨⟨#[0x19, 0x00, 0x22, 0x65, 0, 0, 0, 0, 0, 0, 0, 0, 0, 0, 0, 0], rfl⟩, by decide +kernel⟩

theorem storageKeys_distinct_plain :
    storageKey (Vector.replicate 16 7) 0 ≠ storageKey (Vector.replicate 16 7) 1 :=
  (storageKeys_distinct_iff _ _ _ (by decide)).2 (by decide +kernel)

end UnifiedCache.Dram.NodeActor
