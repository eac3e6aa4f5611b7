import Mathlib.Order.Interval.Finset.Nat
import UnifiedCache.Lib.Layout
import UnifiedCache.Lib.SizeT
import UnifiedCache.Status

/-! Where `AsuStore` places the tensors of a block. A shard of a block has one tensor of each size;
`BuildTensorOffsets` gives the offset of every tensor of a shard in the block. The checks of the
scheduler's part of the configuration are left out: they only reject more. -/
namespace UnifiedCache.AsuStore
open List SizeT Layout

inductive TensorLayout where
  | MLA | GQA | HMA

def parseTensorLayout (layout : String) : TensorLayout :=
  if layout = "gqa" then .GQA else if layout = "hma" then .HMA else .MLA

structure Config where
  deviceId : Int
  tensorSizes : List Nat
  shardSize : Nat
  blockSize : Nat
  tensorLayout : String

def kAlignmentBytes : Nat := 512

def alignUp (value alignment : Nat) : Nat :=
  mul (sub (add value alignment) 1 / alignment) alignment

structure Shard where
  owner : List UInt8
  index : Nat
  addrs : List Nat

structure KVBuffer where
  key : List UInt8
  addr : Nat
  size : Nat
  handle : Nat
  offset : UInt32

namespace Config
variable (config : Config)

def normalizeAsuShardConfig : Config :=
  if config.deviceId < 0 ∨ config.tensorSizes = [] ∨ config.shardSize = 0 ∨ config.blockSize = 0 then
    config
  else if config.blockSize % config.shardSize ≠ 0 then config
  else
    let tensorSizes := config.tensorSizes.map fun tensorSize => alignUp tensorSize kAlignmentBytes
    let alignedShardSize := tensorSizes.foldl add 0
    { config with
      tensorSizes
      shardSize := alignedShardSize
      blockSize := mul alignedShardSize (config.blockSize / config.shardSize) }

def shardsPerBlock : Nat := config.blockSize / config.shardSize

def checkConfig : Status :=
  if config.tensorLayout ≠ "" ∧ config.tensorLayout ≠ "mla" ∧ config.tensorLayout ≠ "gqa" ∧
      config.tensorLayout ≠ "hma" then
    .InvalidParam ("invalid tensor_layout(" ++ config.tensorLayout ++ ")")
  else if config.deviceId < 0 then .OK
  else if config.tensorSizes = [] then .InvalidParam "invalid tensor size"
  else if config.tensorLayout = "gqa" ∧
      (config.tensorSizes.length < 2 ∨ config.tensorSizes.length % 2 ≠ 0) then
    .InvalidParam ("invalid tensor size count(" ++ toString config.tensorSizes.length ++ ")")
  else if config.shardSize = 0 then .InvalidParam "invalid shard size"
  else if config.blockSize = 0 then .InvalidParam "invalid block size"
  else if config.blockSize > 2 ^ 32 - 1 then
    .InvalidParam "block size exceeds uint32 offset range"
  else if config.tensorSizes.foldl add 0 = 0 ∨ config.tensorSizes.foldl add 0 > config.shardSize then
    .InvalidParam ("invalid shard size(" ++ toString config.shardSize ++ ")")
  else if config.blockSize % config.shardSize ≠ 0 then
    .InvalidParam ("invalid block size(" ++ toString config.blockSize ++ ")")
  else if config.shardsPerBlock > 1 ∧ config.tensorLayout = "gqa" ∧
      config.tensorSizes.length ≠ 2 then
    .InvalidParam
      ("invalid layerwise gqa tensor size count(" ++ toString config.tensorSizes.length ++ ")")
  else .OK

/-- The loop of the MLA and HMA layouts. -/
def runningOffsets : Nat → List Nat → List Nat
  | _, [] => []
  | offset, size :: rest => offset :: runningOffsets (add offset size) rest

def buildMlaTensorOffsets (shardIndex : Nat) : List Nat :=
  runningOffsets (mul shardIndex config.shardSize) config.tensorSizes

def buildHmaTensorOffsets (shardIndex : Nat) : List Nat :=
  runningOffsets (mul shardIndex config.shardSize) config.tensorSizes

/-- The first loop of the GQA layout, from an index on: the sizes at even positions. -/
def keyBase : Nat → Nat → List Nat → Nat
  | _, base, [] => base
  | index, base, size :: rest =>
    keyBase (index + 1) (if index % 2 = 0 then add base size else base) rest

/-- Its second loop: keys from the start on, values behind all keys. -/
def gqaOffsets (base : Nat) : Nat → Nat → Nat → List Nat → List Nat
  | _, _, _, [] => []
  | index, keyPrefix, valuePrefix, size :: rest =>
    if index % 2 = 0 then
      keyPrefix :: gqaOffsets base (index + 1) (add keyPrefix size) valuePrefix rest
    else
      add base valuePrefix :: gqaOffsets base (index + 1) keyPrefix (add valuePrefix size) rest

def buildGqaTensorOffsets (shardIndex : Nat) : List Nat :=
  if config.shardsPerBlock > 1 then
    let first := config.tensorSizes.getD 0 0
    ((replicate config.tensorSizes.length 0).set 0 (mul shardIndex first)).set 1
      (add (mul config.shardsPerBlock first) (mul shardIndex (config.tensorSizes.getD 1 0)))
  else gqaOffsets (keyBase 0 0 config.tensorSizes) 0 0 0 config.tensorSizes

def buildTensorOffsets (shardIndex : Nat) : List Nat :=
  match parseTensorLayout config.tensorLayout with
  | .MLA => config.buildMlaTensorOffsets shardIndex
  | .GQA => config.buildGqaTensorOffsets shardIndex
  | .HMA => config.buildHmaTensorOffsets shardIndex

def spans (shardIndex : Nat) : List (Nat × Nat) :=
  (config.buildTensorOffsets shardIndex).zip config.tensorSizes

/-- The entries of one shard; a region has no handle if it is not registered. -/
def shardBuffers (findPersistentHandle : Nat → Nat → Option Nat) (shard : Shard) :
    Expected (List KVBuffer) :=
  if shard.index ≥ config.shardsPerBlock then
    .error (.InvalidParam ("invalid shard index(" ++ toString shard.index ++ ")"))
  else if shard.addrs.length ≠ config.tensorSizes.length then
    .error (.InvalidParam ("invalid tensor addr count(" ++ toString shard.addrs.length ++ ")"))
  else
    (shard.addrs.zip (config.spans shard.index)).mapM fun (addr, offset, size) =>
      match findPersistentHandle addr size with
      | none => .error (.Error "ASU KV buffer is outside registered persistent regions")
      | some handle => .ok ⟨shard.owner, addr, size, handle, offset.toUInt32⟩

def buildKvBuffers (findPersistentHandle : Nat → Nat → Option Nat) (task : List Shard) :
    Expected (List KVBuffer) := do
  let entries ← task.mapM (config.shardBuffers findPersistentHandle)
  return entries.flatten

def Apart (a b : Nat × Nat) : Prop := a.1 + a.2 ≤ b.1 ∨ b.1 + b.2 ≤ a.1

@[simp] theorem length_runningOffsets (offset : Nat) (sizes : List Nat) :
    (runningOffsets offset sizes).length = sizes.length := by
  induction sizes generalizing offset with
  | nil => rfl
  | cons si r ih => rw [runningOffsets, length_cons, ih, length_cons]

theorem runningOffsets_stacked {offset : Nat} {sizes : List Nat}
    (h : offset + sizes.sum < modulus) :
    ((runningOffsets offset sizes).zip sizes).Pairwise Apart ∧ ∀ sp ∈
    (runningOffsets offset sizes).zip sizes, offset ≤ sp.1 ∧ sp.1 + sp.2 ≤ offset + sizes.sum := by
  induction sizes generalizing offset with
  | nil => simp [runningOffsets]
  | cons si r ih =>
    rw [sum_cons] at h ⊢
    rw [runningOffsets, add_eq (by omega), zip_cons_cons]
    obtain ⟨ha, hn⟩ := @ih (offset + si) (by omega)
    refine ⟨pairwise_cons.2 ⟨fun sp hm => .inl (hn sp hm).1, ha⟩, ?_⟩
    intro sp hm
    rcases mem_cons.1 hm with rfl | hm
    · exact ⟨le_refl _, by dsimp only; omega⟩
    · have hin := hn sp hm
      omega

theorem keyBase_bounds (index : Nat) {base : Nat} {sizes : List Nat}
    (h : base + sizes.sum < modulus) :
    base ≤ keyBase index base sizes ∧ keyBase index base sizes ≤ base + sizes.sum := by
  induction sizes generalizing index base with
  | nil => simp [keyBase]
  | cons si r ih =>
    rw [sum_cons] at h ⊢
    rw [keyBase]
    split
    · rw [add_eq (by omega)]
      have hr := @ih (index + 1) (base + si) (by omega)
      omega
    · have hr := @ih (index + 1) base (by omega)
      omega

@[simp] theorem length_gqaOffsets (base index keys values : Nat) (sizes : List Nat) :
    (gqaOffsets base index keys values sizes).length = sizes.length := by
  induction sizes generalizing index keys values with
  | nil => rfl
  | cons si r ih =>
    rw [gqaOffsets]
    split <;> rw [length_cons, ih, length_cons]

theorem gqaOffsets_stacked {base index keys values : Nat} {sizes : List Nat}
    (hb : keyBase index keys sizes = base)
    (h : keys + values + sizes.sum < modulus) : ((gqaOffsets base index keys values sizes).zip
    sizes).Pairwise Apart ∧ ∀ span ∈
    (gqaOffsets base index keys values sizes).zip sizes, (keys ≤ span.1 ∧ span.1 + span.2 ≤ base) ∨
    (base + values ≤ span.1 ∧ span.1 + span.2 ≤ keys + values + sizes.sum) := by
  induction sizes generalizing index keys values with
  | nil => simp [gqaOffsets]
  | cons si r ih =>
    have hl := keyBase_bounds index (show keys + (si :: r).sum < modulus by omega)
    rw [sum_cons] at h hl ⊢
    rw [hb] at hl
    rw [keyBase] at hb
    rw [gqaOffsets]
    by_cases he : index % 2 = 0
    · rw [if_pos he, add_eq (by omega)] at hb
      rw [if_pos he, add_eq (by omega), zip_cons_cons]
      obtain ⟨ha, hn⟩ := @ih _ _ values hb (by omega)
      have hen := (keyBase_bounds (index + 1) (show keys + si + r.sum < modulus by omega)).1
      rw [hb] at hen
      refine ⟨pairwise_cons.2 ⟨fun span hm => .inl ?_, ha⟩, ?_⟩
      · have hin := hn span hm
        omega
      · intro span hm
        rcases mem_cons.1 hm with rfl | hm
        · exact .inl ⟨le_refl _, hen⟩
        · have hin := hn span hm
          omega
    · rw [if_neg he] at hb
      have hen := (keyBase_bounds (index + 1) (show keys + r.sum < modulus by omega)).2
      rw [hb] at hen
      rw [if_neg he, add_eq (by omega), add_eq (by omega), zip_cons_cons]
      obtain ⟨ha, hn⟩ := @ih _ _ (values + si) hb (by omega)
      refine ⟨pairwise_cons.2 ⟨fun span hm => ?_, ha⟩, ?_⟩
      · rcases hn span hm with hin | hin
        · exact .inr (by dsimp only; omega)
        · exact .inl (by dsimp only; omega)
      · intro span hm
        rcases mem_cons.1 hm with rfl | hm
        · exact .inr ⟨le_refl _, by dsimp only; omega⟩
        · have hin := hn span hm
          omega

theorem foldl_add {sizes : List Nat} {t : Nat} (h : t + sizes.sum < modulus) :
    sizes.foldl add t = t + sizes.sum := by
  induction sizes generalizing t with
  | nil => rfl
  | cons s r ih =>
    rw [sum_cons] at h ⊢
    rw [foldl_cons, add_eq (by omega), ih (by omega), Nat.add_assoc]

/-- What `CheckConfig` says of the configuration of a worker. -/
structure Accepted : Prop where
  whole : config.blockSize = config.shardsPerBlock * config.shardSize
  fits : config.blockSize < 2 ^ 32
  sum : config.tensorSizes.foldl add 0 ≤ config.shardSize
  pairs : parseTensorLayout config.tensorLayout = .GQA → 1 < config.shardsPerBlock →
    config.tensorSizes.length = 2

variable {config}

theorem success_of_ite {refused : Prop} [Decidable refused] {msg : String} {rest : Status}
    (h : (if refused then .InvalidParam msg else rest).success = true) : ¬refused ∧ rest.success =
    true := by
  split at h
  · cases h
  · exact ⟨by assumption, h⟩

theorem Accepted.of_checkConfig (hw : 0 ≤ config.deviceId)
    (h : config.checkConfig.success = true) : config.Accepted := by
  obtain ⟨_, h⟩ := success_of_ite h
  rw [if_neg (by omega)] at h
  obtain ⟨_, h⟩ := success_of_ite h
  obtain ⟨_, h⟩ := success_of_ite h
  obtain ⟨_, h⟩ := success_of_ite h
  obtain ⟨_, h⟩ := success_of_ite h
  obtain ⟨hf, h⟩ := success_of_ite h
  obtain ⟨hs, h⟩ := success_of_ite h
  obtain ⟨hh, h⟩ := success_of_ite h
  obtain ⟨hp, _⟩ := success_of_ite h
  refine ⟨?_, by omega, by omega, fun ha hma => ?_⟩
  · exact (Nat.div_mul_cancel (Nat.dvd_of_mod_eq_zero (by omega))).symm
  · by_contra hl
    refine hp ⟨hma, ?_, hl⟩
    unfold parseTensorLayout at ha
    grind

/-- Tensors one behind the other in every shard, and the shards of a block beside each other. -/
structure Stacked (config : Config) (offsets : Nat → List Nat) : Prop where
  length : ∀ i, (offsets i).length = config.tensorSizes.length
  own : ∀ i < config.shardsPerBlock, ((offsets i).zip config.tensorSizes).Pairwise Apart
  inside : ∀ i < config.shardsPerBlock, ∀ span ∈ (offsets i).zip config.tensorSizes,
    span.1 + span.2 ≤ config.blockSize
  across : ∀ j < config.shardsPerBlock, ∀ i < j, ∀ a ∈ (offsets i).zip config.tensorSizes,
    ∀ b ∈ (offsets j).zip config.tensorSizes, Apart a b

theorem mul_add_le {i j : Nat} (hi : i < j) (size : Nat) : i * size + size ≤ j * size := by
  rw [← Nat.succ_mul]
  exact Nat.mul_le_mul_right _ hi

section
variable (h : config.Accepted) (hsmall : config.tensorSizes.sum < modulus)
include h

theorem Accepted.mul_eq {i size : Nat} (hi : i ≤ config.shardsPerBlock)
    (hs : size ≤ config.shardSize) : mul i size = i * size := by
  have hl := Nat.mul_le_mul hi hs
  have hf := h.fits
  rw [← h.whole] at hl
  exact SizeT.mul_eq (by unfold modulus; omega)

theorem Accepted.shard_le {i : Nat} (hi : i < config.shardsPerBlock) :
    i * config.shardSize + config.shardSize ≤ config.blockSize :=
  h.whole ▸ mul_add_le hi _

include hsmall

theorem Accepted.sum_le : config.tensorSizes.sum ≤ config.shardSize := by
  have hs := h.sum
  rwa [foldl_add (by omega), Nat.zero_add] at hs

theorem Accepted.running {i : Nat} (hi : i < config.shardsPerBlock) :
    ((runningOffsets (mul i config.shardSize) config.tensorSizes).zip
        config.tensorSizes).Pairwise Apart ∧
      ∀ span ∈ (runningOffsets (mul i config.shardSize) config.tensorSizes).zip
        config.tensorSizes, i * config.shardSize ≤ span.1 ∧
          span.1 + span.2 ≤ i * config.shardSize + config.shardSize := by
  have hl := h.shard_le hi
  have hf := h.fits
  have hu := h.sum_le hsmall
  rw [h.mul_eq hi.le le_rfl]
  have hs := runningOffsets_stacked
    (show i * config.shardSize + config.tensorSizes.sum < modulus by unfold modulus; omega)
  refine ⟨hs.1, fun span hm => ?_⟩
  have hn := hs.2 span hm
  omega

theorem Accepted.stacked_running :
    config.Stacked fun i => runningOffsets (mul i config.shardSize) config.tensorSizes where
  length i := length_runningOffsets _ _
  own i hi := (h.running hsmall hi).1
  inside i hi span hm := ((h.running hsmall hi).2 span hm).2.trans (h.shard_le hi)
  across j hj i hi a ha b hb := by
    have hf := ((h.running hsmall (hi.trans hj)).2 a ha).2
    have hs := ((h.running hsmall hj).2 b hb).1
    have hl := mul_add_le hi config.shardSize
    exact .inl (by omega)

/-- The keys of all layers stand before the values of all layers. -/
theorem Accepted.stacked_layerwise {first s : Nat} (hma : 1 < config.shardsPerBlock)
    (hsi : config.tensorSizes = [first, s]) : config.Stacked config.buildGqaTensorOffsets := by
  have hu := h.sum_le hsmall
  rw [hsi, sum_cons, sum_singleton] at hu
  have hf := h.fits
  have ht : config.shardsPerBlock * first + config.shardsPerBlock * s ≤
      config.blockSize := by
    rw [h.whole, ← Nat.mul_add]
    exact Nat.mul_le_mul_left _ hu
  have hs (i : Nat) (hi : i < config.shardsPerBlock) :
      (config.buildGqaTensorOffsets i).zip config.tensorSizes =
        [(i * first, first), (config.shardsPerBlock * first + i * s, s)] := by
    have hl := mul_add_le hi s
    unfold buildGqaTensorOffsets
    rw [if_pos hma, hsi]
    simp only [getD_cons_zero, getD_cons_succ]
    rw [h.mul_eq hi.le (by omega), h.mul_eq hi.le (by omega), h.mul_eq le_rfl (by omega),
      add_eq (by unfold modulus; omega)]
    rfl
  exact {
    length i := by
      unfold buildGqaTensorOffsets
      rw [if_pos hma, length_set, length_set, length_replicate]
    own i hi := by
      have hk := mul_add_le hi first
      rw [hs i hi]
      exact pairwise_pair.2 (.inl (by dsimp only; omega))
    inside i hi span hm := by
      have hk := mul_add_le hi first
      have hv := mul_add_le hi s
      rw [hs i hi] at hm
      rcases mem_pair.1 hm with rfl | rfl <;> dsimp only <;> omega
    across j hj i hi a ha b hb := by
      have hk := mul_add_le hi first
      have hv := mul_add_le hi s
      have hla := mul_add_le hj first
      rw [hs i (hi.trans hj)] at ha
      rw [hs j hj] at hb
      unfold Apart
      rcases mem_pair.1 ha with rfl | rfl <;> rcases mem_pair.1 hb with rfl | rfl <;>
        dsimp only <;> omega }

theorem Accepted.stacked_gqa (hg : parseTensorLayout config.tensorLayout = .GQA) :
    config.Stacked config.buildGqaTensorOffsets := by
  by_cases ha : 1 < config.shardsPerBlock
  · obtain ⟨first, second, hsi⟩ := length_eq_two.1 (h.pairs hg ha)
    exact h.stacked_layerwise hsmall ha hsi
  · have ho (i : Nat) : config.buildGqaTensorOffsets i =
        gqaOffsets (keyBase 0 0 config.tensorSizes) 0 0 0 config.tensorSizes := if_neg ha
    have hs := gqaOffsets_stacked (rfl : keyBase 0 0 config.tensorSizes = _)
      (show 0 + 0 + config.tensorSizes.sum < modulus by omega)
    have hb := keyBase_bounds 0 (show 0 + config.tensorSizes.sum < modulus by omega)
    have hu := h.sum_le hsmall
    exact {
      length i := by rw [ho, length_gqaOffsets]
      own i _ := ho i ▸ hs.1
      inside i hi span hm := by
        have hl := h.shard_le hi
        have hn := hs.2 span (ho i ▸ hm)
        omega
      across j hj i hi := absurd hi (by omega) }

theorem Accepted.stacked : config.Stacked config.buildTensorOffsets := by
  unfold buildTensorOffsets
  cases hl : parseTensorLayout config.tensorLayout with
  | MLA => exact h.stacked_running hsmall
  | GQA => exact h.stacked_gqa hsmall hl
  | HMA => exact h.stacked_running hsmall

end

def bytes (span : Nat × Nat) : Finset Nat := Finset.Ico span.1 (span.1 + span.2)

theorem Apart.disjoint {a b : Nat × Nat} (h : Apart a b) : Disjoint (bytes a) (bytes b) := by
  rw [Finset.disjoint_left]
  intro byt ha hb
  have hn := Finset.mem_Ico.1 ha
  have ho := Finset.mem_Ico.1 hb
  unfold Apart at h
  omega

/-- Every tensor of every shard has bytes of its own in the block, at an offset that fits its
32-bit field, and the entries of a task name these offsets. -/
structure Separate (config : Config) : Prop where
  placed : ∀ i, (config.buildTensorOffsets i).length = config.tensorSizes.length
  inside : ∀ i < config.shardsPerBlock, ∀ span ∈ config.spans i,
    bytes span ⊆ Finset.range config.blockSize ∧ span.1 < 2 ^ 32 ∧ span.2 < 2 ^ 32
  apart : ∀ i < config.shardsPerBlock, ∀ j < config.shardsPerBlock, ∀ (k l : Nat)
    (a b : Nat × Nat), (config.spans i)[k]? = some a → (config.spans j)[l]? = some b →
      (i, k) ≠ (j, l) → Disjoint (bytes a) (bytes b)
  entries : ∀ findPersistentHandle task entries,
    config.buildKvBuffers findPersistentHandle task = .ok entries → ∀ entry ∈ entries,
      ∃ shard ∈ task, shard.index < config.shardsPerBlock ∧ entry.key = shard.owner ∧
        (entry.offset.toNat, entry.size) ∈ config.spans shard.index

section
variable {findPersistentHandle : Nat → Nat → Option Nat} {entries : List KVBuffer}
  {entry : KVBuffer} (hm : entry ∈ entries)
include hm

theorem mem_shardBuffers {s : Shard} (h : config.shardBuffers findPersistentHandle s = .ok entries)
    : s.index < config.shardsPerBlock ∧ entry.key = s.owner ∧ ∃ offset, (offset, entry.size) ∈
    config.spans s.index ∧ entry.offset = offset.toUInt32 := by
  unfold shardBuffers at h
  split at h
  · cases h
  · split at h
    · cases h
    · obtain ⟨⟨a, offset, si⟩, hz, he⟩ := exists_of_mem_mapM h hm
      dsimp only at he
      split at he
      · cases he
      · cases he
        exact ⟨by omega, rfl, offset, (of_mem_zip hz).2, rfl⟩

theorem mem_buildKvBuffers {t : List Shard}
    (h : config.buildKvBuffers findPersistentHandle t = .ok entries) : ∃ s ∈ t, ∃ own,
    config.shardBuffers findPersistentHandle s = .ok own ∧ entry ∈ own := by
  obtain ⟨l, hl, hf⟩ := bind_eq_ok.1 h
  cases hf
  obtain ⟨own, ho, hm⟩ := mem_flatten.1 hm
  obtain ⟨s, hs, hb⟩ := exists_of_mem_mapM hl ho
  exact ⟨s, hs, own, hb, hm⟩

end

theorem Stacked.separate (h : config.Stacked config.buildTensorOffsets)
    (hfi : config.blockSize < 2 ^ 32) : config.Separate where
  placed := h.length
  inside i hi span hm := by
    have hn := h.inside i hi span hm
    refine ⟨fun byt hy => ?_, by omega, by omega⟩
    have hr := Finset.mem_Ico.1 hy
    rw [Finset.mem_range]
    omega
  apart i hi j hj k l a b ha hb he := by
    rcases Nat.lt_trichotomy i j with hs | rfl | hs
    · exact (h.across j hj i hs a (mem_of_getElem? ha) b (mem_of_getElem? hb)).disjoint
    · obtain ⟨hk, rfl⟩ := List.getElem?_eq_some_iff.1 ha
      obtain ⟨hl, rfl⟩ := List.getElem?_eq_some_iff.1 hb
      have ho := pairwise_iff_getElem.1 (h.own i hi)
      rcases Nat.lt_or_gt_of_ne (fun hq => he (hq ▸ rfl) : k ≠ l) with hkl | hkl
      · exact (ho k l hk hl hkl).disjoint
      · exact (ho l k hl hk hkl).disjoint.symm
    · exact (h.across i hi j hs b (mem_of_getElem? hb) a (mem_of_getElem? ha)).disjoint.symm
  entries findPersistentHandle task entries hu entry hm := by
    obtain ⟨s, hh, own, ho, hm⟩ := mem_buildKvBuffers hm hu
    obtain ⟨hd, hky, offset, hp, hf⟩ := mem_shardBuffers hm ho
    refine ⟨s, hh, hd, hky, ?_⟩
    have hn := h.inside _ hd _ hp
    rw [hf, Nat.toUInt32, UInt32.toNat_ofNat_of_lt' (by change offset < 2 ^ 32; omega)]
    exact hp

/-- Nothing is asked of the product of the shard size and the number of shards: a wrapped one that
is accepted is still a number of whole shards. -/
theorem tensors_separate (config : Config) (hworker : 0 ≤ config.deviceId)
    (hsmall : config.normalizeAsuShardConfig.tensorSizes.sum < modulus)
    (hcheck : config.normalizeAsuShardConfig.checkConfig.success = true) :
    config.normalizeAsuShardConfig.Separate := by
  have hd : config.normalizeAsuShardConfig.deviceId = config.deviceId := by
    unfold normalizeAsuShardConfig
    split
    · rfl
    · split <;> rfl
  have ha := Accepted.of_checkConfig (hd ▸ hworker) hcheck
  exact (ha.stacked hsmall).separate ha.fits

theorem tensors_separate_layerwise : let config : Config := ⟨0, [1000, 500], 1500, 4500, "gqa"⟩
    config.normalizeAsuShardConfig.spans 2 = [(2048, 1024), (4096, 512)] ∧
      config.normalizeAsuShardConfig.Separate :=
  ⟨by decide, tensors_separate _ (by decide) (by decide) (by decide)⟩

end Config
end UnifiedCache.AsuStore
