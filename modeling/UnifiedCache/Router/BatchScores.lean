import UnifiedCache.Lib.Texts
import UnifiedCache.Router.Partition

/-! The one candidate that the batch router draws: the node with the lowest score for the name of
the batch. The names of different batches of keys of one length are different, so that a hash
function may score them in any way. -/
namespace UnifiedCache.Router
open List

/-- What `BuildBatchKey` adds for a key. -/
def entryName (entry : CacheKey × Nat) : CacheKey :=
  text "#" ++ decimal entry.2 ++ text ":" ++ entry.1

theorem buildBatchKey_eq (keys : List CacheKey) : buildBatchKey keys =
    text "batch-size#" ++ decimal keys.length ++ keys.zipIdx.flatMap entryName := rfl

def scoreName (keys : List CacheKey) (nodeId : NodeId) : CacheKey :=
  text "batch-topk-candidate#" ++ buildBatchKey keys ++ text "#node-" ++ decimal nodeId.toNat

def Favoured (hash : HashFunction) (nodeIds : List NodeId) (keys : List CacheKey)
    (nodeId : NodeId) : Prop :=
  nodeId ∈ nodeIds ∧ ∀ other ∈ nodeIds,
    scoreLe (hash (scoreName keys nodeId), nodeId) (hash (scoreName keys other), other)

variable {hash : HashFunction} {nodeIds : List NodeId} {nodeId : NodeId} {keys : List CacheKey}

theorem Favoured.unique {other : NodeId} (h : Favoured hash nodeIds keys nodeId)
    (ho : Favoured hash nodeIds keys other) : nodeId = other :=
  congrArg Prod.snd (antisymm_of scoreLe (h.2 other ho.1) (ho.2 nodeId h.1))

theorem selectCandidates_favoured (hash : HashFunction) (keys : List CacheKey)
    (hn : nodeIds ≠ []) : ∃ nodeId,
    selectCandidates hash nodeIds 1 (buildBatchKey keys) = [nodeId] ∧
      Favoured hash nodeIds keys nodeId := by
  have hp := perm_insertionSort scoreLe
    (nodeIds.map fun nodeId => (hash (scoreName keys nodeId), nodeId))
  have hs := pairwise_insertionSort scoreLe
    (nodeIds.map fun nodeId => (hash (scoreName keys nodeId), nodeId))
  cases hl : (nodeIds.map fun nodeId => (hash (scoreName keys nodeId), nodeId)).insertionSort
      scoreLe with
  | nil =>
    rw [hl] at hp
    exact absurd (map_eq_nil_iff.1 hp.symm.eq_nil) hn
  | cons first rest =>
    rw [hl] at hp hs
    obtain ⟨nodeId, hm, rfl⟩ := mem_map.1 (hp.mem_iff.1 mem_cons_self)
    refine ⟨nodeId, ?_, hm, fun other ho => ?_⟩
    · have he : selectCandidates hash nodeIds 1 (buildBatchKey keys) =
          (((nodeIds.map fun nodeId => (hash (scoreName keys nodeId), nodeId)).insertionSort
            scoreLe).take 1).map Prod.snd := rfl
      rw [he, hl]
      rfl
    · rcases mem_cons.1 (hp.mem_iff.2 (mem_map_of_mem ho)) with he | hr
      · rw [he]
        exact Std.Total.total (r := scoreLe) _ _ |>.elim id id
      · exact (pairwise_cons.1 hs).1 _ hr

variable {other : List CacheKey}

theorem flatMap_zipIdx_inj {length index : Nat} {rest tail : CacheKey}
    (hk : ∀ key ∈ keys, key.length = length) (ho : ∀ key ∈ other, key.length = length)
    (hl : keys.length = other.length) (h : (keys.zipIdx index).flatMap entryName ++ rest =
      (other.zipIdx index).flatMap entryName ++ tail) : keys = other ∧ rest = tail := by
  induction keys generalizing other index with
  | nil =>
    obtain rfl := length_eq_zero_iff.1 hl.symm
    exact ⟨rfl, h⟩
  | cons key keys ih =>
    obtain ⟨second, others, rfl⟩ := exists_cons_of_length_eq_add_one hl.symm
    have hn : ∀ key : CacheKey, entryName (key, index) =
        text "#" ++ decimal index ++ text ":" ++ key := fun _ => rfl
    simp only [zipIdx_cons, flatMap_cons, hn, append_assoc, append_cancel_left_eq] at h
    obtain ⟨rfl, hs⟩ := append_inj h
      ((hk key mem_cons_self).trans (ho second mem_cons_self).symm)
    obtain ⟨rfl, hr⟩ := ih (fun key hm => hk key (mem_cons_of_mem _ hm))
      (fun key hm => ho key (mem_cons_of_mem _ hm)) (Nat.succ.inj hl) hs
    exact ⟨rfl, hr⟩

theorem mark_notMem_decimal (number : Nat) : 35 ∉ decimal number := by
  intro hm
  exact absurd (Texts.isDigit_of_mem_toUTF8 hm).1 (by decide)

theorem exists_mark (keys : List CacheKey) (nodeId : NodeId) : ∃ rest,
    keys.zipIdx.flatMap entryName ++ (text "#node-" ++ decimal nodeId.toNat) = 35 :: rest := by
  cases keys with
  | nil =>
    have ht : text "#node-" = 35 :: text "node-" := by decide +kernel
    exact ⟨text "node-" ++ decimal nodeId.toNat, by simp [ht]⟩
  | cons key keys =>
    have ht : text "#" = [35] := by decide +kernel
    exact ⟨_, by rw [zipIdx_cons, flatMap_cons, entryName, ht]; rfl⟩

theorem scoreName_inj {otherId : NodeId} {length : Nat}
    (hk : ∀ key ∈ keys, key.length = length) (ho : ∀ key ∈ other, key.length = length)
    (h : scoreName keys nodeId = scoreName other otherId) : keys = other ∧ nodeId = otherId := by
  simp only [scoreName, buildBatchKey_eq, append_assoc, append_cancel_left_eq] at h
  obtain ⟨rest, hr⟩ := exists_mark keys nodeId
  obtain ⟨tail, ht⟩ := exists_mark other otherId
  rw [hr, ht] at h
  obtain ⟨hd, hrest⟩ := Texts.append_cons_inj (mark_notMem_decimal _) (mark_notMem_decimal _) h
  rw [hrest, ← ht] at hr
  obtain ⟨rfl, hn⟩ := flatMap_zipIdx_inj hk ho (Texts.toUTF8_toString_inj hd) hr
  have hid := Texts.toUTF8_toString_inj (append_cancel_left hn)
  exact ⟨rfl, UInt64.toNat_inj.1 hid⟩

/-- Some hash function favours different nodes for different keys. -/
theorem exists_hash_apart {first second : NodeId} {length : Nat}
    (hk : ∀ key ∈ keys, key.length = length) (ho : ∀ key ∈ other, key.length = length)
    (hne : keys ≠ other) (hf : first ∈ nodeIds) (hs : second ∈ nodeIds) (hd : first ≠ second) :
    ∃ hash, ∀ nodeId, Favoured hash nodeIds keys nodeId →
      ¬ Favoured hash nodeIds other nodeId := by
  refine ⟨fun name => if name = scoreName keys first ∨ name = scoreName other second then 0 else 1,
    fun nodeId hl hr => ?_⟩
  -- a score that is not above 0 is that of one of the two names
  have hz : ∀ (name : CacheKey) (nodeId last : NodeId), scoreLe ((if name = scoreName keys first ∨
      name = scoreName other second then 0 else 1 : UInt64), nodeId) (0, last) →
        name = scoreName keys first ∨ name = scoreName other second := by
    intro name nodeId last hle
    by_contra hn
    rw [if_neg hn] at hle
    simp [scoreLe] at hle
  have hfirst := hl.2 first hf
  have hsecond := hr.2 second hs
  simp only [true_or, or_true, if_true] at hfirst hsecond
  obtain he | he := hz _ _ _ hfirst
  · obtain hg | hg := hz _ _ _ hsecond
    · exact hne (scoreName_inj ho hk hg).1.symm
    · exact hd ((scoreName_inj hk hk he).2.symm.trans (scoreName_inj ho ho hg).2)
  · exact hne (scoreName_inj hk ho he).1

end UnifiedCache.Router
