import UnifiedCache.Router.Partition

/-! The hash ring. If no two nodes want the same place, every node has the places that it takes
when it is alone: the ring does not depend on the order of the nodes, and without a node it is what
is left of the whole ring. If two nodes want the same place, the one that comes first has it. -/
namespace UnifiedCache.Router
open List Function

variable {hash : HashFunction} {nodeIds other : List NodeId} {nodeId : NodeId}
variable {virtualNodeCount : UInt64}

/-- The places of a node that is alone, behind those it has `taken`: for each of its virtual nodes
the first salted hash that it does not have yet. -/
def ownPlaces (hash : HashFunction) (nodeId : NodeId) : List Nat → List UInt64 → List UInt64
  | [], taken => taken
  | index :: rest, taken =>
    match ((range (kMaxVirtualNodeSaltAttempts + 1)).map fun salt =>
      hash (buildVirtualNodeKey nodeId index salt)).find? (· ∉ taken) with
    | none => taken
    | some place => ownPlaces hash nodeId rest (taken ++ [place])

def points (hash : HashFunction) (indexes : List Nat) (nodeIds : List NodeId) : RingData :=
  nodeIds.flatMap fun nodeId => (ownPlaces hash nodeId indexes []).map fun place => (place, nodeId)

def Apart (hash : HashFunction) (nodeIds : List NodeId) (virtualNodeCount : UInt64) : Prop :=
  ∀ first ∈ nodeIds, ∀ second ∈ nodeIds, first ≠ kInvalidNodeId → second ≠ kInvalidNodeId →
    first ≠ second → (ownPlaces hash first (range virtualNodeCount.toNat) []).Disjoint
      (ownPlaces hash second (range virtualNodeCount.toNat) [])

section
variable {indexes : List Nat} {taken : List UInt64}

theorem subset_ownPlaces : taken ⊆ ownPlaces hash nodeId indexes taken := by
  induction indexes generalizing taken with
  | nil => exact Subset.refl _
  | cons index rest ih =>
    unfold ownPlaces
    split
    · exact Subset.refl _
    · exact Subset.trans (subset_append_left _ _) ih

theorem nodup_ownPlaces (hn : taken.Nodup) : (ownPlaces hash nodeId indexes taken).Nodup := by
  induction indexes generalizing taken with
  | nil => exact hn
  | cons index rest ih =>
    unfold ownPlaces
    split
    · exact hn
    · rename_i hf
      have hp := find?_some hf
      exact ih (hn.append (nodup_singleton _) (by simpa using hp))

/-- Some key goes to each place of a node: the salted name of the virtual node. -/
theorem exists_key_of_mem_ownPlaces {place : UInt64}
    (h : place ∈ ownPlaces hash nodeId indexes taken) :
    place ∈ taken ∨ ∃ key, hash key = place := by
  induction indexes generalizing taken with
  | nil => exact .inl h
  | cons index rest ih =>
    unfold ownPlaces at h
    split at h
    · exact .inl h
    · rename_i hf
      rcases ih h with hm | hk
      · rcases mem_append.1 hm with hm | hm
        · exact .inl hm
        · cases mem_singleton.1 hm
          obtain ⟨salt, -, hs⟩ := mem_map.1 (mem_of_find?_eq_some hf)
          exact .inr ⟨_, hs⟩
      · exact .inr hk

theorem insertVirtualNodes_own {ring : RingData}
    (h : ∀ place ∈ ownPlaces hash nodeId indexes taken, place ∉ ring.map Prod.fst) :
    insertVirtualNodes hash nodeId indexes (ring ++ taken.map fun place => (place, nodeId)) =
      ring ++ (ownPlaces hash nodeId indexes taken).map fun place => (place, nodeId) := by
  induction indexes generalizing taken with
  | nil => rfl
  | cons index rest ih =>
    have hm : ∀ place, place ∈ (ring ++ taken.map fun place => (place, nodeId)).map Prod.fst ↔
        place ∈ ring.map Prod.fst ∨ place ∈ taken := by
      simp [comp_def]
    unfold ownPlaces at h ⊢
    rw [insertVirtualNodes, insertVirtualNode]
    cases hf : ((range (kMaxVirtualNodeSaltAttempts + 1)).map fun salt =>
        hash (buildVirtualNodeKey nodeId index salt)).find? (· ∉ taken) with
    | none =>
      have hn : ((range (kMaxVirtualNodeSaltAttempts + 1)).map fun salt =>
          hash (buildVirtualNodeKey nodeId index salt)).find? (fun hashValue => hashValue ∉
            (ring ++ taken.map fun place => (place, nodeId)).map Prod.fst) = none := by
        refine find?_eq_none.2 fun place hp => ?_
        have ht := find?_eq_none.1 hf place hp
        simp only [hm, decide_eq_true_eq, not_not] at ht ⊢
        exact .inr ht
      rw [hn]
      rfl
    | some place =>
      rw [hf] at h
      dsimp only at h ⊢
      -- the places tried before are the node's own; this one is free for it, so nobody has it
      have hfree : place ∉ ring.map Prod.fst :=
        h place (subset_ownPlaces (mem_append_right _ (mem_singleton_self _)))
      obtain ⟨hp, before, after, hb, ht⟩ := find?_eq_some_iff_append.1 hf
      have hs : ((range (kMaxVirtualNodeSaltAttempts + 1)).map fun salt =>
          hash (buildVirtualNodeKey nodeId index salt)).find? (fun hashValue => hashValue ∉
            (ring ++ taken.map fun place => (place, nodeId)).map Prod.fst) = some place := by
        refine find?_eq_some_iff_append.2 ⟨?_, before, after, hb, fun other ho => ?_⟩
        · simp only [hm, decide_eq_true_eq] at hp ⊢
          exact not_or.2 ⟨hfree, hp⟩
        · have htaken := ht other ho
          simp only [hm, Bool.not_eq_true', decide_eq_false_iff_not, not_not] at htaken ⊢
          exact .inr htaken
      rw [hs]
      have hi := ih h
      rw [map_append, map_singleton, ← append_assoc] at hi
      exact hi

end

theorem insertAll_eq {indexes : List Nat} {ringData : RingData}
    (h : ((ringData ++ points hash indexes nodeIds).map Prod.fst).Nodup) :
    nodeIds.foldl (fun ringData nodeId => insertVirtualNodes hash nodeId indexes ringData)
      ringData = ringData ++ points hash indexes nodeIds := by
  induction nodeIds generalizing ringData with
  | nil => simp [points]
  | cons nodeId rest ih =>
    have hs : ringData ++ points hash indexes (nodeId :: rest) = ringData ++
        (ownPlaces hash nodeId indexes []).map (fun place => (place, nodeId)) ++
          points hash indexes rest := by
      simp [points]
    rw [hs] at h ⊢
    have ho : ∀ place ∈ ownPlaces hash nodeId indexes [], place ∉ ringData.map Prod.fst := by
      intro place hp hr
      rw [append_assoc, map_append, nodup_append] at h
      exact h.2.2 place hr place (by simp [hp]) rfl
    have hi := insertVirtualNodes_own ho
    rw [map_nil, append_nil] at hi
    rw [foldl_cons, hi, ih h]

theorem buildRing_eq (hd : ((points hash (List.range virtualNodeCount.toNat)
      (normalizeNodeIds nodeIds)).map Prod.fst).Nodup) :
    buildRing hash nodeIds virtualNodeCount = (points hash (List.range virtualNodeCount.toNat)
      (normalizeNodeIds nodeIds)).insertionSort scoreLe := by
  rw [buildRing, insertAll_eq (by simpa using hd), nil_append]

theorem buildRing_of_perm {ring : RingData} (hr : ring.Pairwise scoreLe)
    (hd : (ring.map Prod.fst).Nodup)
    (hp : (points hash (List.range virtualNodeCount.toNat) (normalizeNodeIds nodeIds)).Perm ring) :
    buildRing hash nodeIds virtualNodeCount = ring := by
  rw [buildRing_eq ((hp.map Prod.fst).nodup_iff.2 hd)]
  exact Perm.eq_of_pairwise' (pairwise_insertionSort scoreLe _) hr
    ((perm_insertionSort scoreLe _).trans hp)

theorem points_filter (indexes : List Nat) (nodeIds : List NodeId) :
    (points hash indexes nodeIds).filter (·.2 ≠ nodeId) =
      points hash indexes (nodeIds.filter (· ≠ nodeId)) := by
  induction nodeIds with
  | nil => rfl
  | cons first =>
    by_cases hs : first = nodeId <;> simp_all [points]

variable {key : CacheKey}

theorem ringRouteKey_filter {ring : RingData} (h : ringRouteKey hash ring key ≠ nodeId) :
    ringRouteKey hash (ring.filter (·.2 ≠ nodeId)) key = ringRouteKey hash ring key := by
  unfold ringRouteKey at h ⊢
  cases hf : ring.find? fun ringNode => hash key ≤ ringNode.1 with
  | some ringNode =>
    rw [hf] at h
    obtain ⟨hl, before, after, rfl, hb⟩ := find?_eq_some_iff_append.1 hf
    have hs : (before.filter (·.2 ≠ nodeId) ++ ringNode :: after.filter (·.2 ≠ nodeId)).find?
        (fun ringNode => hash key ≤ ringNode.1) = some ringNode :=
      find?_eq_some_iff_append.2 ⟨hl, _, _, rfl, fun other ho => hb other (mem_of_mem_filter ho)⟩
    rw [filter_append, filter_cons_of_pos (by simpa using h), hs]
  | none =>
    rw [hf] at h
    have hn : (ring.filter (·.2 ≠ nodeId)).find? (fun ringNode => hash key ≤ ringNode.1) =
        none := by
      refine find?_eq_none.2 fun other ho => ?_
      exact find?_eq_none.1 hf other (mem_of_mem_filter ho)
    rw [hn]
    cases ring with
    | nil => rfl
    | cons => rw [filter_cons_of_pos (by simpa using h)]

theorem perm_normalizeNodeIds (hp : nodeIds.Perm other) :
    (normalizeNodeIds other).Perm (normalizeNodeIds nodeIds) := by
  refine (perm_ext_iff_of_nodup (nodup_normalizeNodeIds _) (nodup_normalizeNodeIds _)).2 ?_
  simp [hp.mem_iff]

theorem normalizeNodeIds_filter (nodeId : NodeId) (nodeIds : List NodeId) :
    (normalizeNodeIds (nodeIds.filter (· ≠ nodeId))).Perm
      ((normalizeNodeIds nodeIds).filter (· ≠ nodeId)) := by
  refine (perm_ext_iff_of_nodup (nodup_normalizeNodeIds _)
    ((nodup_normalizeNodeIds _).filter _)).2 fun other => ?_
  simp [and_right_comm]

theorem nodup_points_iff :
    ((points hash (range virtualNodeCount.toNat) (normalizeNodeIds nodeIds)).map Prod.fst).Nodup ↔
      Apart hash nodeIds virtualNodeCount := by
  have hm : (points hash (range virtualNodeCount.toNat) (normalizeNodeIds nodeIds)).map Prod.fst =
      (normalizeNodeIds nodeIds).flatMap
        fun nodeId => ownPlaces hash nodeId (range virtualNodeCount.toNat) [] := by
    simp [points, map_flatMap, comp_def]
  rw [hm, nodup_flatMap]
  constructor
  · rintro ⟨-, hp⟩ first hf second hs hfv hsv hne
    have : Std.Symm (onFun List.Disjoint fun nodeId =>
        ownPlaces hash nodeId (range virtualNodeCount.toNat) []) :=
      ⟨fun _ _ hd => List.Disjoint.symm hd⟩
    exact hp.forall (mem_normalizeNodeIds.2 ⟨hf, hfv⟩) (mem_normalizeNodeIds.2 ⟨hs, hsv⟩) hne
  · intro ha
    refine ⟨fun nodeId _ => nodup_ownPlaces nodup_nil, ?_⟩
    refine (nodup_normalizeNodeIds nodeIds).imp_of_mem fun hf hs hne => ?_
    obtain ⟨hf, hfv⟩ := mem_normalizeNodeIds.1 hf
    obtain ⟨hs, hsv⟩ := mem_normalizeNodeIds.1 hs
    exact ha _ hf _ hs hfv hsv hne

theorem ringRouteKey_of_mem {ring : RingData} (hs : ring.Pairwise scoreLe)
    (hd : (ring.map Prod.fst).Nodup) (hm : (hash key, nodeId) ∈ ring) :
    ringRouteKey hash ring key = nodeId := by
  obtain ⟨before, after, rfl⟩ := append_of_mem hm
  have hf : (before ++ (hash key, nodeId) :: after).find? (fun ringNode => hash key ≤ ringNode.1) =
      some (hash key, nodeId) := by
    refine find?_eq_some_iff_append.2 ⟨by simp, before, after, rfl, fun other ho => ?_⟩
    have hle := (pairwise_append.1 hs).2.2 other ho _ mem_cons_self
    rw [map_append, nodup_append] at hd
    have hne := hd.2.2 other.1 (mem_map_of_mem ho) (hash key) (by simp)
    rcases hle with hlt | ⟨he, -⟩
    · simpa using hlt
    · exact absurd he hne
  unfold ringRouteKey
  rw [hf]

theorem nodup_insertVirtualNodes {indexes : List Nat} {ring : RingData}
    (h : (ring.map Prod.fst).Nodup) :
    ((insertVirtualNodes hash nodeId indexes ring).map Prod.fst).Nodup := by
  induction indexes generalizing ring with
  | nil => exact h
  | cons index rest ih =>
    rw [insertVirtualNodes, insertVirtualNode]
    split
    · exact h
    · rename_i hi
      obtain ⟨place, hf, rfl⟩ := Option.map_eq_some_iff.1 hi
      have hp := find?_some hf
      apply ih
      rw [map_append]
      exact h.append (nodup_singleton _) (by simpa using hp)

theorem nodup_buildRing : ((buildRing hash nodeIds virtualNodeCount).map Prod.fst).Nodup := by
  rw [buildRing, ((perm_insertionSort scoreLe _).map Prod.fst).nodup_iff]
  generalize normalizeNodeIds nodeIds = active
  suffices h : ∀ ring : RingData, (ring.map Prod.fst).Nodup → ((active.foldl (fun ringData nodeId =>
      insertVirtualNodes hash nodeId (range virtualNodeCount.toNat) ringData) ring).map
        Prod.fst).Nodup from h [] nodup_nil
  induction active with
  | nil => exact fun _ h => h
  | cons nodeId rest ih => exact fun ring h => ih _ (nodup_insertVirtualNodes h)

theorem normalizeNodeIds_cons (hv : nodeId ≠ kInvalidNodeId) (nodeIds : List NodeId) :
    ∃ rest, normalizeNodeIds (nodeId :: nodeIds) = nodeId :: rest := by
  have hp : [nodeId] <+: normalizeNodeIds (nodeId :: nodeIds) := by
    rw [normalizeNodeIds, foldl_cons, if_neg (by simpa using hv), nil_append]
    suffices h : ∀ active, [nodeId] <+: active → [nodeId] <+: nodeIds.foldl (fun active nodeId =>
        if nodeId = kInvalidNodeId ∨ nodeId ∈ active then active
          else active ++ [nodeId]) active from h _ (prefix_refl _)
    induction nodeIds with
    | nil => exact fun _ h => h
    | cons first rest ih =>
      intro active ha
      rw [foldl_cons]
      split
      · exact ih active ha
      · exact ih _ (ha.trans (prefix_append _ _))
  obtain ⟨rest, hr⟩ := hp
  exact ⟨rest, hr.symm⟩

/-- The first node of the list has all the places that it takes when it is alone. -/
theorem owner_of_first {place : UInt64} (hv : nodeId ≠ kInvalidNodeId)
    (hp : place ∈ ownPlaces hash nodeId (range virtualNodeCount.toNat) [])
    (hk : hash key = place) (nodeIds : List NodeId) :
    ringRouteKey hash (buildRing hash (nodeId :: nodeIds) virtualNodeCount) key = nodeId := by
  apply ringRouteKey_of_mem (pairwise_insertionSort scoreLe _) nodup_buildRing
  obtain ⟨rest, hr⟩ := normalizeNodeIds_cons hv nodeIds
  have hi := @insertVirtualNodes_own hash nodeId (range virtualNodeCount.toNat) [] [] (by simp)
  obtain ⟨added, ha, -⟩ := insertAll_extends hash rest (range virtualNodeCount.toNat)
    ((ownPlaces hash nodeId (range virtualNodeCount.toNat) []).map fun place => (place, nodeId))
  rw [map_nil, append_nil, nil_append] at hi
  rw [mem_insertionSort, hr, foldl_cons, hi, ha, hk]
  exact mem_append_left _ (mem_map_of_mem hp)

/-- Taking a node away moves no keys but its own, and the order of the nodes does not matter,
exactly if no two nodes want the same place. -/
theorem ring_consistent_iff (hash : HashFunction) (nodeIds : List NodeId)
    (virtualNodeCount : UInt64) : (∀ key, (∀ nodeId ∈ nodeIds,
      ringRouteKey hash (buildRing hash nodeIds virtualNodeCount) key ≠ nodeId →
        ringRouteKey hash (buildRing hash (nodeIds.filter (· ≠ nodeId)) virtualNodeCount) key =
          ringRouteKey hash (buildRing hash nodeIds virtualNodeCount) key) ∧
      ∀ other, nodeIds.Perm other →
        ringRouteKey hash (buildRing hash other virtualNodeCount) key =
          ringRouteKey hash (buildRing hash nodeIds virtualNodeCount) key) ↔
    Apart hash nodeIds virtualNodeCount := by
  constructor
  · -- either of two nodes that want a place can come first
    intro h first hf second hs hfv hsv hne place hp hq
    obtain ht | ⟨key, hk⟩ := exists_key_of_mem_ownPlaces hp
    · cases ht
    have hfirst := (h key).2 _ (perm_cons_erase hf)
    have hsecond := (h key).2 _ (perm_cons_erase hs)
    rw [owner_of_first hfv hp hk] at hfirst
    rw [owner_of_first hsv hq hk] at hsecond
    exact hne (hfirst.trans hsecond.symm)
  · intro h key
    have distinct := nodup_points_iff.2 h
    have hr := buildRing_eq distinct
    have hs := pairwise_insertionSort scoreLe
      (points hash (List.range virtualNodeCount.toNat) (normalizeNodeIds nodeIds))
    have hp := perm_insertionSort scoreLe
      (points hash (List.range virtualNodeCount.toNat) (normalizeNodeIds nodeIds))
    rw [← hr] at hs hp
    have hd := (hp.map Prod.fst).nodup_iff.2 distinct
    constructor
    · intro nodeId _ ho
      rw [← ringRouteKey_filter ho]
      congr 1
      refine buildRing_of_perm (hs.filter _) (hd.sublist (filter_sublist.map _)) ?_
      refine ((normalizeNodeIds_filter nodeId nodeIds).flatMap_right _).trans
        (.trans ?_ (hp.symm.filter _))
      exact .of_eq (points_filter _ _).symm
    · intro other ht
      congr 1
      exact buildRing_of_perm hs hd (((perm_normalizeNodeIds ht).flatMap_right _).trans hp.symm)

theorem ring_consistent_swap : let hash : HashFunction := fun key => (key.getLast?.getD 0).toUInt64
    ringRouteKey hash (buildRing hash [2, 1] 1) [] =
      ringRouteKey hash (buildRing hash [1, 2] 1) [] := by
  refine (((ring_consistent_iff _ [1, 2] 1).2 ?_) []).2 [2, 1] (.swap 2 1 [])
  have ho : ∀ (hash : HashFunction) (nodeId : NodeId), ownPlaces hash nodeId
      (range (1 : UInt64).toNat) [] = [hash (buildVirtualNodeKey nodeId 0 0)] := by
    intro hash nodeId
    simp [ownPlaces, range_succ_eq_map]
  intro first hf second hs _ _ hne
  rw [ho, ho, disjoint_singleton, mem_singleton]
  revert hne
  fin_cases hf <;> fin_cases hs <;> decide +kernel

theorem buildRing_constant {first s : NodeId} (ha : normalizeNodeIds [first, s] = [first, s]) :
    buildRing (fun _ => 0) [first, s] 1 = [(0, first)] := by
  have hf : insertVirtualNode (fun _ => 0) [(0, first)] s 0 = none := by
    simp [insertVirtualNode]
  simp [buildRing, ha, range_succ_eq_map, insertVirtualNodes, insertVirtualNode_new, hf]

theorem ring_inconsistent : ringRouteKey (fun _ => 0) (buildRing (fun _ => 0) [1, 2] 1) [] = 1 ∧
      ringRouteKey (fun _ => 0) (buildRing (fun _ => 0) [2, 1] 1) [] = 2 := by
  rw [buildRing_constant (by decide), buildRing_constant (by decide)]
  decide

end UnifiedCache.Router
