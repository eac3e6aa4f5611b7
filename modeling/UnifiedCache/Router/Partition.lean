import UnifiedCache.Router.Maglev

/-! Who gets which position: with a valid owner for every key, the routes are the
positions of the keys, each with the owner of its key. -/
namespace UnifiedCache.Router
open List Grouping
variable {hash : HashFunction}

def ownedBy (owner : CacheKey → NodeId) (keys : List CacheKey) : List (NodeId × Nat) :=
  keys.zipIdx.map fun entry => (owner entry.1, entry.2)

@[simp] theorem positions_ownedBy (owner : CacheKey → NodeId) (keys : List CacheKey) :
    (ownedBy owner keys).map Prod.snd = range keys.length := by
  simp [ownedBy, Function.comp_def, zipIdx_map_snd, range_eq_range']

variable {nodeId : NodeId}

@[simp] theorem mem_ownedBy {owner : CacheKey → NodeId} {keys : List CacheKey} {index : Nat} :
    (nodeId, index) ∈ ownedBy owner keys ↔ ∃ key, keys[index]? = some key ∧ owner key = nodeId := by
  simp only [ownedBy, mem_map, Prod.exists, Prod.mk.injEq]
  constructor
  · rintro ⟨key, position, hm, rfl, rfl⟩
    exact ⟨key, mem_zipIdx_iff_getElem?.1 hm, rfl⟩
  · rintro ⟨key, hk, rfl⟩
    exact ⟨key, index, mem_zipIdx_iff_getElem?.2 hk, rfl, rfl⟩

def blockOwner (owner : CacheKey → NodeId) (chunk : List (CacheKey × Nat)) : NodeId :=
  chunk.head?.elim kInvalidNodeId fun entry => owner entry.1

def blocks (owner : CacheKey → NodeId) (limit : Nat) (keys : List CacheKey) :
    List (NodeId × Nat) :=
  (Chunks.chunks limit keys.zipIdx).flatMap fun chunk =>
    chunk.map fun entry => (blockOwner owner chunk, entry.2)

variable {router : FullSpreadRouter}

section
variable (valid : ∀ key, router.routeKey hash key ≠ kInvalidNodeId)
include valid

theorem FullSpreadRouter.routeKeys_eq (keys : List CacheKey) :
    router.routeKeys hash keys = collect (ownedBy (router.routeKey hash) keys) := by
  unfold FullSpreadRouter.routeKeys collect ownedBy
  rw [foldl_map]
  simp only [ne_eq, valid, not_false_eq_true, if_true]

theorem contiguousRouteKey_eq (key : CacheKey) :
    contiguousRouteKey hash router key = router.routeKey hash key := by
  simp [contiguousRouteKey, FullSpreadRouter.routeKeys, valid, add, Table.modify, Table.emplace,
    Table.empty]

theorem contiguousRouteKeys_eq {blockSize : UInt64} (sized : 0 < blockSize.toNat)
    (keys : List CacheKey) : contiguousRouteKeys hash blockSize router keys = collect
    (blocks (router.routeKey hash) blockSize.toNat keys) := by
  unfold contiguousRouteKeys collect blocks
  rw [foldl_flatMap, Nat.max_eq_right sized]
  congr
  funext routes chunk
  cases chunk with
  | nil => rfl
  | cons =>
    simp only [contiguousRouteKey_eq valid, valid, if_false, foldl_map, blockOwner, head?_cons,
      Option.elim_some]

theorem contiguousRouteKeys_one (k : List CacheKey) :
    contiguousRouteKeys hash 1 router k = collect (ownedBy (router.routeKey hash) k) := by
  rw [contiguousRouteKeys_eq valid (by decide), blocks, show (1 : UInt64).toNat = 1 from rfl,
    Chunks.chunks_one, flatMap_map, ownedBy, map_eq_flatMap]
  rfl

end

variable (hash) in
theorem ringRouteKey_mem {ring : RingData} (places : ring ≠ []) (key : CacheKey) :
    ringRouteKey hash ring key ∈ ring.map Prod.snd := by
  unfold ringRouteKey
  split
  · rename_i hf
    exact mem_map_of_mem (mem_of_find?_eq_some hf)
  · split
    · exact absurd rfl places
    · simp

theorem insertVirtualNode_some {ring extended : RingData} {index : Nat}
    (h : insertVirtualNode hash ring nodeId index = some extended) : ∃ ha, extended = ring ++
    [(ha, nodeId)] := by
  simp only [insertVirtualNode, Option.map_eq_some_iff] at h
  obtain ⟨ha, _, he⟩ := h
  exact ⟨ha, he.symm⟩

theorem insertVirtualNode_new {ring : RingData} {index : Nat}
    (hn : hash (buildVirtualNodeKey nodeId index 0) ∉ ring.map Prod.fst) :
    insertVirtualNode hash ring nodeId index = some
    (ring ++ [(hash (buildVirtualNodeKey nodeId index 0), nodeId)]) := by
  simp only [insertVirtualNode, range_succ_eq_map, map_cons, hn, not_false_eq_true, decide_true,
    find?_cons_of_pos, Option.map_some]

variable (hash) in
theorem insertVirtualNodes_extends (nodeId : NodeId) (ind : List Nat) (ring : RingData) :
    ∃ a, insertVirtualNodes hash nodeId ind ring = ring ++ a ∧ ∀ ri ∈ a, ri.2 = nodeId := by
  induction ind generalizing ring with
  | nil => exact ⟨[], by simp [insertVirtualNodes]⟩
  | cons i _ ih =>
    rw [insertVirtualNodes]
    cases hn : insertVirtualNode hash ring nodeId i with
    | none => exact ⟨[], (append_nil _).symm, fun _ h => absurd h not_mem_nil⟩
    | some =>
      obtain ⟨ha, rfl⟩ := insertVirtualNode_some hn
      obtain ⟨a, hd, ho⟩ := ih (ring ++ [(ha, nodeId)])
      refine ⟨(ha, nodeId) :: a, ?_, ?_⟩
      · dsimp only
        rw [hd, append_assoc, singleton_append]
      · simpa using ho

variable (hash) in
theorem insertAll_extends (nodeIds : List NodeId) (indexes : List Nat) (ring : RingData) : ∃ a,
    nodeIds.foldl
    (fun ring nodeId => insertVirtualNodes hash nodeId indexes ring) ring = ring ++ a ∧ ∀ ri ∈ a,
    ri.2 ∈ nodeIds := by
  induction nodeIds generalizing ring with
  | nil => exact ⟨[], by simp⟩
  | cons nodeId _ ih =>
    obtain ⟨own, ho, hn⟩ := insertVirtualNodes_extends hash nodeId indexes ring
    obtain ⟨a, ha, hr⟩ := ih (ring ++ own)
    refine ⟨own ++ a, by simp [ho, ha], ?_⟩
    intro ri hm
    rcases mem_append.1 hm with hm | hm
    · simp [hn ri hm]
    · simp [hr ri hm]

variable {nodeIds : List NodeId} {virtualNodeCount topK : UInt64}

theorem buildRing_nodes {ringNode : UInt64 × NodeId}
    (h : ringNode ∈ buildRing hash nodeIds virtualNodeCount) :
    ringNode.2 ∈ normalizeNodeIds nodeIds := by
  obtain ⟨a, ha, hn⟩ := insertAll_extends hash (normalizeNodeIds nodeIds)
    (range virtualNodeCount.toNat) []
  rw [buildRing, mem_insertionSort, ha] at h
  exact hn ringNode h

variable (hash) in
theorem buildRing_ne_nil (active : normalizeNodeIds nodeIds ≠ [])
    (places : virtualNodeCount ≠ 0) : buildRing hash nodeIds virtualNodeCount ≠ [] := by
  obtain ⟨c, hc⟩ := Nat.exists_eq_succ_of_ne_zero (fun hz => places (UInt64.toNat_inj.1 hz))
  cases ha : normalizeNodeIds nodeIds with
  | nil => exact absurd ha active
  | cons nodeId r =>
    -- the first virtual node of the first node has a place, and nothing is taken away again
    obtain ⟨own, ho, _⟩ := insertVirtualNodes_extends hash nodeId
      ((range c).map Nat.succ) [(hash (buildVirtualNodeKey nodeId 0 0), nodeId)]
    obtain ⟨a, hd, _⟩ := insertAll_extends hash r (range virtualNodeCount.toNat)
      ((hash (buildVirtualNodeKey nodeId 0 0), nodeId) :: own)
    have hf : insertVirtualNodes hash nodeId (range virtualNodeCount.toNat) [] =
        (hash (buildVirtualNodeKey nodeId 0 0), nodeId) :: own := by
      rw [hc, range_succ_eq_map, insertVirtualNodes, insertVirtualNode_new not_mem_nil]
      exact ho
    intro hn
    have hl := congrArg length hn
    rw [buildRing, ha, foldl_cons, hf, hd, length_insertionSort] at hl
    simp at hl

instance transScoreLe : IsTrans (UInt64 × NodeId) scoreLe where
  trans _ _ _ := by
    simp only [scoreLe, UInt64.lt_iff_toNat_lt, UInt64.le_iff_toNat_le, ← UInt64.toNat_inj]
    omega

instance totalScoreLe : Std.Total scoreLe where
  total _ _ := by
    simp only [scoreLe, UInt64.lt_iff_toNat_lt, UInt64.le_iff_toNat_le, ← UInt64.toNat_inj]
    omega

instance antisymmScoreLe : Std.Antisymm scoreLe where
  antisymm _ _ := by
    simp only [scoreLe, UInt64.lt_iff_toNat_lt, UInt64.le_iff_toNat_le, Prod.ext_iff,
      ← UInt64.toNat_inj]
    omega

theorem maglevRouteKey_mem {table : List NodeId} (s : 0 < table.length)
    (key : CacheKey) : maglevRouteKey hash table key ∈ table := by
  have hl := Nat.mod_lt (hash key).toNat s
  unfold maglevRouteKey
  rw [getElem?_eq_getElem hl, Option.getD_some]
  exact getElem_mem hl

structure RouterConfig.Sound (config : RouterConfig) : Prop where
  some_virtual : config.virtualNodeCount ≠ 0
  prime : (usedTableSize config.tableSize).toNat.Prime
  small : (usedTableSize config.tableSize).toNat < 2 ^ 32

variable {nodeIds : List NodeId} {cfg : RouterConfig}

theorem createFullSpreadRouter_mem (virtual : cfg.virtualNodeCount ≠ 0)
    (active : normalizeNodeIds nodeIds ≠ []) {type : RouterType}
    (h : createFullSpreadRouter hash nodeIds cfg type = some router) (key : CacheKey) :
    router.routeKey hash key ∈ normalizeNodeIds nodeIds := by
  unfold createFullSpreadRouter at h
  split at h
  · obtain ⟨t, ht, rfl⟩ := Option.map_eq_some_iff.1 h
    obtain ⟨hl, hn, _⟩ := buildMaglev_some active ht
    exact hn _ (maglevRouteKey_mem (hl ▸ (usedTableSize_prime _).pos) key)
  · cases h
    have hr := buildRing_ne_nil hash active virtual
    obtain ⟨r, hm, hd⟩ := mem_map.1 (ringRouteKey_mem hash hr key)
    rw [FullSpreadRouter.routeKey, ← hd]
    exact buildRing_nodes hm
  · cases h

theorem createFullSpreadRouter_spec (hash : HashFunction) (sound : cfg.Sound)
    (active : normalizeNodeIds nodeIds ≠ []) {type : RouterType}
    (spread : type = .ringHashFullSpread ∨ type = .maglevFullSpread) : ∃ router,
    createFullSpreadRouter hash nodeIds cfg type = some router ∧ ∀ key,
    router.routeKey hash key ∈ normalizeNodeIds nodeIds := by
  have hb : ∃ router, createFullSpreadRouter hash nodeIds cfg type = some router := by
    rcases spread with rfl | rfl
    · exact ⟨_, rfl⟩
    · obtain ⟨t, ht⟩ := buildMaglev_full hash sound.small active
      exact ⟨.maglev t, by simp [createFullSpreadRouter, ht]⟩
  obtain ⟨router, hr⟩ := hb
  exact ⟨router, hr, createFullSpreadRouter_mem sound.some_virtual active hr⟩

theorem valid_of_mem (h : nodeId ∈ normalizeNodeIds nodeIds) : nodeId ≠ kInvalidNodeId :=
  (mem_normalizeNodeIds.1 h).2

theorem selectCandidates_ne_nil (hash : HashFunction) (active : nodeIds ≠ [])
    (sized : 0 < topK.toNat) (key : CacheKey) : selectCandidates hash nodeIds topK key ≠ [] := by
  intro hn
  have hl := congrArg length hn
  have ho := length_pos_iff.2 active
  simp only [selectCandidates, length_map, length_take, length_insertionSort, length_nil] at hl
  omega

def candidateOf (hash : HashFunction) (candidates : List NodeId) (key : CacheKey) : NodeId :=
  candidates[(hash (text "batch-topk-key#" ++ key)).toNat % candidates.length]?.getD kInvalidNodeId

theorem candidateOf_mem {candidates : List NodeId} (s : candidates ≠ [])
    (key : CacheKey) : candidateOf hash candidates key ∈ candidates := by
  have hl := Nat.mod_lt (hash (text "batch-topk-key#" ++ key)).toNat (length_pos_iff.2 s)
  unfold candidateOf
  rw [getElem?_eq_getElem hl, Option.getD_some]
  exact getElem_mem hl

theorem batchTopKRouteKeys_eq (keys : List CacheKey)
    (selected : selectCandidates hash nodeIds topK (buildBatchKey keys) ≠ []) :
    batchTopKRouteKeys hash nodeIds topK keys = collect
    (ownedBy (candidateOf hash (selectCandidates hash nodeIds topK (buildBatchKey keys))) keys)
    := by
  unfold batchTopKRouteKeys collect ownedBy
  rw [if_neg (by simpa using selected), foldl_map]
  rfl

theorem length_selectCandidates_le (hash : HashFunction) (nodeIds : List NodeId) (topK : UInt64)
    (b : CacheKey) : (selectCandidates hash nodeIds topK b).length ≤ topK.toNat := by
  simp [selectCandidates]

theorem mem_of_mem_selectCandidates {b : CacheKey}
    (h : nodeId ∈ selectCandidates hash nodeIds topK b) : nodeId ∈ nodeIds := by
  obtain ⟨s, hs, rfl⟩ := mem_map.1 h
  have hm := mem_of_mem_take hs
  rw [mem_insertionSort, mem_map] at hm
  obtain ⟨nodeId, hn, rfl⟩ := hm
  exact hn

theorem positions_blocks (owner : CacheKey → NodeId) {limit : Nat} (hl : 0 < limit)
    (keys : List CacheKey) : (blocks owner limit keys).map Prod.snd = range keys.length := by
  simp only [blocks, map_flatMap, map_map, Function.comp_def]
  rw [flatMap_def, ← map_flatten, Chunks.flatten_chunks hl, zipIdx_map_snd, range_eq_range']

theorem mem_blocks {owner : CacheKey → NodeId} {limit : Nat} (hl : 0 < limit) {keys : List CacheKey}
    {pair : NodeId × Nat} (h : pair ∈ blocks owner limit keys) : (∃ key, pair.1 = owner key) ∧
    pair.1 = blockOwner owner ((keys.zipIdx.drop (limit * (pair.2 / limit))).take limit) := by
  obtain ⟨c, hc, hp⟩ := mem_flatMap.1 h
  obtain ⟨e, he, rfl⟩ := mem_map.1 hp
  obtain ⟨number, rfl⟩ := Chunks.mem_chunks hc
  have hn : e.2 / limit = number := by
    obtain ⟨o, ho⟩ := mem_iff_getElem?.1 he
    rw [getElem?_take, getElem?_drop, getElem?_zipIdx] at ho
    split at ho
    · rename_i ht
      obtain ⟨key, _, rfl⟩ := Option.map_eq_some_iff.1 ho
      rw [Nat.zero_add, Nat.mul_add_div hl, Nat.div_eq_of_lt ht, Nat.add_zero]
    · cases ho
  refine ⟨?_, by rw [hn]⟩
  cases hb : (keys.zipIdx.drop (limit * number)).take limit with
  | nil => simp [hb] at he
  | cons first => exact ⟨first.1, rfl⟩

theorem routeKeys_collects {strategy : Strategy} (valid : ∃ nodeId ∈ nodeIds, nodeId ≠
    kInvalidNodeId)
    (virtual : cfg.virtualNodeCount ≠ 0) (created : createRouter hash nodeIds cfg = some strategy)
    (decided : ∀ b, strategy ≠ .contiguousBlockAffinity b none) (keys : List CacheKey) : ∃ p,
    routeKeys hash strategy keys =
    collect p ∧ p.map Prod.snd = range keys.length ∧ (∀ pa ∈ p, pa.1 ∈ normalizeNodeIds nodeIds) ∧
    (∀ b router, strategy = .contiguousBlockAffinity b router → ∃ o : Nat → NodeId, ∀ pa ∈ p,
      pa.1 = o (pa.2 / b.toNat)) ∧ (∀ a topK, strategy = .batchTopKAffinity a topK → ∃ ca : List
      NodeId,
      ca.length ≤ topK.toNat ∧ ∀ pa ∈ p, pa.1 ∈ ca) := by
  have ha := normalizeNodeIds_ne_nil valid
  have hn : ∀ {type router}, createFullSpreadRouter hash nodeIds cfg type = some router →
      ∀ key, router.routeKey hash key ∈ normalizeNodeIds nodeIds :=
    fun hr => createFullSpreadRouter_mem virtual ha hr
  have ho : ∀ co : UInt64, 0 < (if co = 0 then 1 else co).toNat := by
    intro co
    split
    · decide
    · rename_i hc
      exact Nat.pos_of_ne_zero fun hz => hc (UInt64.toNat_inj.1 hz)
  unfold createRouter at created
  split at created
  iterate 2
    · obtain ⟨router, hr, rfl⟩ := Option.map_eq_some_iff.1 created
      refine ⟨_, FullSpreadRouter.routeKeys_eq (fun key => valid_of_mem (hn hr key)) keys,
        positions_ownedBy _ _, fun pa hp => ?_, by simp, by simp⟩
      obtain ⟨key, _, hk⟩ := mem_ownedBy.1 hp
      exact hk ▸ hn hr key
  · cases created
    cases hr : createFullSpreadRouter hash nodeIds cfg cfg.fullSpreadType with
    | none => exact absurd (congrArg _ hr) (decided _)
    | some =>
      have hl := ho cfg.blockCount
      refine ⟨_, contiguousRouteKeys_eq (fun key => valid_of_mem (hn hr key)) hl keys,
        positions_blocks _ hl keys, fun pa hp => ?_, ?_, by simp⟩
      · obtain ⟨⟨key, hk⟩, _⟩ := mem_blocks hl hp
        exact hk ▸ hn hr key
      · rintro b _ ⟨⟩
        exact ⟨fun n => blockOwner _ ((keys.zipIdx.drop (_ * n)).take _),
          fun pa hp => (mem_blocks hl hp).2⟩
  cases created
  have hs := selectCandidates_ne_nil hash ha (ho cfg.topK) (buildBatchKey keys)
  refine ⟨_, batchTopKRouteKeys_eq keys hs, positions_ownedBy _ _, fun pa hp => ?_, by simp, ?_⟩
  · obtain ⟨key, _, hk⟩ := mem_ownedBy.1 hp
    exact hk ▸ mem_of_mem_selectCandidates (candidateOf_mem hs key)
  rintro a topK ⟨⟩
  refine ⟨_, length_selectCandidates_le hash (normalizeNodeIds nodeIds) _ (buildBatchKey keys),
    fun pa hp => ?_⟩
  obtain ⟨key, _, hk⟩ := mem_ownedBy.1 hp
  exact hk ▸ candidateOf_mem hs key

/-- However the router was made: every position is in one node's list and once, the nodes are
valid ids of the input, and the lists are in order. A block goes to one node, and the keys of a
batch go to at most `topK` nodes. -/
theorem routeKeys_partition (hash : HashFunction) (nodeIds : List NodeId) (config : RouterConfig)
    (strategy : Strategy) (valid : ∃ nodeId ∈ nodeIds, nodeId ≠ kInvalidNodeId)
    (some_virtual : config.virtualNodeCount ≠ 0)
    (created : createRouter hash nodeIds config = some strategy)
    (delegates : ∀ blockCount, strategy ≠ .contiguousBlockAffinity blockCount none)
    (keys : List CacheKey) : let routes := routeKeys hash strategy keys
    ((pairsOf routes).map Prod.snd).Perm (List.range keys.length) ∧
      (∀ pair ∈ pairsOf routes, pair.1 ∈ nodeIds ∧ pair.1 ≠ kInvalidNodeId) ∧
      (∀ route ∈ routes.entries, route.2.Pairwise (· < ·)) ∧
      (∀ blockCount router, strategy = .contiguousBlockAffinity blockCount router →
        ∃ owner : Nat → NodeId,
          ∀ pair ∈ pairsOf routes, pair.1 = owner (pair.2 / blockCount.toNat)) ∧
      (∀ activeIds topK, strategy = .batchTopKAffinity activeIds topK →
        ((pairsOf routes).map Prod.fst).dedup.length ≤ topK.toNat) := by
  obtain ⟨pairs, hro, ho, hn, hb, ht⟩ :=
    routeKeys_collects valid some_virtual created delegates keys
  have hm := pairsOf_collect pairs
  rw [hro]
  refine ⟨ho ▸ hm.map Prod.snd, fun pair hp => ?_, fun route hr => ?_, ?_, ?_⟩
  · exact mem_normalizeNodeIds.1 (hn pair (hm.mem_iff.1 hp))
  · exact pairwise_lt_range.sublist (ho ▸ sublist_of_mem_collect hr)
  · intro blockCount router hs
    obtain ⟨owner, hw⟩ := hb blockCount router hs
    exact ⟨owner, fun pair hp => hw pair (hm.mem_iff.1 hp)⟩
  intro activeIds topK hs
  obtain ⟨candidates, hl, hc⟩ := ht activeIds topK hs
  refine le_trans (Subperm.length_le (subperm_of_subset (nodup_dedup _) fun nodeId hd => ?_)) hl
  obtain ⟨pair, hp, rfl⟩ := mem_map.1 (mem_dedup.1 hd)
  exact hc pair (hm.mem_iff.1 hp)

theorem routeKeys_partition_blocks :
    let routes := routeKeys (fun _ => 0) (.contiguousBlockAffinity 2
      (some (.ringHash (buildRing (fun _ => 0) [1, 2] 1)))) [[1], [2], [3]]
    ((pairsOf routes).map Prod.snd).Perm [0, 1, 2] := by
  refine (routeKeys_partition (fun _ => 0) [1, 2]
    { type := .contiguousBlockAffinity, virtualNodeCount := 1, blockCount := 2 } _ ?_ ?_ rfl ?_
    [[1], [2], [3]]).1
  · exact ⟨1, by decide, by decide⟩
  · decide
  · simp [createFullSpreadRouter]

end UnifiedCache.Router
