import UnifiedCache.Dram.TaskBooks
import UnifiedCache.Router.BatchScores

/-! Where the entries of a block go: the DramStore client's router under each
`router_type`, and whether two tasks agree on the node of a block. The store uses the
CRC-32 for the hash. -/
namespace UnifiedCache.Dram
open List TaskManager Router Grouping

/-- `DramConfig::Parse` on `router_type`, which may be missing. -/
def parseRouterType (router_type : Option String) : Expected RouterType :=
  let routerType := router_type.getD "ring_hash"
  if routerType = "ring_hash" then .ok .ringHashFullSpread
  else if routerType = "maglev" then .ok .maglevFullSpread
  else if routerType = "contiguous_block_affinity" then .ok .contiguousBlockAffinity
  else if routerType = "batch_topk_affinity" then .ok .batchTopKAffinity
  else .error (.InvalidParam ("unsupported router_type(" ++ routerType ++ ")"))

/-- The node ids that `DramConfig::Validate` lets through. -/
structure StoreNodes where
  ids : List NodeId
  some_node : ids ≠ []
  distinct : ids.Nodup
  valid : kInvalidNodeId ∉ ids

namespace StoreNodes
variable (nodes : StoreNodes) (hash : HashFunction) (type : RouterType)

theorem active : normalizeNodeIds nodes.ids ≠ [] := by
  obtain ⟨n, hn⟩ := exists_mem_of_ne_nil _ nodes.some_node
  apply ne_nil_of_mem (a := n)
  rw [mem_normalizeNodeIds]
  refine ⟨hn, ?_⟩
  rintro rfl
  exact nodes.valid hn

def router : Option Strategy := createRouter hash nodes.ids { type := type }

theorem default_sound (type : RouterType) : RouterConfig.Sound { type := type } where
  some_virtual := show kDefaultVirtualNodeCount ≠ 0 by decide
  prime := usedTableSize_prime _
  small := by
    rw [usedTableSize_default]
    decide

def candidates (keys : List CacheKey) : List NodeId :=
  selectCandidates hash (normalizeNodeIds nodes.ids) 1 (buildBatchKey keys)

theorem router_owner : ∃ s, nodes.router hash type = some s ∧
    ∃ ow : List CacheKey → CacheKey → NodeId,
    (∀ k, (pairsOf (routeKeys hash s k)).Perm (ownedBy (ow k) k)) ∧
    (type = .batchTopKAffinity → ∀ k key, ow k key ∈ nodes.candidates hash k) ∧
    (type ≠ .batchTopKAffinity → ∀ k o key, ow k key = ow o key) := by
  have hs : ∀ {t : RouterType}, t = .ringHashFullSpread ∨ t = .maglevFullSpread → _ :=
    fun sp => createFullSpreadRouter_spec hash (default_sound type) nodes.active sp
  have ht := @hs type
  cases type with
  | ringHashFullSpread | maglevFullSpread =>
    obtain ⟨r, hr, hn⟩ := ht (by decide)
    refine ⟨.fullSpread r, by simp [StoreNodes.router, createRouter, hr],
      fun _ => r.routeKey hash, fun k => ?_, by simp, by simp⟩
    rw [routeKeys, FullSpreadRouter.routeKeys_eq fun key => valid_of_mem (hn key)]
    exact pairsOf_collect _
  | contiguousBlockAffinity =>
    obtain ⟨r, hr, hn⟩ := hs (.inl rfl)
    refine ⟨.contiguousBlockAffinity 1 (some r), by simp [StoreNodes.router, createRouter, hr],
      fun _ => r.routeKey hash, fun k => ?_, by simp, by simp⟩
    rw [routeKeys, contiguousRouteKeys_one fun key => valid_of_mem (hn key)]
    exact pairsOf_collect _
  | batchTopKAffinity =>
    have hm : ∀ k, nodes.candidates hash k ≠ [] := fun k =>
      selectCandidates_ne_nil hash nodes.active (by decide) _
    refine ⟨.batchTopKAffinity (normalizeNodeIds nodes.ids) 1,
      by simp [StoreNodes.router, createRouter],
      fun k => candidateOf hash (nodes.candidates hash k), fun k => ?_, ?_, by simp⟩
    · rw [routeKeys, batchTopKRouteKeys_eq k (hm k)]
      exact pairsOf_collect _
    · intro _ k key
      exact candidateOf_mem (hm k) key

def routing : Routing where
  routeKeys keys :=
    match nodes.router hash type with
    | none => []
    | some strategy => (routeKeys hash strategy keys).entries
  complete keys := by
    obtain ⟨strategy, hstrategy, owner, howner, _⟩ := nodes.router_owner hash type
    rw [hstrategy]
    have hperm := (howner keys).map Prod.snd
    rwa [map_snd_pairsOf, positions_ownedBy] at hperm

end StoreNodes

def keysOf (config : TaskManagerConfig) (submission : Submission) : List CacheKey :=
  (normalizeInput config submission.input).map fun entry => entry.blockId.toList

def requestsFor (config : TaskManagerConfig) (routing : Routing) (submission : Submission) :
    List Request :=
  buildRequests config routing submission.op (normalizeInput config submission.input)
    submission.deadline

/-- All entries of a task are sent, those of `block` to `node`. -/
def SentTo (config : TaskManagerConfig) (routing : Routing) (submission : Submission)
    (block : BlockId) (node : NodeId) : Prop :=
  ((requestsFor config routing submission).flatMap Request.entries).Perm
      (normalizeInput config submission.input) ∧
    ∀ request ∈ requestsFor config routing submission, ∀ entry ∈ request.entries,
      entry.blockId = block → request.nodeId = node

def Concerns (config : TaskManagerConfig) (submission : Submission) (block : BlockId) : Prop :=
  ∃ entry ∈ normalizeInput config submission.input, entry.blockId = block

section
variable {cfg : TaskManagerConfig} {nodes : StoreNodes} {hash : HashFunction} {type : RouterType}
variable {sub : Submission}

theorem nodeId_of_entry {owner : List CacheKey → CacheKey → NodeId} {strategy : Strategy}
    (hs : nodes.router hash type = some strategy)
    (hw : ∀ k, (pairsOf (routeKeys hash strategy k)).Perm (ownedBy (owner k) k)) {req : Request}
    {entry : IoEntry} (hr : req ∈ requestsFor cfg (nodes.routing hash type) sub)
    (he : entry ∈ req.entries) : req.nodeId = owner (keysOf cfg sub) entry.blockId.toList := by
  rw [requestsFor, TaskBooks.buildRequests_eq] at hr
  obtain ⟨p, hp, rfl⟩ := mem_map.1 hr
  obtain ⟨i, hd, hg⟩ := mem_filterMap.1 he
  obtain ⟨ind, ho, hm⟩ := TaskBooks.routed_of_placed hp hd
  simp only [StoreNodes.routing, hs] at ho
  have ha := (hw _).mem_iff.1 (mem_pairsOf.2 ⟨ind, ho, hm⟩)
  obtain ⟨key, hk, hn⟩ := mem_ownedBy.1 ha
  rw [List.getElem?_map, hg] at hk
  cases hk
  exact hn.symm

variable {block : BlockId}

theorem exists_request {routing : Routing} (h : Concerns cfg sub block) : ∃ r ∈
    requestsFor cfg routing sub, ∃ entry ∈ r.entries, entry.blockId = block := by
  obtain ⟨entry, he, hb⟩ := h
  have hp := TaskBooks.entries_buildRequests cfg routing sub.op
    (normalizeInput cfg sub.input) sub.deadline
  obtain ⟨r, hr, hm⟩ := mem_flatMap.1 (hp.mem_iff.2 he)
  exact ⟨r, hr, entry, hm, hb⟩

theorem candidates_favoured (nodes : StoreNodes) (hash : HashFunction) (keys : List CacheKey) :
    ∃ node, nodes.candidates hash keys = [node] ∧ Favoured hash nodes.ids keys node := by
  have hm : ∀ node, node ∈ normalizeNodeIds nodes.ids ↔ node ∈ nodes.ids := by
    intro node
    rw [mem_normalizeNodeIds, and_iff_left_iff_imp]
    rintro hn rfl
    exact nodes.valid hn
  obtain ⟨node, hc, hf⟩ := selectCandidates_favoured hash keys nodes.active
  exact ⟨node, hc, (hm node).1 hf.1, fun other ho => hf.2 other ((hm other).2 ho)⟩

theorem favoured_of_sent {node : NodeId} (hc : Concerns cfg sub block)
    (hs : SentTo cfg (nodes.routing hash .batchTopKAffinity) sub block node) :
    Favoured hash nodes.ids (keysOf cfg sub) node := by
  obtain ⟨strategy, hst, owner, ho, hb, _⟩ := nodes.router_owner hash .batchTopKAffinity
  obtain ⟨request, hr, entry, he, hl⟩ := exists_request hc
  obtain ⟨favoured, hf, hn⟩ := candidates_favoured nodes hash (keysOf cfg sub)
  have hm := hb rfl (keysOf cfg sub) entry.blockId.toList
  rw [hf, mem_singleton, ← nodeId_of_entry hst ho hr he, hs.2 request hr entry he hl] at hm
  rwa [hm]

theorem sent_of_favoured {node : NodeId} (hf : Favoured hash nodes.ids (keysOf cfg sub) node) :
    SentTo cfg (nodes.routing hash .batchTopKAffinity) sub block node := by
  obtain ⟨strategy, hst, owner, ho, hb, _⟩ := nodes.router_owner hash .batchTopKAffinity
  obtain ⟨favoured, hc, hn⟩ := candidates_favoured nodes hash (keysOf cfg sub)
  refine ⟨TaskBooks.entries_buildRequests cfg _ _ _ _, fun request hr entry he _ => ?_⟩
  have hm := hb rfl (keysOf cfg sub) entry.blockId.toList
  rw [hc, mem_singleton] at hm
  rw [nodeId_of_entry hst ho hr he, hm, hn.unique hf]

theorem agrees_of_spread (ht : type ≠ .batchTopKAffinity) (first second : Submission)
    (block : BlockId) : ∃ node, SentTo cfg (nodes.routing hash type) first block node ∧
      SentTo cfg (nodes.routing hash type) second block node := by
  obtain ⟨strategy, hst, owner, ho, _, hp⟩ := nodes.router_owner hash type
  have hs : ∀ sub, SentTo cfg (nodes.routing hash type) sub block
      (owner (keysOf cfg first) block.toList) := by
    intro sub
    refine ⟨TaskBooks.entries_buildRequests cfg _ _ _ _, fun request hr entry he hl => ?_⟩
    rw [nodeId_of_entry hst ho hr he, hl]
    exact hp ht _ _ _
  exact ⟨_, hs first, hs second⟩

theorem agrees_iff_favoured (nodes : StoreNodes) (hash : HashFunction) (type : RouterType)
    {first second : Submission} (hf : Concerns cfg first block) (hs : Concerns cfg second block) :
    (∃ node, SentTo cfg (nodes.routing hash type) first block node ∧
      SentTo cfg (nodes.routing hash type) second block node) ↔
    (type = .batchTopKAffinity → ∃ node, Favoured hash nodes.ids (keysOf cfg first) node ∧
      Favoured hash nodes.ids (keysOf cfg second) node) := by
  constructor
  · rintro ⟨node, hn, ho⟩ rfl
    exact ⟨node, favoured_of_sent hf hn, favoured_of_sent hs ho⟩
  · intro ha
    by_cases ht : type = .batchTopKAffinity
    · obtain ⟨node, hn, ho⟩ := ha ht
      subst ht
      exact ⟨node, sent_of_favoured hn, sent_of_favoured ho⟩
    · exact agrees_of_spread ht first second block

theorem length_of_mem_keysOf {key : CacheKey} (hk : key ∈ keysOf cfg sub) : key.length = 16 := by
  obtain ⟨entry, -, rfl⟩ := mem_map.1 hk
  simp

theorem exists_ne_of_length_ne_one (hl : nodes.ids.length ≠ 1) :
    ∃ first ∈ nodes.ids, ∃ second ∈ nodes.ids, first ≠ second := by
  obtain ⟨first, rest, hr⟩ := exists_cons_of_ne_nil nodes.some_node
  cases rest with
  | nil => exact absurd (by rw [hr]; rfl) hl
  | cons second rest =>
    have hd := nodes.distinct
    rw [hr] at hd
    exact ⟨first, by simp [hr], second, by simp [hr], by rintro rfl; simp at hd⟩

/-- For every router type and tasks of any kind, with any other blocks in them, and a
block that both concern: under a hash function the tasks agree on its node exactly if
the batch router is not used or one node has the lowest score for the keys of both.
They agree whatever the hash function is exactly if the batch router is not used, there
is one node, or both tasks have the same keys. -/
theorem placement_agrees_iff (config : TaskManagerConfig) (nodes : StoreNodes)
    (type : RouterType) (first second : Submission) (block : BlockId)
    (in_first : Concerns config first block) (in_second : Concerns config second block) :
    (∀ hash, (∃ node, SentTo config (nodes.routing hash type) first block node ∧
        SentTo config (nodes.routing hash type) second block node) ↔
      (type = .batchTopKAffinity → ∃ node, Favoured hash nodes.ids (keysOf config first) node ∧
        Favoured hash nodes.ids (keysOf config second) node)) ∧
    ((∀ hash, ∃ node, SentTo config (nodes.routing hash type) first block node ∧
        SentTo config (nodes.routing hash type) second block node) ↔
      (type = .batchTopKAffinity →
        nodes.ids.length = 1 ∨ keysOf config first = keysOf config second)) := by
  have hiff := fun hash => agrees_iff_favoured nodes hash type in_first in_second
  refine ⟨hiff, ?_⟩
  simp only [hiff]
  constructor
  · intro h ht
    by_contra hn
    obtain ⟨hl, hne⟩ := not_or.1 hn
    obtain ⟨a, ha, b, hb, hd⟩ := exists_ne_of_length_ne_one hl
    obtain ⟨hash, hapart⟩ := exists_hash_apart (fun _ => length_of_mem_keysOf)
      (fun _ => length_of_mem_keysOf) hne ha hb hd
    obtain ⟨node, hf, hs⟩ := h hash ht
    exact hapart node hf hs
  · intro h hash ht
    obtain ⟨node, -, hf⟩ := candidates_favoured nodes hash (keysOf config first)
    obtain ⟨other, -, hs⟩ := candidates_favoured nodes hash (keysOf config second)
    rcases h ht with hl | he
    · obtain ⟨only, ho⟩ := length_eq_one_iff.1 hl
      have hone : node = other := by
        have hn := hf.1
        have hm := hs.1
        rw [ho, mem_singleton] at hn hm
        rw [hn, hm]
      exact ⟨node, hf, hone ▸ hs⟩
    · exact ⟨node, hf, he ▸ hf⟩

end

def twoNodes : StoreNodes where
  ids := [0, 1]
  some_node := by decide
  distinct := by decide
  valid := by decide

theorem twoTensors_batching : 0 < 4 := by decide

def twoTensors : TaskManagerConfig where
  tensorSizes := [64, 64]
  maxIoEntries := 8
  requestBatchEntries := 4
  fits := by decide
  batching := twoTensors_batching

def stored : BlockId := Vector.ofFn fun _ => 2

def storeTask : Submission where
  taskId := 1
  op := .dump
  deadline := 0
  input := .transfer { shards := [{ owner := stored, index := 0, addrs := [4096, 8192] }] }

def findTask : Submission where
  taskId := 2
  op := .lookup
  deadline := 0
  input := .lookup [stored]

theorem storeTask_concerns : Concerns twoTensors storeTask stored :=
  ⟨{ blockId := stored, buffer := { address := 4096, length := 64 } }, by decide, rfl⟩

theorem findTask_concerns : Concerns twoTensors findTask stored :=
  ⟨{ blockId := stored }, by decide, rfl⟩

theorem ring_finds_stored : Concerns twoTensors storeTask stored ∧
    Concerns twoTensors findTask stored ∧
    ∃ node, SentTo twoTensors (twoNodes.routing crc32IEEE .ringHashFullSpread) storeTask stored
    node ∧
      SentTo twoTensors (twoNodes.routing crc32IEEE .ringHashFullSpread) findTask stored node := by
  refine ⟨storeTask_concerns, findTask_concerns, ?_⟩
  refine ((placement_agrees_iff twoTensors twoNodes .ringHashFullSpread storeTask findTask stored
    storeTask_concerns findTask_concerns).1 crc32IEEE).2 ?_
  simp

theorem crc_candidate : (text "batch-topk-candidate#").foldl crcStep 0xFFFFFFFF = 2128425957 := by
  decide +kernel

theorem crc_storeTask :
    (buildBatchKey (keysOf twoTensors storeTask)).foldl crcStep 2128425957 = 1083793309 := by
  decide +kernel

theorem crc_findTask :
    (buildBatchKey (keysOf twoTensors findTask)).foldl crcStep 2128425957 = 751416983 := by
  decide +kernel

theorem candidates_storeTask : twoNodes.candidates crc32IEEE (keysOf twoTensors storeTask) = [1]
    := by
  simp only [StoreNodes.candidates, selectCandidates, crc32IEEE, foldl_append,
    crc_candidate, crc_storeTask]
  decide +kernel

theorem candidates_findTask : twoNodes.candidates crc32IEEE (keysOf twoTensors findTask) = [0] := by
  simp only [StoreNodes.candidates, selectCandidates, crc32IEEE, foldl_append,
    crc_candidate, crc_findTask]
  decide +kernel

/-- The batch router stores a block of two tensors at node 1 and looks it up at
node 0. -/
theorem batch_misses_stored :
    parseRouterType (some "batch_topk_affinity") = .ok .batchTopKAffinity ∧
    Concerns twoTensors storeTask stored ∧ Concerns twoTensors findTask stored ∧
    ¬ ∃ node, SentTo twoTensors (twoNodes.routing crc32IEEE .batchTopKAffinity) storeTask stored
    node ∧
      SentTo twoTensors (twoNodes.routing crc32IEEE .batchTopKAffinity) findTask stored node := by
  refine ⟨by decide +kernel, storeTask_concerns, findTask_concerns, ?_⟩
  rintro ⟨node, hs, hf⟩
  obtain ⟨one, ho, hof⟩ := candidates_favoured twoNodes crc32IEEE (keysOf twoTensors storeTask)
  obtain ⟨zero, hz, hzf⟩ := candidates_favoured twoNodes crc32IEEE (keysOf twoTensors findTask)
  have hone := (favoured_of_sent storeTask_concerns hs).unique hof
  have hzero := (favoured_of_sent findTask_concerns hf).unique hzf
  rw [candidates_storeTask] at ho
  rw [candidates_findTask] at hz
  cases ho
  cases hz
  exact absurd (hone.symm.trans hzero) (by decide)

end UnifiedCache.Dram
