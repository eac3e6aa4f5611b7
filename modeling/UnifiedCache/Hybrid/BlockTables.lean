import UnifiedCache.Hybrid.GroupManager
import UnifiedCache.Lib.Replay
import UnifiedCache.Lib.Slices

/-! The block tables that the hybrid connector keeps for its requests, and the pairs of a hash and
a block that it puts into the load and dump lists. Block 0 is the null block of vLLM. Each list of
groups is a function of the group's number. -/
namespace UnifiedCache.Hybrid
open List Function Slices Transition

abbrev GroupBlocks := Nat → List Nat

structure HLARequestMeta where
  hbmHitBlockNum : Nat
  totalHitBlockNum : Nat
  numTokenIds : Nat
  tokenProcessed : Nat
  groupUcmBlockIds : List (List Hash)
  groupVllmBlockIds : GroupBlocks := fun _ => []

/-- An element of the three lists `ucm_block_ids`, `vllm_block_ids` and `group_ids`. -/
structure Pair where
  ucmBlockId : Hash
  vllmBlockId : Nat
  groupId : Nat

structure HLARequestDispatchMeta where
  loadBlockIds : List Pair
  dumpBlockIds : List Pair
  loadFullAttnCount : Nat
  dumpFullAttnCount : Nat

/-- The suffix comparison tells blocks that are already in the table. -/
def trackBlocks (incomingBlockIdsAreFull : Bool) (existing incoming : List Nat) : List Nat :=
  if incomingBlockIdsAreFull then incoming
  else if existing = [] then incoming
  else if incoming ≠ [] ∧ existing.drop (existing.length - incoming.length) ≠ incoming then
    existing ++ incoming
  else existing

def extendNonNull (srcUcmBlockIds : List Hash) (srcVllmBlockIds : List Nat) (groupId : Nat) :
    List Pair :=
  ((srcUcmBlockIds.zip srcVllmBlockIds).filter fun pair => pair.2 ≠ 0).map fun pair =>
    ⟨pair.1, pair.2, groupId⟩

/-- The blocks at the indices, without the null block and repetitions; nothing if an index is out
of range. -/
def stateBlocks (blockIds : List Nat) : List Nat → List Nat → Option (List Nat)
  | [], found => some found
  | index :: rest, found =>
    match blockIds[index]? with
    | none => none
    | some block =>
      stateBlocks blockIds rest (if block ≠ 0 ∧ block ∉ found then found ++ [block] else found)

namespace KVCacheGroupManager
variable (manager : KVCacheGroupManager)

/-- The indices of the states: the checkpoint, and for a load the running slot, which the
scheduled tokens give. -/
def stateIndices (group : GroupInfo) (seqLen : Nat) (load : Option Nat) : List Nat :=
  (seqLen - 1) / group.blockSize ::
    (load.map fun numScheduledTokens => (seqLen + numScheduledTokens - 1) / group.blockSize).toList

def appendMambaAlignStateBlock (reqMeta : HLARequestMeta) (seqLen : Nat) (load : Option Nat)
    (group : GroupInfo) : List Pair :=
  match stateBlocks (reqMeta.groupVllmBlockIds group.groupId) (stateIndices group seqLen load)
      [] with
  | none => []
  | some blocks =>
    match manager.computeMambaAlignStateHash group seqLen reqMeta.groupUcmBlockIds with
    | none => []
    | some hash => blocks.map fun block => ⟨hash, block, group.groupId⟩

def fullAttnBlocks (reqMeta : HLARequestMeta) (tokStart tokEnd : Nat) (group : GroupInfo) :
    List Pair :=
  let startBlk := tokStart / group.blockSize
  let endBlk := tokEnd / group.blockSize
  extendNonNull (pySlice (blockIds reqMeta.groupUcmBlockIds group) startBlk endBlk)
    (pySlice (reqMeta.groupVllmBlockIds group.groupId) startBlk endBlk) group.groupId

def generateHlaDispatchMeta (isMla : Bool) (reqMeta : HLARequestMeta) (newTokens : Nat)
    (newVllmBlockIdsPerGroup : GroupBlocks) (needLoad incomingBlockIdsAreFull : Bool) :
    HLARequestMeta × HLARequestDispatchMeta :=
  let reqMeta := { reqMeta with
    groupVllmBlockIds := fun gid => trackBlocks incomingBlockIdsAreFull
      (reqMeta.groupVllmBlockIds gid) (newVllmBlockIdsPerGroup gid) }
  let lcm := manager.lcmBlockSize
  let loads := decide (needLoad ∧ reqMeta.hbmHitBlockNum < reqMeta.totalHitBlockNum)
  let totalHitTokens := reqMeta.totalHitBlockNum * lcm
  let loadFull := manager.fullAttnGroups.flatMap
    (fullAttnBlocks reqMeta (reqMeta.hbmHitBlockNum * lcm) totalHitTokens)
  let loadStates := manager.stateGroups.flatMap
    (manager.appendMambaAlignStateBlock reqMeta totalHitTokens (some newTokens))
  let dumps := decide (reqMeta.tokenProcessed < reqMeta.numTokenIds)
  let dumpTokEnd := min (reqMeta.tokenProcessed + newTokens) reqMeta.numTokenIds
  let lastLcm := dumpTokEnd / lcm * lcm
  let dumpFull := manager.fullAttnGroups.flatMap
    (fullAttnBlocks reqMeta reqMeta.tokenProcessed dumpTokEnd)
  let dumpStates :=
    if dumpTokEnd ≠ lastLcm ∨ lastLcm < (reqMeta.tokenProcessed / lcm + 1) * lcm then []
    else manager.stateGroups.flatMap (manager.appendMambaAlignStateBlock reqMeta lastLcm none)
  ({ reqMeta with tokenProcessed := reqMeta.tokenProcessed + newTokens },
    { loadBlockIds := if loads then loadFull ++ loadStates else []
      dumpBlockIds := if dumps then dumpFull ++ dumpStates else []
      loadFullAttnCount := if loads && isMla then loadFull.length else 0
      dumpFullAttnCount := if dumps && isMla then dumpFull.length else 0 })

end KVCacheGroupManager

/-- Metadata that was built, with the blocks that were allocated to the request then. -/
structure Dispatched where
  reqMeta : HLARequestMeta
  newTokens : Nat
  table : GroupBlocks
  dispatch : HLARequestDispatchMeta

structure Connector (ρ : Type u) where
  requestsMeta : ρ → Option HLARequestMeta := fun _ => none
  /-- What vLLM allocated to each request since it was last started. -/
  allocated : ρ → GroupBlocks := fun _ _ => []
  dispatched : List Dispatched := []

/-- The hooks of the scheduler. `build_connector_meta` schedules the new requests and then the
cached ones of its output, one after the other, and drops the finished ones. -/
inductive Event (ρ : Type u) where
  /-- `get_num_new_matched_tokens` stores what it found. -/
  | matched (requestId : ρ) (reqMeta : HLARequestMeta)
  | updateStateAfterAlloc (requestId : ρ) (blocks : GroupBlocks)
  | scheduledNew (requestId : ρ) (blockIds : GroupBlocks) (newTokens : Nat)
  | scheduledCached (requestId : ρ) (newBlockIds : Option GroupBlocks)
    (resumedFromPreemption : Bool) (newTokens : Nat)
  | finished (requestId : ρ)

namespace Connector
variable {ρ : Type u} [DecidableEq ρ] (manager : KVCacheGroupManager) (isMla : Bool)

/-- A (re)started request comes with its whole table, a running one with new blocks. -/
def allocate (full : Bool) (table blockIds : GroupBlocks) : GroupBlocks := fun gid =>
  if full then blockIds gid else table gid ++ blockIds gid

def schedule (connector : Connector ρ) (requestId : ρ) (blockIds : GroupBlocks)
    (full : Bool) (newTokens : Nat) : Connector ρ :=
  let table := allocate full (connector.allocated requestId) blockIds
  let allocated := update connector.allocated requestId table
  match connector.requestsMeta requestId with
  | none => { connector with allocated }
  | some reqMeta =>
    let (next, dispatch) :=
      manager.generateHlaDispatchMeta isMla reqMeta newTokens blockIds full full
    { requestsMeta := update connector.requestsMeta requestId (some next)
      allocated
      dispatched := ⟨next, newTokens, table, dispatch⟩ :: connector.dispatched }

def perform (connector : Connector ρ) : Event ρ → Connector ρ
  | .matched requestId reqMeta =>
    { connector with
      requestsMeta := update connector.requestsMeta requestId
        (some { reqMeta with groupVllmBlockIds := fun _ => [] })
      allocated := update connector.allocated requestId fun _ => [] }
  | .updateStateAfterAlloc requestId blocks =>
    { connector with
      requestsMeta := update connector.requestsMeta requestId
        ((connector.requestsMeta requestId).map fun reqMeta =>
          { reqMeta with groupVllmBlockIds := blocks })
      allocated := update connector.allocated requestId blocks }
  | .scheduledNew requestId blockIds newTokens =>
    connector.schedule manager isMla requestId blockIds true newTokens
  | .scheduledCached requestId newBlockIds resumedFromPreemption newTokens =>
    connector.schedule manager isMla requestId (newBlockIds.getD fun _ => [])
      resumedFromPreemption newTokens
  | .finished requestId =>
    { connector with requestsMeta := update connector.requestsMeta requestId none }

def system (ρ : Type u) [DecidableEq ρ] : System (Connector ρ) (Event ρ) where
  init connector := connector = {}
  step connector event next := next = connector.perform manager isMla event

/-- No block but the null block stands twice in the table of a request. -/
def Distinct (connector : Connector ρ) : Prop :=
  ∀ requestId gid, ((connector.allocated requestId gid).filter (· ≠ 0)).Nodup

/-- A running request is not given null blocks alone while its table ends with as many. -/
def Telling (connector : Connector ρ) : Event ρ → Prop
  | .scheduledCached requestId (some newBlockIds) false _ => ∀ gid, newBlockIds gid ≠ [] →
    (∃ block ∈ newBlockIds gid, block ≠ 0) ∨
      ¬newBlockIds gid <:+ connector.allocated requestId gid
  | _ => True

end Connector

/-- The block of a pair stands at the position of its hash, in blocks of its own group: of a
block's own hash in a full-attention group, or of a state's hash in a group with states. A load puts
the state into the running slot too. -/
inductive Placed (manager : KVCacheGroupManager) (hashes : List (List Hash)) (table : GroupBlocks)
    (load : Option Nat) : Pair → Prop where
  | block (group : GroupInfo) (position : Nat) (hash : Hash) (block : Nat) :
    group ∈ manager.fullAttnGroups →
    (KVCacheGroupManager.blockIds hashes group)[position]? = some hash →
    (table group.groupId)[position]? = some block → block ≠ 0 →
    Placed manager hashes table load ⟨hash, block, group.groupId⟩
  | state (group : GroupInfo) (seqLen position : Nat) (hash : Hash) (block : Nat) :
    group ∈ manager.stateGroups →
    manager.computeMambaAlignStateHash group seqLen hashes = some hash →
    position ∈ KVCacheGroupManager.stateIndices group seqLen load →
    (table group.groupId)[position]? = some block → block ≠ 0 →
    Placed manager hashes table load ⟨hash, block, group.groupId⟩

def Dispatched.Sound (manager : KVCacheGroupManager) (built : Dispatched) : Prop :=
  (∀ pair ∈ built.dispatch.loadBlockIds, Placed manager built.reqMeta.groupUcmBlockIds
    built.table (some built.newTokens) pair) ∧
  ∀ pair ∈ built.dispatch.dumpBlockIds,
    Placed manager built.reqMeta.groupUcmBlockIds built.table none pair

section
variable {manager : KVCacheGroupManager} {reqMeta : HLARequestMeta} {load : Option Nat}
  {group : GroupInfo} {pair : Pair} {seqLen : Nat}

theorem getElem?_of_pySlice {list : List α} {start stop index : Nat} {item : α}
    (h : (pySlice list start stop)[index]? = some item) : list[start + index]? = some item := by
  rw [pySlice, getElem?_drop, List.getElem?_take] at h
  split at h
  · exact h
  · cases h

theorem Placed.of_fullAttnBlocks {tokStart tokEnd : Nat} (hg : group ∈ manager.fullAttnGroups)
    (h : pair ∈ KVCacheGroupManager.fullAttnBlocks reqMeta tokStart tokEnd group) :
    Placed manager reqMeta.groupUcmBlockIds reqMeta.groupVllmBlockIds load pair := by
  obtain ⟨⟨hash, b⟩, hp, rfl⟩ := mem_map.1 h
  obtain ⟨hz, hn⟩ := mem_filter.1 hp
  obtain ⟨i, hd⟩ := mem_iff_getElem?.1 hz
  obtain ⟨hh, hb⟩ := getElem?_zip_eq_some.1 hd
  exact .block group _ hash b hg (getElem?_of_pySlice hh) (getElem?_of_pySlice hb)
    (by simpa using hn)

theorem mem_stateBlocks {blockIds indices found blocks : List Nat} {block : Nat}
    (h : stateBlocks blockIds indices found = some blocks) (hm : block ∈ blocks) :
    block ∈ found ∨ block ≠ 0 ∧ ∃ index ∈ indices, blockIds[index]? = some block := by
  induction indices generalizing found with
  | nil =>
    cases h
    exact .inl hm
  | cons index r ih =>
    unfold stateBlocks at h
    split at h
    · cases h
    · rename_i first hs
      rcases ih h with hf | ⟨hn, later, hl, hb⟩
      · split at hf
        · rename_i he
          rcases mem_append.1 hf with hf | hf
          · exact .inl hf
          · cases mem_singleton.1 hf
            exact .inr ⟨he.1, index, mem_cons_self, hs⟩
        · exact .inl hf
      · exact .inr ⟨hn, later, mem_cons_of_mem _ hl, hb⟩

theorem Placed.of_appendMambaAlignStateBlock (hg : group ∈ manager.stateGroups)
    (h : pair ∈ manager.appendMambaAlignStateBlock reqMeta seqLen load group) :
    Placed manager reqMeta.groupUcmBlockIds reqMeta.groupVllmBlockIds load pair := by
  unfold KVCacheGroupManager.appendMambaAlignStateBlock at h
  split at h
  · cases h
  · rename_i b hl
    split at h
    · cases h
    · rename_i hash hh
      obtain ⟨bl, hb, rfl⟩ := mem_map.1 h
      rcases mem_stateBlocks hl hb with hn | ⟨hu, position, hp, ha⟩
      · cases hn
      · exact .state group seqLen position hash bl hg hh hp ha hu

theorem generateHlaDispatchMeta_sound (isMla : Bool) (newTokens : Nat) (incoming : GroupBlocks)
    (needLoad full : Bool) : let (next, dispatch) :=
      manager.generateHlaDispatchMeta isMla reqMeta newTokens incoming needLoad full
    Dispatched.Sound manager ⟨next, newTokens, next.groupVllmBlockIds, dispatch⟩ := by
  unfold Dispatched.Sound KVCacheGroupManager.generateHlaDispatchMeta
  dsimp only
  constructor
  · intro pair hm
    split at hm
    · rcases mem_append.1 hm with hm | hm
      · obtain ⟨group, hg, hm⟩ := mem_flatMap.1 hm
        exact .of_fullAttnBlocks hg hm
      · obtain ⟨group, hg, hm⟩ := mem_flatMap.1 hm
        exact .of_appendMambaAlignStateBlock hg hm
    · cases hm
  · intro pair hm
    split at hm
    · rcases mem_append.1 hm with hm | hm
      · obtain ⟨group, hg, hm⟩ := mem_flatMap.1 hm
        exact .of_fullAttnBlocks hg hm
      · split at hm
        · cases hm
        · obtain ⟨group, hg, hm⟩ := mem_flatMap.1 hm
          exact .of_appendMambaAlignStateBlock hg hm
    · cases hm

end

/-- A block that is not null is new, so only null blocks can look as if they were there. -/
theorem trackBlocks_eq {existing incoming : List Nat}
    (hd : ((existing ++ incoming).filter (· ≠ 0)).Nodup)
    (ht : incoming ≠ [] → (∃ b ∈ incoming, b ≠ 0) ∨ ¬incoming <:+ existing) :
    trackBlocks false existing incoming = existing ++ incoming := by
  unfold trackBlocks
  rw [if_neg (by decide)]
  split
  · simp [*]
  · split
    · rfl
    · rename_i ha
      by_cases hn : incoming = []
      · simp [hn]
      · have he : existing.drop (existing.length - incoming.length) = incoming := by
          by_contra hne
          exact ha ⟨hn, hne⟩
        have hs : incoming <:+ existing := he ▸ drop_suffix _ _
        obtain ⟨b, hm, hu⟩ := (ht hn).resolve_right (not_not_intro hs)
        rw [filter_append] at hd
        have hin : b ∈ existing.filter (· ≠ 0) := by simp [hs.subset hm, hu]
        have hg : b ∈ incoming.filter (· ≠ 0) := by simp [hm, hu]
        exact absurd rfl ((nodup_append.1 hd).2.2 b hin b hg)

namespace Connector
variable {ρ : Type u} [DecidableEq ρ] {manager : KVCacheGroupManager} {isMla : Bool}
  {connector : Connector ρ}

/-- The tables are what was allocated, and the blocks of all pairs stand at their positions. -/
structure Tracked (manager : KVCacheGroupManager) (connector : Connector ρ) : Prop where
  tables : ∀ requestId reqMeta, connector.requestsMeta requestId = some reqMeta →
    reqMeta.groupVllmBlockIds = connector.allocated requestId
  sound : ∀ built ∈ connector.dispatched, built.Sound manager

theorem Tracked.of_update {next : Connector ρ} (h : connector.Tracked manager) (requestId : ρ)
    (stored : Option HLARequestMeta) {table : GroupBlocks}
    (hm : next.requestsMeta = update connector.requestsMeta requestId stored)
    (ht : next.allocated = update connector.allocated requestId table)
    (hst : ∀ reqMeta ∈ stored, reqMeta.groupVllmBlockIds = table)
    (hso : ∀ built ∈ next.dispatched, built.Sound manager) : next.Tracked manager where
  tables other reqMeta ho := by
    rw [hm] at ho
    rw [ht]
    by_cases hs : other = requestId
    · subst hs
      rw [update_self] at ho ⊢
      exact hst reqMeta ho
    · rw [update_of_ne hs] at ho ⊢
      exact h.tables other reqMeta ho
  sound := hso

@[simp] theorem allocated_schedule (requestId : ρ) (blockIds : GroupBlocks) (full : Bool)
    (newTokens : Nat) :
    (connector.schedule manager isMla requestId blockIds full newTokens).allocated =
      update connector.allocated requestId
        (allocate full (connector.allocated requestId) blockIds) := by
  unfold schedule
  split <;> rfl

theorem Tracked.schedule (h : connector.Tracked manager) {requestId : ρ} {blockIds : GroupBlocks}
    {full : Bool} {newTokens : Nat}
    (hr : full = false → ∀ gid, trackBlocks false (connector.allocated requestId gid)
      (blockIds gid) = connector.allocated requestId gid ++ blockIds gid) :
    (connector.schedule manager isMla requestId blockIds full newTokens).Tracked manager := by
  unfold Connector.schedule
  split
  · rename_i hn
    exact h.of_update requestId none (update_eq_self_iff.2 hn.symm).symm rfl (by simp) h.sound
  · rename_i reqMeta hs
    have hb := @generateHlaDispatchMeta_sound manager reqMeta isMla newTokens blockIds full full
    have ht : (manager.generateHlaDispatchMeta isMla reqMeta newTokens blockIds full
        full).1.groupVllmBlockIds = allocate full (connector.allocated requestId) blockIds := by
      funext gid
      change trackBlocks full (reqMeta.groupVllmBlockIds gid) (blockIds gid) = _
      rw [h.tables requestId reqMeta hs]
      cases full with
      | true => rfl
      | false => exact hr rfl gid
    apply h.of_update requestId _ rfl rfl
    · intro s hst
      cases hst
      exact ht
    · intro b hm
      rcases mem_cons.1 hm with rfl | hm
      · rw [← ht]
        exact hb
      · exact h.sound b hm

theorem Tracked.step {e : Event ρ} (h : connector.Tracked manager)
    (hd : (connector.perform manager isMla e).Distinct) (ht : connector.Telling e) :
    (connector.perform manager isMla e).Tracked manager := by
  cases e with
  | matched re reqMeta =>
    exact h.of_update re _ rfl rfl (by rintro _ ⟨⟩; rfl) h.sound
  | updateStateAfterAlloc re bl =>
    refine h.of_update re _ rfl rfl ?_ h.sound
    intro s hs
    obtain ⟨reqMeta, _, rfl⟩ := Option.map_eq_some_iff.1 hs
    rfl
  | scheduledNew re b ne => exact h.schedule (by simp)
  | scheduledCached re n r ne =>
    apply h.schedule
    rintro rfl gid
    apply trackBlocks_eq
    · have hn := hd re gid
      rwa [perform, allocated_schedule, update_self, allocate, if_neg (by decide)] at hn
    · cases n with
      | none => simp
      | some b => exact ht gid
  | finished re =>
    exact h.of_update re none rfl (update_eq_self _ _).symm (by simp) h.sound

theorem tables_tracked (h : Reachable ((system manager isMla ρ).restrict fun connector event next =>
    next.Distinct ∧ connector.Telling event) connector) : connector.Tracked manager := by
  apply h.invariant
  · rintro _ rfl
    exact ⟨nofun, nofun⟩
  · rintro connector event _ _ hr ⟨rfl, hd, ht⟩
    exact hr.step hd ht

/-- One full-attention group and one mamba-align group, with blocks of two tokens. -/
def twoGroups : KVCacheGroupManager where
  requestHasher seed pos hash := seed ++ [pos.toUInt8] ++ hash
  groupsById := [⟨0, 2, [7], false, true⟩, ⟨1, 2, [8], true, true⟩]
  numbered index group h := by
    rcases index with - | - | index
    · cases h
      rfl
    · cases h
      rfl
    · cases h
  positive := by decide
  attends := by decide

def startedRun (later : Nat) : Nat → Event Unit
  | 0 => .matched () ⟨0, 0, 4, 0, [[[1], [2]], []], fun _ => []⟩
  | 1 => .scheduledNew () (fun gid => [[5], [0]].getD gid []) 2
  | _ => .scheduledCached () (some fun gid => [[6], [later]].getD gid []) false 2

def afterRun (later : Nat) : Nat → Connector Unit
  | 0 => {}
  | count + 1 => (afterRun later count).perform twoGroups false (startedRun later count)

theorem distinct_afterRun {later count : Nat} (hl : later = 0 ∨ later = 3) (hc : count ≤ 3) :
    (afterRun later count).Distinct := by
  rintro ⟨⟩ gid
  rcases hl with rfl | rfl <;> rcases count with - | - | - | - | count <;>
    rcases gid with - | - | gid <;> first | decide | exact nodup_nil | omega

theorem reachable_afterRun {later count : Nat}
    {ok : Connector Unit → Event Unit → Connector Unit → Prop}
    (ho : ∀ i < count, ok (afterRun later i) (startedRun later i) (afterRun later (i + 1))) :
    Reachable ((system twoGroups false Unit).restrict ok) (afterRun later count) := by
  induction count with
  | zero => exact .start rfl
  | succ count ih =>
    exact .next (ih fun i hi => ho i (by omega)) ⟨rfl, ho count (by omega)⟩

theorem tables_tracked_two : ∃ connector : Connector Unit,
    connector.allocated () 1 = [0, 3] ∧ connector.Tracked twoGroups := by
  refine ⟨afterRun 3 3, rfl, tables_tracked (reachable_afterRun fun count hc => ?_)⟩
  refine ⟨distinct_afterRun (.inr rfl) hc, ?_⟩
  rcases count with - | - | - | count
  · trivial
  · trivial
  · rintro (- | - | gid) hs
    · exact .inl ⟨6, by decide, by decide⟩
    · exact .inl ⟨3, by decide, by decide⟩
    · exact absurd rfl hs
  · omega

/-- The second null block of a group is taken for the first one. -/
theorem null_block_dropped : ∃ (connector : Connector Unit) (reqMeta : HLARequestMeta),
    Reachable ((system twoGroups false Unit).restrict fun _ _ next => next.Distinct) connector ∧
      connector.requestsMeta () = some reqMeta ∧ reqMeta.groupVllmBlockIds 1 = [0] ∧
        connector.allocated () 1 = [0, 0] :=
  ⟨afterRun 0 3, _, reachable_afterRun fun _ hc => distinct_afterRun (.inl rfl) hc, rfl, rfl, rfl⟩

end Connector
end UnifiedCache.Hybrid
