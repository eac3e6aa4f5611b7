import UnifiedCache.Hybrid.GroupManager

/-! What `lookup_external_hit_tokens` returns for a store that is a fixed set of keys. The full
attention groups are exact. The loop over the state groups goes down to the furthest place that can
be reached with one state of each group in turn, which need not be a place with all states. -/
namespace UnifiedCache.Hybrid
open List

def lookupOnPrefix (store : Hash → Bool) : LookupOn :=
  fun ids => some ((ids.takeWhile store).length - 1)

def lookupOnReverse (store : Hash → Bool) : LookupOn :=
  fun ids => some (match Scan.rightmost store ids with | some index => index | none => -1)

namespace KVCacheGroupManager
variable {manager : KVCacheGroupManager} {store : Hash → Bool} {groupBlockIds : List (List Hash)}
  {numComputedTokens : Nat}

def Covered (store : Hash → Bool) (groupBlockIds : List (List Hash)) (numComputedTokens : Nat)
    (fa : GroupInfo) (tokens : Nat) : Prop :=
  ∀ block, numComputedTokens / fa.blockSize ≤ block →
    block < (numComputedTokens + tokens) / fa.blockSize →
    ∃ hash, (blockIds groupBlockIds fa)[block]? = some hash ∧ store hash = true

def Held (manager : KVCacheGroupManager) (store : Hash → Bool) (groupBlockIds : List (List Hash))
    (sg : GroupInfo) (pos : Nat) : Prop :=
  ∃ hash, manager.computeMambaAlignStateHash sg pos groupBlockIds = some hash ∧ store hash = true

structure Resumable (manager : KVCacheGroupManager) (store : Hash → Bool)
    (groupBlockIds : List (List Hash)) (numComputedTokens tokens : Nat) : Prop where
  covered : ∀ fa ∈ manager.fullAttnGroups, Covered store groupBlockIds numComputedTokens fa tokens
  held : ∀ sg ∈ manager.stateGroups,
    manager.Held store groupBlockIds sg (numComputedTokens + tokens)

/-- The store has the key that is asked for at a position: the state's, or the empty one if the
primary group has no hash there. -/
def Asked (manager : KVCacheGroupManager) (store : Hash → Bool) (groupBlockIds : List (List Hash))
    (sg : GroupInfo) (pos : Nat) : Prop :=
  store ((manager.computeMambaAlignStateHash sg pos groupBlockIds).getD []) = true

/-- Multiples of the LCM block size that go down from `top` to `tokens`, one for each group in
turn, at each of which the store has the key of that group. -/
def Staircase (manager : KVCacheGroupManager) (store : Hash → Bool)
    (groupBlockIds : List (List Hash)) (numComputedTokens : Nat) :
    List GroupInfo → Nat → Nat → Prop
  | [], top, tokens => tokens = top
  | sg :: rest, top, tokens => ∃ next, manager.lcmBlockSize ∣ next ∧ 0 < next ∧ next ≤ top ∧
      manager.Asked store groupBlockIds sg (numComputedTokens + next) ∧
      manager.Staircase store groupBlockIds numComputedTokens rest next tokens

theorem Held.asked {group : GroupInfo} {pos : Nat}
    (h : manager.Held store groupBlockIds group pos) :
    manager.Asked store groupBlockIds group pos := by
  obtain ⟨hash, hh, hs⟩ := h
  rwa [Asked, hh]

theorem dvd_lcm_of_mem {sizes : List Nat} {size : Nat} (h : size ∈ sizes) :
    size ∣ sizes.foldr Nat.lcm 1 := by
  induction sizes with
  | nil => cases h
  | cons _ _ ih =>
    obtain rfl | h := mem_cons.1 h
    · exact Nat.dvd_lcm_left _ _
    · exact (ih h).trans (Nat.dvd_lcm_right _ _)

variable {fa sg : GroupInfo}

theorem blockSize_dvd (h : fa ∈ manager.fullAttnGroups) : fa.blockSize ∣ manager.lcmBlockSize :=
  dvd_lcm_of_mem (mem_map_of_mem (mem_append_left _ h))

theorem blockSize_pos (h : fa ∈ manager.fullAttnGroups) : 0 < fa.blockSize :=
  manager.positive fa (mem_of_mem_filter h)

theorem lcmBlockSize_pos (manager : KVCacheGroupManager) : 0 < manager.lcmBlockSize := by
  have ha : ∀ size ∈ (manager.fullAttnGroups ++ manager.stateGroups).map GroupInfo.blockSize,
      0 < size := by
    intro size hs
    obtain ⟨g, hg, rfl⟩ := mem_map.1 hs
    obtain hg | hg := mem_append.1 hg
    · exact manager.positive g (mem_of_mem_filter hg)
    · exact manager.positive g (mem_of_mem_filter hg)
  unfold lcmBlockSize
  generalize (manager.fullAttnGroups ++ manager.stateGroups).map GroupInfo.blockSize = sizes at ha
  induction sizes with
  | nil => exact Nat.one_pos
  | cons first _ ih =>
    exact Nat.lcm_pos (ha first mem_cons_self) (ih fun size hs => ha size (mem_cons_of_mem _ hs))

theorem candidate_exact (group : GroupInfo) :
    candidate numComputedTokens groupBlockIds (lookupOnPrefix store) group =
      (((blockIds groupBlockIds group).drop (numComputedTokens / group.blockSize)).takeWhile
        store).length * group.blockSize := by
  unfold candidate
  dsimp only
  split
  · rename_i hn
    simp [hn]
  · simp [lookupOnPrefix]

variable {tokens pos : Nat}

theorem covered_iff (hf : fa ∈ manager.fullAttnGroups) (ht : fa.blockSize ∣ tokens) :
    Covered store groupBlockIds numComputedTokens fa tokens ↔ tokens ≤
    candidate numComputedTokens groupBlockIds (lookupOnPrefix store) fa := by
  have hp := blockSize_pos hf
  obtain ⟨b, rfl⟩ := ht
  rw [candidate_exact, Nat.mul_comm fa.blockSize b, Nat.mul_le_mul_right_iff hp,
    Scan.le_length_takeWhile_iff]
  unfold Covered
  rw [Nat.add_mul_div_right _ _ hp]
  constructor
  · intro h i _
    obtain ⟨hash, _, hs⟩ := h (numComputedTokens / fa.blockSize + i) (by omega) (by omega)
    exact ⟨hash, by rwa [List.getElem?_drop], hs⟩
  intro h bl hl _
  obtain ⟨hash, hh, hs⟩ := h (bl - numComputedTokens / fa.blockSize) (by omega)
  rw [List.getElem?_drop, Nat.add_sub_cancel' hl] at hh
  exact ⟨hash, hh, hs⟩

def attended (manager : KVCacheGroupManager) (store : Hash → Bool)
    (groupBlockIds : List (List Hash)) (numComputedTokens : Nat) : Nat :=
  (manager.fullAttnGroups.map
    (candidate numComputedTokens groupBlockIds (lookupOnPrefix store))).min?.getD 0 /
      manager.lcmBlockSize * manager.lcmBlockSize

theorem le_min_candidates {bound : Nat} : bound ≤ (manager.fullAttnGroups.map
      (candidate numComputedTokens groupBlockIds (lookupOnPrefix store))).min?.getD 0 ↔
      ∀ fa ∈ manager.fullAttnGroups,
        bound ≤ candidate numComputedTokens groupBlockIds (lookupOnPrefix store) fa := by
  cases hm : (manager.fullAttnGroups.map
      (candidate numComputedTokens groupBlockIds (lookupOnPrefix store))).min? with
  | none =>
    rw [List.min?_eq_none_iff, map_eq_nil_iff] at hm
    exact absurd hm manager.attends
  | some l =>
    rw [Option.getD_some, le_min?_iff hm]
    simp

theorem covered_iff_le_attended (ht : manager.lcmBlockSize ∣ tokens) :
    (∀ fa ∈ manager.fullAttnGroups, Covered store groupBlockIds numComputedTokens fa tokens) ↔
      tokens ≤ manager.attended store groupBlockIds numComputedTokens := by
  have hp := manager.lcmBlockSize_pos
  obtain ⟨blocks, rfl⟩ := ht
  have hd : ∀ fa ∈ manager.fullAttnGroups, fa.blockSize ∣ manager.lcmBlockSize * blocks :=
    fun fa hf => (blockSize_dvd hf).trans (Nat.dvd_mul_right _ _)
  unfold attended
  rw [Nat.mul_comm, Nat.mul_le_mul_right_iff hp, Nat.le_div_iff_mul_le hp, le_min_candidates,
    Nat.mul_comm]
  constructor
  · intro h fa hf
    exact (covered_iff hf (hd fa hf)).1 (h fa hf)
  · intro h fa hf
    exact (covered_iff hf (hd fa hf)).2 (h fa hf)

structure Latest (held : Nat → Prop) (positions : List Nat) (bestPos pos : Nat) : Prop where
  mem : pos ∈ positions
  le : pos ≤ bestPos
  present : held pos
  latest : ∀ other ∈ positions, other ≤ bestPos → held other → other ≤ pos

theorem le_of_getElem?_le {items : List Nat} (hs : items.Pairwise (· < ·))
    {first second x y : Nat} (hl : first ≤ second) (hx : items[first]? = some x)
    (hy : items[second]? = some y) : x ≤ y := by
  obtain ⟨hf, rfl⟩ := List.getElem?_eq_some_iff.1 hx
  obtain ⟨he, rfl⟩ := List.getElem?_eq_some_iff.1 hy
  obtain ht | rfl := Nat.lt_or_eq_of_le hl
  · exact Nat.le_of_lt (pairwise_iff_getElem.1 hs first second hf he ht)
  · exact Nat.le_refl _

variable {positions : List Nat}

theorem narrow_cons (store : Hash → Bool) (groupBlockIds : List (List Hash))
    (hr : positions.Pairwise (· < ·)) (bestPos : Nat) (rest : List GroupInfo) :
    (manager.narrow groupBlockIds (lookupOnReverse store) positions bestPos (sg :: rest) =
        some none ∧
      ∀ pos ∈ positions, pos ≤ bestPos → ¬ manager.Asked store groupBlockIds sg pos) ∨
    ∃ pos, Latest (manager.Asked store groupBlockIds sg) positions bestPos pos ∧
      manager.narrow groupBlockIds (lookupOnReverse store) positions bestPos (sg :: rest) =
        manager.narrow groupBlockIds (lookupOnReverse store) positions pos rest := by
  have hf : ∀ pos, pos ∈ positions.filter (fun pos => pos ≤ bestPos) ↔
      pos ∈ positions ∧ pos ≤ bestPos := by
    simp
  rw [narrow.eq_2]
  cases hs : Scan.rightmost store (manager.stateHashes groupBlockIds sg
      (positions.filter fun pos => pos ≤ bestPos)) with
  | none =>
    left
    refine ⟨by simp [lookupOnReverse, hs], fun pos hp hl he => ?_⟩
    have hms := Scan.rightmost_eq_none hs _ (mem_map_of_mem ((hf pos).2 ⟨hp, hl⟩))
    rw [he] at hms
    cases hms
  | some i =>
    right
    obtain ⟨⟨hash, ht, hst⟩, ha⟩ := Scan.rightmost_eq_some hs
    obtain ⟨pos, hp, rfl⟩ : ∃ pos, (positions.filter fun pos => pos ≤ bestPos)[i]? =
        some pos ∧ (manager.computeMambaAlignStateHash sg pos groupBlockIds).getD [] = hash := by
      simpa [stateHashes] using ht
    obtain ⟨hm, hl⟩ := (hf pos).1 (mem_of_getElem? hp)
    refine ⟨pos, ⟨hm, hl, hst, ?_⟩, ?_⟩
    · intro o ho hd he
      obtain ⟨p, hpl⟩ := mem_iff_getElem?.1 ((hf o).2 ⟨ho, hd⟩)
      have hb := ha p _ (by rw [stateHashes, List.getElem?_map, hpl]; rfl) he
      exact le_of_getElem?_le (hr.filter _) hb hpl hp
    · have hn : ¬ (i : Int) < 0 := by omega
      simp [lookupOnReverse, hs, hn, hp, Nat.min_eq_left hl]

def boundaries (manager : KVCacheGroupManager) (numComputedTokens tokens : Nat) : List Nat :=
  pyRange (numComputedTokens + manager.lcmBlockSize)
    (numComputedTokens + tokens + manager.lcmBlockSize) manager.lcmBlockSize

theorem mem_boundaries (ht : manager.lcmBlockSize ∣ tokens) : pos ∈
    manager.boundaries numComputedTokens tokens ↔ ∃ ahead, manager.lcmBlockSize ∣ ahead ∧ 0 <
    ahead ∧ ahead ≤ tokens ∧ pos = numComputedTokens + ahead := by
  have hp := manager.lcmBlockSize_pos
  obtain ⟨blocks, rfl⟩ := ht
  have hc : (numComputedTokens + manager.lcmBlockSize * blocks + manager.lcmBlockSize -
      (numComputedTokens + manager.lcmBlockSize) + manager.lcmBlockSize - 1) /
        manager.lcmBlockSize = blocks := by
    rw [show numComputedTokens + manager.lcmBlockSize * blocks + manager.lcmBlockSize -
      (numComputedTokens + manager.lcmBlockSize) + manager.lcmBlockSize - 1 =
        manager.lcmBlockSize - 1 + manager.lcmBlockSize * blocks by omega,
      Nat.add_mul_div_left _ _ hp, Nat.div_eq_of_lt (by omega), Nat.zero_add]
  unfold boundaries pyRange
  rw [hc, mem_range']
  constructor
  · rintro ⟨i, hd, rfl⟩
    refine ⟨manager.lcmBlockSize * (i + 1), Nat.dvd_mul_right _ _, ?_, ?_, ?_⟩
    · exact Nat.mul_pos hp (Nat.succ_pos _)
    · exact Nat.mul_le_mul_left _ hd
    · rw [Nat.mul_succ]
      omega
  rintro ⟨ahead, ⟨count, rfl⟩, ha, hl, rfl⟩
  have hc : 0 < count := Nat.pos_of_mul_pos_left ha
  refine ⟨count - 1, ?_, ?_⟩
  · have hb := Nat.le_of_mul_le_mul_left hl hp
    omega
  · rw [Nat.mul_sub_one]
    have hf := Nat.le_mul_of_pos_right manager.lcmBlockSize hc
    omega

theorem boundaries_sorted (numComputedTokens tokens : Nat) :
    (manager.boundaries numComputedTokens tokens).Pairwise (· < ·) :=
  pairwise_lt_range' _ manager.lcmBlockSize_pos

/-- The tokens by which `lookup_external_hit_tokens` should answer. -/
structure Furthest (manager : KVCacheGroupManager) (store : Hash → Bool)
    (groupBlockIds : List (List Hash)) (numComputedTokens tokens : Nat) : Prop where
  aligned : manager.lcmBlockSize ∣ tokens
  resumable : 0 < tokens → manager.Resumable store groupBlockIds numComputedTokens tokens
  furthest : ∀ other, manager.lcmBlockSize ∣ other →
    manager.Resumable store groupBlockIds numComputedTokens other → other ≤ tokens

section
variable {groups : List GroupInfo} {top : Nat}

theorem Staircase.mono {higher : Nat} (hl : top ≤ higher)
    (h : manager.Staircase store groupBlockIds numComputedTokens groups top tokens) :
    ∃ further, tokens ≤ further ∧
      manager.Staircase store groupBlockIds numComputedTokens groups higher further := by
  cases groups with
  | nil =>
    cases h
    exact ⟨higher, hl, rfl⟩
  | cons sg rest =>
    obtain ⟨next, hd, hp, hle, ha, hr⟩ := h
    exact ⟨tokens, Nat.le_refl _, next, hd, hp, Nat.le_trans hle hl, ha, hr⟩

theorem Staircase.of_held (hg : groups ≠ []) (hd : manager.lcmBlockSize ∣ tokens)
    (hp : 0 < tokens) (hl : tokens ≤ top)
    (hh : ∀ sg ∈ groups, manager.Held store groupBlockIds sg (numComputedTokens + tokens)) :
    manager.Staircase store groupBlockIds numComputedTokens groups top tokens := by
  induction groups generalizing top with
  | nil => exact absurd rfl hg
  | cons sg rest ih =>
    refine ⟨tokens, hd, hp, hl, (hh sg mem_cons_self).asked, ?_⟩
    by_cases hr : rest = []
    · subst hr
      rfl
    · exact ih hr (Nat.le_refl _) fun other ho => hh other (mem_cons_of_mem _ ho)

theorem Staircase.tokens_pos (hg : groups ≠ [])
    (h : manager.Staircase store groupBlockIds numComputedTokens groups top tokens) :
    0 < tokens := by
  induction groups generalizing top with
  | nil => exact absurd rfl hg
  | cons sg rest ih =>
    obtain ⟨next, -, hp, -, -, hr⟩ := h
    by_cases he : rest = []
    · subst he
      cases hr
      exact hp
    · exact ih he hr

theorem Staircase.dvd (ht : manager.lcmBlockSize ∣ top)
    (h : manager.Staircase store groupBlockIds numComputedTokens groups top tokens) :
    manager.lcmBlockSize ∣ tokens ∧ tokens ≤ top := by
  induction groups generalizing top with
  | nil =>
    cases h
    exact ⟨ht, Nat.le_refl _⟩
  | cons sg rest ih =>
    obtain ⟨next, hd, -, hl, -, hr⟩ := h
    obtain ⟨hn, hle⟩ := ih hd hr
    exact ⟨hn, Nat.le_trans hle hl⟩

theorem narrow_furthest (store : Hash → Bool) (groupBlockIds : List (List Hash))
    (numComputedTokens : Nat) {limit : Nat} (hd : manager.lcmBlockSize ∣ limit)
    (groups : List GroupInfo) (hl : top ≤ limit) :
    (manager.narrow groupBlockIds (lookupOnReverse store)
        (manager.boundaries numComputedTokens limit) (numComputedTokens + top) groups = some none ∧
      ∀ tokens, ¬ manager.Staircase store groupBlockIds numComputedTokens groups top tokens) ∨
    ∃ tokens, manager.narrow groupBlockIds (lookupOnReverse store)
        (manager.boundaries numComputedTokens limit) (numComputedTokens + top) groups =
          some (some (numComputedTokens + tokens)) ∧
      manager.Staircase store groupBlockIds numComputedTokens groups top tokens ∧
      ∀ other, manager.Staircase store groupBlockIds numComputedTokens groups top other →
        other ≤ tokens := by
  induction groups generalizing top with
  | nil => exact .inr ⟨top, rfl, rfl, fun other ho => Nat.le_of_eq ho⟩
  | cons sg rest ih =>
    have hb : ∀ next, manager.lcmBlockSize ∣ next → 0 < next → next ≤ top →
        numComputedTokens + next ∈ manager.boundaries numComputedTokens limit :=
      fun next hn hp hle => (mem_boundaries hd).2 ⟨next, hn, hp, Nat.le_trans hle hl, rfl⟩
    obtain ⟨hno, hm⟩ | ⟨pos, hlast, hs⟩ := narrow_cons store groupBlockIds
      (boundaries_sorted numComputedTokens limit) (numComputedTokens + top) rest
    · left
      refine ⟨hno, ?_⟩
      rintro tokens ⟨next, hn, hp, hle, ha, -⟩
      exact hm _ (hb next hn hp hle) (Nat.add_le_add_left hle _) ha
    obtain ⟨last, hdl, hpl, hll, rfl⟩ := (mem_boundaries hd).1 hlast.mem
    -- the first step of a staircase is no further than the last state of the group
    have hfirst : ∀ next, manager.lcmBlockSize ∣ next → 0 < next → next ≤ top →
        manager.Asked store groupBlockIds sg (numComputedTokens + next) → next ≤ last :=
      fun next hn hp hle ha => Nat.le_of_add_le_add_left
        (hlast.latest _ (hb next hn hp hle) (Nat.add_le_add_left hle _) ha)
    have hlt : last ≤ top := Nat.le_of_add_le_add_left hlast.le
    rw [hs]
    obtain ⟨hno, hm⟩ | ⟨tokens, hend, hst, hmax⟩ := ih hll
    · left
      refine ⟨hno, ?_⟩
      rintro tokens ⟨next, hn, hp, hle, ha, hr⟩
      obtain ⟨further, -, hf⟩ := hr.mono (hfirst next hn hp hle ha)
      exact hm further hf
    · right
      refine ⟨tokens, hend, ⟨last, hdl, hpl, hlt, hlast.present, hst⟩, ?_⟩
      rintro other ⟨next, hn, hp, hle, ha, hr⟩
      obtain ⟨further, hof, hf⟩ := hr.mono (hfirst next hn hp hle ha)
      exact Nat.le_trans hof (hmax further hf)

end

theorem lookupExternalHitTokens_eq (hg : groupBlockIds.length = manager.groupsById.length)
    (ha : manager.lcmBlockSize ∣ numComputedTokens) :
    manager.lookupExternalHitTokens numComputedTokens groupBlockIds (lookupOnPrefix store)
        (lookupOnReverse store) =
      let limit := manager.attended store groupBlockIds numComputedTokens
      if limit = 0 then some (0, 0, [])
      else if manager.stateGroups = [] then some (limit, limit / manager.lcmBlockSize, [])
      else
        match manager.narrow groupBlockIds (lookupOnReverse store)
            (manager.boundaries numComputedTokens limit) (numComputedTokens + limit)
            manager.stateGroups with
        | none => none
        | some none => some (0, 0, [])
        | some (some b) =>
          if b - numComputedTokens = 0 then some (0, 0, [])
          else some (b - numComputedTokens, (b - numComputedTokens) / manager.lcmBlockSize,
            manager.prefetchHashes groupBlockIds b) := by
  unfold lookupExternalHitTokens
  rw [if_neg (by simp [hg, Nat.mod_eq_zero_of_dvd ha])]
  rfl

/-- Wherever the state groups can go down to with one state each, below what the full-attention
groups cover, there is a place as far up at which the request can be resumed. -/
def Level (manager : KVCacheGroupManager) (store : Hash → Bool) (groupBlockIds : List (List Hash))
    (numComputedTokens : Nat) : Prop :=
  ∀ top tokens, manager.lcmBlockSize ∣ top →
    (∀ fa ∈ manager.fullAttnGroups, Covered store groupBlockIds numComputedTokens fa top) →
    manager.Staircase store groupBlockIds numComputedTokens manager.stateGroups top tokens →
    0 < tokens → ∃ other, tokens ≤ other ∧ manager.lcmBlockSize ∣ other ∧
      manager.Resumable store groupBlockIds numComputedTokens other

theorem level_of_stateGroups_nil (hs : manager.stateGroups = []) :
    manager.Level store groupBlockIds numComputedTokens := by
  intro top tokens hd hc hst _
  rw [hs] at hst
  cases hst
  exact ⟨top, Nat.le_refl _, hd, hc, by simp [hs]⟩

/-- Where the loop over the state groups ends at `tokens`, this is the right answer exactly under
`Level`. -/
theorem furthest_iff_level (hs : manager.stateGroups ≠ [])
    (hst : manager.Staircase store groupBlockIds numComputedTokens manager.stateGroups
      (manager.attended store groupBlockIds numComputedTokens) tokens)
    (hmax : ∀ other, manager.Staircase store groupBlockIds numComputedTokens manager.stateGroups
      (manager.attended store groupBlockIds numComputedTokens) other → other ≤ tokens) :
    manager.Furthest store groupBlockIds numComputedTokens tokens ↔
      manager.Level store groupBlockIds numComputedTokens := by
  have ha : manager.lcmBlockSize ∣ manager.attended store groupBlockIds numComputedTokens :=
    Nat.dvd_mul_left _ _
  have hp := hst.tokens_pos hs
  have hres : ∀ other, manager.lcmBlockSize ∣ other → 0 < other →
      manager.Resumable store groupBlockIds numComputedTokens other → other ≤ tokens :=
    fun other hd ho hr => hmax other
      (.of_held hs hd ho ((covered_iff_le_attended hd).1 hr.covered) hr.held)
  constructor
  · intro hf top reached hd hc hr _
    obtain ⟨further, hle, hfu⟩ := hr.mono ((covered_iff_le_attended hd).1 hc)
    exact ⟨tokens, Nat.le_trans hle (hmax further hfu), hf.aligned, hf.resumable hp⟩
  · intro hlevel
    obtain ⟨other, hle, hd, hr⟩ := hlevel _ tokens ha
      ((covered_iff_le_attended ha).2 (Nat.le_refl _)) hst hp
    obtain rfl := Nat.le_antisymm hle (hres other hd (Nat.lt_of_lt_of_le hp hle) hr)
    refine ⟨hd, fun _ => hr, fun other ho hro => ?_⟩
    obtain rfl | hpo := Nat.eq_zero_or_pos other
    · exact Nat.zero_le _
    · exact hres other ho hpo hro

/-- The external hit is the largest multiple of the LCM block size at which a request can be
resumed exactly if the state groups can go down only to where all of them have a state. -/
theorem lookupExternalHitTokens_exact_iff
    (hgroups : groupBlockIds.length = manager.groupsById.length)
    (haligned : manager.lcmBlockSize ∣ numComputedTokens) :
    (∃ tokens hashes, manager.lookupExternalHitTokens numComputedTokens groupBlockIds
        (lookupOnPrefix store) (lookupOnReverse store) =
          some (tokens, tokens / manager.lcmBlockSize, hashes) ∧
      manager.Furthest store groupBlockIds numComputedTokens tokens) ↔
      manager.Level store groupBlockIds numComputedTokens := by
  have ha : manager.lcmBlockSize ∣ manager.attended store groupBlockIds numComputedTokens :=
    Nat.dvd_mul_left _ _
  have hc : ∀ {tokens : Nat}, manager.lcmBlockSize ∣ tokens →
      manager.Resumable store groupBlockIds numComputedTokens tokens →
      tokens ≤ manager.attended store groupBlockIds numComputedTokens :=
    fun ht hr => (covered_iff_le_attended ht).1 hr.covered
  rw [lookupExternalHitTokens_eq hgroups haligned]
  dsimp only
  split
  · -- the full-attention groups have nothing
    rename_i hz
    constructor
    · intro _ top tokens hd hco hst hp
      have htop := (covered_iff_le_attended hd).1 hco
      have hle := (hst.dvd hd).2
      omega
    · intro _
      refine ⟨0, [], by simp, Nat.dvd_zero _, by simp, fun other ho hr => ?_⟩
      rw [← hz]
      exact hc ho hr
  split
  · rename_i hn
    constructor
    · exact fun _ => level_of_stateGroups_nil hn
    · intro _
      exact ⟨_, [], rfl, ha, fun _ => ⟨(covered_iff_le_attended ha).2 (Nat.le_refl _),
        by simp [hn]⟩, fun other ho hr => hc ho hr⟩
  rename_i hs
  obtain ⟨hn, hnone⟩ | ⟨tokens, hend, hst, hmax⟩ := narrow_furthest store
    groupBlockIds numComputedTokens ha manager.stateGroups (Nat.le_refl _)
  · rw [hn]
    constructor
    · intro _ top reached hd hco hr _
      obtain ⟨further, -, hfu⟩ := hr.mono ((covered_iff_le_attended hd).1 hco)
      exact absurd hfu (hnone further)
    · intro _
      refine ⟨0, [], by simp, Nat.dvd_zero _, by simp, fun other ho hr => ?_⟩
      by_contra hpo
      exact hnone other (.of_held hs ho (by omega) (hc ho hr) hr.held)
  · have hp := hst.tokens_pos hs
    rw [hend, ← furthest_iff_level hs hst hmax]
    simp only [Nat.add_sub_cancel_left, if_neg hp.ne', Option.some.injEq, Prod.mk.injEq]
    constructor
    · rintro ⟨_, _, ⟨rfl, -, -⟩, hf⟩
      exact hf
    · exact fun hf => ⟨tokens, _, ⟨rfl, rfl, rfl⟩, hf⟩

def threeGroups (blockSize : Nat) (h : 0 < blockSize) : KVCacheGroupManager where
  requestHasher seed seqLen prefixHash := seed ++ [UInt8.ofNat seqLen] ++ prefixHash
  groupsById := [⟨0, 1, [0], false, true⟩, ⟨1, 1, [1], true, true⟩, ⟨2, blockSize, [2], true, true⟩]
  numbered index group hgroup := by
    match index, hgroup with
    | 0, rfl => rfl
    | 1, rfl => rfl
    | 2, rfl => rfl
  positive group hgroup := by
    simp only [List.mem_cons, List.not_mem_nil, or_false] at hgroup
    obtain rfl | rfl | rfl := hgroup
    · exact Nat.one_pos
    · exact Nat.one_pos
    · exact h
  attends := by simp [GroupInfo.isFullAttention]

def levelStore (hash : Hash) : Bool := hash ∈ [[10], [11], [1, 2, 11], [2, 1, 10], [2, 2, 11]]

/-- The second state group also has a state further down. -/
theorem lookupExternalHitTokens_exact_level : ∃ tokens hashes,
    (threeGroups 1 (by decide)).lookupExternalHitTokens 0 [[[10], [11]], [], []]
        (lookupOnPrefix levelStore) (lookupOnReverse levelStore) =
          some (tokens, tokens / (threeGroups 1 (by decide)).lcmBlockSize, hashes) ∧
      (threeGroups 1 (by decide)).Furthest levelStore [[[10], [11]], [], []] 0 tokens := by
  refine (lookupExternalHitTokens_exact_iff (by decide) (Nat.dvd_zero _)).2 ?_
  intro top tokens hd hc hst _
  have htop := (covered_iff_le_attended hd).1 hc
  have hlim : (threeGroups 1 (by decide)).attended levelStore [[[10], [11]], [], []] 0 = 2 := by
    decide +kernel
  have hle := (hst.dvd hd).2
  refine ⟨2, by omega, by decide, (covered_iff_le_attended (by decide)).2 (by omega), ?_⟩
  intro sg hsg
  have hm : sg = ⟨1, 1, [1], true, true⟩ ∨ sg = ⟨2, 1, [2], true, true⟩ := by
    simpa [stateGroups, threeGroups] using hsg
  obtain rfl | rfl := hm
  · exact ⟨[1, 2, 11], by decide +kernel, by decide⟩
  · exact ⟨[2, 2, 11], by decide +kernel, by decide⟩

def crossedStore (hash : Hash) : Bool := hash ∈ [[10], [11], [1, 2, 11], [2, 1, 10]]

/-- The first state group has no state where the request is resumed. -/
theorem lookupExternalHitTokens_wrong :
    (threeGroups 1 (by decide)).lookupExternalHitTokens 0 [[[10], [11]], [], []]
        (lookupOnPrefix crossedStore) (lookupOnReverse crossedStore) =
      some (1, 1, [[1, 1, 10], [2, 1, 10]]) ∧
    ¬ (threeGroups 1 (by decide)).Resumable crossedStore [[[10], [11]], [], []] 0 1 := by
  refine ⟨by decide +kernel, fun hr => ?_⟩
  obtain ⟨hash, hh, ht⟩ := hr.held ⟨1, 1, [1], true, true⟩ (by simp [stateGroups, threeGroups])
  have hm : hash = [1, 1, 10] := by
    have hs : (threeGroups 1 (by decide)).computeMambaAlignStateHash
        ⟨1, 1, [1], true, true⟩ (0 + 1) [[[10], [11]], [], []] = some [1, 1, 10] := by
      decide +kernel
    exact Option.some.inj (hh.symm.trans hs)
  rw [hm] at ht
  exact absurd ht (by decide)

end KVCacheGroupManager
end UnifiedCache.Hybrid
