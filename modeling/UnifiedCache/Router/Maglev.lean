import Mathlib.Tactic.NormNum.Prime
import UnifiedCache.Lib.Probing
import UnifiedCache.Router.Strategies

/-! The Maglev table: its loops end, they leave no place of the table free, and they give
every node as many places as any other, up to one. -/
namespace UnifiedCache.Router
open List Probing

variable {nodeId : NodeId}

@[simp] theorem mem_normalizeNodeIds {nodeIds : List NodeId} :
    nodeId ∈ normalizeNodeIds nodeIds ↔ nodeId ∈ nodeIds ∧ nodeId ≠ kInvalidNodeId := by
  have hf : ∀ a : List NodeId, nodeId ∈ nodeIds.foldl (fun a nodeId =>
      if nodeId = kInvalidNodeId ∨ nodeId ∈ a then a else a ++ [nodeId]) a ↔
        nodeId ∈ a ∨ (nodeId ∈ nodeIds ∧ nodeId ≠ kInvalidNodeId) := by
    induction nodeIds with
    | nil => simp
    | cons first _ ih =>
      intro a
      rw [foldl_cons, ih]
      split
      · rename_i hk
        by_cases hs : nodeId = first
        · subst hs
          rcases hk with hn | hkn
          · simp [hn]
          · simp [hkn]
        · simp [hs]
      rename_i he
      by_cases hs : nodeId = first
      · subst hs
        simp [not_or.1 he]
      · simp [hs]
  simpa [normalizeNodeIds] using hf []

theorem nodup_normalizeNodeIds (nodeIds : List NodeId) : (normalizeNodeIds nodeIds).Nodup := by
  refine foldlRecOn nodeIds _ nodup_nil fun a ha nodeId _ => ?_
  split
  · exact ha
  · rename_i hn
    exact ha.append (nodup_singleton _) (by simpa using (not_or.1 hn).2)

theorem noOddFactor_iff {value fuel factor : Nat} (odd : factor % 2 = 1)
    (enough : value < factor + 2 * fuel) :
    noOddFactor value fuel factor = true ↔ ∀ d, factor ≤ d → d % 2 = 1 → d * d ≤ value → ¬ d ∣
    value := by
  induction fuel generalizing factor with
  | zero =>
    simp only [noOddFactor, true_iff]
    intro d _ _ _
    have := Nat.le_mul_self d
    omega
  | succ _ ih =>
    unfold noOddFactor
    simp only [Nat.le_div_iff_mul_le (show 0 < factor by omega)]
    split
    · rename_i hs
      split
      · rename_i hd
        simp only [Bool.false_eq_true, false_iff, not_forall]
        exact ⟨factor, le_refl _, odd, hs, not_not.2 (Nat.dvd_of_mod_eq_zero hd)⟩
      rename_i hd
      rw [ih (by omega) (by omega)]
      refine ⟨fun h d hl ho => ?_, fun h d hl => h d (by omega)⟩
      rcases Nat.eq_or_lt_of_le hl with rfl | ht
      · exact fun _ hdi => hd (Nat.mod_eq_zero_of_dvd hdi)
      · exact h d (by omega) ho
    rename_i hs
    simp only [true_iff]
    intro d hl _ hm
    exact absurd ((Nat.mul_self_le_mul_self hl).trans hm) hs

theorem isPrime_iff {v : UInt64} : isPrime v = true ↔ v.toNat.Prime := by
  simp only [isPrime, UInt64.lt_iff_toNat_lt, ← UInt64.toNat_inj, UInt64.toNat_mod,
    show (2 : UInt64).toNat = 2 from rfl, show (0 : UInt64).toNat = 0 from rfl]
  split
  · simp only [Bool.false_eq_true, false_iff]
    exact fun hp => absurd hp.two_le (by omega)
  split
  · rename_i hq
    simp [hq, Nat.prime_two]
  split
  · rename_i hn he
    simp only [Bool.false_eq_true, false_iff]
    exact fun hp => hn ((Nat.Prime.even_iff hp).1 (Nat.even_iff.2 he))
  rename_i ho
  rw [noOddFactor_iff (by decide) (by omega), Nat.prime_def_le_sqrt]
  constructor
  · refine fun h => ⟨by omega, fun d hl hsq hd => ?_⟩
    have hod : d % 2 = 1 := by
      by_contra he
      exact ho (Nat.mod_eq_zero_of_dvd ((Nat.dvd_of_mod_eq_zero (by omega)).trans hd))
    exact h d (by omega) hod (Nat.le_sqrt.1 hsq) hd
  · exact fun h d hl _ hs => h.2 d (by omega) (Nat.le_sqrt.2 hs)

theorem usedTableSize_prime (tableSize : UInt64) : (usedTableSize tableSize).toNat.Prime := by
  unfold usedTableSize
  split
  · rename_i hp
    exact isPrime_iff.1 hp
  · change Nat.Prime 65537
    norm_num

structure Settled (size : Nat) (table : List NodeId) (filler : Filler) : Prop where
  valid : filler.nodeId ≠ kInvalidNodeId
  offset_lt : filler.offset.toNat < size
  skip_pos : 0 < filler.skip.toNat
  skip_lt : filler.skip.toNat < size
  next_le : filler.next.toNat ≤ size
  visited : ∀ k < filler.next.toNat,
    table[place size filler.offset.toNat filler.skip.toNat k]? ≠ some kInvalidNodeId

section
variable {tableSize : UInt64} {table : List NodeId} {filler : Filler}

theorem candidate_eq (small : tableSize.toNat < 2 ^ 32) (h : Settled tableSize.toNat table filler) :
    filler.candidate tableSize =
    place tableSize.toNat filler.offset.toNat filler.skip.toNat filler.next.toNat := by
  have ho := h.offset_lt
  have hp : filler.next.toNat * filler.skip.toNat ≤ 2 ^ 32 * (2 ^ 32 - 1) :=
    Nat.mul_le_mul (by have := h.next_le; omega) (by have := h.skip_lt; omega)
  unfold Filler.candidate place
  rw [UInt64.toNat_mod, UInt64.toNat_add, UInt64.toNat_mul,
    Nat.mod_eq_of_lt (a := filler.next.toNat * filler.skip.toNat) (by omega),
    Nat.mod_eq_of_lt (a := filler.offset.toNat + _) (by omega)]

theorem Settled.next_lt (prime : tableSize.toNat.Prime) (sized : table.length = tableSize.toNat)
    (free : kInvalidNodeId ∈ table) (h : Settled tableSize.toNat table filler) :
    filler.next.toNat < tableSize.toNat := by
  by_contra he
  obtain ⟨t, ht⟩ := mem_iff_getElem?.1 free
  have hl : t < tableSize.toNat := by
    rw [← sized]
    exact (List.getElem?_eq_some_iff.1 ht).1
  obtain ⟨k, hk, hp⟩ := exists_place filler.offset.toNat prime h.skip_pos h.skip_lt hl
  apply h.visited k (by omega)
  rw [hp, ht]

variable {nodeId : NodeId}

theorem Settled.set (h : Settled tableSize.toNat table filler) (valid : nodeId ≠ kInvalidNodeId)
    (place : Nat) : Settled tableSize.toNat (table.set place nodeId) filler :=
  { h with
    visited := by
      intro k hk
      rw [List.getElem?_set]
      split
      · split
        · simpa using valid
        · simp
      · exact h.visited k hk }

theorem Settled.advance (small : tableSize.toNat < 2 ^ 32)
    (h : Settled tableSize.toNat table filler) (hn : filler.next.toNat < tableSize.toNat)
    {after : List NodeId} (ha : Settled tableSize.toNat after filler)
    (taken : after[filler.candidate tableSize]? ≠ some kInvalidNodeId) :
    Settled tableSize.toNat after filler.advance := by
  have hs : filler.advance.next.toNat = filler.next.toNat + 1 := by
    simp only [Filler.advance, UInt64.toNat_add, UInt64.toNat_one]
    omega
  exact
    { ha with
      next_le := by omega
      visited := by
        intro k hk
        rw [hs] at hk
        rcases Nat.lt_succ_iff_lt_or_eq.1 hk with ho | rfl
        · exact ha.visited k ho
        · rw [candidate_eq small h] at taken
          exact taken }

theorem probe_spec (prime : tableSize.toNat.Prime) (small : tableSize.toNat < 2 ^ 32)
    (sized : table.length = tableSize.toNat) (free : kInvalidNodeId ∈ table) {fuel : Nat}
    (h : Settled tableSize.toNat table filler)
    (enough : tableSize.toNat ≤ filler.next.toNat + fuel) :
    ∃ c after, probe tableSize table fuel filler = some (c, after) ∧ Settled tableSize.toNat
    (table.set c filler.nodeId) after := by
  induction fuel generalizing filler with
  | zero =>
    have := h.next_lt prime sized free
    omega
  | succ _ ih =>
    have hn := h.next_lt prime sized free
    unfold probe
    dsimp only
    split
    · rename_i hf
      refine ⟨_, _, rfl, ?_⟩
      apply h.advance small hn (h.set h.valid _)
      rw [List.getElem?_set_self (List.getElem?_eq_some_iff.1 hf).1]
      simpa using h.valid
    rename_i ht
    have ha := h.advance small hn h ht
    apply ih ha
    have hs : filler.advance.next.toNat = filler.next.toNat + 1 := by
      simp only [Filler.advance, UInt64.toNat_add, UInt64.toNat_one]
      omega
    omega

variable {nodeIds : List NodeId}
variable {fillers : List Filler} {filled : UInt64} {filling : Filling}

theorem probe_some {fuel place : Nat} {filler after : Filler}
    (h : probe tableSize table fuel filler = some (place,
    after)) : table[place]? = some kInvalidNodeId ∧ after.nodeId = filler.nodeId := by
  induction fuel generalizing filler with
  | zero => simp [probe] at h
  | succ _ ih =>
    rw [probe] at h
    split at h
    · rename_i hf
      cases h
      exact ⟨hf, rfl⟩
    · have hr := ih h
      exact hr

/-- The table between two places: every place is free or belongs to a node, and as many
are free as are still to be filled. -/
structure Exact (tableSize : UInt64) (nodeIds table : List NodeId) (filled : UInt64) : Prop where
  length : table.length = tableSize.toNat
  count : table.count kInvalidNodeId + filled.toNat = tableSize.toNat
  owned : ∀ nodeId ∈ table, nodeId = kInvalidNodeId ∨ nodeId ∈ nodeIds

theorem Exact.place {c : Nat} (h : Exact tableSize nodeIds table filled)
    (hf : table[c]? = some kInvalidNodeId) (valid : nodeId ≠ kInvalidNodeId)
    (hn : nodeId ∈ nodeIds) : Exact tableSize nodeIds (table.set c nodeId) (filled + 1) where
  length := by simpa using h.length
  count := by
    have hc := h.count
    obtain ⟨hl, hg⟩ := List.getElem?_eq_some_iff.1 hf
    have hp : 0 < table.count kInvalidNodeId :=
      count_pos_iff.2 (mem_of_getElem? hf)
    have hs := tableSize.toNat_lt
    rw [count_set hl, hg, UInt64.toNat_add, UInt64.toNat_one]
    simp only [beq_self_eq_true, if_true, beq_iff_eq, valid, if_false]
    omega
  owned := by
    intro o hm
    rcases mem_or_eq_of_mem_set hm with ho | rfl
    · exact h.owned o ho
    · exact .inr hn

theorem fillRound_exact (hr : fillRound tableSize fillers table filled = some filling)
    (h : Exact tableSize nodeIds table filled)
    (n : ∀ filler ∈ fillers, filler.nodeId ≠ kInvalidNodeId ∧ filler.nodeId ∈ nodeIds) :
    Exact tableSize nodeIds filling.lookupTable filling.filled ∧
      filling.fillers.map Filler.nodeId = fillers.map Filler.nodeId ∧
      filling.filled.toNat = min tableSize.toNat (filled.toNat + fillers.length) ∧
      ∀ nodeId ≠ kInvalidNodeId, table.count nodeId ≤ filling.lookupTable.count nodeId ∧
        filling.lookupTable.count nodeId ≤
          table.count nodeId + (fillers.map Filler.nodeId).count nodeId ∧
        (filling.filled < tableSize → filling.lookupTable.count nodeId =
          table.count nodeId + (fillers.map Filler.nodeId).count nodeId) := by
  have hc := h.count
  have hz := tableSize.toNat_lt
  induction fillers generalizing table filled filling with
  | nil =>
    cases hr
    exact ⟨h, rfl, by dsimp only [length_nil]; omega, by simp⟩
  | cons filler _ ih =>
    rw [fillRound] at hr
    split at hr <;> rename_i hm <;> rw [UInt64.lt_iff_toNat_lt] at hm
    · simp only [Option.bind_eq_bind, Option.pure_def, Option.bind_eq_some_iff, Prod.exists,
        Option.some.injEq] at hr
      obtain ⟨c, after, hpr, next, hn, rfl⟩ := hr
      obtain ⟨hf, hid⟩ := probe_some hpr
      obtain ⟨hv, hnd⟩ := n filler mem_cons_self
      rw [hid] at hn
      have hp := h.place hf hv hnd
      obtain ⟨hx, hd, hfi, ho⟩ := ih hn hp (fun o ht => n o (mem_cons_of_mem _ ht)) hp.count
      refine ⟨hx, by simp [hid, hd], ?_, fun nodeId he => ?_⟩
      · rw [UInt64.toNat_add, UInt64.toNat_one] at hfi
        simp only [length_cons]
        omega
      obtain ⟨hl, hg⟩ := List.getElem?_eq_some_iff.1 hf
      have hse : (table.set c filler.nodeId).count nodeId =
          table.count nodeId + if filler.nodeId = nodeId then 1 else 0 := by
        simp [count_set hl, hg, he.symm]
      obtain ⟨_, _, hs⟩ := ho nodeId he
      simp only [map_cons, count_cons, beq_iff_eq]
      refine ⟨by omega, by omega, fun hm => ?_⟩
      rw [hs hm]
      omega
    · cases hr
      exact ⟨h, rfl, by dsimp only [length_cons]; omega, fun nodeId _ => ⟨le_refl _,
        Nat.le_add_right _ _, fun hls => absurd (UInt64.lt_iff_toNat_lt.1 hls) hm⟩⟩

def Balanced (tableSize : UInt64) (nodeIds : List NodeId) (filling : Filling) : Prop :=
  ∃ places, ∀ nodeId ∈ nodeIds, places ≤ filling.lookupTable.count nodeId ∧
    filling.lookupTable.count nodeId ≤ places + 1 ∧
    (filling.filled < tableSize → filling.lookupTable.count nodeId = places)

theorem Exact.notMem (h : Exact tableSize nodeIds table filled) (hf : ¬ filled < tableSize) :
    kInvalidNodeId ∉ table := by
  have hc := h.count
  apply List.count_eq_zero.1
  rw [UInt64.lt_iff_toNat_lt] at hf
  omega

theorem fillTable_exact {fuel : Nat} {full : Filling}
    (hf : fillTable tableSize fuel filling = some full)
    (h : Exact tableSize nodeIds filling.lookupTable filling.filled)
    (ids : filling.fillers.map Filler.nodeId = nodeIds) (nodup : nodeIds.Nodup)
    (valid : kInvalidNodeId ∉ nodeIds) (balanced : Balanced tableSize nodeIds filling) :
    Exact tableSize nodeIds full.lookupTable full.filled ∧ kInvalidNodeId ∉ full.lookupTable ∧
    Balanced tableSize nodeIds full := by
  induction fuel generalizing filling with
  | zero =>
    rw [fillTable] at hf
    split at hf
    · cases hf
    rename_i hu
    cases hf
    exact ⟨h, h.notMem hu, balanced⟩
  | succ _ ih =>
    rw [fillTable] at hf
    split at hf
    · rename_i ho
      split at hf
      · cases hf
      rename_i ne hr
      have hno : ∀ filler ∈ filling.fillers,
          filler.nodeId ≠ kInvalidNodeId ∧ filler.nodeId ∈ nodeIds := by
        intro filler hm
        have hn := ids ▸ mem_map_of_mem (f := Filler.nodeId) hm
        exact ⟨fun hin => valid (hin ▸ hn), hn⟩
      obtain ⟨he, hd, _, hco⟩ := fillRound_exact hr h hno
      obtain ⟨p, hp⟩ := balanced
      have hcn : ∀ nodeId ∈ nodeIds, p ≤ ne.lookupTable.count nodeId ∧
          ne.lookupTable.count nodeId ≤ p + 1 ∧
          (ne.filled < tableSize → ne.lookupTable.count nodeId = p + 1) := by
        intro nodeId hn
        have hc := hco nodeId fun hin => valid (hin ▸ hn)
        rwa [ids, count_eq_one_of_mem nodup hn, (hp nodeId hn).2.2 ho] at hc
      refine ih hf he (hd.trans ids) ?_
      by_cases hl : ne.filled < tableSize
      · refine ⟨p + 1, fun nodeId hn => ?_⟩
        simp [(hcn nodeId hn).2.2 hl]
      · refine ⟨p, fun nodeId hn => ?_⟩
        exact ⟨(hcn nodeId hn).1, (hcn nodeId hn).2.1, fun h => absurd h hl⟩
    · rename_i hu
      cases hf
      exact ⟨h, h.notMem hu, balanced⟩

structure Filling.Sound (tableSize : UInt64) (nodeIds : List NodeId) (filling : Filling) :
    Prop where
  length : filling.lookupTable.length = tableSize.toNat
  count : filling.lookupTable.count kInvalidNodeId + filling.filled.toNat = tableSize.toNat
  owned : ∀ nodeId ∈ filling.lookupTable, nodeId = kInvalidNodeId ∨ nodeId ∈ nodeIds
  settled : ∀ filler ∈ filling.fillers,
    Settled tableSize.toNat filling.lookupTable filler ∧ filler.nodeId ∈ nodeIds

section
variable (prime : tableSize.toNat.Prime) (small : tableSize.toNat < 2 ^ 32)
include prime small

theorem fillRound_sound (h : Filling.Sound tableSize nodeIds ⟨fillers, table, filled⟩) : ∃ filling,
    fillRound tableSize fillers table filled = some filling ∧ filling.Sound tableSize nodeIds ∧
    ∀ filler, Settled tableSize.toNat table filler →
    Settled tableSize.toNat filling.lookupTable filler := by
  induction fillers generalizing table filled with
  | nil => exact ⟨_, rfl, h, fun _ hs => hs⟩
  | cons filler _ ih =>
    unfold fillRound
    split
    · rename_i hm
      have hfr : kInvalidNodeId ∈ table := by
        have hc := h.count
        have hl := UInt64.lt_iff_toNat_lt.1 hm
        apply count_pos_iff.1
        dsimp only at hc
        omega
      obtain ⟨hf, hn⟩ := h.settled filler (by simp)
      obtain ⟨c, after, hr, ha⟩ :=
        probe_spec prime small h.length hfr hf (Nat.le_add_left _ _)
      obtain ⟨hca, hd⟩ := probe_some hr
      have hp := Exact.place { h with } hca hf.valid hn
      obtain ⟨filling, hrn, hso, hk⟩ :=
        ih ⟨hp.length, hp.count, hp.owned, fun o ho =>
          have hs := h.settled o (mem_cons_of_mem _ ho)
          ⟨hs.1.set hf.valid c, hs.2⟩⟩
      refine ⟨{ filling with fillers := after :: filling.fillers }, ?_,
        { hso with settled := ?_ }, ?_⟩
      · simp only [hr, hd, hrn, Option.bind_eq_bind, Option.bind_some, Option.pure_def]
      · intro o ho
        rcases mem_cons.1 ho with rfl | ho
        · exact ⟨hk _ ha, hd ▸ hn⟩
        · exact hso.settled o ho
      · intro o ho
        exact hk o (ho.set hf.valid c)
    · exact ⟨_, rfl, h, fun _ hs => hs⟩

theorem fillTable_returns {fuel : Nat} (h : filling.Sound tableSize nodeIds)
    (nonempty : filling.fillers ≠ []) (enough : tableSize.toNat ≤ filling.filled.toNat + fuel) :
    ∃ full, fillTable tableSize fuel filling = some full := by
  induction fuel generalizing filling with
  | zero =>
    have hf : ¬ filling.filled < tableSize := by
      rw [UInt64.lt_iff_toNat_lt]
      omega
    rw [fillTable, if_neg hf]
    exact ⟨filling, rfl⟩
  | succ _ ih =>
    unfold fillTable
    split
    · obtain ⟨n, hr, hs, _⟩ := fillRound_sound prime small h
      obtain ⟨_, hd, _, _⟩ := fillRound_exact hr { h with }
        fun filler hm => ⟨(h.settled filler hm).1.valid, (h.settled filler hm).2⟩
      have hp := length_pos_iff.2 nonempty
      simp only [hr]
      refine ih hs (fun hn => ?_) (by omega)
      simp [hn, nonempty] at hd
    · exact ⟨filling, rfl⟩

end
end

section
variable {hash : HashFunction} {tableSize : UInt64} {nodeIds : List NodeId}

theorem fillerOf_settled (l : 1 < tableSize.toNat) (table : List NodeId)
    (valid : nodeId ≠ kInvalidNodeId) : Settled tableSize.toNat table
    (fillerOf hash tableSize nodeId) := by
  have hp : (tableSize - 1).toNat = tableSize.toNat - 1 := by
    rw [UInt64.toNat_sub_of_le, UInt64.toNat_one]
    rw [UInt64.le_iff_toNat_le, UInt64.toNat_one]
    exact Nat.le_of_lt l
  have hs := Nat.mod_lt (hash (text "maglev-skip#node-" ++ decimal nodeId.toNat)).toNat
    (show 0 < tableSize.toNat - 1 by omega)
  have hb := tableSize.toNat_lt
  have hskip_eq : (fillerOf hash tableSize nodeId).skip.toNat =
      (hash (text "maglev-skip#node-" ++ decimal nodeId.toNat)).toNat % (tableSize.toNat - 1) +
        1 := by
    simp only [fillerOf, UInt64.toNat_add, UInt64.toNat_mod, UInt64.toNat_one, hp]
    omega
  exact
    { valid := valid
      offset_lt := by
        simp only [fillerOf, UInt64.toNat_mod]
        exact Nat.mod_lt _ (by omega)
      skip_pos := by omega
      skip_lt := by omega
      next_le := Nat.zero_le _
      visited := fun k hk => absurd hk (Nat.not_lt_zero k) }

/-- A table that `Build` returns: every place belongs to one of the nodes, and no node has
two places more than another. -/
theorem buildMaglev_some {table : List NodeId} (active : normalizeNodeIds nodeIds ≠ [])
    (h : buildMaglev hash nodeIds tableSize = some table) : table.length =
    (usedTableSize tableSize).toNat ∧ (∀ nodeId ∈ table, nodeId ∈ normalizeNodeIds nodeIds) ∧
    ∀ nodeId ∈ normalizeNodeIds nodeIds, ∀ o ∈ normalizeNodeIds nodeIds, table.count nodeId ≤
    table.count o + 1 := by
  simp only [buildMaglev, List.isEmpty_iff, active, if_false, Option.map_eq_some_iff] at h
  obtain ⟨f, hf, rfl⟩ := h
  have hv : kInvalidNodeId ∉ normalizeNodeIds nodeIds :=
    fun hm => (mem_normalizeNodeIds.1 hm).2 rfl
  have hs : Exact (usedTableSize tableSize) (normalizeNodeIds nodeIds)
      (replicate (usedTableSize tableSize).toNat kInvalidNodeId) 0 :=
    ⟨by simp, by simp, fun nodeId hm => .inl (eq_of_mem_replicate hm)⟩
  obtain ⟨he, hno, places, hp⟩ := fillTable_exact hf hs
    (by simp [Function.comp_def, fillerOf]) (nodup_normalizeNodeIds nodeIds) hv
    ⟨0, fun nodeId hn => by simp [count_replicate, (ne_of_mem_of_not_mem hn hv).symm]⟩
  refine ⟨he.length, fun nodeId hm => ?_, fun nodeId hn o ht => ?_⟩
  · refine (he.owned nodeId hm).resolve_left ?_
    rintro rfl
    exact hno hm
  · have hd := hp nodeId hn
    have ho := hp o ht
    omega

theorem buildMaglev_full (hash : HashFunction) (small : (usedTableSize tableSize).toNat < 2 ^ 32)
    (a : normalizeNodeIds nodeIds ≠ []) :
    ∃ table, buildMaglev hash nodeIds tableSize = some table := by
  have prime := usedTableSize_prime tableSize
  have hs : Filling.Sound (usedTableSize tableSize) (normalizeNodeIds nodeIds)
      { fillers := (normalizeNodeIds nodeIds).map (fillerOf hash (usedTableSize tableSize))
        lookupTable := List.replicate (usedTableSize tableSize).toNat kInvalidNodeId } := by
    refine ⟨by simp, by simp, ?_, ?_⟩
    · intro nodeId hm
      exact .inl (eq_of_mem_replicate hm)
    · intro filler hm
      obtain ⟨nodeId, hn, rfl⟩ := mem_map.1 hm
      exact ⟨fillerOf_settled prime.one_lt _ (mem_normalizeNodeIds.1 hn).2, hn⟩
  obtain ⟨f, hf⟩ := fillTable_returns prime small hs (by simpa using a) (Nat.le_add_left _ _)
  refine ⟨f.lookupTable, ?_⟩
  unfold buildMaglev
  rw [if_neg (by simpa using a), hf]
  rfl

theorem normalizeNodeIds_ne_nil (v : ∃ nodeId ∈ nodeIds, nodeId ≠ kInvalidNodeId) :
    normalizeNodeIds nodeIds ≠ [] := by
  obtain ⟨nodeId, hn, hv⟩ := v
  exact ne_nil_of_mem (mem_normalizeNodeIds.2 ⟨hn, hv⟩)

/-- `Build` uses the configured size if that is a prime number and the default size if not.
It returns, every place of its table belongs to a valid id of its input, and the nodes have
the same number of places, up to one. -/
theorem buildMaglev_balanced (hash : HashFunction) (nodeIds : List NodeId) (tableSize : UInt64)
    (valid : ∃ nodeId ∈ nodeIds, nodeId ≠ kInvalidNodeId)
    (small : (usedTableSize tableSize).toNat < 2 ^ 32) : (usedTableSize tableSize =
      if tableSize.toNat.Prime then tableSize else kDefaultMaglevTableSize) ∧
    (usedTableSize tableSize).toNat.Prime ∧
    ∃ table, buildMaglev hash nodeIds tableSize = some table ∧
      table.length = (usedTableSize tableSize).toNat ∧
      (∀ nodeId ∈ table, nodeId ∈ nodeIds ∧ nodeId ≠ kInvalidNodeId) ∧
      ∀ nodeId ∈ normalizeNodeIds nodeIds, ∀ other ∈ normalizeNodeIds nodeIds,
        table.count nodeId ≤ table.count other + 1 := by
  have ha := normalizeNodeIds_ne_nil valid
  refine ⟨by simp only [usedTableSize, isPrime_iff], usedTableSize_prime tableSize, ?_⟩
  obtain ⟨table, ht⟩ := buildMaglev_full hash small ha
  obtain ⟨hl, hn, hb⟩ := buildMaglev_some ha ht
  exact ⟨table, ht, hl, fun nodeId hm => mem_normalizeNodeIds.1 (hn nodeId hm), hb⟩

theorem buildMaglev_balanced_seven : ∃ table, buildMaglev (fun _ => 0) [1, 2] 7 = some table ∧
    table.count 1 ≤ table.count 2 + 1 := by
  obtain ⟨-, -, table, ht, -, -, hc⟩ :=
    buildMaglev_balanced (fun _ => 0) [1, 2] 7 ⟨1, by decide, by decide⟩ (by decide)
  exact ⟨table, ht, hc 1 (by decide) 2 (by decide)⟩

theorem usedTableSize_default : usedTableSize kDefaultMaglevTableSize = 65537 := by
  unfold usedTableSize
  split <;> rfl

end
end UnifiedCache.Router
