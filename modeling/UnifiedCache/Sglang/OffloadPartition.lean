import UnifiedCache.Lib.Slices

/-! How the ranks of the SGLang linker share the offload of a node: pages of the
KV-indexed pools in balanced ranges, everything else on one rank. -/
namespace UnifiedCache.Sglang
open Slices List

abbrev PoolName := String

def PoolName.KV : PoolName := "kv"

structure DevicePoolEntry where
  indices_from_pool : PoolName
  page_size : Nat

/-- The part of a transfer that is the same on all ranks. -/
structure PoolPages (κ : Type) where
  name : PoolName
  keys : List κ
  deriving DecidableEq

structure PoolTransfer (κ ι : Type) extends PoolPages κ where
  /-- Flattened, `page_size` entries to a key. -/
  host_indices : List ι
  deriving DecidableEq

/-- What the partition reads of a linker. Every transfer is of a known pool, and
`digest` stands for the first eight bytes of the hash of a key. -/
structure UcmDirectLinker (κ : Type) where
  pools : PoolName → DevicePoolEntry
  dump_ranks : List Nat
  digest : κ → Nat
  dump_ranks_ne_nil : dump_ranks ≠ []
  dump_ranks_nodup : dump_ranks.Nodup

namespace UcmDirectLinker
variable {κ ι : Type} (linker : UcmDirectLinker κ) (tp_rank : Nat)

def kvIndexed (t : PoolPages κ) : Bool :=
  (linker.pools t.name).indices_from_pool = PoolName.KV

/-- The order of the keys `(not KV-indexed, name)`. -/
def before (a b : PoolPages κ) : Bool :=
  (linker.kvIndexed a && !linker.kvIndexed b) ||
    (linker.kvIndexed a == linker.kvIndexed b && decide (a.name < b.name))

/-- `min` takes the first of equal ones. -/
def keyTransfer (node : List (PoolPages κ)) : Option (PoolPages κ) :=
  node.foldl (fun best t =>
    match best with
    | none => some t
    | some best => some (if linker.before t best then t else best)) none

/-- The rank that dumps all transfers that are not KV-indexed. -/
def tailOwner (node : List (PoolPages κ)) : Option Nat := do
  let t ← linker.keyTransfer node
  let tail ← t.keys.getLast?
  linker.dump_ranks[linker.digest tail % linker.dump_ranks.length]?

/-- One round of the loop: the transfers selected so far and the tail owner once known. -/
def selectTransfer (expanded : List (PoolTransfer κ ι))
    (state : List (PoolTransfer κ ι) × Option Nat) (t : PoolTransfer κ ι) :
    List (PoolTransfer κ ι) × Option Nat :=
  let rank_index := linker.dump_ranks.idxOf tp_rank
  let rank_count := linker.dump_ranks.length
  let entry := linker.pools t.name
  if entry.indices_from_pool ≠ PoolName.KV then
    let tail_owner := state.2.or (linker.tailOwner (expanded.map (·.toPoolPages)))
    (if some tp_rank = tail_owner then state.1 ++ [t] else state.1, tail_owner)
  else
    let pages := t.keys.length
    let start := pages * rank_index / rank_count
    let stop := pages * (rank_index + 1) / rank_count
    if start = stop then state
    else if start = 0 ∧ stop = pages then (state.1 ++ [t], state.2)
    else (state.1 ++ [{ t with
        keys := pySlice t.keys start stop
        host_indices := pySlice t.host_indices (start * entry.page_size)
          (stop * entry.page_size) }], state.2)

def partitionOffload (expanded : List (PoolTransfer κ ι)) : List (PoolTransfer κ ι) :=
  let expanded := if expanded.all (!·.keys.isEmpty) then expanded
    else expanded.filter (!·.keys.isEmpty)
  if expanded.isEmpty then []
  else if linker.dump_ranks.length = 1 then
    if some tp_rank = linker.dump_ranks[0]? then expanded else []
  else (expanded.foldl (linker.selectTransfer tp_rank expanded) ([], none)).1

/-- The pages of a transfer that a rank dumps, of the transfers of a node that have keys. -/
def pageRange (node : List (PoolPages κ)) (t : PoolPages κ) : Nat × Nat :=
  let pages := t.keys.length
  if linker.kvIndexed t then
    (pages * linker.dump_ranks.idxOf tp_rank / linker.dump_ranks.length,
      pages * (linker.dump_ranks.idxOf tp_rank + 1) / linker.dump_ranks.length)
  else if some tp_rank = linker.tailOwner node then (0, pages) else (0, 0)

def restrict (t : PoolTransfer κ ι) (range : Nat × Nat) : Option (PoolTransfer κ ι) :=
  if range.1 = range.2 then none
  else some { t with
    keys := pySlice t.keys range.1 range.2
    host_indices := pySlice t.host_indices (range.1 * (linker.pools t.name).page_size)
      (range.2 * (linker.pools t.name).page_size) }

def Covering (t : PoolTransfer κ ι) : Prop :=
  t.host_indices.length = t.keys.length * (linker.pools t.name).page_size

variable {linker tp_rank}
variable {t : PoolTransfer κ ι}

theorem restrict_whole (hk : t.keys ≠ []) (hc : linker.Covering t) :
    linker.restrict t (0, t.keys.length) = some t := by
  unfold restrict Covering at *
  rw [if_neg (by simpa [eq_comm] using hk), ← hc]
  simp [pySlice]

variable {node : List (PoolPages κ)} {expanded : List (PoolTransfer κ ι)}

theorem keyTransfer_mem (hs : node ≠ []) : ∃ t ∈ node, linker.keyTransfer node = some t := by
  have hl : ∀ (rest : List (PoolPages κ)) (b : PoolPages κ), ∃ t ∈ b :: rest,
      rest.foldl (fun b t => match b with
        | none => some t
        | some b => some (if linker.before t b then t else b))
        (some b) = some t := by
    intro rest
    induction rest with
    | nil => exact fun b => ⟨b, by simp⟩
    | cons n _ ih =>
      intro b
      obtain ⟨t, hm, hf⟩ := ih (if linker.before n b then n else b)
      refine ⟨t, ?_, hf⟩
      split at hm <;> simp_all
      tauto
  obtain ⟨first, rest, rfl⟩ := exists_cons_of_ne_nil hs
  exact hl rest first

theorem tailOwner_mem (hs : node ≠ []) (hks : ∀ t ∈ node, t.keys ≠ []) :
    ∃ owner ∈ linker.dump_ranks, linker.tailOwner node = some owner := by
  obtain ⟨t, hm, hk⟩ : ∃ t ∈ node, linker.keyTransfer node = some t := keyTransfer_mem hs
  have hp := length_pos_of_ne_nil linker.dump_ranks_ne_nil
  unfold tailOwner
  rw [hk]
  simp only [Option.bind_eq_bind, Option.bind_some, List.getLast?_eq_some_getLast (hks t hm),
    List.getElem?_eq_getElem (Nat.mod_lt _ hp)]
  exact ⟨_, getElem_mem _, rfl⟩

variable {tail_owner : Option Nat}

theorem selectTransfer_eq (tp_rank : Nat) (s : List (PoolTransfer κ ι))
    (hd : expanded.map (·.toPoolPages) = node) (hk : t.keys ≠ []) (hc : linker.Covering t)
    (ho : tail_owner = none ∨ tail_owner = linker.tailOwner node) :
    ∃ n, (n = none ∨ n = linker.tailOwner node) ∧
      linker.selectTransfer tp_rank expanded (s, tail_owner) t =
        (s ++ (linker.restrict t (linker.pageRange tp_rank node t.toPoolPages)).toList, n) := by
  unfold selectTransfer pageRange kvIndexed
  rw [hd]
  by_cases hv : (linker.pools t.name).indices_from_pool = PoolName.KV
  · refine ⟨tail_owner, ho, ?_⟩
    simp only [hv, ne_eq, not_true, if_false, decide_true, if_true]
    split
    · rename_i hm
      simp [restrict, hm]
    split
    · rename_i hw
      rw [hw.1, hw.2, restrict_whole hk hc]
      rfl
    · rename_i hs _
      rw [restrict, if_neg hs]
      rfl
  have hn : tail_owner.or (linker.tailOwner node) = linker.tailOwner node := by
    obtain rfl | rfl := ho <;> simp
  refine ⟨linker.tailOwner node, .inr rfl, ?_⟩
  simp only [hv, ne_eq, not_false_eq_true, if_true, decide_false, hn]
  by_cases he : some tp_rank = linker.tailOwner node
  · simp [he, restrict_whole hk hc]
  · simp [he, restrict]

theorem foldl_selectTransfer {r : List (PoolTransfer κ ι)} {s : List (PoolTransfer κ ι)}
    (hd : expanded.map (·.toPoolPages) = node) (hk : ∀ t ∈ r, t.keys ≠ [])
    (hc : ∀ t ∈ r, linker.Covering t)
    (hw : tail_owner = none ∨ tail_owner = linker.tailOwner node) :
    (r.foldl (linker.selectTransfer tp_rank expanded) (s, tail_owner)).1 = s ++
    r.filterMap fun t => linker.restrict t (linker.pageRange tp_rank node t.toPoolPages) := by
  induction r generalizing s tail_owner with
  | nil => simp
  | cons t _ ih =>
    obtain ⟨hf, hk⟩ := forall_mem_cons.1 hk
    obtain ⟨ho, hc⟩ := forall_mem_cons.1 hc
    obtain ⟨n, hn, hs⟩ := selectTransfer_eq tp_rank s hd hf ho hw
    rw [foldl_cons, hs, ih hk hc hn, filterMap_cons]
    cases linker.restrict t (linker.pageRange tp_rank node t.toPoolPages) <;> simp

def withKeys (node : List (PoolPages κ)) : List (PoolPages κ) :=
  node.filter (!·.keys.isEmpty)

theorem keys_ne_nil : ∀ t ∈ withKeys node, t.keys ≠ [] := by
  intro t hm
  simpa using (mem_filter.1 hm).2

theorem partitionOffload_eq (hd : expanded.map (·.toPoolPages) = node)
    (hc : ∀ t ∈ expanded, linker.Covering t) (hr : tp_rank ∈ linker.dump_ranks) :
    linker.partitionOffload tp_rank expanded =
      (expanded.filter (!·.keys.isEmpty)).filterMap fun t =>
        linker.restrict t (linker.pageRange tp_rank (withKeys node) t.toPoolPages) := by
  have hf : (if expanded.all (!·.keys.isEmpty) then expanded
      else expanded.filter (!·.keys.isEmpty)) = expanded.filter (!·.keys.isEmpty) := by
    split
    · rename_i hl
      exact (filter_eq_self.2 fun t hm => all_eq_true.1 hl t hm).symm
    · rfl
  have hk : ∀ t ∈ expanded.filter (!·.keys.isEmpty), t.keys ≠ [] :=
    fun t hm => by simpa using (mem_filter.1 hm).2
  have ho : ∀ t ∈ expanded.filter (!·.keys.isEmpty), linker.Covering t :=
    fun t hm => hc t (mem_filter.1 hm).1
  have hw : (expanded.filter (!·.keys.isEmpty)).map (·.toPoolPages) = withKeys node := by
    rw [← hd, withKeys, filter_map]
    rfl
  unfold partitionOffload
  dsimp only
  rw [hf]
  generalize expanded.filter (!·.keys.isEmpty) = kept at hk ho hw
  split
  · rename_i hn
    rw [isEmpty_iff.1 hn]
    rfl
  rename_i hs
  split
  · -- one rank dumps every page of every transfer
    rename_i hon
    obtain ⟨rank, ha⟩ := length_eq_one_iff.1 hon
    obtain rfl : tp_rank = rank := by simpa [ha] using hr
    have hn : withKeys node ≠ [] := by simpa [← hw] using hs
    obtain ⟨owner, hm, ht⟩ : ∃ owner ∈ linker.dump_ranks,
        linker.tailOwner (withKeys node) = some owner := tailOwner_mem hn keys_ne_nil
    obtain rfl : owner = tp_rank := by simpa [ha] using hm
    rw [if_pos (by simp [ha]), filterMap_congr (g := some), filterMap_some]
    intro t hm
    have hl : linker.pageRange owner (withKeys node) t.toPoolPages = (0, t.keys.length) := by
      simp [pageRange, ha, ht]
    rw [hl, restrict_whole (hk t hm) (ho t hm)]
  · rw [foldl_selectTransfer hw hk ho (.inl rfl), nil_append]

theorem balanced_iff {pages count idx p : Nat} (hp : p < pages) (hc : 0 < count) :
    (pages * idx / count ≤ p ∧ p < pages * (idx + 1) / count) ↔ idx = ((p + 1) * count - 1)
    / pages := by
  have ho : 0 < (p + 1) * count := Nat.mul_pos (by omega) hc
  have hl : ∀ i, pages * i / count ≤ p ↔ i ≤ ((p + 1) * count - 1) / pages := by
    intro i
    rw [← Nat.lt_add_one_iff, Nat.div_lt_iff_lt_mul hc, Nat.le_div_iff_mul_le (by omega),
      Nat.mul_comm i]
    omega
  rw [hl, ← Nat.not_le, hl]
  omega

/-- The host indices are each rank's own. -/
structure Partitioned (linker : UcmDirectLinker κ) (node : List (PoolPages κ))
    (expanded : Nat → List (PoolTransfer κ ι)) : Prop where
  selected : ∀ rank ∈ linker.dump_ranks, linker.partitionOffload rank (expanded rank) =
    ((expanded rank).filter (!·.keys.isEmpty)).filterMap fun t =>
      linker.restrict t (linker.pageRange rank (withKeys node) t.toPoolPages)
  once : ∀ t ∈ withKeys node, ∀ page < t.keys.length, ∃! rank, rank ∈ linker.dump_ranks ∧
      (linker.pageRange rank (withKeys node) t).1 ≤ page ∧
      page < (linker.pageRange rank (withKeys node) t).2
  bound : ∀ rank ∈ linker.dump_ranks, ∀ t ∈ withKeys node,
    (linker.pageRange rank (withKeys node) t).2 ≤ t.keys.length
  aligned : ∀ rank, ∀ t ∈ withKeys node, ∀ other ∈ withKeys node,
    linker.kvIndexed t = true → linker.kvIndexed other = true →
    t.keys.length = other.keys.length → linker.pageRange rank (withKeys node) t =
        linker.pageRange rank (withKeys node) other
  together : withKeys node ≠ [] → ∃ owner ∈ linker.dump_ranks,
    ∀ t ∈ withKeys node, linker.kvIndexed t = false →
      ∀ rank, linker.pageRange rank (withKeys node) t =
        if rank = owner then (0, t.keys.length) else (0, 0)

theorem offload_partitioned (linker : UcmDirectLinker κ) (node : List (PoolPages κ))
    (expanded : Nat → List (PoolTransfer κ ι))
    (hnode : ∀ rank ∈ linker.dump_ranks, (expanded rank).map (·.toPoolPages) = node)
    (hcovering : ∀ rank ∈ linker.dump_ranks, ∀ t ∈ expanded rank, linker.Covering t) :
    linker.Partitioned node expanded := by
  have hc := length_pos_of_ne_nil linker.dump_ranks_ne_nil
  have hto : withKeys node ≠ [] → ∃ owner ∈ linker.dump_ranks,
      ∀ t ∈ withKeys node, linker.kvIndexed t = false →
        ∀ rank, linker.pageRange rank (withKeys node) t =
          if rank = owner then (0, t.keys.length) else (0, 0) := by
    intro hs
    obtain ⟨owner, ho, hta⟩ : ∃ owner ∈ linker.dump_ranks,
        linker.tailOwner (withKeys node) = some owner := tailOwner_mem hs keys_ne_nil
    exact ⟨owner, ho, fun t _ hk rank => by simp [pageRange, hk, hta]⟩
  refine ⟨?_, ?_, ?_, ?_, hto⟩
  · exact fun rank hr => partitionOffload_eq (hnode rank hr) (hcovering rank hr) hr
  · intro t hm page hp
    cases hk : linker.kvIndexed t with
    | false =>
      obtain ⟨owner, ho, hr⟩ := hto (ne_nil_of_mem hm)
      refine ⟨owner, ⟨ho, by simp [hr t hm hk, hp]⟩, ?_⟩
      rintro rank ⟨-, -, hlt⟩
      by_contra ht
      simp [hr t hm hk, ht] at hlt
    | true =>
      have hd : ((page + 1) * linker.dump_ranks.length - 1) / t.keys.length <
          linker.dump_ranks.length := by
        have he := Nat.mul_le_mul_right linker.dump_ranks.length
          (show page + 1 ≤ t.keys.length from hp)
        have hpo : 0 < (page + 1) * linker.dump_ranks.length := Nat.mul_pos (by omega) hc
        rw [Nat.div_lt_iff_lt_mul (by omega), Nat.mul_comm linker.dump_ranks.length t.keys.length]
        omega
      have hr : ∀ rank, ((linker.pageRange rank (withKeys node) t).1 ≤ page ∧
          page < (linker.pageRange rank (withKeys node) t).2) ↔
          linker.dump_ranks.idxOf rank =
            ((page + 1) * linker.dump_ranks.length - 1) / t.keys.length := by
        intro rank
        simp only [pageRange, hk, if_true]
        exact balanced_iff hp hc
      refine ⟨linker.dump_ranks.get ⟨_, hd⟩, ⟨get_mem _ _, ?_⟩, ?_⟩
      · rw [hr]
        exact linker.dump_ranks_nodup.idxOf_getElem _ hd
      · rintro rank ⟨_, hn⟩
        rw [hr] at hn
        simp [← hn]
  · intro rank ha t _
    unfold pageRange
    split
    · have he := Nat.mul_le_mul_left t.keys.length (Nat.succ_le_of_lt (idxOf_lt_length_of_mem ha))
      exact Nat.div_le_of_le_mul (by rwa [Nat.mul_comm linker.dump_ranks.length])
    · split <;> simp
  · intro rank t _ other _ hk ht hl
    simp only [pageRange, hk, ht, hl]

/-- Three pages of the KV pool and one of another on two ranks. -/
theorem offload_partitioned_three :
    let linker : UcmDirectLinker Nat := ⟨fun name => ⟨name, 1⟩, [0, 1], id, by decide, by decide⟩
    linker.Partitioned [⟨"kv", [7, 8, 9]⟩, ⟨"state", [9]⟩] fun rank =>
      [⟨⟨"kv", [7, 8, 9]⟩, [70 + rank, 80 + rank, 90 + rank]⟩, ⟨⟨"state", [9]⟩, [rank]⟩] :=
  offload_partitioned _ _ _ (by simp) (by simp [Covering])

end UcmDirectLinker
end UnifiedCache.Sglang
