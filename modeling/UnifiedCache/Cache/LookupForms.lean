import UnifiedCache.Cache.HonestLookup
import UnifiedCache.Lib.Scan

/-! The three lookups of `v2` give one answer: the prefix form and the reverse form can be read
off the vector of `Lookup`, as long as those of the backend can. -/
namespace UnifiedCache.Cache
open List Store Scan

structure Backend where
  lookup : BackendLookup
  lookupOnPrefix : List BlockId → Expected Int
  lookupOnReverse : List BlockId → Expected Int

def toIndex (position : Option Nat) : Int := position.elim (-1) fun index => index

/-- A backend that holds the blocks `stored` and says so in all three forms. -/
structure Backend.Describes (backend : Backend) (stored : BlockId → Bool) : Prop where
  lookup : ∀ blocks,
    backend.lookup blocks = .ok (blocks.map fun block => if stored block then 1 else 0)
  lookupOnPrefix : ∀ blocks,
    backend.lookupOnPrefix blocks = .ok ((blocks.takeWhile stored).length - 1)
  lookupOnReverse : ∀ blocks,
    backend.lookupOnReverse blocks = .ok (toIndex (rightmost stored blocks))

def Backend.holding (stored : BlockId → Bool) : Backend where
  lookup blocks := .ok (blocks.map fun block => if stored block then 1 else 0)
  lookupOnPrefix blocks := .ok ((blocks.takeWhile stored).length - 1)
  lookupOnReverse blocks := .ok (toIndex (rightmost stored blocks))

namespace Buffer

/-- `BufferManager::LookupOnPrefix`; `none` if it reads outside `missIdx`. -/
def lookupOnPrefix (backend : Option Backend) (blocks : List BlockId) (buffer : Buffer) :
    Option (Expected Int) :=
  let missBlocks := (buffer.missing blocks).map Prod.fst
  let missIdx := (buffer.missing blocks).map Prod.snd
  match missIdx, backend with
  | [], _ => some (.ok (blocks.length - 1))
  | first :: _, none => some (.ok (first - 1))
  | _, some backend =>
    match backend.lookupOnPrefix missBlocks with
    | .error status => some (.error status)
    | .ok found =>
      if found + 1 = missIdx.length then some (.ok (blocks.length - 1))
      else if found + 1 < 0 then none
      else missIdx[(found + 1).toNat]?.map fun index => .ok (index - 1)

def lookupOnReverse (backend : Option Backend) (blocks : List BlockId) (buffer : Buffer) :
    Expected Int :=
  let bufferHitIdx := toIndex (rightmost (fun block => buffer.exist block 0) blocks)
  if bufferHitIdx = blocks.length - 1 then .ok bufferHitIdx
  else
    match backend with
    | none => .ok bufferHitIdx
    | some backend =>
      match backend.lookupOnReverse (blocks.drop (bufferHitIdx + 1).toNat) with
      | .error status => .error status
      | .ok found => .ok (if found < 0 then bufferHitIdx else bufferHitIdx + 1 + found)

variable (backend : Option Backend) (stored : BlockId → Bool) (buffer : Buffer)

def present (block : BlockId) : Bool :=
  buffer.exist block 0 || (backend.isSome && stored block)

variable {backend stored buffer}

@[simp] theorem mem_missing {blocks : List BlockId} {b : BlockId} {i : Nat} : (b, i) ∈
    buffer.missing blocks ↔ blocks[i]? = some b ∧ buffer.exist b 0 = false := by
  simp [missing, mem_zipIdx_iff_getElem?]

@[simp] theorem scatter_missing (blocks : List BlockId) (f : BlockId → UInt8) :
    Scatter.scatter (blocks.map fun block => if buffer.exist block 0 then 1 else 0)
        ((buffer.missing blocks).map fun e => (e.2, f e.1)) =
      blocks.map fun block => if buffer.exist block 0 then 1 else f block := by
  have hd : (((buffer.missing blocks).map fun e => (e.2, f e.1)).map Prod.fst).Nodup := by
    rw [map_map]
    exact nodup_missing blocks buffer
  apply ext_getElem?
  intro i
  cases hb : blocks[i]? with
  | none =>
    have hl := List.getElem?_eq_none_iff.1 hb
    rw [List.getElem?_eq_none (by simpa using hl), getElem?_map, hb]
    rfl
  | some block =>
    cases he : buffer.exist block 0 with
    | true =>
      rw [Scatter.getElem?_scatter_of_notMem]
      · simp [hb, he]
      · simp [hb, he]
    | false =>
      rw [Scatter.getElem?_scatter_of_mem hd (mem_map.2 ⟨(block, i), mem_missing.2 ⟨hb, he⟩, rfl⟩)]
      · simp [hb, he]
      · simpa using (List.getElem?_eq_some_iff.1 hb).1

theorem lookup_eq (describes : ∀ answering ∈ backend, answering.Describes stored)
    (blocks : List BlockId) : buffer.lookup (backend.map Backend.lookup) blocks =
      .ok (blocks.map fun b => if buffer.present backend stored b then 1 else 0) := by
  unfold lookup
  cases backend with
  | none => simp [present]
  | some answering =>
    have ha : (blocks.map fun b =>
          if buffer.present (some answering) stored b then (1 : UInt8) else 0) =
        blocks.map fun b =>
          if buffer.exist b 0 then 1 else if stored b then 1 else 0 := by
      apply map_congr_left
      intro b _
      cases he : buffer.exist b 0 <;> simp [present, he]
    rw [ha, ← scatter_missing blocks fun b => if stored b then 1 else 0]
    simp only [Option.map_some, (describes answering rfl).lookup, length_map, ne_eq,
      not_true_eq_false, if_false, map_map, zip_map']
    split
    · rename_i hn
      rw [map_eq_nil_iff.1 hn]
      rfl
    · rfl

variable (buffer) in
theorem miss_after_stored (blocks : List BlockId) (q : BlockId → Bool) (start : Nat) :
    let misses := (blocks.zipIdx start).filter fun e => !buffer.exist e.1 0
    (misses[((misses.map Prod.fst).takeWhile q).length]?.elim (start + blocks.length) Prod.snd) =
      start + (blocks.takeWhile fun b => buffer.exist b 0 || q b).length := by
  induction blocks generalizing start with
  | nil => rfl
  | cons b _ ih =>
    have hr := ih (start + 1)
    cases he : buffer.exist b 0 with
    | true => simp_all [zipIdx_cons, Nat.add_assoc, Nat.add_comm 1]
    | false =>
      cases hs : q b with
      | true => simp_all [zipIdx_cons, Nat.add_assoc, Nat.add_comm 1]
      | false => simp [zipIdx_cons, he, hs]

section
variable (describes : ∀ answering ∈ backend, answering.Describes stored) (blocks : List BlockId)
include describes blocks

theorem lookupOnPrefix_eq : buffer.lookupOnPrefix backend blocks = some
    (.ok ((blocks.takeWhile (buffer.present backend stored)).length - 1)) := by
  have hs := miss_after_stored buffer blocks (fun b => backend.isSome && stored b) 0
  rw [Nat.zero_add, Nat.zero_add] at hs
  change (buffer.missing blocks)[(((buffer.missing blocks).map Prod.fst).takeWhile _).length]?.elim
    _ _ = (blocks.takeWhile (buffer.present backend stored)).length at hs
  rw [← hs]
  unfold lookupOnPrefix
  cases buffer.missing blocks with
  | nil => simp
  | cons first r =>
    cases backend with
    | none => simp
    | some answering =>
      simp only [map_cons, (describes answering rfl).lookupOnPrefix, Option.isSome_some,
        Bool.true_and]
      rw [← map_cons, ← map_cons]
      generalize first :: r = misses
      have hl := (takeWhile_sublist stored (l := misses.map Prod.fst)).length_le
      generalize ((misses.map Prod.fst).takeWhile stored).length = count at hl
      rw [length_map] at hl
      rcases Nat.eq_or_lt_of_le hl with rfl | ht
      · simp
      have hn : ¬ (count : Int) - 1 + 1 = (misses.map Prod.snd).length := by
        rw [length_map]
        omega
      have hc : ((count : Int) - 1 + 1).toNat = count := by omega
      rw [if_neg hn, if_neg (by omega), hc]
      simp [ht]

theorem lookupOnReverse_eq : buffer.lookupOnReverse backend blocks = .ok
    (toIndex (rightmost (buffer.present backend stored) blocks)) := by
  have ho := rightmost_or (fun bl => buffer.exist bl 0)
    (fun bl => backend.isSome && stored bl) blocks
  change rightmost (buffer.present backend stored) blocks = _ at ho
  rw [ho]
  unfold lookupOnReverse
  generalize rightmost (fun bl => buffer.exist bl 0) blocks = hit
  have hn : toIndex hit + 1 = (hit.elim 0 (· + 1) : Nat) := by cases hit <;> simp [toIndex]
  cases backend with
  | none => simp
  | some answering =>
    simp only [(describes answering rfl).lookupOnReverse, Option.isSome_some, Bool.true_and,
      hn, Int.toNat_natCast]
    generalize hit.elim 0 (· + 1) = next at hn
    split
    · have hni : blocks.drop next = [] := drop_eq_nil_of_le (by omega)
      simp [hni, rightmost]
    cases hf : rightmost stored (blocks.drop next) with
    | none => simp [toIndex]
    | some b =>
      have hp : ¬ (b : Int) < 0 := by omega
      simp [toIndex, hp]

end

theorem lookups_agree (backend : Option Backend) (stored : BlockId → Bool) (buffer : Buffer)
    (describes : ∀ answering ∈ backend, answering.Describes stored) (blocks : List BlockId) :
    ∃ hits, buffer.lookup (backend.map Backend.lookup) blocks = .ok hits ∧
      hits.length = blocks.length ∧
      buffer.lookupOnPrefix backend blocks =
        some (.ok ((hits.takeWhile fun hit => hit ≠ 0).length - 1)) ∧
      buffer.lookupOnReverse backend blocks =
        .ok (toIndex (rightmost (fun hit => hit = 1) hits)) := by
  refine ⟨_, lookup_eq describes blocks, length_map _, ?_, ?_⟩
  · rw [lookupOnPrefix_eq describes, takeWhile_map, length_map]
    simp [Function.comp_def]
  · rw [lookupOnReverse_eq describes, rightmost_map]
    simp

/-- The first of three blocks is in the buffer, the last in the backend only. -/
theorem lookups_agree_holding : let block (index : UInt8) : BlockId := .replicate 16 index
    let blocks := [block 0, block 1, block 2]
    let buffer : Buffer := { size := 1, nodes := fun _ => { key := some ⟨block 0, 0⟩ } }
    let backend := Backend.holding fun stored => stored = block 2
    buffer.lookup (some backend.lookup) blocks = .ok [1, 0, 1] ∧
      buffer.lookupOnPrefix (some backend) blocks = some (.ok 0) ∧
      buffer.lookupOnReverse (some backend) blocks = .ok 2 := by
  intro block blocks buffer backend
  obtain ⟨hits, hl, -, hp, hr⟩ := lookups_agree (some backend) (fun stored => stored = block 2)
    buffer (by
      rintro _ ⟨⟩
      exact ⟨fun _ => rfl, fun _ => rfl, fun _ => rfl⟩) blocks
  obtain rfl : hits = [1, 0, 1] := Except.ok.inj (hl.symm.trans (by decide))
  exact ⟨hl, hp, hr⟩

end Buffer
end UnifiedCache.Cache
