import UnifiedCache.Lib.Layout
import UnifiedCache.Lib.Probing
import UnifiedCache.Store.TaskWrapper

/-! The buffer that the processes of a host share: slots found by a digest of the
textual key, with a count of their readers and a status. `AcquireBlock` runs under the
buffer's mutex; the releases that other threads make in between only lower counts. -/
namespace UnifiedCache.Mooncake
open List Store Bytes Probing Function

abbrev Slice := BlockId × UInt64

abbrev Key := List UInt8

/-- A character of `kHexTable`. -/
def hexChar (nibble : UInt8) : UInt8 := if nibble < 10 then 0x30 + nibble else 0x57 + nibble

def hexByte (byte : UInt8) : Key := [hexChar (byte >>> 4), hexChar (byte &&& 0x0f)]

def blockIdToKey (block : BlockId) : Key := block.toList.flatMap hexByte

/-- The key that `BuildShards` gives to a shard: the block, an underscore and the index. -/
def shardKey (slice : Slice) : Key :=
  blockIdToKey slice.1 ++ [0x5f] ++
    (Nat.toDigits 10 slice.2.toNat).map fun digit => UInt8.ofNat digit.toNat

structure ShareBlockId where
  lo : UInt64
  hi : UInt64
  deriving DecidableEq

namespace ShareBlockId

/-- `Set`; `hash` is the standard library's. -/
def set (hash : Key → UInt64) (key : Key) : ShareBlockId :=
  if 16 ≤ key.length then
    ⟨UInt64.ofNat (Bytes.ofLeBytes (Bytes.readAt key 0 8)),
      UInt64.ofNat (Bytes.ofLeBytes (Bytes.readAt key 8 8))⟩
  else ⟨hash key, 0⟩

def used (id : ShareBlockId) : Bool := id.lo ≠ 0 ∨ id.hi ≠ 0

end ShareBlockId

inductive ShareBlockStatus where
  | INIT | LOADING | LOADED | FAILURE
  deriving DecidableEq

structure ShareBlockHeader where
  id : ShareBlockId := ⟨0, 0⟩
  ref : Int := 0
  status : ShareBlockStatus := .INIT
  deriving DecidableEq

namespace ShareBlockHeader

def refer (header : ShareBlockHeader) : ShareBlockHeader :=
  { header with
    status := if header.ref = 0 ∧ header.status ≠ .LOADED then .INIT else header.status
    ref := header.ref + 1 }

def occupy (id : ShareBlockId) : ShareBlockHeader := { id, ref := 1, status := .INIT }

end ShareBlockHeader

abbrev Headers := Nat → ShareBlockHeader

namespace Headers

def reuse (id : ShareBlockId) (reusedPos : Option Nat) (headers : Headers) :
    Headers × Option Nat :=
  match reusedPos with
  | some pos => (update headers pos (.occupy id), some pos)
  | none => (headers, none)

/-- The loop of `AcquireBlock` with the iterations that are left. -/
def probe (blockNumber : Nat) (id : ShareBlockId) (headers : Headers) :
    Nat → Nat → Option Nat → Headers × Option Nat
  | 0, _, reusedPos => headers.reuse id reusedPos
  | left + 1, pos, reusedPos =>
    if (headers pos).id = id then
      (update headers pos (headers pos).refer, some pos)
    else if ¬(headers pos).id.used then
      match reusedPos with
      | some _ => headers.reuse id reusedPos
      | none => (update headers pos (.occupy id), some pos)
    else
      probe blockNumber id headers left ((pos + 1) % blockNumber)
        (if (headers pos).ref ≤ 0 ∧ reusedPos = none then some pos else reusedPos)

def acquireBlock (hash : Key → UInt64) (blockNumber : Nat) (key : Key) (headers : Headers) :
    Headers × Option Nat :=
  headers.probe blockNumber (.set hash key) blockNumber ((hash key).toNat % blockNumber) none

def releaseBlock (pos : Nat) (headers : Headers) : Headers :=
  update headers pos { headers pos with ref := (headers pos).ref - 1 }

/-- `MarkLoaded`, `MarkFailed` and the start of a load; a reader of its own memory has
no slot. -/
def mark (pos : Option Nat) (status : ShareBlockStatus) (headers : Headers) : Headers :=
  match pos with
  | some pos => update headers pos { headers pos with status }
  | none => headers

/-- What `AcquireBlock` can do to the slots. -/
inductive Acquired (blockNumber : Nat) (id : ShareBlockId) (headers : Headers) :
    Headers × Option Nat → Prop where
  | hit (pos : Nat) : pos < blockNumber → (headers pos).id = id → Acquired blockNumber id headers
      (update headers pos (headers pos).refer, some pos)
  | taken (pos : Nat) : pos < blockNumber →
    ((headers pos).id.used = false ∨ (headers pos).ref ≤ 0) →
    Acquired blockNumber id headers (update headers pos (.occupy id), some pos)
  | full : Acquired blockNumber id headers (headers, none)

def Passed (n start : Nat) (id : ShareBlockId) (headers : Headers) (count : Nat) : Prop :=
  ∀ k < count, (headers (walk n start k)).id ≠ id ∧ (headers (walk n start k)).id.used = true

inductive Probed (n start : Nat) (id : ShareBlockId) (headers : Headers) :
    Headers × Option Nat → Prop where
  | hit (pos : Nat) : pos < n → (headers pos).id = id →
    Probed n start id headers (update headers pos (headers pos).refer, some pos)
  | taken (count k : Nat) : Passed n start id headers count →
    (count = n ∨ (headers (walk n start count)).id.used = false) → k ≤ count → k < n →
    ((headers (walk n start k)).id.used = false ∨ (headers (walk n start k)).ref ≤ 0) →
    Probed n start id headers
      (update headers (walk n start k) (.occupy id), some (walk n start k))
  | full : Passed n start id headers n → (∀ k < n, 0 < (headers (walk n start k)).ref) →
    Probed n start id headers (headers, none)

section
variable {n start count : Nat} {id : ShareBlockId} {headers : Headers} {reusedPos : Option Nat}
  (hs : Passed n start id headers count)
  (hr : ∀ pos ∈ reusedPos, ∃ k < count, walk n start k = pos ∧ (headers pos).ref ≤ 0)
include hs hr

theorem reuse_probed (hl : count ≤ n)
    (he : count = n ∨ (headers (walk n start count)).id.used = false)
    (hn : reusedPos = none → count = n ∧ ∀ k < count, 0 < (headers (walk n start k)).ref) :
    Probed n start id headers (headers.reuse id reusedPos) := by
  cases reusedPos with
  | none =>
    obtain ⟨rfl, hp⟩ := hn rfl
    exact .full hs hp
  | some pos =>
    obtain ⟨k, hk, rfl, hz⟩ := hr pos rfl
    exact .taken count k hs he hk.le (by omega) (.inr hz)

theorem probe_probed {left : Nat} (hc : left + count = n)
    (hn : reusedPos = none → ∀ k < count, 0 < (headers (walk n start k)).ref) :
    Probed n start id headers (headers.probe n id left (walk n start count) reusedPos) := by
  induction left generalizing count reusedPos with
  | zero => exact reuse_probed hs hr (by omega) (.inl (by omega)) fun he => ⟨by omega, hn he⟩
  | succ left ih =>
    unfold probe
    split
    · exact .hit _ (walk_lt (by omega) count) ‹_›
    rename_i hi
    split <;> rename_i hu
    · have hu : (headers (walk n start count)).id.used = false := by simpa using hu
      cases reusedPos with
      | none => exact .taken count count hs (.inr hu) le_rfl (by omega) (.inl hu)
      | some => exact reuse_probed hs hr (by omega) (.inr hu) nofun
    rw [← walk_succ]
    refine ih ?_ ?_ (by omega) ?_
    · intro k hk
      rcases Nat.lt_succ_iff_lt_or_eq.1 hk with hl | rfl
      · exact hs k hl
      · exact ⟨hi, by simpa using hu⟩
    · split <;> rename_i hf
      · rintro _ ⟨⟩
        exact ⟨count, Nat.lt_succ_self count, rfl, hf.1⟩
      · intro pos hm
        obtain ⟨k, hk, hz⟩ := hr pos hm
        exact ⟨k, Nat.lt_succ_of_lt hk, hz⟩
    · intro he k hk
      split at he <;> rename_i hf
      · cases he
      rcases Nat.lt_succ_iff_lt_or_eq.1 hk with hl | rfl
      · exact hn he k hl
      · exact Int.not_le.1 fun hz => hf ⟨hz, he⟩

end

theorem probe_start (n start : Nat) (id : ShareBlockId) (headers : Headers) :
    Probed n start id headers (headers.probe n id n (start % n) none) := by
  have hz : Passed n start id headers 0 := fun _ => nofun
  have hr : ∀ pos ∈ none, ∃ k < 0, walk n start k = pos ∧ (headers pos).ref ≤ 0 := nofun
  exact probe_probed hz hr rfl fun _ _ => nofun

theorem acquireBlock_acquired (hash : Key → UInt64) (blockNumber : Nat) (key : Key)
    (headers : Headers) :
    Acquired blockNumber (.set hash key) headers (headers.acquireBlock hash blockNumber key) := by
  have h := probe_start blockNumber (hash key).toNat (.set hash key) headers
  unfold acquireBlock
  generalize headers.probe _ _ _ _ _ = result at h ⊢
  cases h with
  | hit pos hl hi => exact .hit pos hl hi
  | taken _ _ _ _ _ hl hf => exact .taken _ (walk_lt (by omega) _) hf
  | full => exact .full

end Headers

/-! The digest of a key is that of the first eight bytes of its block. -/

@[simp]
theorem length_flatMap_hexByte (b : List UInt8) : (b.flatMap hexByte).length = 2 * b.length := by
  induction b with
  | nil => rfl
  | cons _ _ ih =>
    rw [flatMap_cons, length_append, ih, length_cons]
    simp only [hexByte, length_cons, length_nil]
    omega

@[simp] theorem length_blockIdToKey (b : BlockId) : (blockIdToKey b).length = 32 := by
  unfold blockIdToKey
  rw [length_flatMap_hexByte, Vector.length_toList]

variable {left right : List UInt8}

theorem readAt_shardKey (s : Slice) {o : Nat} (h : o + 8 ≤ 32) :
    readAt (shardKey s) o 8 = readAt (blockIdToKey s.1) o 8 := by
  unfold readAt shardKey
  have hl := length_blockIdToKey s.1
  rw [append_assoc, drop_append_of_le_length (by omega),
    take_append_of_le_length (by rw [length_drop]; omega)]

theorem set_shardKey (hash : Key → UInt64) (s : Slice) : ShareBlockId.set hash (shardKey s) =
    ⟨UInt64.ofNat (ofLeBytes (readAt (blockIdToKey s.1) 0 8)),
    UInt64.ofNat (ofLeBytes (readAt (blockIdToKey s.1) 8 8))⟩ := by
  unfold ShareBlockId.set
  rw [if_pos, readAt_shardKey s (by omega), readAt_shardKey s (by omega)]
  unfold shardKey
  rw [append_assoc, length_append, length_blockIdToKey]
  omega

theorem ofLeBytes_injective (hl : left.length = 8) (hs : right.length = 8)
    (h : UInt64.ofNat (ofLeBytes left) = UInt64.ofNat (ofLeBytes right)) : left = right := by
  have hf : ofLeBytes left < 2 ^ 64 :=
    (Layout.ofLeBytes_lt left).trans_le (by rw [hl]; decide)
  have hr : ofLeBytes right < 2 ^ 64 :=
    (Layout.ofLeBytes_lt right).trans_le (by rw [hs]; decide)
  have hn := congrArg UInt64.toNat h
  rw [UInt64.toNat_ofNat', UInt64.toNat_ofNat', Nat.mod_eq_of_lt hf, Nat.mod_eq_of_lt hr] at hn
  rw [← Layout.leBytes_ofLeBytes left, ← Layout.leBytes_ofLeBytes right, hn, hl, hs]

@[simp] theorem used_set (hash : Key → UInt64) (s : Slice) :
    (ShareBlockId.set hash (shardKey s)).used = true := by
  have hc : ∀ n : Fin 256, hexChar (UInt8.ofFin n >>> 4) ≠ 0 := by decide +kernel
  obtain ⟨first, rest, hbl⟩ : ∃ first rest, s.1.toList = first :: rest := by
    apply exists_cons_of_length_pos
    rw [Vector.length_toList]
    omega
  have ho : ShareBlockId.lo (.set hash (shardKey s)) ≠ 0 := by
    rw [set_shardKey]
    intro hz
    have hl : (readAt (blockIdToKey s.1) 0 8).length = 8 := by
      unfold readAt
      rw [length_take, length_drop, length_blockIdToKey]
      omega
    have hn : (0 : UInt64) = UInt64.ofNat (ofLeBytes [0, 0, 0, 0, 0, 0, 0, 0]) := by
      decide
    have hb := ofLeBytes_injective hl rfl (hz.trans hn)
    unfold readAt blockIdToKey at hb
    rw [hbl, flatMap_cons, hexByte, cons_append, drop_zero, take_succ_cons] at hb
    exact hc first.toFin (cons_eq_cons.1 hb).1
  exact decide_eq_true (.inl ho)

end UnifiedCache.Mooncake
