import Mathlib.Data.List.Nodup
import UnifiedCache.Cache.Pledges
import UnifiedCache.Lib.Scatter

/-! `Lookup` of `v2`, which answers from the keys in the buffer. A slot with the first shard of
a block that is not READY belongs to the owner of a live handle, as long as no step fails such
a slot; a slot that has failed keeps its key and is reported as a hit. -/
namespace UnifiedCache.Cache
open List Store

/-- `Exist`; the pin of the optimistic path is dropped before it returns. -/
def Buffer.exist (block : BlockId) (offset : Nat) (buffer : Buffer) : Bool :=
  (buffer.find ⟨block, offset⟩).isSome

abbrev BackendLookup := List BlockId → Except Status (List UInt8)

def Buffer.missing (blocks : List BlockId) (buffer : Buffer) : List (BlockId × Nat) :=
  blocks.zipIdx.filter fun entry => !buffer.exist entry.1 0

def Buffer.lookup (backend : Option BackendLookup) (blocks : List BlockId) (buffer : Buffer) :
    Except Status (List UInt8) :=
  let hits : List UInt8 := blocks.map fun block => if buffer.exist block 0 then 1 else 0
  let misses := (buffer.missing blocks).map Prod.fst
  let indexes := (buffer.missing blocks).map Prod.snd
  match backend with
  | none => .ok hits
  | some answer =>
    if misses = [] then .ok hits
    else
      match answer misses with
      | .error status => .error status
      | .ok backendHits =>
        if backendHits.length ≠ misses.length then
          .error (.Error "backend lookup returned an invalid result size")
        else .ok (Scatter.scatter hits (indexes.zip backendHits))

namespace Buffer
variable {backend : Option BackendLookup} {blocks : List BlockId} {buf : Buffer}
  {hits : List UInt8} {idx : Nat} {block : BlockId} {hit : UInt8}

theorem nodup_missing (blocks : List BlockId) (buf : Buffer) :
    ((buf.missing blocks).map Prod.snd).Nodup := by
  have ha : (blocks.zipIdx.map Prod.snd).Nodup := by
    rw [zipIdx_map_snd]
    exact nodup_range'
  exact (filter_sublist.map Prod.snd).nodup ha

theorem answered {i backendHits : List UInt8}
    (hl : backendHits.length = (buf.missing blocks).length)
    (hn : i.length = blocks.length) (hb : blocks[idx]? = some block)
    (he : buf.exist block 0 = false) (hh : (Scatter.scatter i
      (((buf.missing blocks).map Prod.snd).zip backendHits))[idx]? = some hit) :
    ∃ pos : Nat, ((buf.missing blocks).map Prod.fst)[pos]? = some block ∧
      backendHits[pos]? = some hit := by
  have hm : (block, idx) ∈ buf.missing blocks := by
    refine mem_filter.2 ⟨mem_zipIdx_iff_getElem?.2 hb, ?_⟩
    simp [he]
  obtain ⟨pos, hp⟩ := mem_iff_getElem?.1 hm
  have ht : pos < backendHits.length := by
    rw [hl]
    exact (List.getElem?_eq_some_iff.1 hp).1
  have hz : (idx, backendHits[pos]) ∈ ((buf.missing blocks).map Prod.snd).zip backendHits := by
    apply mem_iff_getElem?.2
    exact ⟨pos, by simp [List.getElem?_zip_eq_some, hp, ht]⟩
  have hd : ((((buf.missing blocks).map Prod.snd).zip backendHits).map Prod.fst).Nodup := by
    rw [map_fst_zip (by simp [hl])]
    exact nodup_missing blocks buf
  have hbd : idx < i.length := by
    rw [hn]
    exact (List.getElem?_eq_some_iff.1 hb).1
  rw [Scatter.getElem?_scatter_of_mem hd hz hbd] at hh
  refine ⟨pos, by simp [hp], ?_⟩
  rw [← hh]
  exact List.getElem?_eq_getElem ht

end Buffer

namespace Host
variable {configs : Nat → Config} {host : Host} {label : Label}

def absent : BackendLookup := fun misses => .ok (misses.map fun _ => 0)

end Host
end UnifiedCache.Cache
