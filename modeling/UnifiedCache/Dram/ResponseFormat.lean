import UnifiedCache.Dram.ReplyService
import UnifiedCache.Lib.Layout

/-! The bytes of a response: what `PackResponse` writes, what of it can be read back
and what a refused response leaves in the slot. -/
namespace UnifiedCache.Dram
open Bytes List

def encodeResponse (opcode : OpType) (resp : KvResponse) : List UInt8 :=
  leBytes 8 resp.request_id.toNat ++ [ResponseStatus.ready.toByte] ++
    packFields (resultBitWidth opcode)
      (List.replicate (getPackedResultSize resp.results.length (resultBitWidth opcode)) 0) 0
      resp.results

variable {bytes res : List UInt8}

theorem writeAt_response {head fields : List UInt8} (status : UInt8) (hh : head.length = 8)
    (room : 9 + fields.length ≤ bytes.length) : writeAt (writeAt (writeAt bytes 0 head) 9 fields) 8
    [status] = head ++ [status] ++ fields ++ bytes.drop (9 + fields.length) := by
  have hs : bytes.drop 8 = [bytes[8]] ++ bytes.drop 9 := drop_eq_getElem_cons (by omega)
  have hf : writeAt bytes 0 head = (head ++ [bytes[8]]) ++ bytes.drop 9 := by
    rw [append_assoc, ← hs, ← hh]
    simp [writeAt]
  have he : (head ++ [bytes[8]]).length = 9 := by simp [hh]
  rw [hf, Layout.writeAt_behind he, append_assoc, append_assoc, Layout.writeAt_behind hh]
  simp

@[simp] theorem length_encodeResponse (opcode : OpType) (resp : KvResponse) :
    (encodeResponse opcode resp).length = getPackedResponseSize opcode resp.results.length := by
  simp [encodeResponse, getPackedResponseSize, kResponseResultsOffset, kResponseStatusOffset]
  omega

def Fits (opcode : OpType) (result : UInt8) : Prop := result.toNat < 2 ^ resultBitWidth opcode

variable {opcode : OpType}

theorem packResults_of_fits (hfits : ∀ result ∈ res, Fits opcode result) (data : List UInt8)
    (offset : Nat) (name : String) : packResults data offset res (resultBitWidth opcode) name =
      .ok (writeAt data offset (packFields (resultBitWidth opcode)
        (List.replicate (getPackedResultSize res.length (resultBitWidth opcode)) 0) 0
        res)) := by
  have hn : res.findIdx? (fun result => 2 ^ resultBitWidth opcode - 1 < result.toNat) =
      none := by
    apply List.findIdx?_eq_none_iff.2
    intro result hm
    have hl : result.toNat < 2 ^ resultBitWidth opcode := hfits result hm
    exact decide_eq_false (by omega)
  unfold packResults
  dsimp only
  rw [hn]

theorem packResults_of_not_fits {result : UInt8} (hm : result ∈ res)
    (hw : ¬ Fits opcode result) (data : List UInt8) (offset : Nat) (name : String) :
    ∃ msg, packResults data offset res (resultBitWidth opcode) name = .error (.InvalidParam msg)
    := by
  unfold packResults
  dsimp only
  split
  · exact ⟨_, rfl⟩
  rename_i hn
  have hl := List.findIdx?_eq_none_iff.1 hn result hm
  have hp := Nat.two_pow_pos (resultBitWidth opcode)
  simp only [decide_eq_false_iff_not] at hl
  exact absurd (show result.toNat < 2 ^ resultBitWidth opcode by omega) hw

structure KvResponse.Valid (opcode : OpType) (resp : KvResponse) : Prop where
  request_id : resp.request_id ≠ 0
  count : resp.results.length ≤ 65535
  lookup : opcode = .lookup → resp.results ≠ []

section
variable {op : OpType} {resp : KvResponse} (valid : resp.Valid op)
include valid
variable {bytes : List UInt8}

section
variable (hfits : ∀ result ∈ resp.results, Fits op result)
include hfits

theorem packResponse_of_fits (r : getPackedResponseSize op resp.results.length ≤ bytes.length) :
    packResponse (some bytes) op resp = .ok (encodeResponse op resp ++
      bytes.drop (getPackedResponseSize op resp.results.length)) := by
  unfold packResponse packResponseInto
  dsimp only
  rw [if_neg valid.request_id, if_neg (fun h => valid.lookup h.1 h.2 : ¬ (op = .lookup ∧ _)),
    packResults_of_fits hfits]
  have hl : (packFields (resultBitWidth op) (List.replicate
      (getPackedResultSize resp.results.length (resultBitWidth op)) 0) 0 resp.results).length =
      getPackedResultSize resp.results.length (resultBitWidth op) := by
    rw [length_packFields, length_replicate]
  have hr : 9 + getPackedResultSize resp.results.length (resultBitWidth op) ≤
      bytes.length := r
  rw [← hl] at hr
  have hp := writeAt_response ResponseStatus.ready.toByte
    (length_leBytes 8 resp.request_id.toNat) hr
  rw [hl] at hp
  exact congrArg Except.ok hp

theorem unpackResponse_encodeResponse (r : List UInt8) : unpackResponse
    (some (encodeResponse op resp ++ r)) op resp.request_id (UInt16.ofNat resp.results.length) =
    .ok resp := by
  have hl := length_encodeResponse op resp
  have hr : getPackedResponseSize op resp.results.length ≤
      (encodeResponse op resp ++ r).length := by
    rw [length_append]
    omega
  have hp := packResponse_of_fits valid hfits hr
  rw [← hl, drop_left] at hp
  exact unpackResponse_packResponse hr (Nat.lt_succ_of_le valid.count) hp

end

theorem packResponse_of_not_fits {result : UInt8} (hm : result ∈ resp.results)
    (hw : ¬ Fits op result) (r : getPackedResponseSize op resp.results.length ≤ bytes.length) :
    ∃ status left, packResponseInto bytes op resp = (status, left) ∧ status.failure = true ∧
      packResponse (some bytes) op resp = .error status ∧
      left[kResponseStatusOffset]? = bytes[kResponseStatusOffset]? := by
  have ho : 9 + getPackedResultSize resp.results.length (resultBitWidth op) ≤
      bytes.length := r
  obtain ⟨msg, hr⟩ := packResults_of_not_fits hm hw
    (writeAt bytes kResponseRequestIdOffset (leBytes 8 resp.request_id.toNat))
    kResponseResultsOffset (protocolName op)
  have hi : packResponseInto bytes op resp = (.InvalidParam msg,
      writeAt bytes kResponseRequestIdOffset (leBytes 8 resp.request_id.toNat)) := by
    unfold packResponseInto
    dsimp only
    rw [if_neg valid.request_id, if_neg fun h => valid.lookup h.1 h.2, hr]
  refine ⟨_, _, hi, rfl, by rw [packResponse, hi]; rfl, ?_⟩
  rw [getElem?_writeAt (by rw [length_leBytes, kResponseRequestIdOffset]; omega), length_leBytes,
    if_neg (by decide)]

end

variable {id : UInt64}

theorem isResponseReady_encodeResponse (opcode : OpType) (resp : KvResponse) (r : List UInt8)
    (hd : id ≠ 0) :
    isResponseReady (some (encodeResponse opcode resp ++ r)) id = if resp.request_id ≠ id then
        .error (.Error ("IsResponseReady request_id mismatch: expected=" ++ toString id.toNat ++
          ", observed=" ++ toString resp.request_id.toNat))
      else .ok true := by
  have hrd : (encodeResponse opcode resp ++ r)[kResponseStatusOffset]? =
      some ResponseStatus.ready.toByte := by
    simp [encodeResponse, kResponseStatusOffset]
  have hr : readAt (encodeResponse opcode resp ++ r) kResponseRequestIdOffset 8 =
      leBytes 8 resp.request_id.toNat := by
    simp [encodeResponse, readAt, kResponseRequestIdOffset]
  unfold isResponseReady
  dsimp only
  rw [if_neg hd, hrd, hr, requestId_roundtrip]
  rfl

theorem unpackResponse_other (opcode : OpType) (resp : KvResponse) (r : List UInt8)
    (ho : id ≠ resp.request_id) (c : UInt16) : ∃ status : Status, status.failure = true ∧
    unpackResponse (some (encodeResponse opcode resp ++ r)) opcode id c = .error status := by
  unfold unpackResponse
  by_cases hd : id = 0
  · subst hd
    exact ⟨_, rfl, rfl⟩
  · rw [isResponseReady_encodeResponse opcode resp r hd, if_pos ho.symm]
    exact ⟨_, rfl, rfl⟩

theorem unpackResponse_pending (hd : id ≠ 0)
    (hp : bytes[kResponseStatusOffset]? = some ResponseStatus.pending.toByte) (opcode : OpType)
    (c : UInt16) : unpackResponse (some bytes) opcode id c = .error .Retry := by
  unfold unpackResponse isResponseReady
  dsimp only
  rw [if_neg hd, hp]
  rfl

structure ReadsBack (opcode : OpType) (resp : KvResponse) : Prop where
  length : (encodeResponse opcode resp).length = getPackedResponseSize opcode resp.results.length
  packed : ∀ bytes : List UInt8, getPackedResponseSize opcode resp.results.length ≤ bytes.length →
      packResponse (some bytes) opcode resp = .ok (encodeResponse opcode resp ++
        bytes.drop (getPackedResponseSize opcode resp.results.length))
  unpacked : ∀ rest, unpackResponse (some (encodeResponse opcode resp ++ rest)) opcode
    resp.request_id (UInt16.ofNat resp.results.length) = .ok resp
  other : ∀ (rest : List UInt8) (id : UInt64), id ≠ resp.request_id →
    ∃ status : Status, status.failure = true ∧
      unpackResponse (some (encodeResponse opcode resp ++ rest)) opcode id
        (UInt16.ofNat resp.results.length) = .error status
  pending : ∀ bytes : List UInt8,
    bytes[kResponseStatusOffset]? = some ResponseStatus.pending.toByte →
      unpackResponse (some bytes) opcode resp.request_id (UInt16.ofNat resp.results.length) =
        .error .Retry

theorem response_format (opcode : OpType) (resp : KvResponse) (valid : resp.Valid opcode) :
    ((∀ result ∈ resp.results, Fits opcode result) → ReadsBack opcode resp) ∧
      ((∃ result ∈ resp.results, ¬ Fits opcode result) → ∀ bytes : List UInt8,
        getPackedResponseSize opcode resp.results.length ≤ bytes.length →
          ∃ status left, packResponseInto bytes opcode resp = (status, left) ∧
            status.failure = true ∧ packResponse (some bytes) opcode resp = .error status ∧
            left[kResponseStatusOffset]? = bytes[kResponseStatusOffset]?) := by
  constructor
  · intro hfits
    exact {
      length := length_encodeResponse opcode resp
      packed := fun _ => packResponse_of_fits valid hfits
      unpacked := unpackResponse_encodeResponse valid hfits
      other := fun rest _ ho => unpackResponse_other opcode resp rest ho _
      pending := fun _ hp => unpackResponse_pending valid.request_id hp opcode _ }
  rintro ⟨result, hm, hw⟩ bytes room
  exact packResponse_of_not_fits valid hm hw room

theorem response_format_two : ReadsBack .dump ⟨7, [3, 15]⟩ :=
  (response_format .dump ⟨7, [3, 15]⟩ ⟨by decide, by decide, by decide⟩).1
    (by simp [Fits, resultBitWidth, kDumpLoadResultBitWidth])

end UnifiedCache.Dram
