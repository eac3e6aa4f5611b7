import UnifiedCache.Dram.KvProtocol

/-! A reply as it comes out of the client's reply slot: what a node packed into a
response is read back entry by entry. -/
namespace UnifiedCache.Dram
open Bytes List

/-- `ReplyService::DecodeReply` on the bytes of the leased slot. -/
def decodeReply (data : Option (List UInt8)) (op : OpType) (requestId : RequestId)
    (entryCount : Nat) : Expected (List EntryResult) :=
  if entryCount > kMaxProtocolBatchEntries then
    .error (.InvalidParam "invalid DramPool reply metadata")
  else
    match unpackResponse data op requestId (UInt16.ofNat entryCount) with
    | .error status => .error status
    | .ok response =>
      if response.results.length ≠ entryCount then .error .DeserializeFailed
      else .ok (response.results.mapIdx fun index (result : UInt8) =>
        { originalIndex := index
          found := if op = .lookup then result != 0 else result == 0
          code := Int32.ofNat result.toNat })

theorem resultBitWidth_dvd (op : OpType) : resultBitWidth op ∣ 8 := by
  cases op <;> decide

variable {width k offset : Nat}

theorem index_lt_packedResultSize {c : Nat} (hw : width ∣ 8) (hk : k < c) :
    k / (8 / width) < getPackedResultSize c width := by
  have hwi : 0 < width := Nat.pos_of_dvd_of_pos hw (by decide)
  have hp : 0 < 8 / width := Nat.div_pos (Nat.le_of_dvd (by decide) hw) hwi
  unfold getPackedResultSize kBitsPerByte
  dsimp only
  have hs := Nat.div_add_mod c (8 / width)
  rw [Nat.div_lt_iff_lt_mul hp]
  split
  · have := Nat.mod_lt c hp
    rw [Nat.add_mul, Nat.one_mul, Nat.mul_comm]
    omega
  · rw [Nat.add_zero, Nat.mul_comm]
    omega

variable {bytes results slot : List UInt8}

theorem getField_congr {o : List UInt8} (h : bytes[k / (8 / width)]? = o[k / (8 / width)]?) :
    getField width bytes k = getField width o k := by
  unfold getField
  rw [h]

@[simp] theorem getField_cleared (width s k : Nat) : getField width (List.replicate s 0) k = 0 := by
  unfold getField
  have hz : (List.replicate s (0 : UInt8))[k / (8 / width)]?.getD 0 = 0 := by
    rw [List.getElem?_replicate]
    split <;> rfl
  rw [hz, UInt8.zero_shiftRight, UInt8.zero_and]

theorem drop_writeAt {buffer : List UInt8} {start : Nat} (h : offset + bytes.length ≤ buffer.length)
    (behind : offset + bytes.length ≤ start) : (writeAt buffer offset bytes).drop start =
    buffer.drop start := by
  apply ext_getElem?
  intro i
  rw [List.getElem?_drop, List.getElem?_drop, getElem?_writeAt h, if_neg (by omega)]

theorem unpackResults_packResults {data : List UInt8} {name : String} (hw : width ∣ 8)
    (room : offset + getPackedResultSize results.length width ≤ data.length)
    (h : packResults data offset results width name = .ok bytes) : bytes.length = data.length ∧
    unpackResults bytes offset results.length width = results ∧ ∀ s count, s + count ≤ offset →
    readAt bytes s count = readAt data s count := by
  unfold packResults at h
  dsimp only at h
  split at h
  · cases h
  rename_i hf
  cases h
  have ha : ∀ v ∈ results, v.toNat < 2 ^ width := by
    intro v hv
    have := List.findIdx?_eq_none_iff.1 hf v hv
    have hp := Nat.two_pow_pos width
    simp only [decide_eq_false_iff_not] at this
    omega
  have hl : (packFields width (List.replicate (getPackedResultSize results.length width) 0)
      0 results).length = getPackedResultSize results.length width := by
    rw [length_packFields, length_replicate]
  have hr := hl ▸ room
  refine ⟨length_writeAt hr, ext_getElem (by simp [unpackResults]) ?_,
    fun s count b => readAt_writeAt_disjoint hr (.inl b)⟩
  intro k _ hk
  have hd := index_lt_packedResultSize hw hk
  have hb : ((writeAt data offset (packFields width
      (List.replicate (getPackedResultSize results.length width) 0) 0 results)).drop
        offset)[k / (8 / width)]? = (packFields width
      (List.replicate (getPackedResultSize results.length width) 0) 0 results)[k / (8 / width)]? := by
    rw [List.getElem?_drop, getElem?_writeAt hr, hl,
      if_pos ⟨Nat.le_add_right _ _, Nat.add_lt_add_left hd _⟩,
      Nat.add_sub_cancel_left]
  simp only [unpackResults, getElem_map, getElem_range]
  rw [getField_congr hb, getField_packFields hw ha (fun i hi => by
      rw [Nat.zero_add, length_replicate]
      exact index_lt_packedResultSize hw hi),
    if_pos (Nat.zero_le k), getField_cleared, UInt8.zero_or, Nat.sub_zero,
    List.getElem?_eq_getElem hk, Option.getD_some]

@[simp] theorem requestId_roundtrip (requestId : UInt64) :
    UInt64.ofNat (ofLeBytes (leBytes 8 requestId.toNat)) = requestId := by
  have hl : requestId.toNat < 256 ^ 8 := requestId.toNat_lt
  rw [ofLeBytes_leBytes, Nat.mod_eq_of_lt hl, UInt64.ofNat_toNat]

variable {op : OpType}

theorem unpackResponse_of_ready {requestId : UInt64} (nonzero : requestId ≠ 0)
    (few : results.length < 2 ^ 16)
    (hd : bytes[kResponseStatusOffset]? = some ResponseStatus.ready.toByte)
    (hr : readAt bytes kResponseRequestIdOffset 8 = leBytes 8 requestId.toNat)
    (he : unpackResults bytes kResponseResultsOffset results.length (resultBitWidth op) = results) :
    unpackResponse (some bytes) op requestId (UInt16.ofNat results.length) =
      .ok { request_id := requestId, results := results } := by
  have hs : isResponseReady (some bytes) requestId = .ok true := by
    unfold isResponseReady
    dsimp only
    rw [if_neg nonzero, hd, hr, requestId_roundtrip]
    simp [ResponseStatus.ofByte?, ResponseStatus.toByte]
  have hc : (UInt16.ofNat results.length).toNat = results.length := by
    rw [UInt16.toNat_ofNat', Nat.mod_eq_of_lt few]
  unfold unpackResponse
  rw [hs]
  dsimp only
  rw [hr, requestId_roundtrip, hc, he]

theorem packResponse_eq_ok {resp : KvResponse}
    (h : packResponse (some slot) op resp = .ok bytes) : resp.request_id ≠ 0 ∧ ∃ packed,
      packResults (writeAt slot kResponseRequestIdOffset (leBytes 8 resp.request_id.toNat))
        kResponseResultsOffset resp.results (resultBitWidth op) (protocolName op) = .ok packed ∧
      writeAt packed kResponseStatusOffset [ResponseStatus.ready.toByte] = bytes := by
  unfold packResponse packResponseInto at h
  dsimp only at h
  split at h
  · cases h
  rename_i hd
  split at h
  · cases h
  split at h
  · rename_i status hp
    unfold packResults at hp
    dsimp only at hp
    split at hp <;> cases hp
    cases h
  · rename_i packed hp
    exact ⟨hd, packed, hp, by simpa using h⟩

theorem unpackResponse_packResponse {resp : KvResponse}
    (room : getPackedResponseSize op resp.results.length ≤ slot.length)
    (few : resp.results.length < 2 ^ 16) (h : packResponse (some slot) op resp = .ok bytes) :
    unpackResponse (some bytes) op resp.request_id (UInt16.ofNat resp.results.length) =
    .ok resp := by
  obtain ⟨hd, p, hp, rfl⟩ := packResponse_eq_ok h
  have hr : kResponseResultsOffset +
      getPackedResultSize resp.results.length (resultBitWidth op) ≤ slot.length := room
  have hh : kResponseRequestIdOffset + (leBytes 8 resp.request_id.toNat).length ≤
      slot.length := by
    rw [length_leBytes]
    exact (show 0 + 8 ≤ 9 by decide).trans ((Nat.le_add_right _ _).trans hr)
  obtain ⟨hl, hre, hb⟩ := unpackResults_packResults (resultBitWidth_dvd op)
    (by rwa [length_writeAt hh]) hp
  rw [length_writeAt hh] at hl
  have hs : kResponseStatusOffset + [ResponseStatus.ready.toByte].length ≤ p.length := by
    rw [hl]
    exact (Nat.le_add_right _ _).trans hr
  refine unpackResponse_of_ready hd few ?_ ?_ ?_
  · rw [getElem?_writeAt hs, if_pos ⟨Nat.le_refl _, Nat.lt_succ_self _⟩, Nat.sub_self]
    rfl
  · rw [readAt_writeAt_disjoint hs (.inl (by decide)), hb _ _ (by decide)]
    have he := readAt_writeAt_self hh
    rwa [length_leBytes] at he
  have hbe : (writeAt p kResponseStatusOffset [ResponseStatus.ready.toByte]).drop
      kResponseResultsOffset = p.drop kResponseResultsOffset :=
    drop_writeAt hs (Nat.le_refl _)
  rw [unpackResults, hbe]
  exact hre

theorem decodeReply_packResponse {requestId : RequestId}
    (room : getPackedResponseSize .lookup results.length ≤ slot.length)
    (few : results.length ≤ kMaxProtocolBatchEntries)
    (h : packResponse (some slot) .lookup { request_id := requestId, results := results } = .ok
    bytes) :
    decodeReply (some bytes) .lookup requestId results.length = .ok (results.mapIdx fun i (result : UInt8) =>
        { originalIndex := i, found := result != 0, code := Int32.ofNat result.toNat }) := by
  unfold decodeReply
  rw [if_neg (Nat.not_lt.2 few), unpackResponse_packResponse room (Nat.lt_succ_of_le few) h]
  dsimp only
  rw [if_neg (by simp)]
  rfl

end UnifiedCache.Dram
