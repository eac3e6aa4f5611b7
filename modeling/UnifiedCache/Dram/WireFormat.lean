import UnifiedCache.Dram.KvProtocol
import UnifiedCache.Lib.Layout

/-! Requests on the server side, and the agreement of the two sides on every byte
and every rejected input. -/
namespace UnifiedCache.Dram
open Bytes Layout List FieldCodec InBounds KvRequest KvTransferEntry KvLookupEntry

def keyField : FieldCodec BlockId := .array 16 (by decide)

/-- What `UnpackCommonRequestHeader` fills in. -/
structure KvRequestHeader where
  opcode : OpType
  request_id : UInt64
  resp_addr : UInt64
  batch_size : UInt16
  deriving DecidableEq, Repr

/-- The size of the string is the `size` argument. -/
def unpackCommonRequestHeader (bytes : List UInt8) (headerSize batchSizeOffset entrySize : Nat)
    (expectedOpcode : OpType) : Except (Fault Status) KvRequestHeader := do
  let protocol := protocolName expectedOpcode
  refuse (bytes.length < headerSize)
    (.InvalidParam (protocol ++ ": invalid data or size smaller than header"))
  let opcode ← loadField .uint8 bytes kOpcodeOffset
  refuse (opcode ≠ expectedOpcode.toByte) (.InvalidParam (protocol ++ ": opcode mismatch"))
  let request_id ← loadField .uint64 bytes kRequestIdOffset
  refuse (request_id = 0) (.InvalidParam (protocol ++ ": request_id is zero"))
  let resp_addr ← loadField .uint64 bytes kRespAddrOffset
  refuse (resp_addr = 0) (.InvalidParam (protocol ++ ": resp_addr is zero"))
  let batch_size ← loadField .uint16 bytes batchSizeOffset
  refuse (batch_size = 0) (.InvalidParam (protocol ++ ": batch_size is zero"))
  let expectedSize := headerSize + batch_size.toNat * entrySize
  refuse (bytes.length ≠ expectedSize)
    (.InvalidParam (protocol ++ ": size(" ++ toString bytes.length ++ ") != expected(" ++
      toString expectedSize ++ ")"))
  return ⟨expectedOpcode, request_id, resp_addr, batch_size⟩

def unpackDumpLoadEntry (bytes : List UInt8) (protocol : String) (base index : Nat) :
    Except (Fault Status) KvTransferEntry := do
  let key ← loadField keyField bytes (base + kDumpLoadEntryKeyOffset)
  let addr ← loadField .uint64 bytes (base + kDumpLoadEntryAddrOffset)
  let len ← loadField .uint32 bytes (base + kDumpLoadEntryLenOffset)
  let idx ← loadField .uint32 bytes (base + kDumpLoadEntryIdxOffset)
  let entry : KvTransferEntry := { key, addr, len, idx }
  let status := validateDumpLoadEntry entry protocol index
  refuse (status.failure = true) status
  return entry

def unpackLookupEntry (bytes : List UInt8) (base index : Nat) :
    Except (Fault Status) KvLookupEntry := do
  let key ← loadField keyField bytes (base + kLookupEntryKeyOffset)
  refuse (isAllZeroKey key = true)
    (.InvalidParam ("Lookup: entry[" ++ toString index ++ "] key is all zero"))
  return { key }

/-- The three `UnpackRequest` implementations. -/
def KvRequest.unpack (opcode : OpType) (bytes : List UInt8) : Except (Fault Status) KvRequest :=
  match opcode with
  | .dump => do
    let header ← unpackCommonRequestHeader bytes kKvDumpRequestHeaderSize kDumpBatchSizeOffset
      kKvDumpEntrySize .dump
    let ttl ← loadField .uint32 bytes kDumpTtlOffset
    let entries ← readEach (unpackDumpLoadEntry bytes "Dump") kKvDumpEntrySize
      kKvDumpRequestHeaderSize 0 header.batch_size.toNat
    return .dump ⟨header.opcode, header.request_id, header.resp_addr, ttl, header.batch_size, entries⟩
  | .load => do
    let header ← unpackCommonRequestHeader bytes kKvLoadRequestHeaderSize
      kLoadLookupBatchSizeOffset kKvLoadEntrySize .load
    let entries ← readEach (unpackDumpLoadEntry bytes "Load") kKvLoadEntrySize
      kKvLoadRequestHeaderSize 0 header.batch_size.toNat
    return .load ⟨header.opcode, header.request_id, header.resp_addr, header.batch_size, entries⟩
  | .lookup => do
    let header ← unpackCommonRequestHeader bytes kKvLookupRequestHeaderSize
      kLoadLookupBatchSizeOffset kKvLookupEntrySize .lookup
    let entries ← readEach (unpackLookupEntry bytes) kKvLookupEntrySize
      kKvLookupRequestHeaderSize 0 header.batch_size.toNat
    return .lookup ⟨header.opcode, header.request_id, header.resp_addr, header.batch_size, entries⟩

def unpackRequest (data : Option (List UInt8)) : Except (Fault Status) KvRequest :=
  match data with
  | none => .error (.refused (.InvalidParam "UnpackRequest: invalid data or missing opcode"))
  | some bytes => do
    refuse (bytes.length < 1) (.InvalidParam "UnpackRequest: invalid data or missing opcode")
    let byte ← loadField .uint8 bytes kOpcodeOffset
    match OpType.ofByte? byte with
    | none =>
      .error (.refused (.InvalidParam ("UnpackRequest: unknown opcode " ++ toString byte.toNat)))
    | some opcode => KvRequest.unpack opcode bytes

def KvTransferEntry.Valid (entry : KvTransferEntry) : Prop :=
  ¬ isAllZeroKey entry.key = true ∧ entry.addr ≠ 0 ∧ entry.len ≠ 0

def KvLookupEntry.Valid (entry : KvLookupEntry) : Prop := ¬ isAllZeroKey entry.key = true

def ValidHeader (opcode expected : OpType) (request_id resp_addr : UInt64) (batch_size : UInt16)
    (entryCount : Nat) : Prop :=
  opcode = expected ∧ request_id ≠ 0 ∧ resp_addr ≠ 0 ∧ batch_size.toNat = entryCount ∧ 0 < entryCount

def KvRequest.Valid (opcode : OpType) (req : KvRequest) : Prop :=
  match opcode, req with
  | .dump, .dump r =>
    ValidHeader r.opcode .dump r.request_id r.resp_addr r.batch_size r.entries.length ∧
      ∀ entry ∈ r.entries, entry.Valid
  | .load, .load r =>
    ValidHeader r.opcode .load r.request_id r.resp_addr r.batch_size r.entries.length ∧
      ∀ entry ∈ r.entries, entry.Valid
  | .lookup, .lookup r =>
    ValidHeader r.opcode .lookup r.request_id r.resp_addr r.batch_size r.entries.length ∧
      ∀ entry ∈ r.entries, entry.Valid
  | _, _ => False

@[simp] theorem validateDumpLoadEntry_failure (e : KvTransferEntry) (protocol : String) (i : Nat) :
    (validateDumpLoadEntry e protocol i).failure = false ↔ e.Valid := by
  unfold validateDumpLoadEntry KvTransferEntry.Valid
  split_ifs <;> simp_all [Status.failure, Status.success, Status.InvalidParam, Status.OK]

@[simp] theorem validateLookupEntry_failure (e : KvLookupEntry) (i : Nat) :
    (validateLookupEntry e i).failure = false ↔ e.Valid := by
  unfold validateLookupEntry KvLookupEntry.Valid
  split_ifs <;> simp_all [Status.failure, Status.success, Status.InvalidParam, Status.OK]

theorem firstFailure_failure {c : α → Nat → Status} {good : α → Prop} (hc : ∀ entry i,
    (c entry i).failure = false ↔ good entry) (i : Nat) (entries : List α) :
    (firstFailure c i entries).failure = false ↔ ∀ entry ∈ entries, good entry := by
  induction entries generalizing i with
  | nil => simp [firstFailure]
  | cons entry =>
    have hh := hc entry i
    unfold firstFailure
    split <;> simp_all

@[simp] theorem validateRequestHeader_failure (opcode : OpType) (request_id resp_addr : UInt64)
    (batch_size : UInt16) (entryCount : Nat) :
    (validateRequestHeader opcode request_id resp_addr batch_size entryCount).failure = false ↔
    ValidHeader opcode opcode request_id resp_addr batch_size entryCount := by
  have hz : batch_size = 0 ↔ batch_size.toNat = 0 := by
    rw [← UInt16.toNat_inj]
    rfl
  unfold validateRequestHeader ValidHeader
  split_ifs <;> simp_all [Status.failure, Status.success, Status.InvalidParam, Status.OK] <;> omega

variable {opcode expected : OpType}

private theorem validated {m header entries : Status} (hm : m.success = false) :
    (if opcode ≠ expected then m else if header.failure then header else entries).success =
        true ↔ opcode = expected ∧ header.failure = false ∧ entries.failure = false := by
  split_ifs <;> simp_all [Status.failure]

@[simp] theorem validateDumpRequest_success (r : KvDumpRequest) :
    (validateDumpRequest r).success = true ↔ (dump r).Valid .dump := by
  rw [validateDumpRequest, validated rfl, validateRequestHeader_failure,
    firstFailure_failure (fun e => validateDumpLoadEntry_failure e "Dump")]
  simp only [KvRequest.Valid, ValidHeader, true_and, and_assoc]

@[simp] theorem validateLoadRequest_success (r : KvLoadRequest) :
    (validateLoadRequest r).success = true ↔ (load r).Valid .load := by
  rw [validateLoadRequest, validated rfl, validateRequestHeader_failure,
    firstFailure_failure (fun e => validateDumpLoadEntry_failure e "Load")]
  simp only [KvRequest.Valid, ValidHeader, true_and, and_assoc]

@[simp] theorem validateLookupRequest_success (r : KvLookupRequest) :
    (validateLookupRequest r).success = true ↔ (KvRequest.lookup r).Valid .lookup := by
  rw [validateLookupRequest, validated rfl, validateRequestHeader_failure,
    firstFailure_failure validateLookupEntry_failure]
  simp only [KvRequest.Valid, ValidHeader, true_and, and_assoc]

@[simp] theorem KvRequest.pack_isOk (opcode : OpType) (req : KvRequest) (out : List UInt8) :
    (∃ p, req.pack opcode out = .ok p) ↔ req.Valid opcode := by
  cases opcode <;> cases req <;> simp only [pack, reduceCtorEq, exists_false]
  case dump.dump r =>
    rw [← validateDumpRequest_success]
    split <;> simp [*]
  case load.load r =>
    rw [← validateLoadRequest_success]
    split <;> simp [*]
  case lookup.lookup r =>
    rw [← validateLookupRequest_success]
    split <;> simp [*]
  all_goals simp [KvRequest.Valid]

/-! The bytes of a request, field behind field. -/

def KvTransferEntry.encode (entry : KvTransferEntry) : List UInt8 :=
  keyField.encode entry.key ++ FieldCodec.uint64.encode entry.addr ++
    FieldCodec.uint32.encode entry.len ++ FieldCodec.uint32.encode entry.idx

def KvLookupEntry.encode (entry : KvLookupEntry) : List UInt8 := keyField.encode entry.key

def encodeHeader (opcode : OpType) (request_id resp_addr : UInt64) (batch_size : UInt16) :
    List UInt8 :=
  FieldCodec.uint8.encode opcode.toByte ++ FieldCodec.uint64.encode request_id ++
    FieldCodec.uint64.encode resp_addr ++ FieldCodec.uint16.encode batch_size

def encodeDumpHeader (opcode : OpType) (request_id resp_addr : UInt64) (ttl : UInt32)
    (batch_size : UInt16) : List UInt8 :=
  FieldCodec.uint8.encode opcode.toByte ++ FieldCodec.uint64.encode request_id ++
    FieldCodec.uint64.encode resp_addr ++ FieldCodec.uint32.encode ttl ++
    FieldCodec.uint16.encode batch_size

def KvRequest.encode : KvRequest → List UInt8
  | .dump r => encodeDumpHeader r.opcode r.request_id r.resp_addr r.ttl r.batch_size ++
      r.entries.flatMap KvTransferEntry.encode
  | .load r => encodeHeader r.opcode r.request_id r.resp_addr r.batch_size ++
      r.entries.flatMap KvTransferEntry.encode
  | .lookup r => encodeHeader r.opcode r.request_id r.resp_addr r.batch_size ++
      r.entries.flatMap KvLookupEntry.encode

@[simp] theorem KvTransferEntry.length_encode (entry : KvTransferEntry) :
    entry.encode.length = kKvDumpEntrySize := by
  simp only [KvTransferEntry.encode, length_append, FieldCodec.length_encode]
  rfl

@[simp] theorem KvLookupEntry.length_encode (entry : KvLookupEntry) :
    entry.encode.length = kKvLookupEntrySize :=
  keyField.length_encode entry.key

@[simp] theorem length_encodeHeader (opcode : OpType) (request_id resp_addr : UInt64)
    (batch_size : UInt16) :
    (encodeHeader opcode request_id resp_addr batch_size).length = kKvLoadRequestHeaderSize := by
  rfl

@[simp] theorem length_encodeDumpHeader (opcode : OpType) (request_id resp_addr : UInt64)
    (ttl : UInt32) (batch_size : UInt16) :
    (encodeDumpHeader opcode request_id resp_addr ttl batch_size).length =
      kKvDumpRequestHeaderSize := by
  rfl

variable {encode : α → List UInt8} {size base headerSize batchSizeOffset entrySize : Nat}

theorem length_flatMap_encode (hl : ∀ va, (encode va).length = size) (v : List α) :
    (v.flatMap encode).length = v.length * size := by
  simp [length_flatMap, hl, Nat.mul_comm]

variable {req : KvRequest}

theorem KvRequest.length_encode (h : req.Valid opcode) :
    req.encode.length = getPackedRequestSize opcode req := by
  cases opcode <;> cases req <;> simp only [KvRequest.Valid, ValidHeader] at h <;>
    simp only [KvRequest.encode, getPackedRequestSize, length_append, length_encodeHeader,
      length_encodeDumpHeader, length_flatMap_encode KvTransferEntry.length_encode,
      length_flatMap_encode KvLookupEntry.length_encode, h]
  all_goals rfl

/-! Packing writes those bytes over the front of the buffer. -/

variable {written rest bytes : List UInt8}

theorem packDumpLoadEntry_behind (h : written.length = base) (e : KvTransferEntry) :
    packDumpLoadEntry (written ++ rest) base e = (written ++ e.encode) ++
    rest.drop kKvDumpEntrySize := by
  have hk : e.key.toList.length = 16 := by simp
  unfold packDumpLoadEntry
  dsimp only
  rw [writeAt_behind (by simpa [kDumpLoadEntryKeyOffset] using h),
    writeAt_behind (by simp [h, kDumpLoadEntryAddrOffset]),
    writeAt_behind (by simp [h, kDumpLoadEntryLenOffset]), writeAt_behind (by simp [h]; rfl)]
  simp only [drop_drop, length_leBytes, hk, append_assoc, KvTransferEntry.encode]
  rfl

theorem packLookupEntry_behind (h : written.length = base) (e : KvLookupEntry) : packLookupEntry
    (written ++ rest) base e = (written ++ e.encode) ++ rest.drop kKvLookupEntrySize := by
  unfold packLookupEntry
  rw [writeAt_behind (by simpa [kLookupEntryKeyOffset] using h)]
  simp [KvLookupEntry.encode, keyField, FieldCodec.array, kKvLookupEntrySize, kKvKeySize]

theorem packEntries_behind {p : List UInt8 → Nat → α → List UInt8}
    (hl : ∀ e, (encode e).length = size) (hp : ∀ {written rest : List UInt8} {base : Nat},
      written.length = base → ∀ e,
      p (written ++ rest) base e = (written ++ encode e) ++ rest.drop size)
    (h : written.length = base) (entries : List α) : packEntries p size (written ++ rest)
    base entries = (written ++ entries.flatMap encode) ++ rest.drop (entries.length * size) := by
  induction entries generalizing written rest base with
  | nil => simp [packEntries]
  | cons _ _ ih =>
    rw [packEntries, hp h, ih (by simp [h, hl]), drop_drop]
    simp only [flatMap_cons, length_cons, Nat.succ_mul, append_assoc]
    rw [Nat.add_comm size]

theorem packHeader_behind (out : List UInt8) (opcode : OpType) (request_id resp_addr : UInt64)
    (batch_size : UInt16) : packHeader out opcode request_id resp_addr batch_size =
    encodeHeader opcode request_id resp_addr batch_size ++ out.drop kKvLoadRequestHeaderSize := by
  unfold packHeader
  dsimp only
  rw [← nil_append out, writeAt_behind (by rfl), writeAt_behind (by rfl),
    writeAt_behind (by simp; rfl), writeAt_behind (by simp; rfl)]
  simp only [nil_append, drop_drop, length_leBytes, encodeHeader]
  rfl

theorem packDumpHeader_behind (out : List UInt8) (opcode : OpType) (request_id resp_addr : UInt64)
    (ttl : UInt32) (batch_size : UInt16) :
    packDumpHeader out opcode request_id resp_addr ttl batch_size =
    encodeDumpHeader opcode request_id resp_addr ttl batch_size ++
    out.drop kKvDumpRequestHeaderSize := by
  unfold packDumpHeader
  dsimp only
  rw [← nil_append out, writeAt_behind (by rfl), writeAt_behind (by rfl),
    writeAt_behind (by simp; rfl), writeAt_behind (by simp; rfl), writeAt_behind (by simp; rfl)]
  simp only [nil_append, drop_drop, length_leBytes, encodeDumpHeader]
  rfl

theorem KvRequest.pack_eq (h : req.Valid opcode) (out : List UInt8) :
    req.pack opcode out = .ok (req.encode ++ out.drop (getPackedRequestSize opcode req)) := by
  cases opcode <;> cases req <;> try exact h.elim
  case dump.dump r =>
    have hc : r.batch_size.toNat = r.entries.length := h.1.2.2.2.1
    rw [KvRequest.pack, if_pos ((validateDumpRequest_success r).2 h), packDumpHeader_behind,
      packEntries_behind KvTransferEntry.length_encode packDumpLoadEntry_behind (by simp),
      drop_drop, ← hc]
    rfl
  case load.load r =>
    have hc : r.batch_size.toNat = r.entries.length := h.1.2.2.2.1
    have hs : kKvLoadEntrySize = kKvDumpEntrySize := rfl
    rw [KvRequest.pack, if_pos ((validateLoadRequest_success r).2 h), packHeader_behind, hs,
      packEntries_behind KvTransferEntry.length_encode packDumpLoadEntry_behind (by simp),
      drop_drop, ← hc]
    rfl
  case lookup.lookup r =>
    have hc : r.batch_size.toNat = r.entries.length := h.1.2.2.2.1
    rw [KvRequest.pack, if_pos ((validateLookupRequest_success r).2 h), packHeader_behind,
      packEntries_behind KvLookupEntry.length_encode packLookupEntry_behind (by simp; rfl),
      drop_drop, ← hc]
    rfl

/-! Unpacking accepts exactly those bytes. -/

theorem unpackCommonRequestHeader_eq_ok {header : KvRequestHeader} :
    unpackCommonRequestHeader bytes headerSize batchSizeOffset entrySize expected = .ok header ↔
    (header.opcode = expected ∧ header.request_id ≠ 0 ∧ header.resp_addr ≠ 0 ∧
    header.batch_size ≠ 0) ∧ bytes.length = headerSize + header.batch_size.toNat * entrySize ∧
    readAt bytes kOpcodeOffset 1 = uint8.encode expected.toByte ∧ readAt bytes kRequestIdOffset 8 =
    uint64.encode header.request_id ∧ readAt bytes kRespAddrOffset 8 =
    uint64.encode header.resp_addr ∧ readAt bytes batchSizeOffset 2 =
    uint16.encode header.batch_size := by
  simp only [unpackCommonRequestHeader, bind_eq_ok, refuse_eq_ok, loadField_eq_ok, pure_eq_ok]
  constructor
  · rintro ⟨-, -, byte, hy, -, ho, id, hid, -, hd, addr, had, -, ha, batch, hb, -, hba, -, hs, he⟩
    cases he
    cases not_not.1 ho
    exact ⟨⟨rfl, hd, ha, hba⟩, not_not.1 hs, hy, hid, had, hb⟩
  · rintro ⟨⟨rfl, hd, ha, hba⟩, hs, hy, hid, had, hb⟩
    exact ⟨(), by omega, _, hy, (), by simp, _, hid, (), hd, _, had, (), ha, _, hb,
      (), hba, (), not_not.2 hs, rfl⟩

variable {protocol : String}

theorem unpackDumpLoadEntry_eq_ok (base i : Nat) (e : KvTransferEntry) :
    unpackDumpLoadEntry bytes protocol base i = .ok e ↔ readAt bytes base kKvDumpEntrySize =
    e.encode ∧ e.Valid := by
  have hla : readAt bytes base (16 + 8 + 4 + 4) = e.encode ↔
      ((readAt bytes base 16 = keyField.encode e.key ∧
        readAt bytes (base + 16) 8 = FieldCodec.uint64.encode e.addr) ∧
        readAt bytes (base + 24) 4 = FieldCodec.uint32.encode e.len) ∧
        readAt bytes (base + 28) 4 = FieldCodec.uint32.encode e.idx := by
    unfold KvTransferEntry.encode
    rw [readAt_eq_append (by simp only [length_append, FieldCodec.length_encode]; rfl),
      readAt_eq_append (by simp only [length_append, FieldCodec.length_encode]; rfl),
      readAt_eq_append (by simp only [FieldCodec.length_encode]; rfl)]
  rw [show kKvDumpEntrySize = 16 + 8 + 4 + 4 from rfl, hla]
  simp only [unpackDumpLoadEntry, bind_eq_ok, refuse_eq_ok, loadField_eq_ok, pure_eq_ok,
    Bool.not_eq_true, validateDumpLoadEntry_failure]
  constructor
  · rintro ⟨key, hk, addr, ha, len, hl, idx, hd, -, hv, rfl⟩
    exact ⟨⟨⟨⟨hk, ha⟩, hl⟩, hd⟩, hv⟩
  · rintro ⟨⟨⟨⟨hk, ha⟩, hl⟩, hd⟩, hv⟩
    exact ⟨_, hk, _, ha, _, hl, _, hd, (), hv, rfl⟩

theorem unpackLookupEntry_eq_ok (base i : Nat) (e : KvLookupEntry) :
    unpackLookupEntry bytes base i = .ok e ↔
      readAt bytes base kKvLookupEntrySize = e.encode ∧ e.Valid := by
  simp only [unpackLookupEntry, bind_eq_ok, refuse_eq_ok, loadField_eq_ok, pure_eq_ok]
  constructor
  · rintro ⟨key, hk, -, hv, rfl⟩
    exact ⟨hk, hv⟩
  · rintro ⟨hk, hv⟩
    exact ⟨_, hk, (), hv, rfl⟩

theorem eq_append_iff {front back : List UInt8} {width size : Nat} (hx : front.length = width)
    (hb : bytes.length = width + size)
    : bytes = front ++ back ↔ readAt bytes 0 width = front ∧ readAt bytes width size = back := by
  have hs : readAt bytes 0 (width + size) = front ++ back ↔
      readAt bytes 0 width = front ∧ readAt bytes (0 + width) size = back := readAt_eq_append hx
  rwa [← hb, readAt_all, Nat.zero_add] at hs

/-- A request header, with the bytes that a dump has between the address and the batch size. -/
def encodeFront (header : KvRequestHeader) (middle : List UInt8) : List UInt8 :=
  uint8.encode header.opcode.toByte ++ uint64.encode header.request_id ++
    uint64.encode header.resp_addr ++ middle ++ uint16.encode header.batch_size

section
variable {bytes middle : List UInt8} {m : Nat} {header : KvRequestHeader} {expected : OpType}
  {entries : List α} {size : Nat} {encode : α → List UInt8} {good : α → Prop}
  {read : Nat → Nat → Except (Fault Status) α}

theorem readAt_front (hm : middle.length = m) :
    readAt bytes 0 (1 + 8 + 8 + m + 2) = encodeFront header middle ↔
    (((readAt bytes 0 1 = uint8.encode header.opcode.toByte ∧
      readAt bytes 1 8 = uint64.encode header.request_id) ∧
      readAt bytes 9 8 = uint64.encode header.resp_addr) ∧ readAt bytes 17 m = middle) ∧
      readAt bytes (17 + m) 2 = uint16.encode header.batch_size := by
  unfold encodeFront
  rw [readAt_eq_append (by simp only [length_append, FieldCodec.length_encode, hm]; rfl),
    readAt_eq_append (by simp only [length_append, FieldCodec.length_encode]; rfl),
    readAt_eq_append (by simp only [length_append, FieldCodec.length_encode]; rfl),
    readAt_eq_append (by simp only [FieldCodec.length_encode]; rfl)]
  simp only [Nat.zero_add, Nat.reduceAdd]

private theorem batch_size_ne_zero (batch_size : UInt16) : batch_size ≠ 0 ↔ 0 < batch_size.toNat
    := by
  rw [Ne, ← UInt16.toNat_inj, Nat.pos_iff_ne_zero]
  rfl

theorem unpackBody_eq_ok (header : KvRequestHeader) (hm : middle.length = m)
    (hl : ∀ e, (encode e).length = size)
    (hr : ∀ base i e, read base i = .ok e ↔ readAt bytes base size = encode e ∧ good e) :
    (unpackCommonRequestHeader bytes (1 + 8 + 8 + m + 2) (17 + m) size expected = .ok header ∧
      readAt bytes 17 m = middle ∧
      readEach read size (1 + 8 + 8 + m + 2) 0 header.batch_size.toNat = .ok entries) ↔
    (ValidHeader header.opcode expected header.request_id header.resp_addr header.batch_size
        entries.length ∧ ∀ e ∈ entries, good e) ∧
      bytes = encodeFront header middle ++ entries.flatMap encode := by
  have hf : (encodeFront header middle).length = 1 + 8 + 8 + m + 2 := by
    simp only [encodeFront, length_append, FieldCodec.length_encode, hm]
    rfl
  rw [unpackCommonRequestHeader_eq_ok, readEach_eq_ok hl hr, batch_size_ne_zero]
  constructor
  · rintro ⟨⟨⟨hp, hd, ha, _⟩, hs, ho, hid, had, hba⟩, ht, hc, hg, he⟩
    refine ⟨⟨⟨hp, hd, ha, hc.symm, by omega⟩, hg⟩, ?_⟩
    rw [eq_append_iff hf hs, readAt_front hm, hp]
    exact ⟨⟨⟨⟨⟨ho, hid⟩, had⟩, ht⟩, hba⟩, he⟩
  rintro ⟨⟨⟨hp, hd, ha, hc, _⟩, hg⟩, hb⟩
  have hs : bytes.length = 1 + 8 + 8 + m + 2 + header.batch_size.toNat * size := by
    rw [hb, length_append, hf, length_flatMap_encode hl, hc]
  rw [eq_append_iff hf hs, readAt_front hm, hp] at hb
  obtain ⟨⟨⟨⟨⟨ho, hid⟩, had⟩, ht⟩, hba⟩, he⟩ := hb
  exact ⟨⟨⟨hp, hd, ha, by omega⟩, hs, ho, hid, had, hba⟩, ht, hc.symm, hg, he⟩

theorem unpackPlainBody_eq_ok (header : KvRequestHeader) (hl : ∀ e, (encode e).length = size)
    (hr : ∀ base i e, read base i = .ok e ↔ readAt bytes base size = encode e ∧ good e) :
    (unpackCommonRequestHeader bytes kKvLoadRequestHeaderSize kLoadLookupBatchSizeOffset size
        expected = .ok header ∧
      readEach read size kKvLoadRequestHeaderSize 0 header.batch_size.toNat = .ok entries) ↔
    (ValidHeader header.opcode expected header.request_id header.resp_addr header.batch_size
        entries.length ∧ ∀ e ∈ entries, good e) ∧
      bytes = encodeHeader header.opcode header.request_id header.resp_addr header.batch_size ++
        entries.flatMap encode := by
  refine (and_congr_right fun _ => (and_iff_right rfl).symm).trans
    ((unpackBody_eq_ok header length_nil hl hr).trans ?_)
  rw [encodeFront, append_nil]
  rfl

end

theorem KvRequest.unpack_eq_ok :
    KvRequest.unpack opcode bytes = .ok req ↔ req.Valid opcode ∧ bytes = req.encode := by
  cases opcode with
  | dump =>
    simp only [KvRequest.unpack, bind_eq_ok, pure_eq_ok, loadField_eq_ok]
    constructor
    · rintro ⟨header, hh, ttl, ht, entries, he, rfl⟩
      exact (unpackBody_eq_ok header (uint32.length_encode ttl) KvTransferEntry.length_encode
        unpackDumpLoadEntry_eq_ok).1 ⟨hh, ht, he⟩
    intro h
    cases req with
    | load | lookup => exact h.1.elim
    | dump r =>
      obtain ⟨hh, ht, he⟩ :=
        (unpackBody_eq_ok ⟨r.opcode, r.request_id, r.resp_addr, r.batch_size⟩
          (uint32.length_encode r.ttl) KvTransferEntry.length_encode unpackDumpLoadEntry_eq_ok).2 h
      exact ⟨_, hh, _, ht, _, he, rfl⟩
  | load =>
    simp only [KvRequest.unpack, bind_eq_ok, pure_eq_ok]
    constructor
    · rintro ⟨header, hh, entries, he, rfl⟩
      exact (unpackPlainBody_eq_ok header KvTransferEntry.length_encode
        unpackDumpLoadEntry_eq_ok).1 ⟨hh, he⟩
    intro h
    cases req with
    | dump | lookup => exact h.1.elim
    | load r =>
      obtain ⟨hh, he⟩ :=
        (unpackPlainBody_eq_ok ⟨r.opcode, r.request_id, r.resp_addr, r.batch_size⟩
          KvTransferEntry.length_encode unpackDumpLoadEntry_eq_ok).2 h
      exact ⟨_, hh, _, he, rfl⟩
  | lookup =>
    simp only [KvRequest.unpack, bind_eq_ok, pure_eq_ok]
    constructor
    · rintro ⟨header, hh, entries, he, rfl⟩
      exact (unpackPlainBody_eq_ok header KvLookupEntry.length_encode
        unpackLookupEntry_eq_ok).1 ⟨hh, he⟩
    intro h
    cases req with
    | dump | load => exact h.1.elim
    | lookup r =>
      obtain ⟨hh, he⟩ :=
        (unpackPlainBody_eq_ok ⟨r.opcode, r.request_id, r.resp_addr, r.batch_size⟩
          KvLookupEntry.length_encode unpackLookupEntry_eq_ok).2 h
      exact ⟨_, hh, _, he, rfl⟩

@[simp]
theorem OpType.ofByte?_toByte (opcode : OpType) : OpType.ofByte? opcode.toByte = some opcode := by
  cases opcode <;> rfl

theorem KvRequest.readAt_encode (h : req.Valid opcode) :
    readAt req.encode kOpcodeOffset 1 = uint8.encode opcode.toByte := by
  cases opcode <;> cases req <;> try exact h.elim
  all_goals
    simp only [encode, encodeHeader, encodeDumpHeader, h.1.1]
    rfl

theorem unpackRequest_eq_ok :
    unpackRequest (some bytes) = .ok req ↔ ∃ opcode, req.Valid opcode ∧ bytes = req.encode := by
  simp only [unpackRequest, bind_eq_ok, refuse_eq_ok, loadField_eq_ok]
  constructor
  · rintro ⟨-, -, byte, -, h⟩
    split at h
    · cases h
    · exact ⟨_, KvRequest.unpack_eq_ok.1 h⟩
  rintro ⟨opcode, hv, rfl⟩
  have hb := KvRequest.readAt_encode hv
  refine ⟨(), ?_, opcode.toByte, hb, ?_⟩
  · have hl := congrArg List.length hb
    rw [length_readAt, FieldCodec.length_encode] at hl
    change _ = 1 at hl
    omega
  · rw [OpType.ofByte?_toByte]
    exact KvRequest.unpack_eq_ok.2 ⟨hv, rfl⟩

/-! No read leaves the bytes. -/

theorem unpackCommonRequestHeader_inBounds (hh : kKvLoadRequestHeaderSize ≤ headerSize)
    (hb : batchSizeOffset + 2 ≤ headerSize) :
    InBounds (unpackCommonRequestHeader bytes headerSize batchSizeOffset entrySize expected) := by
  unfold kKvLoadRequestHeaderSize at hh
  apply InBounds.bind (.refuse _ _)
  intro _ hs
  rw [refuse_eq_ok] at hs
  apply InBounds.bind (.loadField (by change 0 + 1 ≤ _; omega))
  intro _ _
  apply InBounds.bind (.refuse _ _)
  intro _ _
  apply InBounds.bind (.loadField (by change 1 + 8 ≤ _; omega))
  intro _ _
  apply InBounds.bind (.refuse _ _)
  intro _ _
  apply InBounds.bind (.loadField (by change 9 + 8 ≤ _; omega))
  intro _ _
  apply InBounds.bind (.refuse _ _)
  intro _ _
  apply InBounds.bind (.loadField (by change _ + 2 ≤ _; omega))
  intro _ _
  apply InBounds.bind (.refuse _ _)
  intro _ _
  apply InBounds.bind (.refuse _ _)
  intro _ _
  exact .ok _

theorem unpackDumpLoadEntry_inBounds (i : Nat) (h : base + kKvDumpEntrySize ≤ bytes.length) :
    InBounds (unpackDumpLoadEntry bytes protocol base i) := by
  change base + 32 ≤ _ at h
  apply InBounds.bind (.loadField (by change base + 0 + 16 ≤ _; omega))
  intro _ _
  apply InBounds.bind (.loadField (by change base + 16 + 8 ≤ _; omega))
  intro _ _
  apply InBounds.bind (.loadField (by change base + 24 + 4 ≤ _; omega))
  intro _ _
  apply InBounds.bind (.loadField (by change base + 28 + 4 ≤ _; omega))
  intro _ _
  apply InBounds.bind (.refuse _ _)
  intro _ _
  exact .ok _

theorem unpackLookupEntry_inBounds (i : Nat) (h : base + kKvLookupEntrySize ≤ bytes.length) :
    InBounds (unpackLookupEntry bytes base i) := by
  apply InBounds.bind (.loadField h)
  intro _ _
  apply InBounds.bind (.refuse _ _)
  intro _ _
  exact .ok _

theorem KvRequest.unpack_inBounds (opcode : OpType) (bytes : List UInt8) :
    InBounds (KvRequest.unpack opcode bytes) := by
  cases opcode with
  | dump =>
    apply InBounds.bind (unpackCommonRequestHeader_inBounds (by decide) (by decide))
    intro header hh
    have hs := (unpackCommonRequestHeader_eq_ok.1 hh).2.1
    apply InBounds.bind (.loadField (by rw [hs]; change 17 + 4 ≤ 23 + _; omega))
    intro ttl _
    apply InBounds.bind (.readEach (fun _ i h => unpackDumpLoadEntry_inBounds i h) hs.ge)
    intro entries _
    exact .ok _
  | load =>
    apply InBounds.bind (unpackCommonRequestHeader_inBounds (by decide) (by decide))
    intro header hh
    have hs := (unpackCommonRequestHeader_eq_ok.1 hh).2.1
    apply InBounds.bind (.readEach (fun _ i h => unpackDumpLoadEntry_inBounds i h) hs.ge)
    intro entries _
    exact .ok _
  | lookup =>
    apply InBounds.bind (unpackCommonRequestHeader_inBounds (by decide) (by decide))
    intro header hh
    have hs := (unpackCommonRequestHeader_eq_ok.1 hh).2.1
    apply InBounds.bind (.readEach (fun _ i h => unpackLookupEntry_inBounds i h) hs.ge)
    intro entries _
    exact .ok _

theorem unpackRequest_inBounds (d : Option (List UInt8)) : InBounds (unpackRequest d) := by
  cases d with
  | none => simp [InBounds, unpackRequest]
  | some =>
    apply InBounds.bind (.refuse _ _)
    intro _ hs
    rw [refuse_eq_ok] at hs
    apply InBounds.bind (.loadField (by change 0 + 1 ≤ _; omega))
    intro b _
    split
    · simp [InBounds]
    · exact KvRequest.unpack_inBounds _ _

theorem KvRequest.Valid.opcode_eq (h : req.Valid opcode) : req.opcode = opcode := by
  cases opcode <;> cases req <;> first | exact h.1.1 | exact h.elim

theorem packRequest_fills (h : req.Valid opcode) {out : List UInt8}
    (ho : out.length = getPackedRequestSize opcode req) : packRequest (some out) opcode req =
    .ok req.encode := by
  rw [packRequest, pack_eq h, ← ho, drop_length, append_nil]

/-- `PackRequest` accepts exactly the valid requests and writes the bytes `w` of its
packed size over the front of the buffer; `UnpackRequest` accepts exactly such byte
strings, takes them back to the request, and reads nothing behind them. -/
theorem wire_format : (∀ opcode req out,
      (∃ packed, packRequest (some out) opcode req = .ok packed) ↔ req.Valid opcode) ∧
    (∀ opcode req, req.Valid opcode → ∃ w, w.length = getPackedRequestSize opcode req ∧
      (∀ out, w.length ≤ out.length →
        packRequest (some out) opcode req = .ok (w ++ out.drop w.length)) ∧
      unpackRequest (some w) = .ok req) ∧ (∀ w, (∃ req, unpackRequest (some w) = .ok req) ↔
      ∃ opcode req, req.Valid opcode ∧ ∀ out, out.length = getPackedRequestSize opcode req →
        packRequest (some out) opcode req = .ok w) ∧ (∀ w req, unpackRequest (some w) = .ok req →
      req.Valid req.opcode ∧ getPackedRequestSize req.opcode req = w.length ∧
        ∀ out, out.length = w.length → packRequest (some out) req.opcode req = .ok w) ∧
    (∀ data, unpackRequest data ≠ .error .readPastEnd) := by
  refine ⟨fun opcode req out => req.pack_isOk opcode out, ?_, ?_, ?_, unpackRequest_inBounds⟩
  · intro opcode req hv
    have hl := length_encode hv
    refine ⟨req.encode, hl, ?_, unpackRequest_eq_ok.2 ⟨opcode, hv, rfl⟩⟩
    intro out _
    rw [hl]
    exact pack_eq hv out
  · intro w
    constructor
    · rintro ⟨req, h⟩
      obtain ⟨opcode, hv, rfl⟩ := unpackRequest_eq_ok.1 h
      exact ⟨opcode, req, hv, fun out => packRequest_fills hv⟩
    rintro ⟨opcode, req, hv, hp⟩
    -- any buffer of the packed size shows which bytes these are
    have hb := hp _ (length_replicate (a := 0))
    rw [packRequest_fills hv length_replicate] at hb
    cases hb
    exact ⟨req, unpackRequest_eq_ok.2 ⟨opcode, hv, rfl⟩⟩
  intro w req h
  obtain ⟨opcode, hv, rfl⟩ := unpackRequest_eq_ok.1 h
  have ho := hv.opcode_eq
  subst ho
  have hl := length_encode hv
  exact ⟨hv, hl.symm, fun out hu => packRequest_fills hv (hu.trans hl)⟩

def lookupOne : KvLookupRequest :=
  { opcode := .lookup, request_id := 7, resp_addr := 4096, batch_size := 1
    entries := [⟨Vector.replicate 16 1⟩] }

theorem wire_format_lookupOne : (KvRequest.lookup lookupOne).Valid .lookup ∧
      ∃ w, w.length = 35 ∧ unpackRequest (some w) = .ok (.lookup lookupOne) := by
  have hv : (KvRequest.lookup lookupOne).Valid .lookup :=
    (validateLookupRequest_success lookupOne).1 (by decide +kernel)
  obtain ⟨w, hl, -, hu⟩ := wire_format.2.1 .lookup (.lookup lookupOne) hv
  exact ⟨hv, w, hl, hu⟩

end UnifiedCache.Dram
