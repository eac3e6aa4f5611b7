import UnifiedCache.Dram.Types
import UnifiedCache.Lib.Bytes

/-! The wire format between the DramStore client and a DramPool node. A buffer is
its bytes and a null pointer is `none`; integers are copied little-endian at the
offsets below. -/
namespace UnifiedCache.Dram
open Bytes

def kKvKeySize : Nat := 16
def kKvLoadRequestHeaderSize : Nat := 1 + 8 + 8 + 2
def kKvLookupRequestHeaderSize : Nat := 1 + 8 + 8 + 2
def kKvDumpRequestHeaderSize : Nat := 1 + 8 + 8 + 4 + 2
def kKvDumpEntrySize : Nat := kKvKeySize + 8 + 4 + 4
def kKvLoadEntrySize : Nat := kKvKeySize + 8 + 4 + 4
def kKvLookupEntrySize : Nat := kKvKeySize
def kResponseRequestIdOffset : Nat := 0
def kResponseStatusOffset : Nat := 8
def kResponseResultsOffset : Nat := kResponseStatusOffset + 1

def kOpcodeOffset : Nat := 0
def kRequestIdOffset : Nat := 1
def kRespAddrOffset : Nat := 9
def kLoadLookupBatchSizeOffset : Nat := 17
def kDumpTtlOffset : Nat := 17
def kDumpBatchSizeOffset : Nat := 21

def kDumpLoadEntryKeyOffset : Nat := 0
def kDumpLoadEntryAddrOffset : Nat := 16
def kDumpLoadEntryLenOffset : Nat := 24
def kDumpLoadEntryIdxOffset : Nat := 28
def kLookupEntryKeyOffset : Nat := 0

def kBitsPerByte : Nat := 8
def kLookupResultBitWidth : Nat := 1
def kDumpLoadResultBitWidth : Nat := 4

inductive ResponseStatus where
  | pending | ready
  deriving DecidableEq, Repr

def ResponseStatus.toByte : ResponseStatus → UInt8
  | .pending => 0
  | .ready => 1

def ResponseStatus.ofByte? (byte : UInt8) : Option ResponseStatus :=
  if byte = 0 then some .pending else if byte = 1 then some .ready else none

def OpType.toByte : OpType → UInt8
  | .lookup => 0
  | .dump => 1
  | .load => 2

def OpType.ofByte? (byte : UInt8) : Option OpType :=
  if byte = 0 then some .lookup else if byte = 1 then some .dump
  else if byte = 2 then some .load else none

/-- `KvDumpEntry` and `KvLoadEntry` have the same fields. -/
structure KvTransferEntry where
  key : BlockId
  addr : UInt64 := 0
  len : UInt32 := 0
  idx : UInt32 := 0
  deriving DecidableEq, Repr

abbrev KvDumpEntry := KvTransferEntry
abbrev KvLoadEntry := KvTransferEntry

structure KvLookupEntry where
  key : BlockId
  deriving DecidableEq, Repr

structure KvDumpRequest where
  opcode : OpType := .lookup
  request_id : UInt64 := 0
  resp_addr : UInt64 := 0
  ttl : UInt32 := 0
  batch_size : UInt16 := 0
  entries : List KvDumpEntry := []
  deriving DecidableEq, Repr

structure KvLoadRequest where
  opcode : OpType := .lookup
  request_id : UInt64 := 0
  resp_addr : UInt64 := 0
  batch_size : UInt16 := 0
  entries : List KvLoadEntry := []
  deriving DecidableEq, Repr

structure KvLookupRequest where
  opcode : OpType := .lookup
  request_id : UInt64 := 0
  resp_addr : UInt64 := 0
  batch_size : UInt16 := 0
  entries : List KvLookupEntry := []
  deriving DecidableEq, Repr

/-- The dynamic type of a `KvRequest`; its `opcode` field need not agree with it. -/
inductive KvRequest where
  | dump (r : KvDumpRequest)
  | load (r : KvLoadRequest)
  | lookup (r : KvLookupRequest)
  deriving DecidableEq, Repr

structure KvResponse where
  request_id : UInt64 := 0
  results : List UInt8 := []
  deriving DecidableEq, Repr

def KvRequest.opcode : KvRequest → OpType
  | .dump r => r.opcode
  | .load r => r.opcode
  | .lookup r => r.opcode

def isAllZeroKey (key : BlockId) : Bool := key.all (· == 0)

def protocolName : OpType → String
  | .dump => "Dump"
  | .load => "Load"
  | .lookup => "Lookup"

def packDumpLoadEntry (output : List UInt8) (base : Nat) (entry : KvTransferEntry) : List UInt8 :=
  let output := writeAt output (base + kDumpLoadEntryKeyOffset) entry.key.toList
  let output := writeAt output (base + kDumpLoadEntryAddrOffset) (leBytes 8 entry.addr.toNat)
  let output := writeAt output (base + kDumpLoadEntryLenOffset) (leBytes 4 entry.len.toNat)
  writeAt output (base + kDumpLoadEntryIdxOffset) (leBytes 4 entry.idx.toNat)

def validateDumpLoadEntry (entry : KvTransferEntry) (protocol : String) (index : Nat) : Status :=
  if isAllZeroKey entry.key then
    .InvalidParam (protocol ++ ": entry[" ++ toString index ++ "] key is all zero")
  else if entry.addr = 0 then
    .InvalidParam (protocol ++ ": entry[" ++ toString index ++ "] addr is zero")
  else if entry.len = 0 then
    .InvalidParam (protocol ++ ": entry[" ++ toString index ++ "] len is zero")
  else .OK

def validateLookupEntry (entry : KvLookupEntry) (index : Nat) : Status :=
  if isAllZeroKey entry.key then
    .InvalidParam ("Lookup: entry[" ++ toString index ++ "] key is all zero")
  else .OK

def firstFailure (check : α → Nat → Status) : Nat → List α → Status
  | _, [] => .OK
  | index, entry :: rest =>
    if (check entry index).failure then check entry index
    else firstFailure check (index + 1) rest

def validateRequestHeader (opcode : OpType) (request_id resp_addr : UInt64) (batch_size : UInt16)
    (entryCount : Nat) : Status :=
  let protocol := protocolName opcode
  if request_id = 0 then .InvalidParam (protocol ++ ": request_id is zero")
  else if resp_addr = 0 then .InvalidParam (protocol ++ ": resp_addr is zero")
  else if batch_size = 0 ∨ batch_size.toNat ≠ entryCount then
    .InvalidParam (protocol ++ ": batch_size(" ++ toString batch_size.toNat ++
      ") must be non-zero and equal to entries.size()(" ++ toString entryCount ++ ")")
  else .OK

def packHeader (out : List UInt8) (opcode : OpType) (request_id resp_addr : UInt64)
    (batch_size : UInt16) : List UInt8 :=
  let out := writeAt out kOpcodeOffset [opcode.toByte]
  let out := writeAt out kRequestIdOffset (leBytes 8 request_id.toNat)
  let out := writeAt out kRespAddrOffset (leBytes 8 resp_addr.toNat)
  writeAt out kLoadLookupBatchSizeOffset (leBytes 2 batch_size.toNat)

def packDumpHeader (out : List UInt8) (opcode : OpType) (request_id resp_addr : UInt64)
    (ttl : UInt32) (batch_size : UInt16) : List UInt8 :=
  let out := writeAt out kOpcodeOffset [opcode.toByte]
  let out := writeAt out kRequestIdOffset (leBytes 8 request_id.toNat)
  let out := writeAt out kRespAddrOffset (leBytes 8 resp_addr.toNat)
  let out := writeAt out kDumpTtlOffset (leBytes 4 ttl.toNat)
  writeAt out kDumpBatchSizeOffset (leBytes 2 batch_size.toNat)

def validateDumpRequest (req : KvDumpRequest) : Status :=
  if req.opcode ≠ .dump then .InvalidParam "Dump: opcode must be Dump"
  else
    let header := validateRequestHeader req.opcode req.request_id req.resp_addr req.batch_size
      req.entries.length
    if header.failure then header
    else firstFailure (fun entry => validateDumpLoadEntry entry "Dump") 0 req.entries

def validateLoadRequest (req : KvLoadRequest) : Status :=
  if req.opcode ≠ .load then .InvalidParam "Load: opcode must be Load"
  else
    let header := validateRequestHeader req.opcode req.request_id req.resp_addr req.batch_size
      req.entries.length
    if header.failure then header
    else firstFailure (fun entry => validateDumpLoadEntry entry "Load") 0 req.entries

def validateLookupRequest (req : KvLookupRequest) : Status :=
  if req.opcode ≠ .lookup then .InvalidParam "Lookup: opcode must be Lookup"
  else
    let header := validateRequestHeader req.opcode req.request_id req.resp_addr req.batch_size
      req.entries.length
    if header.failure then header
    else firstFailure validateLookupEntry 0 req.entries

def packEntries (pack : List UInt8 → Nat → α → List UInt8) (entrySize : Nat) :
    List UInt8 → Nat → List α → List UInt8
  | out, _, [] => out
  | out, base, entry :: rest => packEntries pack entrySize (pack out base entry) (base + entrySize) rest

def packLookupEntry (out : List UInt8) (base : Nat) (entry : KvLookupEntry) : List UInt8 :=
  writeAt out (base + kLookupEntryKeyOffset) entry.key.toList

/-- The three `PackRequest` implementations: validate, write the header, write the
entries. The request's dynamic type must be the protocol's own. -/
def KvRequest.pack (opcode : OpType) (req : KvRequest) (out : List UInt8) : Expected (List UInt8) :=
  match opcode, req with
  | .dump, .dump r =>
    if (validateDumpRequest r).success then
      .ok (packEntries packDumpLoadEntry kKvDumpEntrySize
        (packDumpHeader out r.opcode r.request_id r.resp_addr r.ttl r.batch_size)
        kKvDumpRequestHeaderSize r.entries)
    else .error (validateDumpRequest r)
  | .load, .load r =>
    if (validateLoadRequest r).success then
      .ok (packEntries packDumpLoadEntry kKvLoadEntrySize
        (packHeader out r.opcode r.request_id r.resp_addr r.batch_size)
        kKvLoadRequestHeaderSize r.entries)
    else .error (validateLoadRequest r)
  | .lookup, .lookup r =>
    if (validateLookupRequest r).success then
      .ok (packEntries packLookupEntry kKvLookupEntrySize
        (packHeader out r.opcode r.request_id r.resp_addr r.batch_size)
        kKvLookupRequestHeaderSize r.entries)
    else .error (validateLookupRequest r)
  | opcode, _ => .error (.InvalidParam (protocolName opcode ++ ": request type mismatch"))

def getPackedRequestSize (opcode : OpType) (req : KvRequest) : Nat :=
  match opcode, req with
  | .dump, .dump r => kKvDumpRequestHeaderSize + r.batch_size.toNat * kKvDumpEntrySize
  | .load, .load r => kKvLoadRequestHeaderSize + r.batch_size.toNat * kKvLoadEntrySize
  | .lookup, .lookup r => kKvLookupRequestHeaderSize + r.batch_size.toNat * kKvLookupEntrySize
  | _, _ => 0

/-- `ProtocolManager::PackRequest`: the new contents of the buffer at `data`. -/
def packRequest (data : Option (List UInt8)) (opcode : OpType) (req : KvRequest) :
    Expected (List UInt8) :=
  match data with
  | none => .error (.InvalidParam "PackRequest data is null")
  | some out => req.pack opcode out

def getPackedResultSize (resultCount resultBitWidth : Nat) : Nat :=
  let resultsPerByte := kBitsPerByte / resultBitWidth
  resultCount / resultsPerByte + if resultCount % resultsPerByte ≠ 0 then 1 else 0

def resultBitWidth : OpType → Nat
  | .lookup => kLookupResultBitWidth
  | .dump => kDumpLoadResultBitWidth
  | .load => kDumpLoadResultBitWidth

def getPackedResponseSize (opcode : OpType) (resultCount : Nat) : Nat :=
  kResponseResultsOffset + getPackedResultSize resultCount (resultBitWidth opcode)

/-- Rejects a value that does not fit, then clears and fills the result bytes. -/
def packResults (data : List UInt8) (offset : Nat) (results : List UInt8) (width : Nat)
    (protocol : String) : Expected (List UInt8) :=
  let maxResult := 2 ^ width - 1
  match results.findIdx? (fun result => maxResult < result.toNat) with
  | some index =>
    .error (.InvalidParam (protocol ++ ": result[" ++ toString index ++ "] exceeds " ++
      toString width ++ " bits"))
  | none =>
    let cleared := List.replicate (getPackedResultSize results.length width) 0
    .ok (writeAt data offset (packFields width cleared 0 results))

def unpackResults (data : List UInt8) (offset resultCount width : Nat) : List UInt8 :=
  (List.range resultCount).map (getField width (data.drop offset))

/-- The three `PackResponse` implementations: the status, and what is left in the buffer. Only
LOOKUP refuses an empty result; the request id is written before the results are checked. -/
def packResponseInto (bytes : List UInt8) (opcode : OpType) (resp : KvResponse) :
    Status × List UInt8 :=
  if resp.request_id = 0 then
    (.InvalidParam (protocolName opcode ++ ": request_id is zero"), bytes)
  else if opcode = .lookup ∧ resp.results = [] then
    (.InvalidParam "Lookup: results must not be empty", bytes)
  else
    let bytes := writeAt bytes kResponseRequestIdOffset (leBytes 8 resp.request_id.toNat)
    match packResults bytes kResponseResultsOffset resp.results (resultBitWidth opcode)
      (protocolName opcode) with
    | .error status => (status, bytes)
    | .ok bytes => (.OK, writeAt bytes kResponseStatusOffset [ResponseStatus.ready.toByte])

/-- `PackResponse` for callers that use the buffer only if it succeeds. -/
def packResponse (data : Option (List UInt8)) (opcode : OpType) (resp : KvResponse) :
    Expected (List UInt8) :=
  match data with
  | none => .error (.InvalidParam (protocolName opcode ++ ": PackResponse data is null"))
  | some bytes =>
    let (status, packed) := packResponseInto bytes opcode resp
    if status.success then .ok packed else .error status

def isResponseReady (data : Option (List UInt8)) (expectedRequestId : UInt64) : Expected Bool :=
  match data with
  | none => .error (.InvalidParam "IsResponseReady data is null")
  | some bytes =>
    if expectedRequestId = 0 then
      .error (.InvalidParam "IsResponseReady expected_request_id is zero")
    else
      match ResponseStatus.ofByte? (bytes[kResponseStatusOffset]?.getD 0) with
      | some .pending => .ok false
      | some .ready =>
        let observed := UInt64.ofNat (ofLeBytes (readAt bytes kResponseRequestIdOffset 8))
        if observed ≠ expectedRequestId then
          .error (.Error ("IsResponseReady request_id mismatch: expected=" ++
            toString expectedRequestId.toNat ++ ", observed=" ++ toString observed.toNat))
        else .ok true
      | none => .error (.InvalidParam "unknown response status")

def unpackResponse (data : Option (List UInt8)) (opcode : OpType) (expectedRequestId : UInt64)
    (resultCount : UInt16) : Expected KvResponse :=
  match isResponseReady data expectedRequestId with
  | .error status => .error status
  | .ok false => .error .Retry
  | .ok true =>
    match data with
    | none => .error (.InvalidParam (protocolName opcode ++ ": UnpackResponse data is null"))
    | some bytes => .ok {
        request_id := UInt64.ofNat (ofLeBytes (readAt bytes kResponseRequestIdOffset 8))
        results := unpackResults bytes kResponseResultsOffset resultCount.toNat
          (resultBitWidth opcode) }

end UnifiedCache.Dram
