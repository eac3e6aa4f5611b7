import Mathlib.Data.List.Basic

/-! What a node of the ASU transport writes into a flag buffer, and how the transport
reads it. -/
namespace UnifiedCache.Asu

inductive StatusCode where
  | OK | INVALID_ARGUMENT | TIMEOUT | PARTIAL_FAILED | CONNECTION_ERROR | IO_ERROR
  | BUFFER_NOT_REGISTERED | RESOURCE_BUSY | UNSUPPORTED | INTERNAL_ERROR | CANCELED
  | ENTRY_RETRY_ADVISED | ENTRY_NO_RETRY_ADVISED | ENTRY_KEY_NOT_FOUND | ENTRY_DATA_NOT_EXIST
  | ENTRY_DELETE_FAILED | ENTRY_KEY_NOT_EXIST | ENTRY_KEY_EXIST
  | CQE_INVALID_COMMAND_OPCODE | CQE_INVALID_FIELD_IN_COMMAND | CQE_INTERNAL_ERROR
  | CQE_WRITE_FAULT | CQE_UNRECOVERED_READ_ERROR | CQE_KEY_NOT_EXIST | CQE_OUT_OF_CREATE_SIZE
  | CQE_IO_TIMEOUT | CQE_KEY_ALREADY_EXISTED | CQE_RESOURCE_BUSY | CQE_CHECK_RESULT_BUFFER
  deriving DecidableEq

structure Status where
  code : StatusCode
  message : String := ""
  deriving DecidableEq

namespace Status

def OK : Status := ⟨.OK, ""⟩

def ok (status : Status) : Bool := status.code == .OK

end Status

inductive AsuOpType where
  | QUERY | LOAD | STORE | BATCH_LOAD | BATCH_STORE | DELETE | KEEP_ALIVE
  deriving DecidableEq

structure KvResponse where
  cid : UInt32
  status : UInt32
  existing_key_number : UInt32 := 0
  result_buffer : List UInt32 := []
  deriving DecidableEq

/-- Words of a flag buffer; what nobody has written is zero. -/
def dword (data : List UInt32) (index : Nat) : UInt32 := data.getD index 0

def kCqeDwordCount : Nat := 4

def pollResponseCid (data : List UInt32) : UInt32 := dword data 3 &&& 0xFFFF

def unpackCqeBase (data : List UInt32) : KvResponse where
  cid := dword data 3 &&& 0xFFFF
  status := (dword data 3 >>> 17) &&& 0x7FFF

/-- `batchNumber` results of `width` bits, `perDword` of them in each word. -/
def unpackResultBuffer (perDword width : Nat) (mask : UInt32) (data : List UInt32)
    (batchNumber : Nat) : List UInt32 :=
  (List.range batchNumber).map fun i =>
    (dword data (kCqeDwordCount + i / perDword) >>> UInt32.ofNat (i % perDword * width)) &&& mask

def unpackResultBuffer4Bit : List UInt32 → Nat → List UInt32 := unpackResultBuffer 8 4 0xF

def unpackResultBuffer1Bit : List UInt32 → Nat → List UInt32 := unpackResultBuffer 32 1 0x1

def unpackResponse (opType : AsuOpType) (data : List UInt32) (batchNumber : Nat) :
    Except Status KvResponse :=
  match opType with
  | .LOAD | .STORE => .ok (unpackCqeBase data)
  | .BATCH_LOAD | .BATCH_STORE =>
    .ok { unpackCqeBase data with result_buffer := unpackResultBuffer4Bit data batchNumber }
  | .DELETE =>
    .ok { unpackCqeBase data with result_buffer := unpackResultBuffer1Bit data batchNumber }
  | .QUERY =>
    .ok { unpackCqeBase data with
      existing_key_number := dword data 0 &&& 0xFFFF
      result_buffer := unpackResultBuffer1Bit data batchNumber }
  | .KEEP_ALIVE => .error ⟨.UNSUPPORTED, "CQE unpack not supported for this opcode"⟩

def kvResponseStatusToSubBatchStatus (rawStatus : UInt32) : Status :=
  match rawStatus.toNat with
  | 0x000 => .OK
  | 0x001 => ⟨.CQE_INVALID_COMMAND_OPCODE, "Invalid Command Opcode"⟩
  | 0x002 => ⟨.CQE_INVALID_FIELD_IN_COMMAND, "Invalid Field in Command"⟩
  | 0x006 => ⟨.CQE_INTERNAL_ERROR, "Internal Error"⟩
  | 0x280 => ⟨.CQE_WRITE_FAULT, "Write fault"⟩
  | 0x281 => ⟨.CQE_UNRECOVERED_READ_ERROR, "Unrecovered Read Error"⟩
  | 0x701 => ⟨.CQE_KEY_NOT_EXIST, "Key Not Exist"⟩
  | 0x712 => ⟨.CQE_OUT_OF_CREATE_SIZE, "Out of Create Size"⟩
  | 0x716 => ⟨.CQE_IO_TIMEOUT, "IO TimeOut"⟩
  | 0x723 => ⟨.CQE_KEY_ALREADY_EXISTED, "Key already Existed"⟩
  | 0x731 => ⟨.CQE_RESOURCE_BUSY, "Resource Busy"⟩
  | 0x732 =>
    ⟨.CQE_CHECK_RESULT_BUFFER, "Batched Result, check result buffer for entry errors"⟩
  | raw => ⟨.IO_ERROR, "unknown ASU sub-batch status is " ++ toString raw⟩

def keyExist : Status := ⟨.ENTRY_KEY_EXIST, "key exist"⟩
def keyNotExist : Status := ⟨.ENTRY_KEY_NOT_EXIST, "key not exist"⟩

def resultBufferEntryToStatus (opType : AsuOpType) (rawResult : UInt32) : Status :=
  match opType, rawResult.toNat with
  | .QUERY, 0 => keyNotExist
  | .QUERY, 1 => keyExist
  | .QUERY, raw => ⟨.IO_ERROR, "unknown ASU exist result is " ++ toString raw⟩
  | _, 0 => .OK
  | .DELETE, 1 => ⟨.ENTRY_DELETE_FAILED, "delete failed"⟩
  | .DELETE, raw => ⟨.IO_ERROR, "unknown ASU delete result is " ++ toString raw⟩
  | .BATCH_STORE, raw | .BATCH_LOAD, raw =>
    match raw with
    | 1 => ⟨.ENTRY_RETRY_ADVISED, "general error, retry advised"⟩
    | 2 => ⟨.ENTRY_NO_RETRY_ADVISED, "general error, no retry advised"⟩
    | 3 => ⟨.ENTRY_KEY_NOT_FOUND, "key not found"⟩
    | 4 => ⟨.ENTRY_DATA_NOT_EXIST, "data not exist"⟩
    | raw => ⟨.IO_ERROR, "unknown ASU entry key result is " ++ toString raw⟩
  | _, raw => ⟨.IO_ERROR, "entry CQE status is " ++ toString raw⟩

/-- The statuses of the `count` entries of a sub-batch whose own status is `status`. -/
def fillEntryStatusFromCqeResult (response : KvResponse) (opType : AsuOpType)
    (useSeekControl : Bool) (status : Status) (count : Nat) : List Status :=
  if status.ok then
    List.replicate count (if opType = .QUERY then keyExist else .OK)
  else if opType = .QUERY ∧ !useSeekControl ∧ status.code = .CQE_CHECK_RESULT_BUFFER then
    let existingKeyCount := min count response.existing_key_number.toNat
    List.replicate existingKeyCount keyExist ++
      List.replicate (count - existingKeyCount) keyNotExist
  else if status.code ≠ .CQE_CHECK_RESULT_BUFFER ∨ response.result_buffer = [] then
    List.replicate count status
  else
    (List.range count).map fun index =>
      resultBufferEntryToStatus opType (response.result_buffer.getD index 0)

end UnifiedCache.Asu
