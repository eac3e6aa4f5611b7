import UnifiedCache.Lib.Clock
import UnifiedCache.Status

/-! The data model of the DramStore client: requests, tokens, the commands given
to the transport and the events it and the reply observer report back. -/
namespace UnifiedCache.Dram

abbrev TaskId := Nat
abbrev RequestId := UInt64
abbrev NodeId := UInt64
abbrev LaneId := UInt32
abbrev ConnectionEpoch := UInt64

def kDefaultLaneId : LaneId := 0
def kInvalidConnectionEpoch : ConnectionEpoch := 0
def kInvalidRequestId : RequestId := 0
def kMaxProtocolBatchEntries : Nat := 65535

abbrev BlockId := Vector UInt8 16

inductive OpType where
  | lookup | dump | load
  deriving DecidableEq, Repr

inductive RequestState where
  | transmitting | inflight | waitingFence | completed
  deriving DecidableEq, Repr

structure BufferRef where
  address : UInt64 := 0
  length : UInt64 := 0
  deriving DecidableEq, Repr

structure IoEntry where
  blockId : BlockId
  shardId : UInt32 := 0
  buffer : BufferRef := {}
  originalIndex : Nat := 0
  deriving DecidableEq, Repr

structure EntryResult where
  originalIndex : Nat := 0
  found : Bool := false
  code : Int32 := 0
  deriving DecidableEq, Repr

structure Request where
  taskId : TaskId := 0
  requestId : RequestId := 0
  nodeId : NodeId := 0
  op : OpType := .lookup
  entries : List IoEntry := []
  deadline : TimePoint
  prerequisiteHandle : UInt64 := 0
  deriving DecidableEq, Repr

structure RequestToken where
  nodeId : NodeId := 0
  laneId : LaneId := kDefaultLaneId
  epoch : ConnectionEpoch := 0
  requestId : RequestId := 0
  deriving DecidableEq, Repr

/-- A slot of the reply buffer; a null `localAddr` means no slot. -/
structure ReplySlot where
  localAddr : UInt64 := 0
  deviceAddr : UInt64 := 0
  length : Nat := 0
  slotIndex : UInt32 := 0xFFFFFFFF
  offset : Nat := 0
  deriving DecidableEq, Repr

structure NodeEndpoint where
  nodeId : NodeId := 0
  peerAddr : String := ""
  deriving DecidableEq, Repr

structure NodeLimits where
  maxInflightRequests : Nat := 0
  maxBatchEntries : Nat := 0
  deriving DecidableEq, Repr

structure RequestCompleted where
  taskId : TaskId := 0
  requestId : RequestId := 0
  nodeId : NodeId := 0
  status : Status := .OK
  entryResults : List EntryResult := []
  deriving DecidableEq, Repr

inductive TransportCommand where
  | transmit (token : RequestToken) (op : OpType) (payload : List UInt8)
  | connect (nodeId : NodeId) (laneId : LaneId) (epoch : ConnectionEpoch) (peerAddr : String)
  | fenceEpoch (nodeId : NodeId) (laneId : LaneId) (epoch : ConnectionEpoch)
  deriving DecidableEq, Repr

inductive NodeEvent where
  | transmitCompleted (token : RequestToken) (status : Status)
  | connectCompleted (nodeId : NodeId) (laneId : LaneId) (epoch : ConnectionEpoch) (status : Status)
  | fenceCompleted (nodeId : NodeId) (laneId : LaneId) (epoch : ConnectionEpoch) (status : Status)
  | replyObserved (token : RequestToken) (status : Status) (entryResults : List EntryResult)
  deriving DecidableEq, Repr

end UnifiedCache.Dram
