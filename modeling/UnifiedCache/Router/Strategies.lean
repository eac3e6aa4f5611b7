import Mathlib.Data.List.Sort
import UnifiedCache.Lib.Chunks
import UnifiedCache.Lib.Grouping

/-! The router: it sends the positions of a list of cache keys to nodes. Keys are
byte strings. The map it returns has an arbitrary iteration order in the source
and insertion order here. -/
namespace UnifiedCache.Router

abbrev CacheKey := List UInt8
abbrev NodeId := UInt64
abbrev HashFunction := CacheKey → UInt64
abbrev Routes := Table NodeId (List Nat)

def kInvalidNodeId : NodeId := 0xFFFFFFFFFFFFFFFF
def kDefaultVirtualNodeCount : UInt64 := 128
def kDefaultMaglevTableSize : UInt64 := 65537
@[irreducible] def kMaxVirtualNodeSaltAttempts : Nat := 4096

inductive RouterType where
  | ringHashFullSpread | maglevFullSpread | contiguousBlockAffinity | batchTopKAffinity
  deriving DecidableEq, Repr

structure RouterConfig where
  type : RouterType := .ringHashFullSpread
  virtualNodeCount : UInt64 := kDefaultVirtualNodeCount
  tableSize : UInt64 := kDefaultMaglevTableSize
  blockCount : UInt64 := 1
  fullSpreadType : RouterType := .ringHashFullSpread
  topK : UInt64 := 1

def text (s : String) : CacheKey := s.toUTF8.toList

def decimal (value : Nat) : CacheKey := text (toString value)

def kCrcPolynomial : UInt32 := 0xEDB88320

def crcTableEntry (byte : UInt32) : UInt32 :=
  (List.range 8).foldl (fun (crc : UInt32) _ =>
    if crc &&& 1 ≠ 0 then kCrcPolynomial ^^^ (crc >>> 1) else crc >>> 1) byte

def crcStep (crc : UInt32) (ch : UInt8) : UInt32 :=
  crcTableEntry ((crc ^^^ ch.toUInt32) &&& 0xFF) ^^^ (crc >>> 8)

def crc32IEEE (data : CacheKey) : UInt64 :=
  (data.foldl crcStep 0xFFFFFFFF ^^^ 0xFFFFFFFF).toUInt64

def normalizeNodeIds (nodeIds : List NodeId) : List NodeId :=
  nodeIds.foldl (fun active nodeId =>
    if nodeId = kInvalidNodeId ∨ nodeId ∈ active then active else active ++ [nodeId]) []

variable (hash : HashFunction)

/-! Ring hash. The hashes in use are those of the ring so far. -/

abbrev RingData := List (UInt64 × NodeId)

def buildVirtualNodeKey (nodeId : NodeId) (index salt : Nat) : CacheKey :=
  let key := text "vn-" ++ decimal index ++ text "#node-" ++ decimal nodeId.toNat
  if salt = 0 then key else key ++ text "#" ++ decimal salt

/-- Salts are tried until one gives a hash that is not in use. -/
def insertVirtualNode (ringData : RingData) (nodeId : NodeId) (index : Nat) : Option RingData :=
  let hashes := (List.range (kMaxVirtualNodeSaltAttempts + 1)).map fun salt =>
    hash (buildVirtualNodeKey nodeId index salt)
  (hashes.find? fun hashValue => hashValue ∉ ringData.map Prod.fst).map fun hashValue =>
    ringData ++ [(hashValue, nodeId)]

/-- The loop over a node's virtual nodes; it breaks at the first that has no place. -/
def insertVirtualNodes (nodeId : NodeId) : List Nat → RingData → RingData
  | [], ringData => ringData
  | index :: rest, ringData =>
    match insertVirtualNode hash ringData nodeId index with
    | none => ringData
    | some ringData => insertVirtualNodes nodeId rest ringData

/-- The order of `std::pair`. -/
def scoreLe (left right : UInt64 × NodeId) : Prop :=
  left.1 < right.1 ∨ (left.1 = right.1 ∧ left.2 ≤ right.2)

instance decidableScoreLe : DecidableRel scoreLe := fun _ _ => inferInstanceAs (Decidable (_ ∨ _))

def buildRing (nodeIds : List NodeId) (virtualNodeCount : UInt64) : RingData :=
  ((normalizeNodeIds nodeIds).foldl (fun ringData nodeId =>
    insertVirtualNodes hash nodeId (List.range virtualNodeCount.toNat) ringData) []).insertionSort
      scoreLe

def ringRouteKey (ring : RingData) (key : CacheKey) : NodeId :=
  match ring.find? fun ringNode => hash key ≤ ringNode.1 with
  | some ringNode => ringNode.2
  | none =>
    match ring with
    | [] => kInvalidNodeId
    | ringNode :: _ => ringNode.2

/-- The loop `for (factor = 3; factor <= value / factor; factor += 2)`. -/
def noOddFactor (value : Nat) : Nat → Nat → Bool
  | 0, _ => true
  | fuel + 1, factor =>
    if factor ≤ value / factor then
      if value % factor = 0 then false else noOddFactor value fuel (factor + 2)
    else true

def isPrime (value : UInt64) : Bool :=
  if value < 2 then false
  else if value = 2 then true
  else if value % 2 = 0 then false
  else noOddFactor value.toNat value.toNat 3

/-- A node with its place in its own permutation of the table. -/
structure Filler where
  nodeId : NodeId
  offset : UInt64
  skip : UInt64
  next : UInt64 := 0

def Filler.candidate (tableSize : UInt64) (filler : Filler) : Nat :=
  ((filler.offset + filler.next * filler.skip) % tableSize).toNat

def Filler.advance (filler : Filler) : Filler := { filler with next := filler.next + 1 }

/-- The first free place a node comes to; `none` if there is none within the fuel. -/
def probe (tableSize : UInt64) (table : List NodeId) : Nat → Filler → Option (Nat × Filler)
  | 0, _ => none
  | fuel + 1, filler =>
    let candidate := filler.candidate tableSize
    if table[candidate]? = some kInvalidNodeId then some (candidate, filler.advance)
    else probe tableSize table fuel filler.advance

structure Filling where
  fillers : List Filler
  lookupTable : List NodeId
  filled : UInt64 := 0

/-- One round of the `for` loop over the nodes, from a node on. -/
def fillRound (tableSize : UInt64) : List Filler → List NodeId → UInt64 → Option Filling
  | [], table, filled => some { fillers := [], lookupTable := table, filled := filled }
  | filler :: rest, table, filled =>
    if filled < tableSize then do
      let (candidate, filler) ← probe tableSize table tableSize.toNat filler
      let filling ← fillRound tableSize rest (table.set candidate filler.nodeId) (filled + 1)
      pure { filling with fillers := filler :: filling.fillers }
    else some { fillers := filler :: rest, lookupTable := table, filled := filled }

/-- The loop `while (filled < tableSize)`; `none` if it does not end within the fuel. -/
def fillTable (tableSize : UInt64) : Nat → Filling → Option Filling
  | fuel, filling =>
    if filling.filled < tableSize then
      match fuel with
      | 0 => none
      | fuel + 1 =>
        match fillRound tableSize filling.fillers filling.lookupTable filling.filled with
        | none => none
        | some filling => fillTable tableSize fuel filling
    else some filling

def fillerOf (tableSize : UInt64) (nodeId : NodeId) : Filler where
  nodeId := nodeId
  offset := hash (text "maglev-offset#node-" ++ decimal nodeId.toNat) % tableSize
  skip := hash (text "maglev-skip#node-" ++ decimal nodeId.toNat) % (tableSize - 1) + 1

def usedTableSize (tableSize : UInt64) : UInt64 :=
  if isPrime tableSize then tableSize else kDefaultMaglevTableSize

/-- `MaglevRouter::Build`; `none` if it would not return. -/
def buildMaglev (nodeIds : List NodeId) (tableSize : UInt64) : Option (List NodeId) :=
  let tableSize := usedTableSize tableSize
  let activeNodeIds := normalizeNodeIds nodeIds
  if activeNodeIds.isEmpty then some []
  else
    (fillTable tableSize tableSize.toNat
      { fillers := activeNodeIds.map (fillerOf hash tableSize)
        lookupTable := List.replicate tableSize.toNat kInvalidNodeId }).map Filling.lookupTable

def maglevRouteKey (lookupTable : List NodeId) (key : CacheKey) : NodeId :=
  lookupTable[(hash key).toNat % lookupTable.length]?.getD kInvalidNodeId

inductive FullSpreadRouter where
  | ringHash (ring : RingData)
  | maglev (lookupTable : List NodeId)

inductive Strategy where
  | fullSpread (router : FullSpreadRouter)
  | contiguousBlockAffinity (blockCount : UInt64) (fullSpreadRouter : Option FullSpreadRouter)
  | batchTopKAffinity (nodeIds : List NodeId) (topK : UInt64)

def FullSpreadRouter.routeKey : FullSpreadRouter → CacheKey → NodeId
  | .ringHash ring => ringRouteKey hash ring
  | .maglev lookupTable => maglevRouteKey hash lookupTable

/-- `Router::RouteKeys`, which the full-spread routers inherit. -/
def FullSpreadRouter.routeKeys (router : FullSpreadRouter) (keys : List CacheKey) : Routes :=
  keys.zipIdx.foldl (fun routes entry =>
    let nodeId := router.routeKey hash entry.1
    if nodeId ≠ kInvalidNodeId then Grouping.add routes nodeId entry.2 else routes) .empty

def contiguousRouteKey (fullSpreadRouter : FullSpreadRouter) (key : CacheKey) : NodeId :=
  match (fullSpreadRouter.routeKeys hash [key]).entries with
  | [] => kInvalidNodeId
  | (nodeId, _) :: _ => nodeId

def contiguousRouteKeys (blockCount : UInt64) (fullSpreadRouter : FullSpreadRouter)
    (keys : List CacheKey) : Routes :=
  (Chunks.chunks (max 1 blockCount.toNat) keys.zipIdx).foldl (fun routes chunk =>
    match chunk with
    | [] => routes
    | (key, _) :: _ =>
      let nodeId := contiguousRouteKey hash fullSpreadRouter key
      if nodeId = kInvalidNodeId then routes
      else chunk.foldl (fun routes entry => Grouping.add routes nodeId entry.2) routes) .empty

def buildBatchKey (keys : List CacheKey) : CacheKey :=
  text "batch-size#" ++ decimal keys.length ++ keys.zipIdx.flatMap fun entry =>
    text "#" ++ decimal entry.2 ++ text ":" ++ entry.1

def selectCandidates (nodeIds : List NodeId) (topK : UInt64) (batchKey : CacheKey) :
    List NodeId :=
  let scores := nodeIds.map fun nodeId =>
    (hash (text "batch-topk-candidate#" ++ batchKey ++ text "#node-" ++ decimal nodeId.toNat),
      nodeId)
  ((scores.insertionSort scoreLe).take topK.toNat).map Prod.snd

def batchTopKRouteKeys (nodeIds : List NodeId) (topK : UInt64) (keys : List CacheKey) : Routes :=
  let candidates := selectCandidates hash nodeIds topK (buildBatchKey keys)
  if candidates.isEmpty then .empty
  else
    keys.zipIdx.foldl (fun routes entry =>
      let choice := (hash (text "batch-topk-key#" ++ entry.1)).toNat % candidates.length
      Grouping.add routes (candidates[choice]?.getD kInvalidNodeId) entry.2) .empty

def routeKeys (strategy : Strategy) (keys : List CacheKey) : Routes :=
  match strategy with
  | .fullSpread router => router.routeKeys hash keys
  | .contiguousBlockAffinity _ none => .empty
  | .contiguousBlockAffinity blockCount (some router) =>
    contiguousRouteKeys hash blockCount router keys
  | .batchTopKAffinity nodeIds topK => batchTopKRouteKeys hash nodeIds topK keys

def createFullSpreadRouter (nodeIds : List NodeId) (config : RouterConfig) (type : RouterType) :
    Option FullSpreadRouter :=
  match type with
  | .maglevFullSpread => (buildMaglev hash nodeIds config.tableSize).map .maglev
  | .ringHashFullSpread => some (.ringHash (buildRing hash nodeIds config.virtualNodeCount))
  | _ => none

def createRouter (nodeIds : List NodeId) (config : RouterConfig) : Option Strategy :=
  match config.type with
  | .maglevFullSpread | .ringHashFullSpread =>
    (createFullSpreadRouter hash nodeIds config config.type).map .fullSpread
  | .contiguousBlockAffinity =>
    some (.contiguousBlockAffinity (if config.blockCount = 0 then 1 else config.blockCount)
      (createFullSpreadRouter hash nodeIds config config.fullSpreadType))
  | .batchTopKAffinity =>
    some (.batchTopKAffinity (normalizeNodeIds nodeIds)
      (if config.topK = 0 then 1 else config.topK))

end UnifiedCache.Router
