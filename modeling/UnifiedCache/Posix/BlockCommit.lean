import Mathlib.Data.Nat.Bitwise
import UnifiedCache.Lib.Transition
import UnifiedCache.Store.TaskWrapper

/-! Dumps of the POSIX store. The workers of a block write their shards into one file
under the activated path; the worker whose mark completes the block renames the file to
the archived path. All dumps of a block go to its primary backend, so a block has one
pair of paths. -/
namespace UnifiedCache.Posix
open Store Function

inductive IoEngine where
  | psync
  | aio

structure Config where
  ioEngine : IoEngine := .psync
  tensorSize : Nat
  shardSize : Nat
  blockSize : Nat

def Config.nShardPerBlock (config : Config) : Nat := config.blockSize / config.shardSize

def Config.pieces (config : Config) : Nat :=
  match config.ioEngine with
  | .psync => config.shardSize / config.tensorSize
  | .aio => 1

/-! `BlockCommitTracker`: the shards that were written to an inode, as bits of 64-bit words. -/

def nWords (nShardPerBlock : Nat) : Nat := (nShardPerBlock + 63) / 64

def fullMask (nShardPerBlock word : Nat) : Nat :=
  1 <<< min 64 (nShardPerBlock - word * 64) - 1

/-- Inode numbers; zero stands for a failed `stat`. -/
abbrev Ino := Nat

structure BlockCommitTracker where
  map : BlockId → Ino → Option (List Nat) := fun _ _ => none

namespace BlockCommitTracker

def complete (nShardPerBlock : Nat) (bits : List Nat) : Bool :=
  (List.range (nWords nShardPerBlock)).all fun word =>
    bits.getD word 0 = fullMask nShardPerBlock word

def set (id : BlockId) (ino : Ino) (entry : Option (List Nat)) (tracker : BlockCommitTracker) :
    BlockCommitTracker :=
  { map := update tracker.map id (update (tracker.map id) ino entry) }

def markDone (nShardPerBlock : Nat) (id : BlockId) (index : Nat) (ino : Ino)
    (tracker : BlockCommitTracker) : BlockCommitTracker × Bool :=
  if nShardPerBlock ≤ index then (tracker, false)
  else
    let bits := ((tracker.map id ino).getD (List.replicate (nWords nShardPerBlock) 0)).modify
      (index / 64) fun word => word ||| 1 <<< (index % 64)
    if complete nShardPerBlock bits then (tracker.set id ino none, true)
    else (tracker.set id ino (some bits), false)

end BlockCommitTracker

structure File where
  owner : BlockId
  ino : Ino
  written : List (Nat × Nat) := []
  deriving DecidableEq

inductive Stage where
  | opening
  /-- The file is open; its number is not known yet. -/
  | opened (file : Nat)
  /-- Before the piece `next`. -/
  | writing (file : Nat) (ino : Ino) (next : Nat)
  /-- The shard is written and the file is closed. -/
  | closed (ino : Ino)
  /-- `MarkDone` has found the block complete. -/
  | checking (ino : Ino)
  /-- The path had the inode; the rename comes next. -/
  | committing (ino : Ino)
  /-- The activated file is to be removed. -/
  | removing
  | finished
  deriving DecidableEq

structure Worker where
  owner : BlockId
  index : Nat
  stage : Stage := .opening

def Worker.file? (worker : Worker) : Option Nat :=
  match worker.stage with
  | .opened file => some file
  | .writing file _ _ => some file
  | _ => none

def Worker.ino? (worker : Worker) : Option Ino :=
  match worker.stage with
  | .closed ino => some ino
  | .checking ino => some ino
  | .committing ino => some ino
  | _ => none

def Worker.commits (worker : Worker) : Bool :=
  match worker.stage with
  | .committing _ => true
  | _ => false

structure Storage where
  tracker : BlockCommitTracker := {}
  files : List File := []
  activated : BlockId → Option Nat := fun _ => none
  archived : BlockId → Option Nat := fun _ => none
  workers : List Worker := []
  /-- The file that last got a number; no code reads it. -/
  current : BlockId → Ino → Option Nat := fun _ _ => none
  /-- The files that were renamed to an archived path; no code reads it. -/
  published : List Nat := []

namespace Storage

def setStage (worker : Nat) (stage : Stage) (storage : Storage) : Storage :=
  { storage with workers := storage.workers.modify worker fun found => { found with stage } }

def live (file : Nat) (storage : Storage) : Bool :=
  match storage.files[file]? with
  | some found => storage.activated found.owner = some file ∨ storage.archived found.owner = some file ∨
      storage.workers.any fun worker => worker.file? = some file
  | none => false

/-- Whether the file system may give a new file this number. -/
def free (ino : Ino) (storage : Storage) : Bool :=
  ino ≠ 0 ∧ (List.range storage.files.length).all fun file =>
    !(storage.live file && decide ((storage.files[file]?.map File.ino) = some ino))

def failureStage (config : Config) (index : Nat) : Stage :=
  if index + 1 = config.nShardPerBlock then .removing else .finished

/-- After the last write; the asynchronous engine looks once more whether the task has failed. -/
def closedStage (config : Config) (index : Nat) (ino : Ino) (ok : Bool) : Stage :=
  match config.ioEngine, ok with
  | .aio, false => failureStage config index
  | _, _ => .closed ino

def create (owner : BlockId) (ino : Ino) (storage : Storage) : Storage :=
  { storage with
    files := storage.files ++ [{ owner, ino }]
    activated := update storage.activated owner (some storage.files.length)
    current := update storage.current owner
      (update (storage.current owner) ino (some storage.files.length)) }

/-- `open` with `O_CREAT`. -/
def openFile (config : Config) (index : Nat) (worker : Worker) (ino : Ino) (ok : Bool)
    (storage : Storage) : Option Storage :=
  if ¬ok then some (storage.setStage index (failureStage config worker.index))
  else
    match storage.activated worker.owner with
    | some file => some (storage.setStage index (.opened file))
    | none =>
      if storage.free ino then
        some ((storage.create worker.owner ino).setStage index (.opened storage.files.length))
      else none

/-- `InoOf`; a failed call gives zero. -/
def inoOf (file : Option Nat) (ok : Bool) (storage : Storage) : Ino :=
  match ok, file with
  | true, some file => ((storage.files[file]?).map File.ino).getD 0
  | _, _ => 0

def rename (owner : BlockId) (file : Nat) (storage : Storage) : Storage :=
  { storage with
    activated := update storage.activated owner none
    archived := update storage.archived owner (some file)
    published := storage.published ++ [file] }

def remove (owner : BlockId) (storage : Storage) : Storage :=
  { storage with activated := update storage.activated owner none }

def write (file index piece : Nat) (storage : Storage) : Storage :=
  { storage with
    files := storage.files.modify file fun found =>
      { found with written := found.written ++ [(index, piece)] } }

/-- `CommitFile` for a complete block. -/
def commitFile (index : Nat) (worker : Worker) (ok : Bool) (storage : Storage) : Storage :=
  match ok, storage.activated worker.owner with
  | true, some file => (storage.rename worker.owner file).setStage index .finished
  | _, _ => storage.setStage index .removing

/-- A step of the worker at `index`; `ino` is the number a new file gets, and `ok` tells
whether the call succeeds. -/
def work (config : Config) (index : Nat) (worker : Worker) (ino : Ino) (ok : Bool)
    (storage : Storage) : Option Storage :=
  match worker.stage with
  | .opening => storage.openFile config index worker ino ok
  | .opened file => some (storage.setStage index (.writing file (storage.inoOf (some file) ok) 0))
  | .writing file number next =>
    if config.pieces ≤ next then some (storage.setStage index (closedStage config worker.index number ok))
    else if ok then
      some ((storage.write file worker.index next).setStage index (.writing file number (next + 1)))
    else some (storage.setStage index (failureStage config worker.index))
  | .closed number =>
    let result := storage.tracker.markDone config.nShardPerBlock worker.owner worker.index number
    some (({ storage with tracker := result.1 } : Storage).setStage index
      (if result.2 then .checking number else .finished))
  | .checking number =>
    some (storage.setStage index
      (if number ≠ 0 ∧ storage.inoOf (storage.activated worker.owner) ok = number
        then .committing number else .finished))
  | .committing _ => some (storage.commitFile index worker ok)
  | .removing =>
    some ((if ok then storage.remove worker.owner else storage).setStage index .finished)
  | .finished => none

inductive Label where
  | dump (owner : BlockId) (index : Nat)
  | work (index : Nat) (ino : Ino) (ok : Bool)
  | recycle (owner : BlockId)

def perform (config : Config) (storage : Storage) : Label → Option Storage
  | .dump owner index => some { storage with workers := storage.workers ++ [{ owner, index }] }
  | .work index ino ok =>
    match storage.workers[index]? with
    | some worker => storage.work config index worker ino ok
    | none => none
  | .recycle owner =>
    some { storage with archived := update storage.archived owner none }

def system (config : Config) : Transition.System Storage Label where
  init storage := storage = {}
  step storage label next := storage.perform config label = some next

end Storage
end UnifiedCache.Posix
