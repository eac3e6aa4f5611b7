import UnifiedCache.Store.TaskWrapper

/-! The buffer that the load and dump queues of a cache store share, in both cores: the
`TransBuffer` of `cc` and the `Buffer` of `v2`. A node holds one shard, counts the handles
on it and says how far it is filled. `Get`, `Prealloc` and a handle's end are one step each;
the choice of the node that is given another key is an input. -/
namespace UnifiedCache.Cache
open Store

inductive Core where
  | cc | v2
  deriving DecidableEq

structure Key where
  block : BlockId
  shard : Nat
  deriving DecidableEq

inductive State where
  | LOADING | READY | FAILED
  deriving DecidableEq

structure Node where
  key : Option Key := none
  reference : Nat := 0
  state : State := .LOADING

structure Handle where
  node : Nat
  owner : Bool
  deriving DecidableEq

structure Buffer where
  size : Nat
  nodes : Nat → Node := fun _ => {}

/-- What a call of `Get` says: the key, whether the hits of a load are bypassed, and whether
the caller may become the owner. -/
structure Request where
  key : Key
  bypass : Bool := false
  mayOwn : Bool := true

def Core.owns (core : Core) (request : Request) (node : Node) : Bool :=
  match core with
  | .cc => node.reference = 0
  | .v2 => request.mayOwn && node.reference = 0 && node.state ≠ .READY

/-- A preallocated slot is left to the rank that is to fill it. -/
def Core.passes (core : Core) (request : Request) (node : Node) : Bool :=
  match core with
  | .cc => true
  | .v2 => request.mayOwn || node.reference ≠ 0 || node.state ≠ .LOADING

/-- A new owner starts over after a failure, and where it bypasses a hit. -/
def Core.renewed (core : Core) (request : Request) (node : Node) : State :=
  if core.owns request node ∧
      (node.state = .FAILED ∨ (request.bypass = true ∧ node.state = .READY)) then .LOADING
  else node.state

namespace Buffer

def set (index : Nat) (node : Node) (buffer : Buffer) : Buffer :=
  { buffer with nodes := Function.update buffer.nodes index node }

def find (key : Key) (buffer : Buffer) : Option Nat :=
  (List.range buffer.size).find? fun index => (buffer.nodes index).key = some key

/-- Whether `Alloc` may take a node. -/
def free (index : Nat) (buffer : Buffer) : Bool :=
  index < buffer.size && (buffer.nodes index).reference = 0

/-- The node that `Alloc` hands out, with the references it starts with. -/
def alloc (key : Key) (reference : Nat) (victim : Nat) (buffer : Buffer) : Buffer :=
  buffer.set victim ⟨some key, reference, .LOADING⟩

def pin (core : Core) (request : Request) (index : Nat) (buffer : Buffer) : Handle × Buffer :=
  (⟨index, core.owns request (buffer.nodes index)⟩,
    buffer.set index ⟨(buffer.nodes index).key, (buffer.nodes index).reference + 1,
      core.renewed request (buffer.nodes index)⟩)

/-- `Get`; there is no result while it has to try again. -/
def get (core : Core) (request : Request) (victim : Nat) (buffer : Buffer) :
    Option (Handle × Buffer) :=
  match buffer.find request.key with
  | some index =>
    if core.passes request (buffer.nodes index) then some (buffer.pin core request index) else none
  | none =>
    if request.mayOwn && buffer.free victim then
      some (⟨victim, true⟩, buffer.alloc request.key 1 victim)
    else none

/-- `Prealloc`; in `v2` it may give up, which is a choice of no victim. -/
def prealloc (core : Core) (key : Key) (victim : Option Nat) (buffer : Buffer) : Option Buffer :=
  if (buffer.find key).isSome then some buffer
  else
    match victim with
    | some index => if buffer.free index then some (buffer.alloc key 0 index) else none
    | none => if core = .v2 then some buffer else none

def mark (index : Nat) (state : State) (buffer : Buffer) : Buffer :=
  buffer.set index { buffer.nodes index with state }

/-- `MarkReady` and `MarkFailed` of a handle; in `v2` only an owner's takes effect. -/
def markBy (core : Core) (handle : Handle) (state : State) (buffer : Buffer) : Buffer :=
  if core = .v2 ∧ handle.owner = false then buffer else buffer.mark handle.node state

/-- The end of a handle: in `v2` an owner that has not filled its slot fails it. -/
def release (core : Core) (handle : Handle) (buffer : Buffer) : Buffer :=
  let node := buffer.nodes handle.node
  buffer.set handle.node ⟨node.key, node.reference - 1,
    if core = .v2 ∧ handle.owner = true ∧ node.state = .LOADING then .FAILED else node.state⟩

inductive Gets (core : Core) (request : Request) (victim : Nat) (buffer : Buffer) :
    Handle → Buffer → Prop where
  | hit : buffer.find request.key = some index → core.passes request (buffer.nodes index) = true →
    Gets core request victim buffer ⟨index, core.owns request (buffer.nodes index)⟩
      (buffer.pin core request index).2
  | miss : buffer.find request.key = none → request.mayOwn = true → buffer.free victim = true →
    Gets core request victim buffer ⟨victim, true⟩ (buffer.alloc request.key 1 victim)

variable {core : Core} {req : Request} {victim index : Nat} {buf next : Buffer}
  {got : Handle}

theorem Gets.of_get (h : buf.get core req victim = some (got, next)) :
    Gets core req victim buf got next := by
  unfold get at h
  split at h
  · rename_i hf
    split at h
    · rename_i hp
      cases h
      exact .hit hf hp
    · cases h
  rename_i hf
  split at h
  · rename_i hr
    rw [Bool.and_eq_true] at hr
    cases h
    exact .miss hf hr.1 hr.2
  · cases h

theorem find_key {key : Key} (h : buf.find key = some index) :
    index < buf.size ∧ (buf.nodes index).key = some key := by
  have hk := List.find?_some h
  exact ⟨List.mem_range.1 (List.mem_of_find?_eq_some h), by simpa using hk⟩

@[simp] theorem nodes_set (n : Node) (buf : Buffer) (idx other : Nat) :
    (buf.set idx n).nodes other = if other = idx then n else buf.nodes other :=
  Function.update_apply _ _ _ _

def references (buffer : Buffer) (index : Nat) : Nat := (buffer.nodes index).reference

theorem references_get (h : buf.get core req victim = some (got, next)) (idx : Nat) :
    next.references idx = buf.references idx + if got.node = idx then 1 else 0 := by
  cases Gets.of_get h with
  | hit =>
    unfold references pin
    rw [nodes_set]
    split
    · rename_i he
      rw [if_pos he.symm, he]
    · rename_i hn
      rw [if_neg (Ne.symm hn), Nat.add_zero]
  | miss _ _ hf =>
    unfold references alloc
    rw [nodes_set]
    simp only [free, Bool.and_eq_true, decide_eq_true_eq] at hf
    split
    · rename_i he
      rw [if_pos he.symm, he, hf.2]
    · rename_i hn
      rw [if_neg (Ne.symm hn), Nat.add_zero]

theorem references_prealloc {key : Key} {c : Option Nat}
    (h : buf.prealloc core key c = some next) : next.references = buf.references := by
  unfold prealloc at h
  split at h
  · cases h
    rfl
  split at h
  · split at h
    · rename_i hf
      cases h
      simp only [free, Bool.and_eq_true, decide_eq_true_eq] at hf
      funext index
      unfold references alloc
      rw [nodes_set]
      split
      · rename_i he
        rw [he, hf.2]
      · rfl
    · cases h
  · split at h
    · cases h
      rfl
    · cases h

@[simp] theorem references_mark (idx : Nat) (s : State) (buf : Buffer) :
    (buf.mark idx s).references = buf.references := by
  funext o
  unfold references mark
  rw [nodes_set]
  split
  · rename_i he
    rw [he]
  · rfl

@[simp] theorem references_markBy (core : Core) (handle : Handle) (s : State) (buf : Buffer) :
    (buf.markBy core handle s).references = buf.references := by
  unfold markBy
  split
  · rfl
  · exact references_mark _ _ _

@[simp] theorem references_release (core : Core) (handle : Handle) (buf : Buffer) (idx : Nat) :
    (buf.release core handle).references idx =
      buf.references idx - if handle.node = idx then 1 else 0 := by
  unfold references release
  rw [nodes_set]
  split
  · rename_i he
    rw [if_pos he.symm, he]
  · rename_i hn
    rw [if_neg (Ne.symm hn), Nat.sub_zero]

end Buffer
end UnifiedCache.Cache
