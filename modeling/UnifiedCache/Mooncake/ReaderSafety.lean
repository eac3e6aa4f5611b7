import UnifiedCache.Mooncake.Execution
import UnifiedCache.Mooncake.SharedSlots

/-! Readers of the shared buffer over whole runs of a host. -/
namespace UnifiedCache.Mooncake
open List Function Host BlockTask Vector
open Store
variable {hash : Key → UInt64} {config : Config} {used : Slice → Prop} {host got next : Host}
  {before after : List BlockTask} {task : BlockTask} {index : Nat} {handle : TaskHandle}

def digest (hash : Key → UInt64) (slice : Slice) : ShareBlockId :=
  .set hash (shardKey slice)

namespace Apart
variable {proc : Process}

theorem shards_update {p : Nat → Process} (ht : proc.wrapper.task? = (p index).wrapper.task?)
    (o : Nat) (handle : TaskHandle) : (update p index proc o).shards handle =
    (p o).shards handle := by
  by_cases he : o = index
  · subst he
    rw [update_self, Process.shards_congr ht]
  · rw [update_of_ne he]

theorem setProcess (h : Apart (digest hash) used host)
    (ht : proc.wrapper.task? = (host.processes index).wrapper.task?) :
    Apart (digest hash) used (host.setProcess index proc) := by
  refine { h with shards := ?_ }
  intro o handle shard hs
  exact h.shards o handle shard (shards_update ht o handle ▸ hs)

@[simp] theorem readersAt_push (t : List BlockTask) (task : BlockTask) (pos : Nat) :
    readersAt (t ++ [task]) pos =
      if task.reader = some pos then readersAt t pos ++ [task] else readersAt t pos := by
  unfold readersAt
  rw [filter_append]
  split <;> simp_all

variable {reader : Option Nat}

theorem push (h : Apart (digest hash) used host) {s : Slice}
    (hg : host.acquired hash config (shardKey s) = (got, reader)) (hs : task.slice = s)
    (hr : task.reader = reader) (hsg : task.stage = .made) (hh : task.backendTaskHandle = 0)
    (hu : used s) : Apart (digest hash) used (got.push [task]) := by
  subst hs hr
  have hl : task.role = .other := by simp [role, hsg]
  have ha := used_set hash task.slice
  have hac := host.headers.acquireBlock_acquired hash config.shareBufferNumber (shardKey task.slice)
  unfold acquired at hg
  generalize host.headers.acquireBlock hash config.shareBufferNumber (shardKey task.slice) =
    result at hac hg
  obtain ⟨rfl, hr⟩ := Prod.mk.inj hg
  constructor
  · intro pos
    have hf := h.fits pos
    change Fits _ _ (result.1 pos) (host.mem pos) (readersAt (host.tasks ++ [task]) pos)
    rw [readersAt_push, ← hr]
    cases hac with
    | full => exact hf
    | hit sl _ hd =>
      dsimp only
      by_cases he : pos = sl
      · subst he
        rw [if_pos rfl, update_self]
        exact hf.hit hd hu ha hl
      · rw [if_neg (by simpa using Ne.symm he), update_of_ne he]
        exact hf
    | taken sl _ hfr =>
      dsimp only
      by_cases he : pos = sl
      · subst he
        obtain ⟨hn, hta⟩ := hf.taken hfr hu ha hl
        rw [if_pos rfl, update_self, hn]
        exact hta
      · rw [if_neg (by simpa using Ne.symm he), update_of_ne he]
        exact hf
  · intro o ht hn hc
    obtain ho | hne := mem_append.1 ht
    · exact h.own o ho hn hc
    · rw [mem_singleton.1 hne, hl] at hc
      cases hc
  · intro o ht hp
    obtain ho | hne := mem_append.1 ht
    · exact h.pending o ho hp
    · rw [mem_singleton.1 hne] at hp
      exact absurd hh hp
  · exact h.shards

theorem processes_acquired {key : Key} (hg : host.acquired hash config key = (got, reader)) :
    got.processes = host.processes :=
  (congrArg (fun r => r.1.processes) hg).symm

section
variable (h : Apart (digest hash) used host)
include h

theorem full {key : Key} (hg : host.acquired hash config key = (got, none)) :
    Apart (digest hash) used got := by
  have ha := host.headers.acquireBlock_acquired hash config.shareBufferNumber key
  unfold acquired at hg
  generalize host.headers.acquireBlock hash config.shareBufferNumber key = result at ha hg
  obtain ⟨rfl, hr⟩ := Prod.mk.inj hg
  cases ha with
  | full => exact { h with }
  | hit | taken => cases hr

theorem mapTasks {change : BlockTask → BlockTask} (hs : ∀ task, (change task).slice = task.slice)
    (hr : ∀ task, (change task).role = task.role) (hd : ∀ task, (change task).reader = task.reader)
    (ha : ∀ task, (change task).data = task.data)
    (hh : ∀ task, (change task).backendTaskHandle = task.backendTaskHandle) :
    Apart (digest hash) used { host with tasks := host.tasks.map change } := by
  constructor
  · intro pos
    have he : readersAt (host.tasks.map change) pos = (readersAt host.tasks pos).map change := by
      unfold readersAt
      rw [filter_map]
      simp only [comp_def, hd]
    rw [he]
    exact (h.fits pos).map hs hr
  · intro task hm hn hc
    obtain ⟨k, hk, rfl⟩ := mem_map.1 hm
    rw [ha, hs]
    exact h.own k hk ((hd k).symm.trans hn) ((hr k).symm.trans hc)
  · intro task hm hp
    obtain ⟨k, hk, rfl⟩ := mem_map.1 hm
    rw [hr]
    exact h.pending k hk ((hh k) ▸ hp)
  · exact h.shards

theorem restage {s : Stage} (hs : s = .queued ∨ s = .finished) (idx : Nat)
    (handle : TaskHandle) : Apart (digest hash) used (host.restage idx handle s) := by
  apply h.mapTasks
  · intro task
    split <;> rfl
  · intro task
    split
    · rename_i hm
      have hm : task.stage = .made := by
        unfold isMade at hm
        simp only [decide_eq_true_eq] at hm
        exact hm.2.2
      obtain rfl | rfl := hs <;> simp [role, hm]
    · rfl
  · intro task
    split <;> rfl
  · intro task
    split <;> rfl
  · intro task
    split <;> rfl

theorem release (ht : host.tasks = before ++ task :: after) :
    Apart (digest hash) used (host.without before after task) := by
  have hs : ∀ o ∈ before ++ after, o ∈ host.tasks := by
    intro o ho
    rw [ht]
    exact (List.Sublist.append_left (sublist_cons_self _ _) _).subset ho
  refine ⟨?_, fun o ho => h.own o (hs o ho), fun o ho => h.pending o (hs o ho), h.shards⟩
  intro pos
  have hf := h.fits pos
  rw [ht] at hf
  unfold Host.without
  dsimp only
  have hre : readersAt (before ++ after) pos = readersAt before pos ++ readersAt after pos :=
    filter_append ..
  rw [hre]
  cases hr : task.reader with
  | none =>
    rw [readersAt_other (by rw [hr]; simp)] at hf
    exact hf
  | some s =>
    dsimp only
    unfold Headers.releaseBlock
    by_cases he : pos = s
    · subst he
      rw [readersAt_self hr] at hf
      rw [update_self]
      exact hf.release
    · rw [readersAt_other (by rw [hr]; simpa using Ne.symm he)] at hf
      rw [update_of_ne he]
      exact hf

end
end Apart

/-- The shards that a step brings are among those that are told apart, no worker meets a
failed load that it would leave behind, a call that fails has come to its end, and no queue is
destroyed with a load under way. -/
def orderly (used : Slice → Prop) (host : Host) (label : Host.Label) (_ : Host) : Prop :=
  (∀ index desc, label = .act index (.submit desc) →
    ∀ shard ∈ desc, used (shard.owner, shard.index)) ∧
  (∀ task answer, label = .advance task answer → answer.settled = true ∧
    (task.stage = .completing →
      (host.processes task.process).failed task.taskHandle = false)) ∧
  ∀ task, label = .discard task → task.backendTaskHandle = 0

variable {answer : Answer}

theorem advance_leaves {backend failed : Bool} {status : ShareBlockStatus} {move : Advance}
    (hm : task.advance backend failed status answer = some move) (hsettled : answer.settled = true)
    (hk : task.stage = .completing → failed = false) :
    move.abandons = false ∧ move.strays = false := by
  have hc : (copyFrom answer).abandons = false ∧ (copyFrom answer).strays = false := by
    unfold copyFrom
    split <;> simp [hsettled]
  unfold advance at hm
  split at hm
  case h_5 hs =>
    rw [hk hs, if_neg Bool.false_ne_true] at hm
    split at hm <;> cases hm <;> simp [hsettled]
  all_goals repeat' split at hm
  all_goals cases hm
  all_goals first | exact ⟨rfl, rfl⟩ | exact hc | simp [hsettled]

variable {desc : List Shard} {shard : TransShard}

theorem mem_buildShards (h : shard ∈ buildShards config desc) :
    shard.key = shardKey shard.slice ∧ ∃ source ∈ desc, shard.slice =
    (source.owner, source.index) := by
  obtain ⟨source, hs, rfl⟩ := mem_map.1 h
  exact ⟨rfl, source, hs, rfl⟩

theorem Process.shards_submit {proc : Process}
    (h : shard ∈ (proc.submit config desc).shards handle) :
    shard ∈ proc.shards handle ∨ shard ∈ buildShards config desc := by
  unfold shards at h
  rw [task?_submit] at h
  by_cases he : handle = proc.nextId
  · rw [he, update_self] at h
    exact .inr h
  · rw [update_of_ne he] at h
    exact .inl h

theorem Apart.submit (h : Apart (digest hash) used host) (hu : ∀ shard ∈ desc, used (shard.owner,
    shard.index)) (idx : Nat) : Apart (digest hash) used
    (host.setProcess idx ((host.processes idx).submit config desc)) := by
  refine { h with shards := ?_ }
  intro o handle shard hs
  change shard ∈ (update host.processes idx _ o).shards handle at hs
  by_cases he : o = idx
  · subst he
    rw [update_self] at hs
    obtain ho | hn := Process.shards_submit hs
    · exact h.shards o handle shard ho
    · obtain ⟨hk, source, hso, hl⟩ := mem_buildShards hn
      rw [hl]
      exact ⟨hu source hso, hl ▸ hk⟩
  · rw [update_of_ne he] at hs
    exact h.shards o handle shard hs

theorem Apart.poll (h : Apart (digest hash) used host)
    (ht : host.tasks = before ++ task :: after) (hh : task.backendTaskHandle = 0) :
    Apart (digest hash) used
      { host.moved before after task (.ready (host.poll task)) with
        headers := if host.poll task = .DuplicateKey then host.headers.mark task.reader .LOADING
          else host.headers } := by
  let changed : BlockTask := { task with stage := .ready (host.poll task) }
  have hn : ({ host.moved before after task (.ready (host.poll task)) with
      headers := if host.poll task = .DuplicateKey then host.headers.mark task.reader .LOADING
        else host.headers } : Host).tasks = before ++ changed :: after := rfl
  apply h.change ht hn rfl
  · intro pos o m hr hf
    have hk : changed.role ≠ .owner := by
      unfold BlockTask.role
      dsimp only [changed]
      split <;> simp
    by_cases hs : (host.headers pos).status = .INIT
    · have hp : host.poll task = .DuplicateKey := by simp [Host.poll, hr, hs]
      have hl : changed.role = .other := by simp [BlockTask.role, changed, hp]; rfl
      rw [if_pos hp, hr]
      unfold Headers.mark
      dsimp only
      rw [update_self]
      exact hf.mark (by rfl) (hf.others (.inr hs)) (by rw [hl]; rfl) (by intro hd; cases hd)
    · have hp : host.poll task ≠ .DuplicateKey ∧
          (host.headers pos).status.admits changed.role = true := by
        unfold BlockTask.role
        simp only [changed, Host.poll, hr]
        generalize (host.headers pos).status = s at hs
        cases s with
        | INIT => exact absurd rfl hs
        | _ => decide
      rw [if_neg hp.1]
      exact hf.replace (by rfl) hp.2 fun ho => absurd ho hk
  · intro pos hot
    refine ⟨?_, rfl⟩
    split
    · cases hr : task.reader with
      | none => rfl
      | some => exact update_of_ne (by rintro rfl; exact hot hr) _ _
    · rfl
  · intro hr hc
    have hno : task.reader = none := hr
    have hp : host.poll task = .DuplicateKey := by simp [Host.poll, hno]
    simp [BlockTask.role, changed, hp] at hc
    cases hc
  · exact fun he => absurd hh he
  · exact fun _ _ => rfl

@[simp] theorem task?_processAfter (task : BlockTask) (m : Advance) (host : Host) :
    (host.processAfter task m).wrapper.task? = (host.processes task.process).wrapper.task? := by
  unfold processAfter
  dsimp only
  split
  · rw [Process.task?_blockDone]
    split <;> rfl
  · split <;> rfl

theorem Apart.advance (h : Apart (digest hash) used host)
    (ht : host.tasks = before ++ task :: after) {move : Advance}
    (hv : task.advance config.backend ((host.processes task.process).failed task.taskHandle)
      (host.status task) answer = some move) :
    Apart (digest hash) used (host.advanced before after task move) := by
  have hm : task ∈ host.tasks := by simp [ht]
  have hn : (host.advanced before after task move).tasks = before ++ task.become move :: after :=
    rfl
  apply h.change ht hn rfl
  · intro pos o m hr hf
    have hs : host.status task = (host.headers pos).status := by
      unfold status
      rw [hr]
    rw [hs] at hv
    unfold advanced
    rw [hr]
    dsimp only
    rw [update_self, update_self]
    exact advance_fits hr hf hv
  · intro pos ho
    unfold advanced
    cases hr : task.reader with
    | none => exact ⟨rfl, rfl⟩
    | some slot =>
      have he : pos ≠ slot := by
        rintro rfl
        exact ho hr
      exact ⟨update_of_ne he _ _, update_of_ne he _ _⟩
  · intro hr hc
    exact advance_own hr hv (h.own task hm hr) hc
  · exact advance_pending hv
  · exact shards_update (task?_processAfter task move host)

variable {label : Host.Label}

/-- Nobody reads or writes a slot who is not among its readers. -/
structure Host.Settled (host : Host) : Prop where
  abandoned : host.abandoned = []
  strays : host.strays = []

theorem Host.Step.settled (h : host.Settled) (hs : Host.Step hash config host label next)
    (ho : orderly used host label next) : next.Settled := by
  obtain ⟨ha, ht⟩ := h
  cases hs with
  | makeReader _ _ hg | makeNone _ _ hg =>
    exact ⟨(congrArg (fun result => result.1.abandoned) hg).symm.trans ha,
      (congrArg (fun result => result.1.strays) hg).symm.trans ht⟩
  | @advance before task after move answer _ hm =>
    obtain ⟨hsettled, hk⟩ := ho.2.1 _ _ rfl
    obtain ⟨hab, hst⟩ := advance_leaves hm hsettled hk
    constructor
    · change host.abandoned ++ leftBy task move.abandons = []
      rw [ha, hab]
      simp [leftBy]
    · change host.strays ++ leftBy task move.strays = []
      rw [ht, hst]
      simp [leftBy]
  | discard =>
    refine ⟨?_, ht⟩
    dsimp only
    rw [ha, ho.2.2 _ rfl]
    simp [leftBy]
  | _ => exact ⟨ha, ht⟩

theorem Host.Step.apart (h : Apart (digest hash) used host) (hw : host.Settled)
    (hs : Host.Step hash config host label next) (hsu : ∀ index desc,
      label = .act index (.submit desc) → ∀ shard ∈ desc, used (shard.owner, shard.index)) : Apart
    (digest hash) used next := by
  cases hs with
  | @act index act _ ha =>
    cases act with
    | submit desc =>
      cases ha
      exact h.submit (hsu index desc rfl) index
    | _ => exact h.setProcess (Process.act_task? ha (by simp))
  | @makeReader index handle position _ shard got reader _ hsh hg =>
    obtain ⟨hu, hk⟩ := h.shards _ _ _ (mem_of_getElem? hsh)
    rw [hk] at hg
    have hp : Apart (digest hash) used (got.push [made index handle shard reader]) :=
      h.push hg rfl rfl rfl rfl hu
    apply hp.setProcess
    change _ = (got.processes index).wrapper.task?
    rw [Apart.processes_acquired hg]
  | @makeNone index handle position _ shard got reader _ hsh hg =>
    obtain ⟨hu, hk⟩ := h.shards _ _ _ (mem_of_getElem? hsh)
    rw [hk] at hg
    have hp : Apart (digest hash) used (got.push
        (reader.map fun pos => made index handle shard (some pos)).toList) := by
      cases reader with
      | none =>
        have hf := h.full hg
        exact ⟨by simpa [push] using hf.fits, by simpa [push] using hf.own,
          by simpa [push] using hf.pending, hf.shards⟩
      | some => exact h.push hg rfl rfl rfl rfl hu
    apply (hp.restage (.inr rfl) index handle).setProcess
    change _ = (got.processes index).wrapper.task?
    rw [Apart.processes_acquired hg]
    exact Process.task?_complete _ _
  | splice =>
    exact (h.restage (.inl rfl) _ _).setProcess rfl
  | takeQueued ht hsg =>
    apply h.moved ht (.inl rfl)
    intro hh
    have ho := h.pending _ (by simp [ht]) hh
    simp [role, hsg] at ho
  | takeListed ht hsg hh =>
    apply h.moved ht
    · right
      simp [role, hsg, hh]
    · exact fun _ => rfl
  | poll ht _ hh => exact h.poll ht hh
  | advance _ ht hv =>
    exact h.advance ht hv
  | release ht => exact h.release ht
  | discard ht => exact { h.release ht with }
  | @write task pos hm hh hr =>
    refine { h with fits := ?_ }
    intro s
    by_cases he : s = pos
    · subst he
      exact (h.fits s).write (mem_readersAt.2 ⟨hm, hr⟩) (h.pending task hm hh) _
    · change Fits _ _ _ (update host.mem pos _ s) _
      rw [update_of_ne he]
      exact h.fits s
  | writeLate hl =>
    rw [hw.abandoned] at hl
    cases hl
  | wait hwt => exact h.setProcess hwt.task?_eq

def settles : Host.Label → Bool
  | .advance _ answer => answer.settled
  | _ => true

def obliging : Answer :=
  { submit := some 7, waited := true, copied := true, synced := true, settled := true }

def claiming (place : Nat) : List Host.Move :=
  [.takeQueued place, .advance place obliging, .advance place obliging, .advance place obliging]

def copying (place : Nat) : List Host.Move :=
  [.takeListed place, .advance place obliging, .advance place obliging]

def timedOut : Answer := { obliging with waited := false, settled := false }

end UnifiedCache.Mooncake
