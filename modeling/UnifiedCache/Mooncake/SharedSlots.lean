import UnifiedCache.Mooncake.ShareLoadQueue

/-! What a slot of the shared buffer holds, and for whom. A slot is described by its
header, its bytes and the readers that are alive on it. -/
namespace UnifiedCache.Mooncake
open List BlockTask ShareBlockStatus
open Store

inductive Role where
  | owner
  | copier
  | failer
  | other
  deriving DecidableEq

def BlockTask.role (task : BlockTask) : Role :=
  match task.stage with
  | .owning => .owner
  | .listed => if task.backendTaskHandle ≠ 0 then .owner else .other
  | .completing => .owner
  | .ready status => if status.success then .copier else .other
  | .loaded => .copier
  | .copying => .copier
  | .failing => .failer
  | _ => .other

def ShareBlockStatus.admits (status : ShareBlockStatus) (role : Role) : Bool :=
  match status, role with
  | _, .other => true
  | .LOADING, .owner => true
  | .LOADED, .copier => true
  | .FAILURE, .failer => true
  | _, _ => false

namespace ShareBlockStatus
variable {status : ShareBlockStatus}

theorem admits_owner (h : status.admits .owner = true) : status = .LOADING := by
  cases status <;> first | rfl | cases h

theorem admits_copier (h : status.admits .copier = true) : status = .LOADED := by
  cases status <;> first | rfl | cases h

theorem admits_failer (h : status.admits .failer = true) : status = .FAILURE := by
  cases status <;> first | rfl | cases h

theorem admits_init {r : Role} (h : INIT.admits r = true) : r = .other := by
  cases r <;> first | rfl | cases h

@[simp] theorem admits_other (status : ShareBlockStatus) : status.admits .other = true := by
  cases status <;> rfl

end ShareBlockStatus

/-- `name` is the digest of a shard's key, and `used` the shards that are ever loaded. -/
structure Fits (name : Slice → ShareBlockId) (used : Slice → Prop) (header : ShareBlockHeader)
    (bytes : Option Slice) (readers : List BlockTask) : Prop where
  ref : header.ref = readers.length
  named : ∀ task ∈ readers, header.id = name task.slice ∧ used task.slice
  free : header.id.used = false → readers = []
  fitting : ∀ task ∈ readers, header.status.admits task.role = true
  single : (readers.countP fun task => task.role = .owner) ≤ 1
  loaded : header.status = .LOADED → ∃ slice, bytes = some slice ∧ used slice ∧
    header.id = name slice

namespace Fits
variable {name : Slice → ShareBlockId} {used : Slice → Prop} {header : ShareBlockHeader}
  {bytes : Option Slice} {readers before after : List BlockTask} {task next : BlockTask}

theorem start : Fits name used {} bytes [] := by
  constructor <;> simp

section
variable (h : Fits name used header bytes (before ++ task :: after))
include h

theorem replace (hl : next.slice = task.slice) (hr : header.status.admits next.role = true)
    (hw : next.role = .owner → task.role = .owner) :
    Fits name used header bytes (before ++ next :: after) := by
  constructor
  · rw [h.ref]
    simp
  · have hn := h.named
    rw [forall_mem_append, forall_mem_cons] at hn ⊢
    rwa [hl]
  · intro hu
    have hno := h.free hu
    simp at hno
  · have hf := h.fitting
    rw [forall_mem_append, forall_mem_cons] at hf ⊢
    exact ⟨hf.1, hr, hf.2.2⟩
  · have hs := h.single
    rw [countP_append, countP_cons] at hs ⊢
    by_cases hn : next.role = .owner
    · simpa [hn, hw hn] using hs
    · simp only [hn, decide_false, Bool.false_eq_true, if_false]
      omega
  · exact h.loaded

theorem others (hb : task.role = .owner ∨ header.status = .INIT) :
    ∀ o ∈ before ++ after, o.role = .other := by
  intro o ho
  have hm : o ∈ before ++ task :: after := by
    rw [mem_append] at ho
    rw [mem_append, mem_cons]
    tauto
  have hf := h.fitting o hm
  cases hb with
  | inr hn =>
    rw [hn] at hf
    exact admits_init hf
  | inl hw =>
    have hl : header.status = .LOADING :=
      admits_owner (hw ▸ h.fitting task (by simp))
    rw [hl] at hf
    have hno : o.role ≠ .owner := by
      intro hr
      have hs := h.single
      have hp : 0 < (before ++ after).countP fun task => task.role = .owner :=
        countP_pos_iff.2 ⟨o, ho, by simp [hr]⟩
      rw [countP_append] at hp
      rw [countP_append, countP_cons, hw] at hs
      simp only [decide_true, if_true] at hs
      omega
    cases hr : o.role with
    | owner => exact absurd hr hno
    | other => rfl
    | _ =>
      rw [hr] at hf
      cases hf

theorem mark (hs : next.slice = task.slice) (ha : ∀ o ∈ before ++ after, o.role = .other)
    {status : ShareBlockStatus} (hr : status.admits next.role = true) {s : Option Slice}
    (hst : status = .LOADED → s = some task.slice) : Fits name used { header with status } s
    (before ++ next :: after) := by
  have hn := h.named
  constructor
  · have he := h.ref
    simpa using he
  · rw [forall_mem_append, forall_mem_cons] at hn ⊢
    rwa [hs]
  · intro hu
    have hno := h.free hu
    simp at hno
  · have hf : ∀ o ∈ before ++ after, status.admits o.role = true := by
      intro o ho
      rw [ha o ho]
      exact status.admits_other
    rw [forall_mem_append] at hf
    rw [forall_mem_append, forall_mem_cons]
    exact ⟨hf.1, hr, hf.2⟩
  · have hno : (before ++ after).countP (fun task => task.role = .owner) = 0 := by
      rw [countP_eq_zero]
      intro o ht
      simp [ha o ht]
    rw [countP_append] at hno
    rw [countP_append, countP_cons]
    split <;> omega
  · intro hl
    exact ⟨task.slice, hst hl, (hn task (by simp)).2, (hn task (by simp)).1⟩

end

theorem write (h : Fits name used header bytes readers) (hm : task ∈ readers)
    (ho : task.role = .owner) (s : Option Slice) : Fits name used header s readers := by
  refine { h with loaded := ?_ }
  intro hl
  have hf := h.fitting task hm
  rw [hl, ho] at hf
  cases hf

theorem release (h : Fits name used header bytes (before ++ task :: after)) :
    Fits name used { header with ref := header.ref - 1 } bytes (before ++ after) := by
  have hs : (before ++ after).Sublist (before ++ task :: after) :=
    List.Sublist.append_left (sublist_cons_self _ _) _
  constructor
  · have hr := h.ref
    simp only [length_append, length_cons] at hr ⊢
    omega
  · exact fun o ho => h.named o (hs.subset ho)
  · intro hu
    have hn := h.free hu
    simp at hn
  · exact fun o ho => h.fitting o (hs.subset ho)
  · exact hs.countP_le.trans h.single
  · exact h.loaded

section
variable (h : Fits name used header bytes readers)
include h

theorem hit (hd : header.id = name next.slice) (hu : used next.slice)
    (hn : (name next.slice).used = true) (hr : next.role = .other) :
    Fits name used header.refer bytes (readers ++ [next]) := by
  constructor
  · have hre := h.ref
    simp only [ShareBlockHeader.refer, length_append, length_singleton]
    omega
  · rw [forall_mem_append, forall_mem_singleton]
    exact ⟨h.named, hd, hu⟩
  · intro hun
    have he : header.id.used = false := hun
    rw [hd, hn] at he
    cases he
  · rw [forall_mem_append, forall_mem_singleton, hr]
    refine ⟨fun task ho => ?_, admits_other _⟩
    have hne : header.ref ≠ 0 := by
      have hp := length_pos_of_mem ho
      rw [h.ref]
      omega
    have hs : header.refer.status = header.status := by
      simp [ShareBlockHeader.refer, hne]
    rw [hs]
    exact h.fitting task ho
  · rw [countP_append, countP_singleton, hr]
    simpa using h.single
  intro hl
  apply h.loaded
  unfold ShareBlockHeader.refer at hl
  split at hl
  · cases hl
  · exact hl

theorem taken (hf : header.id.used = false ∨ header.ref ≤ 0) (hs : used next.slice)
    (hn : (name next.slice).used = true) (hr : next.role = .other) :
    readers = [] ∧ Fits name used (.occupy (name next.slice)) bytes [next] := by
  constructor
  · obtain hu | hre := hf
    · exact h.free hu
    · rw [h.ref] at hre
      exact length_eq_zero_iff.1 (by omega)
  constructor
  · rfl
  · intro task hm
    rw [mem_singleton.1 hm]
    exact ⟨rfl, hs⟩
  · intro hu
    have he : (name next.slice).used = false := hu
    rw [hn] at he
    cases he
  · intro task hm
    rw [mem_singleton.1 hm, hr]
    rfl
  · simp [hr]
  · intro hl
    cases hl

theorem map {change : BlockTask → BlockTask} (hs : ∀ task, (change task).slice = task.slice)
    (hr : ∀ task, (change task).role = task.role) :
    Fits name used header bytes (readers.map change) := by
  constructor
  · rw [length_map]
    exact h.ref
  · intro task hm
    obtain ⟨k, hk, rfl⟩ := mem_map.1 hm
    rw [hs]
    exact h.named k hk
  · intro hu
    rw [h.free hu]
    rfl
  · intro task hm
    obtain ⟨k, hk, rfl⟩ := mem_map.1 hm
    rw [hr]
    exact h.fitting k hk
  · rw [countP_map]
    simpa only [Function.comp_def, hr] using h.single
  · exact h.loaded

theorem copies (hm : task ∈ readers) (hr : task.role = .copier)
    (ha : ∀ a b, used a → used b → name a = name b → a = b) : bytes = some task.slice := by
  have hf := h.fitting task hm
  have hl : header.status = .LOADED := by
    rw [hr] at hf
    exact admits_copier hf
  obtain ⟨s, hb, hs, hd⟩ := h.loaded hl
  obtain ⟨hn, hu⟩ := h.named task hm
  rw [hb, ha s task.slice hs hu (hd.symm.trans hn)]

end
end Fits

def readersAt (tasks : List BlockTask) (pos : Nat) : List BlockTask :=
  tasks.filter fun task => task.reader = some pos

section
variable {before after tasks : List BlockTask} {task : BlockTask} {pos : Nat}

theorem readersAt_self (h : task.reader = some pos) :
    readersAt (before ++ task :: after) pos = readersAt before pos ++ task :: readersAt after pos
    := by
  simp [readersAt, h]

theorem readersAt_other (h : task.reader ≠ some pos) :
    readersAt (before ++ task :: after) pos = readersAt before pos ++ readersAt after pos := by
  simp [readersAt, h]

@[simp]
theorem mem_readersAt : task ∈ readersAt tasks pos ↔ task ∈ tasks ∧ task.reader = some pos := by
  simp [readersAt]

end

structure Apart (name : Slice → ShareBlockId) (used : Slice → Prop) (host : Host) : Prop where
  fits : ∀ pos, Fits name used (host.headers pos) (host.mem pos) (readersAt host.tasks pos)
  own : ∀ task ∈ host.tasks, task.reader = none → task.role = .copier → task.data = some task.slice
  pending : ∀ task ∈ host.tasks, task.backendTaskHandle ≠ 0 → task.role = .owner
  shards : ∀ index handle, ∀ shard ∈ (host.processes index).shards handle,
    used shard.slice ∧ shard.key = shardKey shard.slice

namespace Apart
variable {name : Slice → ShareBlockId} {used : Slice → Prop} {host next : Host}
  {before after : List BlockTask} {task changed : BlockTask}

theorem start : Apart name used {} := by
  constructor
  · intro pos
    exact .start
  · simp
  · simp
  · intro i handle s hs
    cases hs

section
variable (h : Apart name used host) (htasks : host.tasks = before ++ task :: after)
include h htasks

theorem change (hn : next.tasks = before ++ changed :: after) (hr : changed.reader = task.reader)
    (hl : ∀ pos before after, task.reader = some pos →
      Fits name used (host.headers pos) (host.mem pos) (before ++ task :: after) →
      Fits name used (next.headers pos) (next.mem pos) (before ++ changed :: after)) (ht : ∀ pos,
      task.reader ≠ some pos → next.headers pos = host.headers pos ∧ next.mem pos = host.mem pos)
    (hw : changed.reader = none → changed.role = .copier → changed.data = some changed.slice)
    (hpe : changed.backendTaskHandle ≠ 0 → changed.role = .owner)
    (hs : ∀ i handle, (next.processes i).shards handle = (host.processes i).shards handle) :
    Apart name used next := by
  have hp : ∀ o ∈ next.tasks, o = changed ∨ o ∈ host.tasks := by
    intro o hot
    rw [hn, mem_append, mem_cons] at hot
    rw [htasks, mem_append, mem_cons]
    tauto
  constructor
  · intro pos
    have hf := h.fits pos
    rw [hn]
    rw [htasks] at hf
    by_cases he : task.reader = some pos
    · rw [readersAt_self he] at hf
      rw [readersAt_self (hr.trans he)]
      exact hl pos _ _ he hf
    obtain ⟨hd, hm⟩ := ht pos he
    rw [readersAt_other he] at hf
    rw [readersAt_other (by rw [hr]; exact he), hd, hm]
    exact hf
  · intro o hot
    obtain he | ho := hp o hot
    · rw [he]
      exact hw
    · exact h.own o ho
  · intro o hot
    obtain he | ho := hp o hot
    · rw [he]
      exact hpe
    · exact h.pending o ho
  · intro i handle s hh
    rw [hs] at hh
    exact h.shards i handle s hh

theorem moved {stage : Stage} (hr : ({ task with stage } : BlockTask).role = .other ∨
    ({ task with stage } : BlockTask).role = task.role) (hp : task.backendTaskHandle ≠ 0 →
    ({ task with stage } : BlockTask).role = .owner) : Apart name used
    (host.moved before after task stage) := by
  have hm : task ∈ host.tasks := by simp [htasks]
  have hn : (host.moved before after task stage).tasks =
      before ++ ({ task with stage } : BlockTask) :: after := rfl
  apply h.change htasks hn rfl
  · intro pos before after _ hf
    refine hf.replace (by rfl) ?_ ?_
    · obtain ho | hs := hr
      · rw [ho]
        exact admits_other _
      · rw [hs]
        exact hf.fitting task (by simp)
    intro hw
    obtain ho | hs := hr
    · rw [hw] at ho
      cases ho
    · rw [← hs, hw]
  · exact fun pos _ => ⟨rfl, rfl⟩
  · intro hd hc
    obtain ho | hs := hr
    · rw [hc] at ho
      cases ho
    · exact h.own task hm hd (hs ▸ hc)
  · exact hp
  · exact fun _ _ => rfl

end

variable {backend failed : Bool} {status : ShareBlockStatus} {answer : Answer} {move : Advance}

/-- A task leaves its slot as it is, or the one that loads the slot marks it, or a task that has
found it failed marks it again. -/
theorem advance_cases (hm : task.advance backend failed status answer = some move) :
    (move.mark = none ∧ move.load = none ∧ ((task.become move).role = .other ∨
      (task.become move).role = task.role ∨
      task.reader = none ∧ (task.become move).role = .owner ∨ task.reader ≠ none ∧
        (task.become move).role ≠ .owner ∧ status.admits (task.become move).role = true)) ∨
    (∃ s, move.mark = some s ∧ (task.role = .owner ∨ status = .INIT) ∧
      s.admits (task.become move).role = true ∧ (s = .LOADED → move.load = some true)) ∨
    task.role = .failer ∧ move.mark = some .FAILURE ∧ move.load = none ∧
      (task.become move).role = .other := by
  have hc : ∀ {P}, task.role = .copier → (copyFrom answer).mark = none ∧
      (copyFrom answer).load = none ∧ ((task.become (copyFrom answer)).role = .other ∨
        (task.become (copyFrom answer)).role = task.role ∨ P) := by
    intro P hr
    rw [hr]
    unfold copyFrom
    split
    · exact ⟨rfl, rfl, .inr (.inl rfl)⟩
    · exact ⟨rfl, rfl, .inl rfl⟩
  have hw : task.stage = .owning ∨ task.stage = .completing → task.role = .owner := by
    rintro (hs | hs) <;> simp [role, hs]
  have hx : task.stage = .failing → task.role = .failer := fun hs => by simp [role, hs]
  unfold advance at hm
  repeat' split at hm
  all_goals cases hm
  all_goals try first
    -- the task ends or waits, or a load of its own begins
    | exact .inl ⟨rfl, rfl, .inl rfl⟩
    | exact .inl ⟨rfl, rfl, .inr (.inr (.inl ⟨‹_›, rfl⟩))⟩
    -- the load of the slot ends or begins
    | exact .inr (.inl ⟨_, rfl, .inl (hw (.inr ‹_›)), rfl, fun _ => rfl⟩)
    | exact .inr (.inl ⟨_, rfl, .inl (hw (.inr ‹_›)), rfl, nofun⟩)
    | exact .inr (.inl ⟨_, rfl, .inl (hw (.inl ‹_›)), rfl, nofun⟩)
    | exact .inr (.inl ⟨_, rfl, .inr ‹_›, rfl, nofun⟩)
    | exact .inr (.inr ⟨hx ‹_›, rfl, rfl, rfl⟩)
    -- the slot is loaded, or has failed
    | exact .inl ⟨rfl, rfl, .inr (.inr (.inr ⟨by simp [*], nofun, rfl⟩))⟩
  · refine .inl ⟨rfl, rfl, ?_⟩
    rw [hw (.inl ‹_›)]
    unfold become role
    dsimp only
    split
    · exact .inr (.inl rfl)
    · exact .inl rfl
  · rename_i hs _ hg
    exact .inl (hc (by simpa [role, hs, Status.failure] using hg))
  · rename_i hs
    exact .inl (hc (by simp [role, hs]))

theorem advance_fits {header : ShareBlockHeader} {bytes : Option Slice} {pos : Nat}
    (hr : task.reader = some pos) (hf : Fits name used header bytes (before ++ task :: after))
    (hm : task.advance backend failed header.status answer = some move) : Fits name used
    (move.header header) (move.bytes task.slice bytes) (before ++ task.become move :: after) := by
  have he := hf.fitting task (by simp)
  unfold Advance.header Advance.bytes
  obtain ⟨hk, hl, ha⟩ | ⟨s, hk, ho, ha, hl⟩ | ⟨hb, hk, hl, ha⟩ := advance_cases hm
  · rw [hk, hl]
    rw [hr] at ha
    obtain ha | ha | ⟨⟨⟩, _⟩ | ⟨_, hn, ha⟩ := ha
    · exact hf.replace rfl (ha ▸ admits_other _) fun ho => by cases ha.symm.trans ho
    · exact hf.replace rfl (ha ▸ he) fun ho => ha ▸ ho
    · exact hf.replace rfl ha fun ho => absurd ho hn
  · rw [hk]
    refine hf.mark (by rfl) (hf.others ho) ha fun hs => ?_
    rw [hl hs]
  · rw [hb] at he
    have hh : ({ header with status := .FAILURE } : ShareBlockHeader) = header := by
      rw [← admits_failer he]
    rw [hk, hl]
    dsimp only
    rw [hh]
    exact hf.replace rfl (ha ▸ admits_other _) fun ho => by cases ha.symm.trans ho

theorem advance_own (hr : task.reader = none)
    (hm : task.advance backend failed status answer = some move)
    (ho : task.role = .copier → task.data = some task.slice)
    (hc : (task.become move).role = .copier) : (task.become move).data = some task.slice := by
  have hd : (task.become move).data = move.bytes task.slice task.data := by
    unfold become
    rw [hr]
  rw [hd]
  have ha := advance_cases hm
  rw [hc] at ha
  unfold Advance.bytes
  obtain ⟨_, hl, ha⟩ | ⟨s, _, _, ha, hl⟩ | ⟨_, _, _, ⟨⟩⟩ := ha
  · rw [hl]
    obtain ⟨⟨⟩⟩ | ha | ⟨_, ⟨⟩⟩ | ⟨hn, _⟩ := ha
    · exact ho ha.symm
    · exact absurd hr hn
  · rw [hl (admits_copier ha)]

theorem advance_pending (hm : task.advance backend failed status answer = some move)
    (hp : (task.become move).backendTaskHandle ≠ 0) : (task.become move).role = .owner := by
  have hc : (copyFrom answer).backendTaskHandle = 0 := by
    unfold copyFrom
    split <;> rfl
  have hh : move.backendTaskHandle ≠ 0 := hp
  unfold advance at hm
  repeat' split at hm
  all_goals cases hm
  all_goals first
    | exact absurd rfl hh
    | exact absurd hc hh
    | exact if_pos hh

end Apart
end UnifiedCache.Mooncake
