import Mathlib.Data.Nat.Bitwise
import UnifiedCache.Lib.Ring

/-! `SpscRingQueue`: a bounded queue between one producer and one consumer. One
cell is always kept free, so that equal indexes mean an empty queue. A push takes
effect when it stores `head_` and a pop when it stores `tail_`. -/
namespace UnifiedCache
open List

namespace SpscQueue

def cell (buffer : List (Option α)) (index : Nat) : Option α := (buffer[index]?).join

def gap (capacity head tail : Nat) : Nat := (head + capacity - tail) % capacity

section
variable {c head tail : Nat}

theorem gap_eq (hhead : head < c) (htail : tail < c) :
    gap c head tail = if tail ≤ head then head - tail else head + c - tail := by
  unfold gap
  split
  · rw [show head + c - tail = head - tail + c by omega, Nat.add_mod_right,
      Nat.mod_eq_of_lt (by omega)]
  · rw [Nat.mod_eq_of_lt (by omega)]

theorem head_eq (hhead : head < c) (htail : tail < c) : head = (tail + gap c head tail) % c := by
  rw [gap_eq hhead htail]
  split
  · rw [Nat.add_sub_cancel' ‹_›, Nat.mod_eq_of_lt hhead]
  · rw [show tail + (head + c - tail) = head + c by omega, Nat.add_mod_right,
      Nat.mod_eq_of_lt hhead]

theorem succ_mod {n : Nat} (h : n < c) :
    (n + 1 = c ∧ (n + 1) % c = 0) ∨ (n + 1 < c ∧ (n + 1) % c = n + 1) := by
  by_cases hl : n + 1 = c
  · exact .inl ⟨hl, by rw [hl, Nat.mod_self]⟩
  · exact .inr ⟨by omega, Nat.mod_eq_of_lt (by omega)⟩

section
variable (hhead : head < c) (htail : tail < c)
include hhead htail

theorem gap_push (hr : (head + 1) % c ≠ tail) :
    gap c ((head + 1) % c) tail = gap c head tail + 1 := by
  rw [gap_eq hhead htail, gap_eq (Nat.mod_lt _ (by omega)) htail]
  rcases succ_mod hhead with ⟨hl, he⟩ | ⟨hs, he⟩ <;> rw [he] at hr ⊢ <;>
    split <;> split <;> omega

theorem gap_pop (hn : tail ≠ head) : gap c head tail = gap c head ((tail + 1) % c) + 1 := by
  rw [gap_eq hhead htail, gap_eq hhead (Nat.mod_lt _ (by omega))]
  rcases succ_mod htail with ⟨hl, he⟩ | ⟨hs, he⟩ <;> rw [he] <;>
    split <;> split <;> omega

theorem gap_eq_zero : gap c head tail = 0 ↔ tail = head := by
  rw [gap_eq hhead htail]
  split <;> omega

end
end
end SpscQueue

open SpscQueue in
structure SpscQueue (α : Type u) where
  buffer : List (Option α)
  head : Nat
  tail : Nat
  head_lt : head < buffer.length
  tail_lt : tail < buffer.length
  held : ∀ offset < gap buffer.length head tail,
    (cell buffer ((tail + offset) % buffer.length)).isSome

namespace SpscQueue
variable {α : Type u} {q : SpscQueue α} {value : α}

def capacity (q : SpscQueue α) : Nat := q.buffer.length

def setup (capacity : Nat) (h : 0 < capacity) : SpscQueue α where
  buffer := List.replicate capacity none
  head := 0
  tail := 0
  head_lt := by simpa using h
  tail_lt := by simpa using h
  held := by simp [gap]

def size (q : SpscQueue α) : Nat := gap q.capacity q.head q.tail

def contents (q : SpscQueue α) : List α :=
  Ring.window (cell q.buffer) q.capacity q.tail q.size

/-- `Mod`: the mask is used when the capacity is a power of two. -/
def mod (q : SpscQueue α) (n : Nat) : Nat :=
  if q.capacity &&& (q.capacity - 1) = 0 then n &&& (q.capacity - 1) else n % q.capacity

theorem exists_two_pow_of_and {c : Nat} (hp : c ≠ 0) (h : c &&& (c - 1) = 0) : ∃ k, c = 2 ^ k := by
  induction c using Nat.strongRecOn with
  | ind c ih =>
    have hh : c / 2 &&& (c - 1) / 2 = 0 := by
      rw [← Nat.and_div_two, h]
    rcases Nat.even_or_odd' c with ⟨d, rfl | rfl⟩
    · rw [show 2 * d / 2 = d by omega, show (2 * d - 1) / 2 = d - 1 by omega] at hh
      obtain ⟨k, hk⟩ := ih d (by omega) (by omega) hh
      refine ⟨k + 1, ?_⟩
      rw [Nat.pow_succ, ← hk, Nat.mul_comm]
    · rw [show (2 * d + 1) / 2 = d by omega, show (2 * d + 1 - 1) / 2 = d by omega,
        Nat.and_self] at hh
      exact ⟨0, by simp [hh]⟩

theorem capacity_pos (q : SpscQueue α) : 0 < q.capacity :=
  Nat.zero_lt_of_lt q.head_lt

theorem mod_eq (q : SpscQueue α) (n : Nat) : q.mod n = n % q.capacity := by
  unfold mod
  split
  · rename_i hp
    obtain ⟨k, hk⟩ := exists_two_pow_of_and q.capacity_pos.ne' hp
    rw [hk, Nat.and_two_pow_sub_one_eq_mod]
  · rfl

theorem size_lt (q : SpscQueue α) : q.size < q.capacity :=
  Nat.mod_lt _ q.capacity_pos

theorem head_place (q : SpscQueue α) : q.head = (q.tail + q.size) % q.capacity :=
  head_eq q.head_lt q.tail_lt

@[simp] theorem cell_set_self (b : List (Option α)) {i : Nat} (h : i < b.length)
    (item : Option α) : cell (b.set i item) i = item := by
  simp [cell, h]

@[simp] theorem cell_set_ne (b : List (Option α)) {i other : Nat} (h : i ≠ other)
    (ite : Option α) : cell (b.set i ite) other = cell b other := by
  simp [cell, h]

theorem cell_push {o : Nat} (h : o < q.size) (i : Option α) : cell (q.buffer.set q.head i)
    ((q.tail + o) % q.capacity) = cell q.buffer ((q.tail + o) % q.capacity) := by
  apply cell_set_ne
  have hp : (q.tail + o) % q.capacity ≠ (q.tail + q.size) % q.capacity :=
    Ring.place_ne h q.size_lt
  rw [← q.head_place] at hp
  exact hp.symm

theorem cell_pop {o : Nat} (h : o + 1 < q.size) (i : Option α) :
    cell (q.buffer.set q.tail i) (((q.tail + 1) % q.capacity + o) % q.capacity) =
      cell q.buffer ((q.tail + (o + 1)) % q.capacity) := by
  rw [Nat.mod_add_mod, Nat.add_assoc, Nat.add_comm 1 o]
  apply cell_set_ne
  have hp : (q.tail + 0) % q.capacity ≠ (q.tail + (o + 1)) % q.capacity :=
    Ring.place_ne (Nat.zero_lt_succ o) (h.trans q.size_lt)
  have htail : q.tail % q.capacity = q.tail := Nat.mod_eq_of_lt q.tail_lt
  rwa [Nat.add_zero, htail] at hp

/-- `none` is the source's `false`: the queue is full and the value untouched. -/
def tryPush (q : SpscQueue α) (value : α) : Option (SpscQueue α) :=
  if hroom : q.mod (q.head + 1) = q.tail then
    none
  else
    some
      { buffer := q.buffer.set q.head (some value)
        head := q.mod (q.head + 1)
        tail := q.tail
        head_lt := by
          rw [mod_eq, List.length_set]
          exact Nat.mod_lt _ q.capacity_pos
        tail_lt := by
          rw [List.length_set]
          exact q.tail_lt
        held := by
          rw [mod_eq] at hroom ⊢
          rw [List.length_set]
          intro offset hoffset
          replace hoffset : offset < q.size + 1 :=
            (gap_push q.head_lt q.tail_lt hroom) ▸ hoffset
          cases Nat.lt_succ_iff_lt_or_eq.mp hoffset with
          | inl hold => exact (congrArg Option.isSome (cell_push hold _)).trans (q.held offset hold)
          | inr hnew =>
            have hhead : (q.tail + offset) % q.buffer.length = q.head := by
              rw [hnew]
              exact q.head_place.symm
            rw [hhead, cell_set_self _ q.head_lt]
            rfl }

def tryPop (q : SpscQueue α) : Option (α × SpscQueue α) :=
  if hempty : q.tail = q.head then
    none
  else
    (cell q.buffer q.tail).map fun value => (value,
      { buffer := q.buffer.set q.tail none
        head := q.head
        tail := q.mod (q.tail + 1)
        head_lt := by
          rw [List.length_set]
          exact q.head_lt
        tail_lt := by
          rw [mod_eq, List.length_set]
          exact Nat.mod_lt _ q.capacity_pos
        held := by
          rw [mod_eq, List.length_set]
          intro offset hoffset
          have hsize : offset + 1 < q.size := by
            have hgap := gap_pop q.head_lt q.tail_lt hempty
            rw [size, capacity, hgap]
            exact Nat.succ_lt_succ hoffset
          exact (congrArg Option.isSome (cell_pop hsize _)).trans (q.held (offset + 1) hsize) })

@[simp] theorem contents_setup {capacity : Nat} (h : 0 < capacity) :
    (setup capacity h : SpscQueue α).contents = [] := by
  simp [contents, size, setup, gap]

@[simp] theorem length_contents (q : SpscQueue α) : q.contents.length = q.size :=
  Ring.length_window q.held

theorem contents_of_push {next : SpscQueue α} (h : q.tryPush value = some next) :
    next.contents = q.contents ++ [value] := by
  unfold tryPush at h
  split at h
  · cases h
  rename_i hr
  cases h
  rw [mod_eq] at hr
  have hs : gap (q.buffer.set q.head (some value)).length (q.mod (q.head + 1)) q.tail =
      q.size + 1 := by
    rw [length_set, mod_eq]
    exact gap_push q.head_lt q.tail_lt hr
  unfold contents size capacity
  simp only
  rw [hs, Ring.window_succ, length_set]
  congr 1
  · exact Ring.window_congr fun o ho => cell_push ho _
  · rw [show (q.tail + q.size) % q.buffer.length = q.head from q.head_place.symm,
      cell_set_self _ q.head_lt]
    rfl

theorem contents_of_pop {r : SpscQueue α} (h : q.tryPop = some (value, r)) :
    q.contents = value :: r.contents := by
  unfold tryPop at h
  split at h
  · cases h
  rename_i he
  obtain ⟨i, ht, hp⟩ := Option.map_eq_some_iff.1 h
  cases hp
  have hs : q.size = gap q.capacity q.head (q.mod (q.tail + 1)) + 1 := by
    rw [mod_eq]
    exact gap_pop q.head_lt q.tail_lt he
  have htail : q.tail % q.capacity = q.tail := Nat.mod_eq_of_lt q.tail_lt
  unfold contents
  rw [hs, Ring.window_pop, htail, ht]
  simp only [Option.toList_some, cons_append, nil_append, size, capacity, length_set, mod_eq]
  congr 1
  apply Ring.window_congr
  intro o ho
  have hl : o + 1 < q.size := by
    rw [hs, mod_eq]
    exact Nat.succ_lt_succ ho
  refine Eq.trans ?_ (cell_pop hl none).symm
  rw [Nat.mod_add_mod, Nat.add_assoc, Nat.add_comm 1 o]
  rfl

@[simp] theorem tryPop_eq_none : q.tryPop = none ↔ q.contents = [] := by
  have hs : q.size = 0 ↔ q.tail = q.head := gap_eq_zero q.head_lt q.tail_lt
  rw [← length_eq_zero_iff, length_contents, hs]
  unfold tryPop
  split
  · simp [*]
  rename_i he
  simp only [Option.map_eq_none_iff, he, iff_false]
  have hp : 0 < gap q.buffer.length q.head q.tail :=
    Nat.pos_of_ne_zero fun hz => he (hs.1 hz)
  have hf := q.held 0 hp
  rw [Nat.add_zero, Nat.mod_eq_of_lt q.tail_lt] at hf
  exact Option.isSome_iff_ne_none.1 hf

theorem tryPush_isSome (h : q.contents.length + 1 < q.capacity) : (q.tryPush value).isSome := by
  rw [length_contents] at h
  unfold tryPush
  split
  · rename_i hf
    rw [mod_eq] at hf
    have hg := gap_eq q.head_lt q.tail_lt
    unfold size capacity at h
    unfold capacity at hf
    rcases succ_mod q.head_lt with ⟨hl, he⟩ | ⟨hs, he⟩ <;> rw [he] at hf <;>
      split at hg <;> omega
  · rfl

theorem capacity_of_push {next : SpscQueue α} (h : q.tryPush value = some next) :
    next.capacity = q.capacity := by
  unfold tryPush at h
  split at h
  · cases h
  · cases h
    simp [capacity]

theorem capacity_of_pop {rest : SpscQueue α} (h : q.tryPop = some (value, rest)) :
    rest.capacity = q.capacity := by
  unfold tryPop at h
  split at h
  · cases h
  · obtain ⟨i, -, hp⟩ := Option.map_eq_some_iff.1 h
    cases hp
    simp [capacity]

@[simp] theorem capacity_setup {capacity : Nat} (h : 0 < capacity) :
    (setup capacity h : SpscQueue α).capacity = capacity := by
  simp [SpscQueue.capacity, setup]

theorem exists_push (h : q.contents.length + 1 < q.capacity) (value : α) : ∃ next, q.tryPush value =
    some next ∧ next.contents = q.contents ++ [value] ∧ next.capacity = q.capacity := by
  obtain ⟨next, hp⟩ := Option.isSome_iff_exists.1 (tryPush_isSome h)
  exact ⟨next, hp, contents_of_push hp, capacity_of_push hp⟩

theorem exists_pop {r : List α} (h : q.contents = value :: r) :
    ∃ n, q.tryPop = some (value, n) ∧ n.contents = r ∧ n.capacity = q.capacity := by
  cases hp : q.tryPop with
  | none => simp [tryPop_eq_none.1 hp] at h
  | some p =>
    have hc := contents_of_pop hp
    rw [h, List.cons.injEq] at hc
    exact ⟨p.2, by simp [hc.1], hc.2.symm, capacity_of_pop hp⟩

/-- The answers of a queue to a run of `TryPush` (`some value`) and `TryPop` (`none`):
what went in or came out, or `none` if the call was refused. -/
def answers (push : σ → α → Option σ) (pop : σ → Option (α × σ)) :
    σ → List (Option α) → List (Option α)
  | _, [] => []
  | q, some value :: calls =>
    (push q value).map (fun _ => value) :: answers push pop ((push q value).getD q) calls
  | q, none :: calls =>
    (pop q).map Prod.fst :: answers push pop (((pop q).map Prod.snd).getD q) calls

/-- In every run the ring answers as a list with room for all cells but one. -/
theorem answers_fifo (q : SpscQueue α) (calls : List (Option α)) : answers tryPush tryPop q calls =
      answers (fun queue value => if queue.length + 1 < q.capacity then some (queue ++ [value])
        else none) List.next? q.contents calls := by
  induction calls generalizing q with
  | nil => rfl
  | cons call calls ih =>
    cases call with
    | none =>
      cases hc : q.contents with
      | nil => simp [answers, tryPop_eq_none.2 hc, ih, hc]
      | cons value rest =>
        obtain ⟨n, hp, hn, hk⟩ := exists_pop hc
        simp [answers, hp, ih, hn, hk]
    | some value =>
      by_cases hl : q.contents.length + 1 < q.capacity
      · obtain ⟨n, hp, hn, hk⟩ := exists_push hl value
        simp only [answers, hp, ih, hn, hk, if_pos hl, Option.getD_some, Option.map_some]
      · cases hp : q.tryPush value with
        | none => simp only [answers, hp, ih, if_neg hl, Option.getD_none, Option.map_none]
        | some n =>
          -- the value would fill the cell that is kept free
          have hs := n.size_lt
          rw [← length_contents, contents_of_push hp, capacity_of_push hp, length_append] at hs
          exact absurd hs hl

end SpscQueue
end UnifiedCache
