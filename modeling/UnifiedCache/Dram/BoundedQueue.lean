import UnifiedCache.Lib.Ring

/-! The fixed-capacity queue between threads, a ring of optional slots. Every
value of the type is well formed; `contents` is the queue it stands for. -/
namespace UnifiedCache.Dram
open List

structure BoundedQueue (α : Type u) where
  slots : List (Option α)
  head : Nat := 0
  tail : Nat := 0
  size : Nat := 0
  fits : size ≤ slots.length
  head_lt : 0 < slots.length → head < slots.length
  tail_eq : 0 < slots.length → tail = (head + size) % slots.length
  held : ∀ offset < size, (slots[(head + offset) % slots.length]?).join.isSome

namespace BoundedQueue
variable {q : BoundedQueue α} {value : α}

def ofCapacity (capacity : Nat) : BoundedQueue α where
  slots := List.replicate capacity none
  fits := Nat.zero_le _
  head_lt h := h
  tail_eq h := by rw [Nat.add_zero, Nat.zero_mod]
  held offset h := absurd h (Nat.not_lt_zero offset)

def cell (slots : List (Option α)) (index : Nat) : Option α := (slots[index]?).join

def contents (q : BoundedQueue α) : List α :=
  Ring.window (cell q.slots) q.slots.length q.head q.size

def empty (q : BoundedQueue α) : Bool := q.size == 0
def full (q : BoundedQueue α) : Bool := q.size == q.slots.length

def next (q : BoundedQueue α) (index : Nat) : Nat :=
  if index + 1 = q.slots.length then 0 else index + 1

variable {idx offset : Nat}

theorem next_eq (q : BoundedQueue α) (h : idx < q.slots.length) :
    q.next idx = (idx + 1) % q.slots.length := by
  unfold next
  split
  · rename_i hl
    rw [hl, Nat.mod_self]
  · rw [Nat.mod_eq_of_lt (by omega)]

theorem size_lt_of_not_full (h : ¬q.full = true) : q.size < q.slots.length := by
  have hn : q.size ≠ q.slots.length := by simpa [full] using h
  have hf := q.fits
  omega

theorem tail_place (h : ¬q.full = true) :
    q.tail = (q.head + q.size) % q.slots.length ∧ q.tail < q.slots.length := by
  have hp : 0 < q.slots.length := by
    have := size_lt_of_not_full h
    omega
  rw [q.tail_eq hp]
  exact ⟨rfl, Nat.mod_lt _ hp⟩

@[simp] theorem cell_set_self (s : List (Option α)) (h : idx < s.length) (item : Option α) :
    cell (s.set idx item) idx = item := by
  simp [cell, h]

@[simp] theorem cell_set_ne (s : List (Option α)) {other : Nat} (h : idx ≠ other) (i : Option α) :
    cell (s.set idx i) other = cell s other := by
  simp [cell, h]

theorem cell_push (h : ¬q.full = true) (ho : offset < q.size) : cell
    (q.slots.set q.tail (some value)) ((q.head + offset) % q.slots.length) = cell q.slots
    ((q.head + offset) % q.slots.length) := by
  refine cell_set_ne _ ?_ _
  rw [(tail_place h).1]
  exact (Ring.place_ne ho (size_lt_of_not_full h)).symm

def push (q : BoundedQueue α) (value : α) : BoundedQueue α × Bool :=
  if h : q.full then (q, false)
  else
    ({ slots := q.slots.set q.tail (some value)
       head := q.head
       tail := q.next q.tail
       size := q.size + 1
       fits := by
        rw [List.length_set]
        exact size_lt_of_not_full h
       head_lt := by
        rw [List.length_set]
        exact q.head_lt
       tail_eq := by
        intro _
        rw [q.next_eq (tail_place h).2, List.length_set, (tail_place h).1, Nat.mod_add_mod,
          Nat.add_assoc]
       held := by
        intro offset hoffset
        rw [List.length_set]
        cases Nat.lt_succ_iff_lt_or_eq.mp hoffset with
        | inl hold => exact (congrArg Option.isSome (cell_push h hold)).trans (q.held offset hold)
        | inr hnew =>
          rw [hnew, ← (tail_place h).1]
          exact congrArg Option.isSome (cell_set_self _ (tail_place h).2 _) }, true)

theorem cell_pop (ho : offset + 1 < q.size) : cell (q.slots.set q.head none)
    ((q.next q.head + offset) % q.slots.length) = cell q.slots
    ((q.head + (offset + 1)) % q.slots.length) := by
  have hf := q.fits
  have hh := q.head_lt (by omega)
  rw [q.next_eq hh, Nat.mod_add_mod, Nat.add_assoc, Nat.add_comm 1 offset]
  refine cell_set_ne _ ?_ _
  have hp : (q.head + 0) % q.slots.length ≠ (q.head + (offset + 1)) % q.slots.length :=
    Ring.place_ne (Nat.zero_lt_succ offset) (by omega)
  rwa [Nat.add_zero, Nat.mod_eq_of_lt hh] at hp

/-- `Pop` of a queue that is not empty. -/
def pop (q : BoundedQueue α) : Option (α × BoundedQueue α) :=
  if hsize : q.size = 0 then none
  else
    (cell q.slots q.head).map fun value => (value,
      { slots := q.slots.set q.head none
        head := q.next q.head
        tail := q.tail
        size := q.size - 1
        fits := by
          rw [List.length_set]
          exact (Nat.sub_le _ _).trans q.fits
        head_lt := by
          rw [List.length_set]
          intro hpos
          rw [q.next_eq (q.head_lt hpos)]
          exact Nat.mod_lt _ hpos
        tail_eq := by
          rw [List.length_set]
          intro hpos
          rw [q.next_eq (q.head_lt hpos), Nat.mod_add_mod, q.tail_eq hpos]
          congr 1
          omega
        held := by
          intro offset hoffset
          rw [List.length_set]
          have hlt : offset + 1 < q.size := by omega
          exact (congrArg Option.isSome (cell_pop hlt)).trans (q.held (offset + 1) hlt) })

@[simp] theorem length_slots_ofCapacity (capacity : Nat) :
    (ofCapacity capacity : BoundedQueue α).slots.length = capacity :=
  length_replicate

@[simp] theorem length_contents (q : BoundedQueue α) : q.contents.length = q.size :=
  Ring.length_window q.held

theorem push_of_full (h : q.full = true) : q.push value = (q, false) := by
  unfold push
  rw [dif_pos h]

theorem push_of_room (value : α) (h : q.size < q.slots.length) :
    (q.push value).2 = true ∧ (q.push value).1.contents = q.contents ++ [value] := by
  have hr : ¬q.full = true := by
    unfold full
    simp
    omega
  unfold push
  rw [dif_neg hr]
  refine ⟨rfl, ?_⟩
  unfold contents
  simp only [length_set, Ring.window_succ]
  congr 1
  · exact Ring.window_congr fun offset ho => cell_push hr ho
  · rw [← (tail_place hr).1, cell_set_self _ (tail_place hr).2]
    rfl

theorem contents_of_push {next : BoundedQueue α} (h : q.push value = (next, true)) :
    next.contents = q.contents ++ [value] := by
  by_cases hf : q.full = true
  · rw [push_of_full hf] at h
    simp at h
  · have hr := (push_of_room value (size_lt_of_not_full hf)).2
    rw [h] at hr
    exact hr

@[simp] theorem length_slots_push (q : BoundedQueue α) (value : α) :
    (q.push value).1.slots.length = q.slots.length := by
  unfold push
  split
  · rfl
  · exact length_set

theorem contents_of_pop {r : BoundedQueue α} (h : q.pop = some (value, r)) :
    q.contents = value :: r.contents ∧ r.slots.length = q.slots.length := by
  unfold pop at h
  split at h
  · cases h
  rename_i hs
  obtain ⟨i, ht, he⟩ := Option.map_eq_some_iff.1 h
  cases he
  refine ⟨?_, length_set⟩
  obtain ⟨c, hc⟩ := Nat.exists_eq_succ_of_ne_zero hs
  have hh := q.head_lt (by have := q.fits; omega)
  unfold contents
  simp only [length_set]
  rw [hc, Nat.succ_eq_add_one, Ring.window_pop, Nat.mod_eq_of_lt hh, ht,
    Nat.add_sub_cancel, Option.toList_some, singleton_append]
  congr 1
  rw [q.next_eq hh]
  refine Ring.window_congr fun offset ho => ?_
  rw [← q.next_eq hh, cell_pop (by omega), q.next_eq hh, Nat.mod_add_mod, Nat.add_assoc,
    Nat.add_comm 1 offset]

theorem pop_isSome (h : q.empty = false) : q.pop.isSome := by
  have hs : q.size ≠ 0 := by simpa [empty] using h
  have hd := q.head_lt (by have := q.fits; omega)
  have hh := q.held 0 (by omega)
  rw [Nat.add_zero, Nat.mod_eq_of_lt hd] at hh
  unfold pop
  rw [dif_neg hs, Option.isSome_map]
  exact hh

theorem pop_eq (r : List α) (h : q.contents = value :: r) :
    q.pop = some (value, (q.pop.map Prod.snd).getD q) := by
  have he : q.empty = false := by
    have hl := q.length_contents
    rw [h, length_cons] at hl
    simp [empty, ← hl]
  obtain ⟨⟨first, left⟩, hp⟩ := Option.isSome_iff_exists.1 (pop_isSome he)
  have hc := (contents_of_pop hp).1
  rw [h] at hc
  rw [hp, (List.cons.inj hc).1]
  rfl

end BoundedQueue
end UnifiedCache.Dram
