import Mathlib.Data.List.Range
import Mathlib.Data.Nat.ModEq

/-! Circular buffers. `cell` reads one of `capacity` places; the items are the
`count` places from `head` on, wrapping at the end. -/
namespace UnifiedCache.Ring
open List
variable {cell other : Nat → Option α} {capacity head count : Nat}

def window (cell : Nat → Option α) (capacity head count : Nat) : List α :=
  (List.range count).filterMap fun offset => cell ((head + offset) % capacity)

@[simp] theorem window_zero : window cell capacity head 0 = [] := rfl

@[simp]
theorem window_succ : window cell capacity head (count + 1) = window cell capacity head count ++
    (cell ((head + count) % capacity)).toList := by
  unfold window
  rw [range_succ, filterMap_append]
  cases h : cell ((head + count) % capacity) <;> simp [h]

theorem window_pop : window cell capacity head (count + 1) = (cell (head % capacity)).toList ++
    window cell capacity ((head + 1) % capacity) count := by
  unfold window
  rw [range_succ_eq_map, filterMap_cons, filterMap_map, Nat.add_zero]
  have hs : ((fun o => cell ((head + o) % capacity)) ∘ Nat.succ) =
      fun o => cell (((head + 1) % capacity + o) % capacity) := by
    funext o
    rw [Function.comp_apply, Nat.mod_add_mod, Nat.succ_eq_add_one]
    congr 2
    omega
  rw [hs]
  cases cell (head % capacity) <;> rfl

theorem window_congr (h : ∀ o < count, cell ((head + o) % capacity) = other ((head + o) % capacity))
    : window cell capacity head count = window other capacity head count := by
  refine filterMap_congr fun o hm => h o (mem_range.1 hm)

@[simp] theorem length_window (h : ∀ o < count, (cell ((head + o) % capacity)).isSome) :
    (window cell capacity head count).length = count := by
  induction count with
  | zero => rfl
  | succ count ih =>
    obtain ⟨i, ht⟩ := Option.isSome_iff_exists.1 (h count (Nat.lt_succ_self count))
    rw [window_succ, length_append, ih fun o hl => h o (Nat.lt_succ_of_lt hl), ht]
    rfl

theorem place_ne {a b : Nat} (ha : a < b) (hb : b < capacity) :
    (head + a) % capacity ≠ (head + b) % capacity := by
  intro he
  have hm : a ≡ b [MOD capacity] := Nat.ModEq.add_left_cancel' head he
  rw [Nat.ModEq, Nat.mod_eq_of_lt (ha.trans hb), Nat.mod_eq_of_lt hb] at hm
  omega

end UnifiedCache.Ring
