import Mathlib.Data.List.Basic

/-! Slices of a list as Python takes them: a slice is clipped at the end of the list. -/
namespace UnifiedCache.Slices
open List

/-- The slice `l[start:stop]`. -/
def pySlice (l : List α) (start stop : Nat) : List α := (l.take stop).drop start

variable {l : List α} {stop start : Nat}

@[simp] theorem length_pySlice (start : Nat) (h : stop ≤ l.length) :
    (pySlice l start stop).length = stop - start := by
  simp [pySlice, Nat.min_eq_left h]

theorem getElem?_pySlice {i : Nat} (h : start + i < stop) :
    (pySlice l start stop)[i]? = l[start + i]? := by
  rw [pySlice, List.getElem?_drop, List.getElem?_take_of_lt h]

end UnifiedCache.Slices
