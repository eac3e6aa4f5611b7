import Mathlib.Order.Lattice

/-! Clock readings are signed 64-bit tick counts. Their comparison is a linear
order, so that the general facts about `min` apply to deadlines. -/
namespace UnifiedCache

instance int64LinearOrder : LinearOrder Int64 where
  le_refl := Int64.le_refl
  le_trans _ _ _ := Int64.le_trans
  lt_iff_le_not_ge a b := by
    rw [Int64.not_le]
    exact ⟨fun h => ⟨Int64.le_of_lt h, h⟩, fun h => h.2⟩
  le_antisymm _ _ := Int64.le_antisymm
  le_total := Int64.le_total
  toDecidableLE := inferInstance
  min_def _ _ := rfl
  max_def _ _ := rfl

/-- Nanoseconds of a monotone clock; addition wraps as the hardware's does. -/
abbrev TimePoint := Int64

namespace TimePoint

abbrev min : TimePoint := Int64.minValue
abbrev max : TimePoint := Int64.maxValue

def milliseconds (count : Int64) : Int64 := count * 1000000
def microseconds (count : Int64) : Int64 := count * 1000

end TimePoint
end UnifiedCache
