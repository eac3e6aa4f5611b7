import Mathlib.Data.Nat.Log
import Mathlib.Tactic.Positivity

/-! The size bins of `OffsetAllocator`: a float with a mantissa of three bits. Sizes
are below `2 ^ 32`, so that of the operations only the last shift of `floatToUint` can
leave the 32 bits. -/
namespace UnifiedCache.OffsetAllocator

def numTopBins : Nat := 32

def binsPerLeaf : Nat := 8

def numLeafBins : Nat := numTopBins * binsPerLeaf

/-- `__builtin_clz`, whose argument is not zero. -/
def lzcntNonzero (value : Nat) : Nat := 31 - value.log2

namespace SmallFloat

def mantissaBits : Nat := 3

def mantissaValue : Nat := 1 <<< mantissaBits

def mantissaMask : Nat := mantissaValue - 1

def uintToFloatRoundUp (size : Nat) : Nat :=
  if size < mantissaValue then (0 <<< mantissaBits) + size
  else
    let highestSetBit := 31 - lzcntNonzero size
    let mantissaStartBit := highestSetBit - mantissaBits
    let exponent := mantissaStartBit + 1
    let mantissa := size >>> mantissaStartBit &&& mantissaMask
    let lowBitsMask := 1 <<< mantissaStartBit - 1
    -- a mantissa of eight carries into the exponent
    exponent <<< mantissaBits + if size &&& lowBitsMask ≠ 0 then mantissa + 1 else mantissa

def uintToFloatRoundDown (size : Nat) : Nat :=
  if size < mantissaValue then 0 <<< mantissaBits ||| size
  else
    let highestSetBit := 31 - lzcntNonzero size
    let mantissaStartBit := highestSetBit - mantissaBits
    let exponent := mantissaStartBit + 1
    let mantissa := size >>> mantissaStartBit &&& mantissaMask
    exponent <<< mantissaBits ||| mantissa

def floatToUint (floatValue : Nat) : Nat :=
  let exponent := floatValue >>> mantissaBits
  let mantissa := floatValue &&& mantissaMask
  if exponent = 0 then mantissa
  else (mantissa ||| mantissaValue) <<< (exponent - 1) % 2 ^ 32

/-- The size a bin stands for, of any width. -/
def value (bin : Nat) : Nat :=
  if bin / 8 = 0 then bin % 8 else (8 + bin % 8) * 2 ^ (bin / 8 - 1)

theorem value_normal {s k : Nat} (hk : 8 ≤ k ∨ s = 0) (hl : k ≤ 16) :
    value (8 * s + k) = k * 2 ^ s := by
  unfold value
  rcases Nat.lt_or_ge k 8 with hs | hg
  · obtain rfl : s = 0 := by omega
    rw [if_pos (by omega)]
    omega
  rw [if_neg (by omega)]
  rcases Nat.eq_or_lt_of_le hl with rfl | hlt
  · rw [show (8 * s + 16) % 8 = 0 by omega, show (8 * s + 16) / 8 - 1 = s + 1 by omega, pow_succ]
    omega
  · rw [show 8 + (8 * s + k) % 8 = k by omega, show (8 * s + k) / 8 - 1 = s by omega]

theorem exists_normal (bin : Nat) : ∃ s k, bin = 8 * s + k ∧ (8 ≤ k ∨ s = 0) ∧ k < 16 := by
  rcases Nat.lt_or_ge bin 8 with hs | hg
  · exact ⟨0, bin, by omega, .inr rfl, by omega⟩
  · exact ⟨bin / 8 - 1, bin % 8 + 8, by omega, .inl (by omega), by omega⟩

theorem value_strictMono : StrictMono value := by
  refine strictMono_nat_of_lt_succ fun bin => ?_
  obtain ⟨s, k, rfl, hk, hl⟩ := exists_normal bin
  rw [value_normal hk (by omega), Nat.add_assoc, value_normal (by omega) (by omega)]
  exact Nat.mul_lt_mul_of_pos_right (by omega) (by positivity)

theorem eight_mul_or {m : Nat} (e : Nat) (h : m < 8) : 8 * e ||| m = 8 * e + m :=
  (Nat.two_pow_add_eq_or_of_lt (i := 3) h e).symm

theorem floatToUint_eq (bin : Nat) : floatToUint bin = value bin % 2 ^ 32 := by
  have he : bin >>> mantissaBits = bin / 8 := Nat.shiftRight_eq_div_pow bin 3
  have hm : bin &&& mantissaMask = bin % 8 := Nat.and_two_pow_sub_one_eq_mod bin 3
  have ho : bin % 8 ||| mantissaValue = 8 + bin % 8 := by
    rw [Nat.or_comm]
    exact eight_mul_or 1 (by omega)
  unfold floatToUint value
  simp only [he, hm, ho, Nat.shiftLeft_eq]
  split
  · omega
  · rfl

def startBit (size : Nat) : Nat := size.log2 - 3

variable {n m bin : Nat}

theorem quotient_lt (n : Nat) : n / 2 ^ startBit n < 16 := by
  rw [Nat.div_lt_iff_lt_mul (by positivity)]
  calc n < 2 ^ (n.log2 + 1) := Nat.lt_log2_self
    _ ≤ 2 ^ (4 + startBit n) := Nat.pow_le_pow_right (by omega) (by unfold startBit; omega)
    _ = 16 * 2 ^ startBit n := pow_add 2 4 _

theorem log2_lt {k : Nat} (hk : 0 < k) (h : n < 2 ^ k) : n.log2 < k := by
  rcases Nat.eq_zero_or_pos n with rfl | hp
  · exact hk
  · exact (Nat.log2_lt hp.ne').2 h

theorem startBit_of_lt (h : n < 8) : startBit n = 0 := by
  have := log2_lt (k := 3) (by omega) h
  unfold startBit
  omega

theorem le_quotient (h : 8 ≤ n) : 8 ≤ n / 2 ^ startBit n := by
  have hl : 3 ≤ n.log2 := (Nat.le_log2 (by omega)).2 h
  rw [Nat.le_div_iff_mul_le (by positivity)]
  calc 8 * 2 ^ startBit n = 2 ^ (3 + startBit n) := (pow_add 2 3 _).symm
    _ = 2 ^ n.log2 := by rw [startBit, Nat.add_sub_cancel' hl]
    _ ≤ n := Nat.log2_self_le (by omega)

theorem quotient_normal (n : Nat) : 8 ≤ n / 2 ^ startBit n ∨ startBit n = 0 := by
  rcases Nat.lt_or_ge n 8 with hs | hg
  · exact .inr (startBit_of_lt hs)
  · exact .inl (le_quotient hg)

theorem mantissa_eq (h : 8 ≤ n) : n >>> startBit n &&& mantissaMask = n / 2 ^ startBit n - 8 := by
  have hq := quotient_lt n
  have hk := le_quotient h
  rw [Nat.shiftRight_eq_div_pow]
  refine (Nat.and_two_pow_sub_one_eq_mod _ 3).trans ?_
  omega

theorem exponent_eq (s : Nat) : (s + 1) <<< mantissaBits = 8 * (s + 1) := by
  rw [Nat.shiftLeft_eq, Nat.mul_comm]
  rfl

section Rounding
variable (hn : n < 2 ^ 32)
include hn

theorem mantissaStartBit_eq : 31 - lzcntNonzero n - mantissaBits = startBit n := by
  have hl := log2_lt (by omega) hn
  unfold lzcntNonzero startBit mantissaBits
  omega

theorem roundDown_eq : uintToFloatRoundDown n = 8 * startBit n + n / 2 ^ startBit n := by
  have hq := quotient_lt n
  unfold uintToFloatRoundDown
  simp only [mantissaStartBit_eq hn, exponent_eq]
  split <;> rename_i h
  · simp [startBit_of_lt h]
  · have hk := le_quotient (Nat.not_lt.1 h)
    rw [mantissa_eq (Nat.not_lt.1 h), eight_mul_or _ (by omega)]
    omega

theorem roundUp_eq : uintToFloatRoundUp n = 8 * startBit n + n / 2 ^ startBit n +
    if n % 2 ^ startBit n = 0 then 0 else 1 := by
  unfold uintToFloatRoundUp
  simp only [mantissaStartBit_eq hn, exponent_eq, Nat.one_shiftLeft, Nat.and_two_pow_sub_one_eq_mod]
  split <;> rename_i h
  · simp [startBit_of_lt h, Nat.mod_one]
  · have hk := le_quotient (Nat.not_lt.1 h)
    rw [mantissa_eq (Nat.not_lt.1 h)]
    split_ifs <;> omega

theorem value_roundDown : value (uintToFloatRoundDown n) = n / 2 ^ startBit n * 2 ^ startBit n := by
  rw [roundDown_eq hn, value_normal (quotient_normal n) (quotient_lt n).le]

theorem value_roundDown_le : value (uintToFloatRoundDown n) ≤ n := by
  rw [value_roundDown hn]
  exact Nat.div_mul_le_self _ _

theorem lt_value_succ_roundDown : n < value (uintToFloatRoundDown n + 1) := by
  have hk := quotient_normal n
  rw [roundDown_eq hn, Nat.add_assoc, value_normal (by omega) (quotient_lt n), Nat.mul_comm]
  exact Nat.lt_mul_div_succ _ (by positivity)

theorem roundUp_eq_roundDown : uintToFloatRoundUp n =
    uintToFloatRoundDown n + if value (uintToFloatRoundDown n) = n then 0 else 1 := by
  have hd := Nat.div_add_mod' n (2 ^ startBit n)
  have hc : n % 2 ^ startBit n = 0 ↔ value (uintToFloatRoundDown n) = n := by
    rw [value_roundDown hn]
    omega
  rw [roundUp_eq hn, ← roundDown_eq hn]
  simp only [hc]

theorem le_roundDown_iff : bin ≤ uintToFloatRoundDown n ↔ value bin ≤ n := by
  constructor
  · intro h
    exact (value_strictMono.monotone h).trans (value_roundDown_le hn)
  · intro h
    have hl := value_strictMono.lt_iff_lt.1 (h.trans_lt (lt_value_succ_roundDown hn))
    omega

theorem roundUp_le_iff : uintToFloatRoundUp n ≤ bin ↔ n ≤ value bin := by
  have hd := value_roundDown_le hn
  rw [roundUp_eq_roundDown hn]
  split <;> rename_i he
  · rw [Nat.add_zero, ← value_strictMono.le_iff_le, he]
  · have hne : n ≠ value bin := by
      rintro rfl
      exact he (hd.antisymm (value_strictMono.monotone ((le_roundDown_iff hn).2 le_rfl)))
    rw [Nat.succ_le_iff, ← not_le, le_roundDown_iff hn]
    omega

end Rounding

/-- Bins and sizes are ordered alike; rounding gives the last bin that is not above a
size and the first one that is not below. -/
theorem size_bins (n : Nat) (hn : n < 2 ^ 32) : floatToUint (uintToFloatRoundDown n) ≤ n ∧
    (value (uintToFloatRoundUp n) < 2 ^ 32 → n ≤ floatToUint (uintToFloatRoundUp n)) ∧
    (∀ m < 2 ^ 32, n ≤ m → uintToFloatRoundDown n ≤ uintToFloatRoundDown m ∧
      uintToFloatRoundUp n ≤ uintToFloatRoundUp m) ∧
    (uintToFloatRoundUp n = uintToFloatRoundDown n ∨
      uintToFloatRoundUp n = uintToFloatRoundDown n + 1) ∧
    (uintToFloatRoundUp n = uintToFloatRoundDown n ↔ ∃ bin, value bin = n) ∧
    uintToFloatRoundDown n < numLeafBins ∧ uintToFloatRoundUp n < numLeafBins ∧
    StrictMono value := by
  have hd := value_roundDown_le hn
  have hu : n ≤ value (uintToFloatRoundUp n) := (roundUp_le_iff hn).1 le_rfl
  have hr := roundUp_eq_roundDown hn
  have hl : uintToFloatRoundUp n ≤ 240 := by
    rw [roundUp_le_iff hn]
    exact hn.le.trans (by decide +kernel)
  have hb : numLeafBins = 256 := rfl
  refine ⟨?_, ?_, ?_, by split at hr <;> omega, ?_, by split at hr <;> omega, by omega,
    value_strictMono⟩
  · rw [floatToUint_eq]
    exact (Nat.mod_le _ _).trans hd
  · intro hf
    rwa [floatToUint_eq, Nat.mod_eq_of_lt hf]
  · intro m hm hle
    rw [le_roundDown_iff hm, roundUp_le_iff hn]
    exact ⟨hd.trans hle, hle.trans ((roundUp_le_iff hm).1 le_rfl)⟩
  · constructor
    · intro he
      exact ⟨_, hd.antisymm (he ▸ hu)⟩
    · rintro ⟨bin, rfl⟩
      have hs := (roundUp_le_iff hn).2 (le_refl (value bin))
      have hg := (le_roundDown_iff hn).2 (le_refl (value bin))
      split at hr <;> omega

/-- A size between two bins. -/
theorem size_bins_seventeen :
    value (uintToFloatRoundUp 17) = 18 ∧ 17 ≤ floatToUint (uintToFloatRoundUp 17) :=
  ⟨by decide +kernel, (size_bins 17 (by decide)).2.1 (by decide +kernel)⟩

end SmallFloat
end UnifiedCache.OffsetAllocator
