/-! Unsigned 64-bit counters. They are kept as naturals and every operation that
can leave the range is reduced, as the hardware does. -/
namespace UnifiedCache.SizeT

def modulus : Nat := 0x10000000000000000

def add (a b : Nat) : Nat := (a + b) % modulus

def sub (a b : Nat) : Nat := (a + (modulus - b % modulus)) % modulus

def mul (a b : Nat) : Nat := a * b % modulus

theorem add_eq {a b : Nat} (h : a + b < modulus) : add a b = a + b :=
  Nat.mod_eq_of_lt h

theorem mul_eq {a b : Nat} (h : a * b < modulus) : mul a b = a * b :=
  Nat.mod_eq_of_lt h

theorem sub_eq {a b : Nat} (hl : b ≤ a) (ha : a < modulus) : sub a b = a - b := by
  unfold sub
  rw [Nat.mod_eq_of_lt (Nat.lt_of_le_of_lt hl ha)]
  have hs : a + (modulus - b) = a - b + modulus := by omega
  rw [hs, Nat.add_mod_right, Nat.mod_eq_of_lt (by omega)]

end UnifiedCache.SizeT
