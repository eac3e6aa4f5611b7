import Mathlib.Algebra.Field.ZMod

/-! Probe sequences: steps of a fixed width around a table of prime size, and of width
one around any table. -/
namespace UnifiedCache.Probing

def place (size offset skip k : Nat) : Nat := (offset + k * skip) % size

theorem exists_place {size skip target : Nat} (offset : Nat) (prime : size.Prime) (hs : 0 < skip)
    (hl : skip < size) (ht : target < size) : ∃ k < size, place size offset skip k = target := by
  have : Fact size.Prime := ⟨prime⟩
  have hu : (skip : ZMod size) ≠ 0 := by
    rw [Ne, ZMod.natCast_eq_zero_iff]
    exact Nat.not_dvd_of_pos_of_lt hs hl
  let step : ZMod size := (target - offset) / skip
  refine ⟨step.val, ZMod.val_lt step, ?_⟩
  have hc : ((offset + step.val * skip : Nat) : ZMod size) = (target : Nat) := by
    push_cast
    rw [ZMod.natCast_zmod_val, div_mul_cancel₀ _ hu, add_sub_cancel]
  have hm := (ZMod.natCast_eq_natCast_iff' _ _ size).1 hc
  rwa [Nat.mod_eq_of_lt ht] at hm

def walk (size offset k : Nat) : Nat := (offset + k) % size

variable {size offset pos count : Nat} {blank next : Nat → Prop}

@[simp] theorem walk_succ (size offset k : Nat) :
    walk size offset (k + 1) = (walk size offset k + 1) % size := by
  rw [walk, walk, Nat.mod_add_mod, Nat.add_assoc]

theorem walk_lt (h : 0 < size) (k : Nat) : walk size offset k < size := Nat.mod_lt _ h

theorem exists_walk (offset : Nat) (h : pos < size) : ∃ k < size, walk size offset k = pos := by
  have ho := Nat.mod_lt offset (Nat.zero_lt_of_lt h)
  refine ⟨(size + pos - offset % size) % size, Nat.mod_lt _ (Nat.zero_lt_of_lt h), ?_⟩
  rw [walk, Nat.add_mod_mod, ← Nat.mod_add_mod, Nat.add_sub_cancel' (by omega), Nat.add_mod_left,
    Nat.mod_eq_of_lt h]

/-- A search from `offset` finds `pos` before it meets a blank place. -/
def Found (size offset : Nat) (blank : Nat → Prop) (pos : Nat) : Prop :=
  ∃ k < size, walk size offset k = pos ∧ ∀ j < k, ¬blank (walk size offset j)

/-- What is in the places of a table, each key where a search from its home finds it. -/
structure Placed (size : Nat) (home : K → Nat) (key : Nat → Option K) (blank : Nat → Prop) :
    Prop where
  unique : ∀ p q k, key p = some k → key q = some k → p = q
  found : ∀ p k, key p = some k → Found size (home k) blank p
  full : ∀ p k, key p = some k → ¬blank p

namespace Placed
variable {K : Type} {home : K → Nat} {key : Nat → Option K} {k : K}
  (h : Placed size home key blank)
include h

/-- A search that has seen all or ends at a blank place does not miss the key. -/
theorem absent (hp : ∀ j < count, key (walk size (home k) j) ≠ some k)
    (he : count = size ∨ blank (walk size (home k) count)) (p : Nat) : key p ≠ some k := by
  intro hk
  obtain ⟨j, hj, rfl, hn⟩ := h.found p k hk
  rcases Nat.lt_trichotomy j count with hl | rfl | hg
  · exact hp j hl hk
  · exact he.elim hj.ne fun hz => h.full _ k hk hz
  · exact he.elim (by omega) (hn count hg)

theorem put (ha : ∀ p, key p ≠ some k) (hf : Found size (home k) next pos)
    (hb : ∀ p, next p → blank p) (hn : ¬next pos) :
    Placed size home (Function.update key pos (some k)) next := by
  have hk : ∀ p l, Function.update key pos (some k) p = some l →
      p = pos ∧ l = k ∨ key p = some l := by
    intro p l hp
    rw [Function.update_apply] at hp
    split at hp
    · cases hp
      exact .inl ⟨‹_›, rfl⟩
    · exact .inr hp
  constructor
  · intro p q l hp hq
    rcases hk p l hp with ⟨rfl, rfl⟩ | hx <;> rcases hk q l hq with ⟨rfl, he⟩ | hy
    · rfl
    · exact absurd hy (ha q)
    · exact absurd (he ▸ hx) (ha p)
    · exact h.unique p q l hx hy
  · intro p l hp
    rcases hk p l hp with ⟨rfl, rfl⟩ | hp
    · exact hf
    · obtain ⟨j, hj, hw, hx⟩ := h.found p l hp
      exact ⟨j, hj, hw, fun i hi hz => hx i hi (hb _ hz)⟩
  · intro p l hp
    rcases hk p l hp with ⟨rfl, rfl⟩ | hp
    · exact hn
    · exact fun hz => h.full p l hp (hb p hz)

end Placed

end UnifiedCache.Probing
