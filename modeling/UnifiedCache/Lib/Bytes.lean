import Mathlib.Data.Nat.Bitwise
import Mathlib.Data.List.Basic

/-! Byte strings as memory: little-endian integers copied in and out of a buffer
at a byte offset, and small values packed several to a byte. -/
namespace UnifiedCache.Bytes
open List

/-- The `width` low bytes of a number, least significant first. -/
def leBytes : Nat → Nat → List UInt8
  | 0, _ => []
  | width + 1, value => UInt8.ofNat value :: leBytes width (value / 256)

def ofLeBytes : List UInt8 → Nat
  | [] => 0
  | byte :: rest => byte.toNat + 256 * ofLeBytes rest

@[simp] theorem length_leBytes (width value : Nat) : (leBytes width value).length = width := by
  induction width generalizing value with
  | zero => rfl
  | succ _ ih => simp [leBytes, ih]

@[simp] theorem ofLeBytes_leBytes (width value : Nat) :
    ofLeBytes (leBytes width value) = value % 256 ^ width := by
  induction width generalizing value with
  | zero => simp [leBytes, ofLeBytes, Nat.mod_one]
  | succ _ ih =>
    simp only [leBytes, ofLeBytes, ih, UInt8.toNat_ofNat']
    rw [show (2 : Nat) ^ 8 = 256 from rfl, Nat.pow_succ', Nat.mod_mul]

def writeAt (buffer : List UInt8) (offset : Nat) (bytes : List UInt8) : List UInt8 :=
  buffer.take offset ++ bytes ++ buffer.drop (offset + bytes.length)

def readAt (buffer : List UInt8) (offset count : Nat) : List UInt8 :=
  (buffer.drop offset).take count

variable {buf bytes : List UInt8} {offset width idx : Nat}

section
variable (h : offset + bytes.length ≤ buf.length)
include h

@[simp] theorem length_writeAt : (writeAt buf offset bytes).length = buf.length := by
  simp only [writeAt, length_append, length_take, length_drop]
  omega

theorem getElem?_writeAt (i : Nat) : (writeAt buf offset bytes)[i]? =
      if offset ≤ i ∧ i < offset + bytes.length then bytes[i - offset]? else buf[i]? := by
  have ht : (buf.take offset).length = offset := by
    rw [length_take]
    omega
  unfold writeAt
  by_cases hl : i < offset
  · rw [append_assoc, getElem?_append_left (by omega), getElem?_take_of_lt hl, if_neg (by omega)]
  rw [append_assoc, getElem?_append_right (by omega), ht]
  by_cases hm : i < offset + bytes.length
  · rw [getElem?_append_left (by omega), if_pos (by omega)]
  · rw [getElem?_append_right (by omega), getElem?_drop, if_neg (by omega)]
    congr 1
    omega

end

@[simp] theorem getElem?_readAt (buf : List UInt8) (offset c i : Nat) :
    (readAt buf offset c)[i]? = if i < c then buf[offset + i]? else none := by
  unfold readAt
  split
  · rename_i hi
    rw [getElem?_take_of_lt hi, getElem?_drop]
  · exact getElem?_eq_none (by simp; omega)

section
variable (h : offset + bytes.length ≤ buf.length)
include h

@[simp]
theorem readAt_writeAt_self : readAt (writeAt buf offset bytes) offset bytes.length = bytes := by
  apply ext_getElem?
  intro i
  rw [getElem?_readAt]
  split
  · rw [getElem?_writeAt h, if_pos (by omega), Nat.add_sub_cancel_left]
  · exact (getElem?_eq_none (by omega)).symm

theorem readAt_writeAt_disjoint {s count : Nat} (a : s + count ≤ offset ∨ offset + bytes.length ≤ s)
    : readAt (writeAt buf offset bytes) s count = readAt buf s count := by
  apply ext_getElem?
  intro i
  rw [getElem?_readAt, getElem?_readAt]
  split
  · rw [getElem?_writeAt h, if_neg (by omega)]
  · rfl

end

/-! Values of `width` bits, `8 / width` of them to a byte, the first one in the
low bits. -/

def fieldShift (width index : Nat) : Nat := index % (8 / width) * width

def getField (width : Nat) (bytes : List UInt8) (index : Nat) : UInt8 :=
  (bytes[index / (8 / width)]?.getD 0 >>> UInt8.ofNat (fieldShift width index)) &&&
    UInt8.ofNat (2 ^ width - 1)

def orField (width : Nat) (bytes : List UInt8) (index : Nat) (value : UInt8) : List UInt8 :=
  bytes.modify (index / (8 / width)) (· ||| value <<< UInt8.ofNat (fieldShift width index))

@[simp] theorem length_orField (width : Nat) (bytes : List UInt8) (idx : Nat) (value : UInt8) :
    (orField width bytes idx value).length = bytes.length := by
  simp [orField]

theorem fieldShift_add_le (hw : width ∣ 8) (idx : Nat) : fieldShift width idx + width ≤ 8 := by
  obtain ⟨perByte, he⟩ := hw
  have ho : 0 < width := Nat.pos_of_ne_zero (by rintro rfl; omega)
  have hd : 8 / width = perByte := by rw [he, Nat.mul_div_cancel_left _ ho]
  have hp : 0 < perByte := Nat.pos_of_ne_zero (by rintro rfl; omega)
  unfold fieldShift
  rw [hd]
  have hl := Nat.mod_lt idx hp
  calc idx % perByte * width + width = (idx % perByte + 1) * width := (Nat.succ_mul _ _).symm
    _ ≤ perByte * width := Nat.mul_le_mul_right _ hl
    _ = 8 := by rw [he, Nat.mul_comm]

theorem testBit_getField (hw : width ∣ 8) (bytes : List UInt8) (index bit : Nat) :
    (getField width bytes index).toNat.testBit bit = (decide (bit < width) &&
        (bytes[index / (8 / width)]?.getD 0).toNat.testBit (fieldShift width index + bit)) := by
  have hl := fieldShift_add_le hw index
  have hp : 0 < width := Nat.pos_of_dvd_of_pos hw (by decide)
  have hw8 : width ≤ 8 := Nat.le_of_dvd (by decide) hw
  have hs : (UInt8.ofNat (fieldShift width index)).toNat % 8 = fieldShift width index := by
    rw [UInt8.toNat_ofNat']
    omega
  have hm : (UInt8.ofNat (2 ^ width - 1)).toNat = 2 ^ width - 1 := by
    rw [UInt8.toNat_ofNat', Nat.mod_eq_of_lt]
    have : 2 ^ width ≤ 2 ^ 8 := Nat.pow_le_pow_right (by decide) hw8
    omega
  rw [getField, UInt8.toNat_and, UInt8.toNat_shiftRight, hs, hm, Nat.testBit_and,
    Nat.testBit_shiftRight, Nat.testBit_two_pow_sub_one, Bool.and_comm]

@[simp]
theorem getElem?_orField (width : Nat) (bytes : List UInt8) (idx : Nat) (value : UInt8) (j : Nat) :
    (orField width bytes idx value)[j]? = (bytes[j]?).map fun byte =>
      if idx / (8 / width) = j then byte ||| value <<< UInt8.ofNat (fieldShift width idx)
      else byte := by
  rw [orField, getElem?_modify]
  rfl

variable {value : UInt8}

section
variable (hw : width ∣ 8) (hv : value.toNat < 2 ^ width)
include hw hv

private theorem testBit_shifted (index bit : Nat) :
    (value <<< UInt8.ofNat (fieldShift width index)).toNat.testBit bit =
      (decide (fieldShift width index ≤ bit) && value.toNat.testBit (bit - fieldShift width index)) := by
  have hl := fieldShift_add_le hw index
  have hp : 0 < width := Nat.pos_of_dvd_of_pos hw (by decide)
  have hs : (UInt8.ofNat (fieldShift width index)).toNat % 8 = fieldShift width index := by
    rw [UInt8.toNat_ofNat']
    omega
  rw [UInt8.toNat_shiftLeft, hs, Nat.testBit_mod_two_pow, Nat.testBit_shiftLeft]
  by_cases hb : bit < 8
  · simp [hb]
  · have hh : value.toNat.testBit (bit - fieldShift width index) = false :=
      Nat.testBit_lt_two_pow (hv.trans_le (Nat.pow_le_pow_right (by decide) (by omega)))
    simp [hh]

theorem getField_orField_self (hn : idx / (8 / width) < bytes.length) : getField width
    (orField width bytes idx value) idx = getField width bytes idx ||| value := by
  apply UInt8.toNat_inj.1
  apply Nat.eq_of_testBit_eq
  intro bit
  rw [testBit_getField hw, UInt8.toNat_or, Nat.testBit_or, testBit_getField hw, getElem?_orField,
    getElem?_eq_getElem hn]
  simp only [Option.map_some, Option.getD_some, if_true, UInt8.toNat_or, Nat.testBit_or,
    testBit_shifted hw hv]
  by_cases hb : bit < width
  · simp [hb]
  · have hh : value.toNat.testBit bit = false :=
      Nat.testBit_lt_two_pow (hv.trans_le (Nat.pow_le_pow_right (by decide) (by omega)))
    simp [hb, hh]

theorem getField_orField_ne {other : Nat} (hn : other ≠ idx) :
    getField width (orField width bytes idx value) other = getField width bytes other := by
  apply UInt8.toNat_inj.1
  apply Nat.eq_of_testBit_eq
  intro bit
  rw [testBit_getField hw, testBit_getField hw, getElem?_orField]
  by_cases hb : bit < width
  · cases hy : bytes[other / (8 / width)]? with
    | none => rfl
    | some b =>
      by_cases hs : idx / (8 / width) = other / (8 / width)
      · -- in one byte the two fields start at different multiples of the width
        have hm : idx % (8 / width) ≠ other % (8 / width) := by
          intro h
          apply hn
          rw [← Nat.div_add_mod other (8 / width), ← Nat.div_add_mod idx (8 / width), h, hs]
        have ha : ¬ (fieldShift width idx ≤ fieldShift width other + bit ∧
            fieldShift width other + bit < fieldShift width idx + width) := by
          rintro ⟨hl, hh⟩
          unfold fieldShift at hl hh
          rcases Nat.lt_or_gt_of_ne hm with ht | ht
          · have := Nat.mul_le_mul_right width ht
            rw [Nat.succ_mul] at this
            omega
          · have := Nat.mul_le_mul_right width ht
            rw [Nat.succ_mul] at this
            omega
        simp only [Option.map_some, Option.getD_some, hs, if_true, UInt8.toNat_or,
          Nat.testBit_or, testBit_shifted hw hv]
        by_cases hl : fieldShift width idx ≤ fieldShift width other + bit
        · have hz : value.toNat.testBit
              (fieldShift width other + bit - fieldShift width idx) = false :=
            Nat.testBit_lt_two_pow (hv.trans_le (Nat.pow_le_pow_right (by decide) (by omega)))
          simp [hz]
        · simp [hl]
      · simp [hs]
  · simp [hb]

end

def packFields (width : Nat) (bytes : List UInt8) : Nat → List UInt8 → List UInt8
  | _, [] => bytes
  | index, value :: rest => packFields width (orField width bytes index value) (index + 1) rest

@[simp] theorem length_packFields (width : Nat) (bytes : List UInt8) (idx : Nat)
    (v : List UInt8) : (packFields width bytes idx v).length = bytes.length := by
  induction v generalizing bytes idx with
  | nil => rfl
  | cons _ _ ih => simp [packFields, ih]

theorem getField_packFields (hw : width ∣ 8) {values : List UInt8}
    (hv : ∀ v ∈ values, v.toNat < 2 ^ width)
    (hn : ∀ i < values.length, (idx + i) / (8 / width) < bytes.length) (k : Nat) :
    getField width (packFields width bytes idx values) k =
      if idx ≤ k then getField width bytes k ||| values[k - idx]?.getD 0
      else getField width bytes k := by
  induction values generalizing bytes idx with
  | nil => simp [packFields]
  | cons value _ ih =>
    have ha : value.toNat < 2 ^ width := hv value (by simp)
    have hb : idx / (8 / width) < bytes.length := by simpa using hn 0 (by simp)
    rw [packFields, ih (fun v h => hv v (by simp [h])) (by
      intro i hi
      have := hn (i + 1) (by simpa using hi)
      rw [length_orField]
      rwa [show idx + 1 + i = idx + (i + 1) by omega])]
    by_cases hk : k = idx
    · subst hk
      rw [if_neg (by omega), if_pos (le_refl _), getField_orField_self hw ha hb]
      simp
    rw [getField_orField_ne hw ha hk]
    by_cases hl : idx ≤ k
    · rw [if_pos (by omega), if_pos hl]
      congr 2
      rw [show k - idx = (k - (idx + 1)) + 1 by omega, getElem?_cons_succ]
    · rw [if_neg (by omega), if_neg hl]

end UnifiedCache.Bytes
