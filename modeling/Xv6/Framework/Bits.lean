import Mathlib

/-!
# Bit masks in 32-bit words and in bytes

`bit i` is the mask `1 << i` of C for an unsigned 32-bit word and `0 ≤ i <
32`. Whether `x & (1 << i)` is non-zero is bit `i` of `x`
(`and_bit_ne_zero`), and the bits of `&`, `|` and `~` of masks are those of
their operands (`bitAt_and`, `bitAt_or`, `bitAt_not`, `bitAt_bit`),
so that facts about masks reduce to facts about single bits. `byteMask`
and `byteBit` are the same for an unsigned byte.
-/

namespace Framework

/-- The mask `1 << i` of a 32-bit word. -/
def bit (i : Nat) : UInt32 := 1 <<< i.toUInt32

/-- Bit `i` of a 32-bit word. -/
def bitAt (x : UInt32) (i : Nat) : Bool := x.toBitVec.getLsbD i

theorem toBitVec_bit {i : Nat} (hi : i < 32) : (bit i).toBitVec = 1#32 <<< i := by
  simp [bit, Nat.mod_eq_of_lt hi]

@[simp] theorem bitAt_bit {i : Nat} (hi : i < 32) (j : Nat) : bitAt (bit i) j = decide (j = i) := by
  simp only [bitAt, toBitVec_bit hi, BitVec.getLsbD_shiftLeft]
  by_cases hj : j = i
  · subst hj; simp [hi]
  · by_cases hlt : j < i
    · simp [hj, hlt]
    · simp [hj, hlt, BitVec.getLsbD_one]; omega

@[simp] theorem bitAt_and (x y : UInt32) (j : Nat) : bitAt (x &&& y) j = (bitAt x j && bitAt y j) := by
  simp [bitAt]

@[simp] theorem bitAt_or (x y : UInt32) (j : Nat) : bitAt (x ||| y) j = (bitAt x j || bitAt y j) := by
  simp [bitAt]

@[simp] theorem bitAt_not (x : UInt32) {j : Nat} (hj : j < 32) : bitAt (~~~x) j = !bitAt x j := by
  simp [bitAt, hj]

@[simp] theorem bitAt_zero (j : Nat) : bitAt (0 : UInt32) j = false := by
  simp [bitAt]

/-- Two words with the same bits are equal. -/
theorem ext_bitAt {x y : UInt32} (h : ∀ j < 32, bitAt x j = bitAt y j) : x = y := by
  apply UInt32.toBitVec_inj.mp
  ext j hj
  simpa [bitAt, BitVec.getLsbD_eq_getElem hj] using h j hj

/-- `x & (1 << i)` is non-zero iff bit `i` of `x` is set. -/
theorem and_bit_ne_zero (x : UInt32) {i : Nat} (hi : i < 32) : (x &&& bit i != 0) = bitAt x i := by
  cases h : bitAt x i
  · have : x &&& bit i = 0 := ext_bitAt fun j _ => by
      by_cases hj : j = i
      · subst hj; simp [h]
      · simp [bitAt_bit hi, hj]
    simp [this]
  · have : x &&& bit i ≠ 0 := fun h0 => by simpa [h, bitAt_bit hi] using congrArg (bitAt · i) h0
    simpa using this

/-! ## Bit masks in bytes

The same for an unsigned byte, as a bitmap of bytes uses them: `byteMask i`
is `1 << i` for `0 ≤ i < 8`. -/

/-- The mask `1 << i` of a byte. -/
def byteMask (i : Nat) : UInt8 := 1 <<< i.toUInt8

/-- Bit `i` of a byte. -/
def byteBit (x : UInt8) (i : Nat) : Bool := x.toBitVec.getLsbD i

@[simp] theorem byteBit_byteMask {i : Nat} (hi : i < 8) (j : Nat) : byteBit (byteMask i) j = decide (j = i) := by
  have : (byteMask i).toBitVec = 1#8 <<< i := by simp [byteMask, Nat.mod_eq_of_lt hi]
  simp only [byteBit, this, BitVec.getLsbD_shiftLeft]
  by_cases hj : j = i
  · subst hj; simp [hi]
  · by_cases hlt : j < i
    · simp [hj, hlt]
    · simp [hj, hlt, BitVec.getLsbD_one]; omega

@[simp] theorem byteBit_and (x y : UInt8) (j : Nat) : byteBit (x &&& y) j = (byteBit x j && byteBit y j) := by
  simp [byteBit]

@[simp] theorem byteBit_or (x y : UInt8) (j : Nat) : byteBit (x ||| y) j = (byteBit x j || byteBit y j) := by
  simp [byteBit]

@[simp] theorem byteBit_not (x : UInt8) {j : Nat} (hj : j < 8) : byteBit (~~~x) j = !byteBit x j := by
  simp [byteBit, hj]

@[simp] theorem byteBit_zero (j : Nat) : byteBit (0 : UInt8) j = false := by
  simp [byteBit]

/-- Two bytes with the same bits are equal. -/
theorem ext_byteBit {x y : UInt8} (h : ∀ j < 8, byteBit x j = byteBit y j) : x = y := by
  apply UInt8.toBitVec_inj.mp
  ext j hj
  simpa [byteBit, BitVec.getLsbD_eq_getElem hj] using h j hj

/-- `x & (1 << i)` is zero iff bit `i` of `x` is clear. -/
theorem and_byteMask_eq_zero (x : UInt8) {i : Nat} (hi : i < 8) : (x &&& byteMask i == 0) = !byteBit x i := by
  cases h : byteBit x i
  · have : x &&& byteMask i = 0 := ext_byteBit fun j _ => by
      by_cases hj : j = i
      · subst hj; simp [h]
      · simp [byteBit_byteMask hi, hj]
    simp [this]
  · have : x &&& byteMask i ≠ 0 := fun h0 => by simpa [h, byteBit_byteMask hi] using congrArg (byteBit · i) h0
    simpa using this

end Framework
