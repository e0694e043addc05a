import Mathlib

/-!
# Little-endian words in bytes

How a little-endian machine lays out a word of `k` bytes (`leBytes`) and
reads one back (`leValue`), and a sequence of such words, as a C array or a
struct of equal-width fields is laid out (`wordsBytes`, `bytesWords`).
Reading back what was laid out gives the words again, reduced to their
width (`leValue_leBytes`, `bytesWords_wordsBytes`). In a byte array,
`wordAt` reads and `setWord` stores one word as a cast to an array of words
does; a store changes no other word (`wordAt_setWord_of_ne`).
-/

namespace Framework

/-- The `k` low bytes of `v`, least significant first. -/
def leBytes : Nat → Nat → List UInt8
  | 0, _ => []
  | k + 1, v => UInt8.ofNat v :: leBytes k (v / 256)

/-- The number whose little-endian bytes are `bs`. -/
def leValue : List UInt8 → Nat
  | [] => 0
  | b :: bs => b.toNat + 256 * leValue bs

@[simp] theorem length_leBytes (k v : Nat) : (leBytes k v).length = k := by
  induction k generalizing v with
  | zero => rfl
  | succ k ih => simp [leBytes, ih]

theorem leValue_leBytes (k v : Nat) : leValue (leBytes k v) = v % 256 ^ k := by
  induction k generalizing v with
  | zero => simp [leBytes, leValue, Nat.mod_one]
  | succ k ih =>
    have byte : (UInt8.ofNat v).toNat = v % 256 := by simp
    rw [leBytes, leValue, ih, byte, Nat.pow_succ, Nat.mul_comm (256 ^ k) 256, Nat.mod_mul]

theorem leValue_lt (bs : List UInt8) : leValue bs < 256 ^ bs.length := by
  induction bs with
  | nil => simp [leValue]
  | cons b bs ih =>
    have := b.toNat_lt
    simp only [leValue, List.length_cons, Nat.pow_succ]
    omega

/-- A word that fits in `k` bytes reads back as itself. -/
theorem leValue_leBytes_of_lt {k v : Nat} (h : v < 256 ^ k) : leValue (leBytes k v) = v := by
  rw [leValue_leBytes, Nat.mod_eq_of_lt h]

/-- Words of `w` bytes laid out one after another. -/
def wordsBytes (w : Nat) (vs : List Nat) : List UInt8 := vs.flatMap (leBytes w)

/-- The first `n` words of `w` bytes of a byte string. -/
def bytesWords (w : Nat) : Nat → List UInt8 → List Nat
  | 0, _ => []
  | n + 1, bs => leValue (bs.take w) :: bytesWords w n (bs.drop w)

@[simp] theorem length_wordsBytes (w : Nat) (vs : List Nat) : (wordsBytes w vs).length = w * vs.length := by
  induction vs with
  | nil => rfl
  | cons v vs ih =>
    simp only [wordsBytes, List.flatMap_cons, List.length_append, length_leBytes, List.length_cons] at ih ⊢
    rw [ih, Nat.mul_succ, Nat.add_comm]

/-- Reading back words laid out in front of any bytes gives the words, each
reduced to `w` bytes. -/
theorem bytesWords_wordsBytes_append (w : Nat) (vs : List Nat) (rest : List UInt8) :
    bytesWords w vs.length (wordsBytes w vs ++ rest) = vs.map (· % 256 ^ w) := by
  induction vs with
  | nil => rfl
  | cons v vs ih =>
    simp only [wordsBytes, List.flatMap_cons, List.length_cons, bytesWords, List.map_cons,
      List.append_assoc] at ih ⊢
    rw [List.take_left' (length_leBytes w v), List.drop_left' (length_leBytes w v), ih, leValue_leBytes]

/-- Laying words out and reading them back gives the words, each reduced to `w` bytes. -/
theorem bytesWords_wordsBytes (w : Nat) (vs : List Nat) :
    bytesWords w vs.length (wordsBytes w vs) = vs.map (· % 256 ^ w) := by
  simpa using bytesWords_wordsBytes_append w vs []

/-! ## Words in a byte array

`((T*)d)[j]` for a `k`-byte unsigned type `T`: the word at bytes
`k * j .. k * j + k` of the byte array `d`. -/

/-- Word `j` of `k` bytes of the byte array `d`. -/
def wordAt (k : Nat) (d : Nat → UInt8) (j : Nat) : Nat :=
  leValue ((List.range k).map fun i => d (k * j + i))

/-- `d` with word `j` of `k` bytes set to `v`. -/
def setWord (k : Nat) (d : Nat → UInt8) (j v : Nat) : Nat → UInt8 := fun x =>
  if k * j ≤ x ∧ x < k * j + k then (leBytes k v).getD (x - k * j) 0 else d x

variable {k : Nat}

theorem setWord_of_not_mem {d : Nat → UInt8} {j v x : Nat} (h : x < k * j ∨ k * j + k ≤ x) :
    setWord k d j v x = d x := by
  simp only [setWord]
  rw [if_neg (by omega)]

/-- A word reads only its own bytes. -/
theorem wordAt_congr {d d' : Nat → UInt8} {j : Nat} (h : ∀ i < k, d (k * j + i) = d' (k * j + i)) :
    wordAt k d j = wordAt k d' j := by
  simp only [wordAt]
  congr 1
  exact List.map_congr_left fun i hi => h i (List.mem_range.mp hi)

theorem leValue_replicate_zero (n : Nat) : leValue (List.replicate n 0) = 0 := by
  induction n with
  | zero => rfl
  | succ n ih => simp [List.replicate_succ, leValue, ih]

@[simp] theorem wordAt_zero (j : Nat) : wordAt k (fun _ => 0) j = 0 := by
  simp [wordAt, leValue_replicate_zero]

theorem wordAt_setWord_self (d : Nat → UInt8) (j v : Nat) : wordAt k (setWord k d j v) j = v % 256 ^ k := by
  have : (List.range k).map (fun i => setWord k d j v (k * j + i)) = leBytes k v := by
    refine List.ext_getElem (by simp) fun i h₁ h₂ => ?_
    simp only [List.getElem_map, List.getElem_range, setWord]
    rw [if_pos (by simp at h₁; omega), Nat.add_sub_cancel_left, List.getD_eq_getElem _ _ h₂]
  rw [wordAt, this, leValue_leBytes]

/-- Words at other indices do not share bytes. -/
theorem wordAt_setWord_of_ne (d : Nat → UInt8) {j j' : Nat} (v : Nat) (h : j' ≠ j) :
    wordAt k (setWord k d j v) j' = wordAt k d j' := by
  refine wordAt_congr fun i hi => setWord_of_not_mem ?_
  rcases Nat.lt_or_gt_of_ne h with hlt | hlt
  · have := Nat.mul_le_mul_left k (show j' + 1 ≤ j by omega)
    rw [Nat.mul_succ] at this
    omega
  · have := Nat.mul_le_mul_left k (show j + 1 ≤ j' by omega)
    rw [Nat.mul_succ] at this
    omega

end Framework
