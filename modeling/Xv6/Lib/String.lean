import Xv6.Framework.Writes

/-!
# `memmove`, in the kernel and in the user library

`memmove` from `kernel/string.c`, with `memcpy`, which calls it, and from
`user/ulib.c`. Memory is a function from addresses to bytes and pointers are
addresses, so `s + n` does not wrap. Both copy byte by byte, forward or
backward, and both pick the direction in which every source byte is read
before the copy overwrites it; they decide differently only where either
direction works. So both store the old `src[0..n)` at `dst` and nothing
else, however the ranges overlap: `memmove_overlap_safe`, stated with
`Framework.overwrite`.
-/

namespace Xv6

open Framework

/-- `while(n-- > 0) *d++ = *s++;` -/
def copyUp (m : Nat → UInt8) (d s : Nat) : Nat → Nat → UInt8
  | 0 => m
  | n + 1 => copyUp (Function.update m d (m s)) (d + 1) (s + 1) n

/-- `while(n-- > 0) *--d = *--s;`, with `d` and `s` one past the ends. -/
def copyDown (m : Nat → UInt8) (d s : Nat) : Nat → Nat → UInt8
  | 0 => m
  | n + 1 => copyDown (Function.update m (d - 1) (m (s - 1))) (d - 1) (s - 1) n

/-- The kernel's `memmove(dst, src, n)`: backward when `src` lies below
`dst` and the ranges overlap, else forward. -/
def memmove (m : Nat → UInt8) (dst src n : Nat) : Nat → UInt8 :=
  if src < dst ∧ src + n > dst then copyDown m (dst + n) (src + n) n
  else copyUp m dst src n

/-- `memcpy(dst, src, n)`, which calls `memmove`. -/
def memcpy (m : Nat → UInt8) (dst src n : Nat) : Nat → UInt8 := memmove m dst src n

namespace Ulib

/-- The user library's `memmove(vdst, vsrc, n)`, with an `int n`: forward
when `src` lies above `dst`, else backward. -/
def memmove (m : Nat → UInt8) (dst src : Nat) (n : Int) : Nat → UInt8 :=
  if src > dst then copyUp m dst src n.toNat
  else copyDown m (dst + n.toNat) (src + n.toNat) n.toNat

end Ulib

/-- The bytes `src[0..n)` of `m`. -/
def bytesAt (m : Nat → UInt8) (src n : Nat) : List UInt8 := (List.range n).map fun i => m (src + i)

theorem bytesAt_succ (m : Nat → UInt8) (src n : Nat) :
    bytesAt m src (n + 1) = m src :: bytesAt m (src + 1) n := by
  simp only [bytesAt, List.range_succ_eq_map, List.map_cons, List.map_map, Nat.add_zero]
  congr 2
  funext i
  simp only [Function.comp_apply]
  congr 1
  omega

theorem bytesAt_concat (m : Nat → UInt8) (src n : Nat) :
    bytesAt m src (n + 1) = bytesAt m src n ++ [m (src + n)] := by
  simp only [bytesAt, List.range_succ, List.map_append, List.map_cons, List.map_nil]

@[simp] theorem length_bytesAt (m : Nat → UInt8) (src n : Nat) : (bytesAt m src n).length = n := by
  simp [bytesAt]

/-- `bytesAt` reads only its own range. -/
theorem bytesAt_congr {m m' : Nat → UInt8} {src n : Nat} (h : ∀ i < n, m' (src + i) = m (src + i)) :
    bytesAt m' src n = bytesAt m src n := by
  apply List.map_congr_left
  intro i hi
  exact h i (List.mem_range.1 hi)

/-! ## The two loops -/

section Loops

variable {m : Nat → UInt8} {d s : Nat}

/-- **The forward loop** copies correctly when each source byte it reads
lies at or above the byte it writes, or the ranges are apart. -/
theorem copyUp_eq (n : Nat) (h : d ≤ s ∨ s + n ≤ d) : copyUp m d s n = overwrite m d (bytesAt m s n) := by
  induction n generalizing m d s with
  | zero => rw [copyUp, bytesAt, List.range_zero, List.map_nil, overwrite_nil]
  | succ n ih =>
    rw [copyUp, ih (by omega), bytesAt_succ, ← overwrite_update_cons]
    -- the bytes still to read lie past the one just written
    congr 1
    apply bytesAt_congr
    intro i hi
    exact Function.update_of_ne (by omega) _ _

/-- **The backward loop** copies correctly when each source byte it reads
lies at or below the byte it writes, or the ranges are apart. -/
theorem copyDown_eq (n : Nat) (h : s ≤ d ∨ d + n ≤ s) :
    copyDown m (d + n) (s + n) n = overwrite m d (bytesAt m s n) := by
  induction n generalizing m with
  | zero => rw [copyDown, bytesAt, List.range_zero, List.map_nil, overwrite_nil]
  | succ n ih =>
    have hd : d + (n + 1) - 1 = d + n := by omega
    have hs : s + (n + 1) - 1 = s + n := by omega
    rw [copyDown, hd, hs, ih (by omega), bytesAt_concat]
    -- the bytes still to read lie below the one just written
    have hlen : d + n = d + (bytesAt m s n).length := by rw [length_bytesAt]
    rw [bytesAt_congr fun i hi => Function.update_of_ne (show s + i ≠ d + n by omega) _ _, hlen,
      overwrite_update_concat]

end Loops

/-- **`memmove` is overlap-safe**: for every `n` and every two ranges
`[src, src + n)` and `[dst, dst + n)`, however they overlap, the kernel's
`memmove` and `memcpy` and the user library's `memmove` store the old
`src[0..n)` at `dst` and change no other byte (for the user's `int n`, no
byte at all when `n ≤ 0`). -/
theorem memmove_overlap_safe (m : Nat → UInt8) (dst src n : Nat) (k : Int) :
    memmove m dst src n = overwrite m dst (bytesAt m src n) ∧
      memcpy m dst src n = overwrite m dst (bytesAt m src n) ∧
      Ulib.memmove m dst src k = overwrite m dst (bytesAt m src k.toNat) := by
  have hk : memmove m dst src n = overwrite m dst (bytesAt m src n) := by
    unfold memmove
    split
    · rename_i h
      exact copyDown_eq n (.inl (Nat.le_of_lt h.1))
    · rename_i h
      exact copyUp_eq n (by omega)
  refine ⟨hk, hk, ?_⟩
  unfold Ulib.memmove
  split
  · rename_i h
    exact copyUp_eq _ (.inl (Nat.le_of_lt h))
  · rename_i h
    exact copyDown_eq _ (.inl (Nat.le_of_not_lt h))

/-- Bytes `0, 1, 2` moved up by one: the backward loop leaves `0, 0, 1, 2`. -/
example : (List.range 4).map (memmove (fun x => x.toUInt8) 1 0 3) = [0, 0, 1, 2] := by decide

/-! ## `strncmp` and `strncpy`

A C string is given by the list of its bytes: reading past the end of the
list reads a NUL, and what it holds as a C string is the bytes before the
first NUL (`beforeNul`). -/

/-- The bytes of a C string before its NUL. -/
def beforeNul (p : List Char) : List Char := p.takeWhile (· ≠ '\x00')

/-- `strncmp(p, q, n)`. -/
def strncmp : List Char → List Char → Nat → Int
  | _, _, 0 => 0
  | p, q, n + 1 =>
    if p.headD '\x00' ≠ '\x00' ∧ p.headD '\x00' = q.headD '\x00' then strncmp p.tail q.tail n
    else ((p.headD '\x00').toNat : Int) - (q.headD '\x00').toNat

/-- `strncpy(s, t, n)` into the `n` bytes of `s`: the bytes of `t` up to
and with its NUL, at most `n` of them, then NULs. -/
def strncpy : List Char → Nat → List Char
  | _, 0 => []
  | t, n + 1 =>
    if t.headD '\x00' = '\x00' then List.replicate (n + 1) '\x00'
    else t.headD '\x00' :: strncpy t.tail n

theorem beforeNul_cons (a : Char) (p : List Char) : beforeNul (a :: p) = if a = '\x00' then [] else a :: beforeNul p := by
  by_cases ha : a = '\x00' <;> simp [beforeNul, ha]

@[simp] theorem beforeNul_nil : beforeNul [] = [] := rfl

theorem beforeNul_replicate_nul (n : Nat) : beforeNul (List.replicate n '\x00') = [] := by
  cases n with
  | zero => rfl
  | succ n => rw [List.replicate_succ, beforeNul_cons, if_pos rfl]

/-- **`strncmp` is 0 exactly when the two strings agree on their first `n`
bytes before the NUL.** -/
theorem strncmp_eq_zero_iff (p q : List Char) (n : Nat) :
    strncmp p q n = 0 ↔ (beforeNul p).take n = (beforeNul q).take n := by
  induction n generalizing p q with
  | zero => simp [strncmp]
  | succ n ih =>
    rw [strncmp]
    split
    · -- the same byte, not NUL: the rest decides
      rename_i h
      obtain ⟨a, p, rfl⟩ : ∃ a p', p = a :: p' := by
        cases p with
        | nil => exact absurd h.1 (by simp)
        | cons a p => exact ⟨a, p, rfl⟩
      obtain ⟨b, q, rfl⟩ : ∃ b q', q = b :: q' := by
        cases q with
        | nil => exact absurd h (by simp)
        | cons b q => exact ⟨b, q, rfl⟩
      simp only [List.headD_cons] at h
      obtain ⟨ha, rfl⟩ := h
      rw [List.tail_cons, List.tail_cons, ih, beforeNul_cons, beforeNul_cons, if_neg ha, if_neg ha]
      simp
    · -- a NUL in `p`, or two different bytes: they differ exactly when the strings do
      rename_i h
      have hb : ∀ (x : List Char), (beforeNul x).take (n + 1) = [] ↔ x.headD '\x00' = '\x00' := by
        intro x
        cases x with
        | nil => simp
        | cons c x => by_cases hc : c = '\x00' <;> simp [beforeNul_cons, hc]
      have hsub : ((p.headD '\x00').toNat : Int) - (q.headD '\x00').toNat = 0 ↔ p.headD '\x00' = q.headD '\x00' := by
        rw [sub_eq_zero, Nat.cast_inj]
        exact ⟨Char.toNat_inj.1, fun h => h ▸ rfl⟩
      rw [hsub]
      by_cases hp : p.headD '\x00' = '\x00'
      · rw [(hb p).2 hp, hp]
        exact ⟨fun he => ((hb q).2 he.symm).symm, fun he => ((hb q).1 he.symm).symm⟩
      · have hne : p.headD '\x00' ≠ q.headD '\x00' := fun he => h ⟨hp, he⟩
        refine ⟨fun he => absurd he hne, fun he => absurd ?_ hne⟩
        cases p with
        | nil => exact absurd rfl hp
        | cons a p =>
          cases q with
          | nil => simp [beforeNul_cons, show a ≠ '\x00' from hp] at he
          | cons b q =>
            simp only [List.headD_cons] at hp ⊢
            by_cases hq : b = '\x00' <;> simp [beforeNul_cons, hp, hq] at he
            exact he.1

@[simp] theorem length_strncpy (t : List Char) (n : Nat) : (strncpy t n).length = n := by
  induction n generalizing t with
  | zero => rfl
  | succ n ih =>
    rw [strncpy]
    split
    · simp
    · simp [ih]

/-- **`strncpy` copies the string, cut at `n` bytes.** -/
theorem beforeNul_strncpy (t : List Char) (n : Nat) : beforeNul (strncpy t n) = (beforeNul t).take n := by
  induction n generalizing t with
  | zero => simp [strncpy, beforeNul]
  | succ n ih =>
    rw [strncpy]
    cases t with
    | nil => simp [beforeNul_replicate_nul]
    | cons a t =>
      by_cases ha : a = '\x00'
      · rw [if_pos (by simpa using ha), beforeNul_replicate_nul, beforeNul_cons, if_pos ha, List.take_nil]
      · rw [if_neg (by simpa using ha), List.headD_cons, List.tail_cons, beforeNul_cons, if_neg ha, ih, beforeNul_cons,
          if_neg ha, List.take_succ_cons]

end Xv6
