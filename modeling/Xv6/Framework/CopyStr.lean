import Xv6.Framework.Paged

/-!
# Copying a terminated string out of a paged address space

`Space.copyinstr` copies from `srcva` on, page by page as `copyin` does, up to
and including the first terminator `z`, and at most `max` elements. Each page
round looks the page up and fails if it is not accessible; then it copies up
to the end of the page, the terminator or the `max`-th element, whichever
comes first (`strRun`).

Two numbers describe it: `zLen`, how many elements come before the first
terminator, and `okLen`, how many come before the first inaccessible page.
It succeeds iff the terminator comes before `max` and the pages up to it are
accessible, and then it has copied the string and its terminator
(`copyinstr_spec`, `copyinstr_fst_eq_zero`).
-/

namespace Framework

namespace Space

variable {α : Type} [DecidableEq α]

section Defs

variable (z : α)

/-- How many of the `n` elements from `a` on come before the first `z`. -/
def zLen (m : Space α) (a : Nat) : Nat → Nat
  | 0 => 0
  | n + 1 => if m.byte a = z then 0 else zLen m (a + 1) n + 1

/-- The inner loop of `copyinstr` over the `n` elements from `a` on: what it
copies, up to and including the first `z`, and whether it met one. -/
def strRun (m : Space α) (a : Nat) : Nat → List α × Bool
  | 0 => ([], false)
  | n + 1 =>
    if m.byte a = z then ([z], true)
    else
      let r := strRun m (a + 1) n
      (m.byte a :: r.1, r.2)

variable (P : Nat)

/-- `copyinstr`: the elements from `srcva` on up to the first `z`, page by
page; `0` once it has copied a `z`, `-1` at the first inaccessible page or
after `max` elements without one. -/
def copyinstr [NeZero P] (m : Space α) (srcva max : Nat) : Int × List α :=
  if h : max = 0 then (-1, [])
  else
    let va0 := srcva / P * P
    if m.ok va0 then
      let n := min (P - (srcva - va0)) max
      let r := strRun z m srcva n
      if r.2 then (0, r.1)
      else
        let r' := copyinstr m (va0 + P) (max - n)
        (r'.1, r.1 ++ r'.2)
    else (-1, [])
termination_by max
decreasing_by
  have := Nat.div_mul_le_self srcva P
  have := Nat.lt_div_mul_add (a := srcva) (Nat.pos_of_neZero P)
  omega

end Defs

section Lemmas

variable {z : α}

theorem zLen_le (m : Space α) (a n : Nat) : zLen z m a n ≤ n := by
  induction n generalizing a with
  | zero => rfl
  | succ n ih => simp only [zLen]; split <;> [skip; have := ih (a + 1)] <;> omega

/-- Splitting `[a, a + k + n)` after `k` elements. -/
theorem zLen_add (m : Space α) (a k n : Nat) :
    zLen z m a (k + n) = if zLen z m a k < k then zLen z m a k else k + zLen z m (a + k) n := by
  induction k generalizing a with
  | zero => simp [zLen]
  | succ k ih =>
    rw [Nat.add_right_comm, zLen, zLen, ih (a + 1), Nat.add_right_comm a 1 k, Nat.add_assoc a k 1]
    by_cases hz : m.byte a = z
    · simp [hz]
    · simp only [hz, ite_false]
      split <;> split <;> omega

/-- The inner loop copies the elements before the first `z`, and the `z` if
it meets one. -/
theorem strRun_eq (m : Space α) (a n : Nat) :
    strRun z m a n = if zLen z m a n < n then (m.read a (zLen z m a n) ++ [z], true) else (m.read a n, false) := by
  induction n generalizing a with
  | zero => rfl
  | succ n ih =>
    rw [strRun, zLen]
    by_cases hz : m.byte a = z
    · simp [hz, read]
    · simp only [hz, ite_false, ih]
      by_cases hlt : zLen z m (a + 1) n < n
      · simp [hlt, read]
      · simp [hlt, read]

/-- The first `z`, where there is one. -/
theorem byte_zLen (m : Space α) (a n : Nat) (h : zLen z m a n < n) : m.byte (a + zLen z m a n) = z := by
  induction n generalizing a with
  | zero => cases h
  | succ n ih =>
    simp only [zLen] at h ⊢
    by_cases hz : m.byte a = z
    · simp [hz]
    · simp only [hz, ite_false] at h ⊢
      rw [← Nat.add_assoc, Nat.add_right_comm]
      exact ih (a + 1) (by omega)

/-- No `z` comes before `zLen`. -/
theorem byte_ne_of_lt_zLen (m : Space α) (a n : Nat) {j : Nat} (hj : j < zLen z m a n) : m.byte (a + j) ≠ z := by
  induction n generalizing a j with
  | zero => cases hj
  | succ n ih =>
    simp only [zLen] at hj
    by_cases hz : m.byte a = z
    · simp [hz] at hj
    · simp only [hz, ite_false] at hj
      cases j with
      | zero => simpa using hz
      | succ j =>
        rw [Nat.add_comm j 1, ← Nat.add_assoc]
        exact ih (a + 1) (by omega)

/-- `zLen` is the position of the first `z`, wherever one comes before `n`. -/
theorem zLen_eq_of {m : Space α} {a n k : Nat} (hk : k < n) (hz : m.byte (a + k) = z)
    (hne : ∀ j < k, m.byte (a + j) ≠ z) : zLen z m a n = k := by
  apply Nat.le_antisymm
  · -- a first `z` later than `k` would make the byte at `k` not one
    by_contra hlt
    exact byte_ne_of_lt_zLen m a n (j := k) (by omega) hz
  · -- a first `z` earlier than `k` contradicts `hne`
    by_contra hlt
    exact hne _ (by omega) (byte_zLen m a n (by omega))

variable (P : Nat) [NeZero P]

/-- The condition under which `copyinstr` succeeds: a `z` before `max`, on an
accessible page after accessible pages. -/
def StrOk (z : α) (m : Space α) (a max : Nat) : Prop :=
  zLen z m a max < max ∧ okLen P m a (zLen z m a max + 1) = zLen z m a max + 1

omit [NeZero P] in
/-- `StrOk` spelled out: some `k < max` holds the first `z`, and the pages of
`[a, a + k]` are accessible. -/
theorem strOk_iff (m : Space α) (a max : Nat) :
    StrOk P z m a max ↔
      ∃ k < max, m.byte (a + k) = z ∧ (∀ j < k, m.byte (a + j) ≠ z) ∧ ∀ j ≤ k, m.ok ((a + j) / P * P) := by
  constructor
  · rintro ⟨hlt, hok⟩
    exact ⟨zLen z m a max, hlt, byte_zLen m a max hlt, fun j hj => byte_ne_of_lt_zLen m a max hj,
      fun j hj => (okLen_eq_iff m a _).1 hok j (by omega)⟩
  · rintro ⟨k, hk, hz, hne, hok⟩
    have he := zLen_eq_of hk hz hne
    refine ⟨by omega, ?_⟩
    rw [he]
    exact (okLen_eq_iff m a _).2 fun j hj => hok j (by omega)

theorem copyinstr_zero (m : Space α) (a : Nat) : copyinstr z P m a 0 = (-1, []) := by
  rw [copyinstr, dif_pos rfl]

theorem copyinstr_of_bad (m : Space α) {a max : Nat} (h : max ≠ 0) (hp : m.ok (a / P * P) = false) :
    copyinstr z P m a max = (-1, []) := by
  rw [copyinstr, dif_neg h]
  simp [hp]

/-- One page round of `copyinstr`, on an accessible page. -/
theorem copyinstr_of_ok (m : Space α) {a max : Nat} (h : max ≠ 0) (hp : m.ok (a / P * P) = true) :
    copyinstr z P m a max =
      if (strRun z m a (min (P - a % P) max)).2 then (0, (strRun z m a (min (P - a % P) max)).1)
      else
        ((copyinstr z P m (a / P * P + P) (max - min (P - a % P) max)).1,
          (strRun z m a (min (P - a % P) max)).1 ++ (copyinstr z P m (a / P * P + P) (max - min (P - a % P) max)).2) := by
  rw [copyinstr, dif_neg h, Nat.mod_eq_sub_div_mul]
  simp only [hp, if_true]

/-- **What `copyinstr` does**: where a `z` comes before `max` on accessible
pages it succeeds with the string and its `z`, and otherwise it fails. -/
theorem copyinstr_spec (m : Space α) (a max : Nat) :
    (StrOk P z m a max → copyinstr z P m a max = (0, m.read a (zLen z m a max) ++ [z])) ∧
      (¬StrOk P z m a max → (copyinstr z P m a max).1 = -1) := by
  induction max using Nat.strong_induction_on generalizing a with
  | _ max ih =>
  by_cases h : max = 0
  · subst h
    rw [copyinstr_zero]
    exact ⟨fun hs => absurd hs.1 (by simp [zLen]), fun _ => rfl⟩
  cases hp : m.ok (a / P * P) with
  | false =>
    have hnot : ¬StrOk P z m a max := fun hs => by
      have := hs.2
      rw [okLen_bad m hp (by omega)] at this
      omega
    exact ⟨fun hs => absurd hs hnot, fun _ => by rw [copyinstr_of_bad P m h hp]⟩
  | true =>
  rw [copyinstr_of_ok P m h hp]
  -- the round covers `n` elements, to the end of the page or to `max`
  obtain ⟨n, hn⟩ : ∃ n, n = min (P - a % P) max := ⟨_, rfl⟩
  rw [← hn]
  have hnmax : n ≤ max := hn ▸ Nat.min_le_right _ _
  have hnP : n ≤ P - a % P := hn ▸ Nat.min_le_left _ _
  have hP := Nat.mod_lt a (Nat.pos_of_neZero P)
  have hn0 : 0 < n := by omega
  have hmaxn : zLen z m a max = zLen z m a (n + (max - n)) := by rw [Nat.add_sub_cancel' hnmax]
  rw [zLen_add] at hmaxn
  rw [strRun_eq]
  by_cases hzn : zLen z m a n < n
  · -- the `z` lies on this page
    rw [if_pos hzn] at hmaxn
    have hok : okLen P m a (zLen z m a n + 1) = zLen z m a n + 1 := okLen_page m hp (by omega)
    have hs : StrOk P z m a max := ⟨by omega, by rw [hmaxn, hok]⟩
    simp only [if_pos hzn, if_true]
    exact ⟨fun _ => by rw [hmaxn], fun hn' => absurd hs hn'⟩
  · -- no `z` on this page: the rest of the string is the next round's
    have hzn' : zLen z m a n = n := Nat.le_antisymm (zLen_le m a n) (by omega)
    rw [if_neg hzn] at hmaxn
    simp only [if_neg hzn, Bool.false_eq_true, if_false]
    have hokn : okLen P m a n = n := okLen_page m hp hnP
    have ih' := ih (max - n) (by omega) (a / P * P + P)
    by_cases hrest : max - n = 0
    · -- `max` is used up on this page
      have hnot : ¬StrOk P z m a max := fun hs => by
        have := hs.1
        rw [hmaxn, hrest] at this
        simp [zLen] at this
        omega
      refine ⟨fun hs => absurd hs hnot, fun _ => ?_⟩
      rw [hrest, copyinstr_zero]
    · -- the round ran to the end of the page
      have hend : a + n = a / P * P + P := by
        have hd := Nat.div_add_mod a P
        have : n = P - a % P := by omega
        rw [Nat.mul_comm]
        omega
      have hiff : StrOk P z m a max ↔ StrOk P z m (a / P * P + P) (max - n) := by
        unfold StrOk
        rw [hmaxn, ← hend, Nat.add_assoc, okLen_add, hokn, if_pos rfl]
        omega
      refine ⟨fun hs => ?_, fun hs => ih'.2 (fun h' => hs (hiff.2 h'))⟩
      rw [ih'.1 (hiff.1 hs), hmaxn, ← hend, read_add, List.append_assoc]

theorem copyinstr_fst_eq_zero (m : Space α) (a max : Nat) :
    (copyinstr z P m a max).1 = 0 ↔ StrOk P z m a max := by
  by_cases hs : StrOk P z m a max
  · simp [(copyinstr_spec P m a max).1 hs, hs]
  · simp [(copyinstr_spec P m a max).2 hs, hs]

end Lemmas

end Space

end Framework
