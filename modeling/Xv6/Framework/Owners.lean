import Mathlib

/-!
# Resources held by owners

A pool of resources split between a free store and a finite set of owners,
counted as one multiset: `free + ∑ i, held i`. While it has no duplicates,
no resource is held twice: an owner's resources are distinct
(`held_nodup`), none is also free (`held_not_free`), and no two owners hold
the same one (`held_disjoint`). A step that changes what one owner holds
changes the sum by the difference (`sum_update_held`); a step that moves
resources between the free store and that owner, in either direction,
keeps the pool. A pool of distinct blocks of `P` aligned in a range has at
most as many as the range holds (`card_le_of_aligned`).
-/

namespace Framework

variable {ι α : Type} [Fintype ι]

theorem held_le_sum (held : ι → Multiset α) (i : ι) : held i ≤ ∑ j, held j :=
  Finset.single_le_sum (fun _ _ => Multiset.zero_le _) (Finset.mem_univ i)

theorem mem_pool_of_held {free : Multiset α} {held : ι → Multiset α} {i : ι} {a : α} (ha : a ∈ held i) :
    a ∈ free + ∑ j, held j :=
  Multiset.mem_add.2 (.inr (Multiset.mem_of_le (held_le_sum held i) ha))

section Nodup

variable {free : Multiset α} {held : ι → Multiset α} (h : (free + ∑ j, held j).Nodup)
include h

theorem free_nodup : free.Nodup := (Multiset.nodup_add.1 h).1

theorem held_nodup (i : ι) : (held i).Nodup :=
  Multiset.nodup_of_le (held_le_sum held i) (Multiset.nodup_add.1 h).2.1

theorem held_not_free {i : ι} {a : α} (ha : a ∈ held i) : a ∉ free := fun hf =>
  Multiset.disjoint_left.1 (Multiset.nodup_add.1 h).2.2 hf (Multiset.mem_of_le (held_le_sum held i) ha)

theorem held_disjoint [DecidableEq ι] {i j : ι} (hij : i ≠ j) {a : α} (ha : a ∈ held i) : a ∉ held j := by
  have hs := (Multiset.nodup_add.1 h).2.1
  rw [← Finset.add_sum_erase _ _ (Finset.mem_univ i), Multiset.nodup_add] at hs
  exact fun hb => Multiset.disjoint_left.1 hs.2.2 ha
    (Multiset.mem_sum.2 ⟨j, Finset.mem_erase.2 ⟨hij.symm, Finset.mem_univ j⟩, hb⟩)

end Nodup

/-- Changing one owner's entry changes the sum by the difference. -/
theorem sum_update_held [DecidableEq ι] {β M : Type} [AddCommMonoid M] (g : β → M) (φ : ι → β) (p : ι) (v : β) :
    ∑ x, g (Function.update φ p v x) + g (φ p) = ∑ x, g (φ x) + g v := by
  rw [← Finset.add_sum_erase _ _ (Finset.mem_univ p), ← Finset.add_sum_erase _ _ (Finset.mem_univ p),
    Function.update_self, Finset.sum_congr rfl fun x hx => by rw [Function.update_of_ne (Finset.ne_of_mem_erase hx)]]
  abel

/-- Distinct multiples of `P` in `[lo, hi)`, for `lo` and `hi` multiples of
`P`, number at most `(hi - lo) / P`. -/
theorem card_le_of_aligned {P lo hi : ℕ} (hP : 0 < P) (hlo : P ∣ lo) (hhi : P ∣ hi) {s : Multiset ℕ}
    (hnd : s.Nodup) (hs : ∀ x ∈ s, P ∣ x ∧ lo ≤ x ∧ x < hi) : Multiset.card s ≤ (hi - lo) / P := by
  -- a multiple of `P` is determined by its quotient, which lies in `[lo / P, hi / P)`
  have hmaps : Set.MapsTo (· / P) (s.toFinset : Set ℕ) (Finset.Ico (lo / P) (hi / P) : Set ℕ) := by
    intro x hx
    obtain ⟨-, h₂, h₃⟩ := hs x (Multiset.mem_toFinset.1 hx)
    exact Finset.mem_coe.2 (Finset.mem_Ico.2 ⟨Nat.div_le_div_right h₂, Nat.div_lt_div_of_lt_of_dvd hhi h₃⟩)
  have hinj : Set.InjOn (· / P) (s.toFinset : Set ℕ) := by
    intro x hx y hy he
    rw [← Nat.div_mul_cancel (hs x (Multiset.mem_toFinset.1 hx)).1,
      ← Nat.div_mul_cancel (hs y (Multiset.mem_toFinset.1 hy)).1]
    exact congrArg (· * P) he
  calc Multiset.card s = s.toFinset.card := (Multiset.toFinset_card_of_nodup hnd).symm
    _ ≤ (Finset.Ico (lo / P) (hi / P)).card := Finset.card_le_card_of_injOn _ hmaps hinj
    _ = (hi - lo) / P := by
      obtain ⟨a, rfl⟩ := hlo
      rw [Nat.card_Ico, Nat.sub_mul_div, Nat.mul_div_cancel_left a hP]

end Framework
