import Mathlib

/-!
# Ring buffers with free-running indices

A ring of `cap` cells indexed by free-running counters: the reader's counter
`r` names cell `r % cap`, and the `count` cells from it on are the queue the
ring holds (`ringView`). Storing at the cell after the last one appends to
the queue when the ring is not full (`ringView_push`), and advancing the
reader's counter drops the head (`ringView_pop`). Counters kept modulo `M`,
as machine words keep them, name the same cells whenever `cap` divides `M`
(`ringView_mod`), and counters of 32 bits keep a queue between them however
far they wrap (`ringView_push32`, `ringView_pop32`, `ringView_pred32`).
-/

namespace Framework

variable {α : Type}

/-- The `count` cells from the one counter `r` names, in queue order. -/
def ringView (cap : Nat) (data : Nat → α) (r : Nat) : Nat → List α
  | 0 => []
  | count + 1 => ringView cap data r count ++ [data ((r + count) % cap)]

variable {cap : Nat} {data : Nat → α}

@[simp] theorem length_ringView (r count : Nat) : (ringView cap data r count).length = count := by
  induction count with
  | zero => rfl
  | succ count ih => simp [ringView, ih]

/-- Two queues are equal when their cells are, one by one; cells outside the
queue do not show in it. -/
theorem ringView_congr {data' : Nat → α} {r r' count : Nat}
    (h : ∀ k < count, data ((r + k) % cap) = data' ((r' + k) % cap)) :
    ringView cap data r count = ringView cap data' r' count := by
  induction count with
  | zero => rfl
  | succ count ih =>
    rw [ringView, ringView, ih fun k hk => h k (by omega), h count (by omega)]

/-- Storing `v` in the cell after the last one of a ring that is not full
appends `v` to the queue. -/
theorem ringView_push {r count : Nat} (hc : count < cap) (v : α) :
    ringView cap (Function.update data ((r + count) % cap) v) r (count + 1) = ringView cap data r count ++ [v] := by
  rw [ringView, Function.update_self, ringView_congr fun k hk => ?_]
  -- Two offsets below `cap` from one counter name different cells.
  refine Function.update_of_ne (fun e => ?_) _ _
  have := Nat.ModEq.add_left_cancel' r e
  rw [Nat.ModEq, Nat.mod_eq_of_lt (by omega), Nat.mod_eq_of_lt hc] at this
  omega

/-- Advancing the reader's counter drops the head of the queue. -/
theorem ringView_pop (r count : Nat) :
    ringView cap data r (count + 1) = data (r % cap) :: ringView cap data (r + 1) count := by
  induction count with
  | zero => simp [ringView]
  | succ count ih =>
    rw [ringView, ih, ringView, List.cons_append, show r + 1 + count = r + (count + 1) by omega]

/-- A counter kept modulo a multiple of `cap` names the same cells. -/
theorem ringView_mod {M : Nat} (hd : cap ∣ M) (r count : Nat) :
    ringView cap data (r % M) count = ringView cap data r count :=
  ringView_congr fun k _ => by
    have hr : r % M ≡ r [MOD cap] := Nat.mod_mod_of_dvd r hd
    rw [hr.add_right k]

/-- A queue split where its first `m` cells end. -/
theorem ringView_append (r m k : Nat) :
    ringView cap data r (m + k) = ringView cap data r m ++ ringView cap data (r + m) k := by
  induction k with
  | zero => simp [ringView]
  | succ k ih => rw [← Nat.add_assoc, ringView, ih, ringView, List.append_assoc, Nat.add_assoc]

/-- Dropping the last cell of a queue. -/
theorem ringView_pred (r count : Nat) : ringView cap data r (count - 1) = (ringView cap data r count).dropLast := by
  cases count with
  | zero => rfl
  | succ count => rw [ringView, List.dropLast_concat, Nat.add_sub_cancel]

/-! ## Counters of 32 bits

The counters a kernel keeps in `uint` wrap past `2³²`; the queue between
counters `a` and `b` is the `(b - a) mod 2³²` cells from `a` on. Whenever
`cap` divides `2³²`, storing at `b` and advancing it appends
(`ringView_push32`), advancing `a` drops the head (`ringView_pop32`), and
moving `b` back drops the last cell (`ringView_pred32`), however far the
counters have wrapped. -/

section Counters

variable {a b : UInt32}

/-- Counter `b` advanced by one is one further from `a`, below `2³²`. -/
theorem sub_toNat_add_one (h : (b - a).toNat + 1 < 2 ^ 32) : (b + 1 - a).toNat = (b - a).toNat + 1 := by
  rw [add_sub_right_comm, UInt32.toNat_add, UInt32.toNat_one, Nat.mod_eq_of_lt h]

/-- Counters are equal exactly when none lies between them. -/
theorem sub_toNat_eq_zero : (b - a).toNat = 0 ↔ a = b := by
  rw [← UInt32.toNat_zero, UInt32.toNat_inj, sub_eq_zero, eq_comm]

theorem one_le_sub (h : a ≠ b) : (1 : UInt32) ≤ b - a := by
  rw [UInt32.le_iff_toNat_le, UInt32.toNat_one]
  exact Nat.one_le_iff_ne_zero.2 fun e => h (sub_toNat_eq_zero.1 e)

/-- Counter `a` advanced by one is one closer to `b`. -/
theorem sub_succ_toNat (h : a ≠ b) : (b - (a + 1)).toNat = (b - a).toNat - 1 := by
  rw [sub_add_eq_sub_sub, UInt32.toNat_sub_of_le _ _ (one_le_sub h), UInt32.toNat_one]

/-- Counter `b` moved back by one is one closer to `a`. -/
theorem sub_one_sub_toNat (h : a ≠ b) : (b - 1 - a).toNat = (b - a).toNat - 1 := by
  rw [sub_right_comm, UInt32.toNat_sub_of_le _ _ (one_le_sub h), UInt32.toNat_one]

/-- Of three counters in order, the distances add up. -/
theorem sub_toNat_of_le {c : UInt32} (h : (b - a).toNat ≤ (c - a).toNat) :
    (c - b).toNat = (c - a).toNat - (b - a).toNat := by
  rw [← UInt32.toNat_sub_of_le _ _ (UInt32.le_iff_toNat_le.2 h), sub_sub_sub_cancel_right]

/-- The cell counter `b` names, seen from `a`. -/
theorem toNat_mod_of_dvd (hd : cap ∣ 2 ^ 32) (a b : UInt32) :
    b.toNat % cap = (a.toNat + (b - a).toNat) % cap := by
  have e : b = a + (b - a) := (add_sub_cancel _ _).symm
  conv_lhs => rw [e]
  rw [UInt32.toNat_add]
  exact Nat.mod_mod_of_dvd _ hd

/-- Moving `b` back short of `a` drops the last cell of the queue, the one
`b - 1` names. -/
theorem ringView_pred32 (h : a ≠ b) :
    ringView cap data a.toNat (b - 1 - a).toNat = (ringView cap data a.toNat (b - a).toNat).dropLast := by
  rw [sub_one_sub_toNat h, ringView_pred]

variable (hd : cap ∣ 2 ^ 32)
include hd

/-- Storing at `b`, fewer than `cap` cells after `a`, and advancing `b`
appends to the queue. -/
theorem ringView_push32 (hc : (b - a).toNat < cap) (hlt : (b - a).toNat + 1 < 2 ^ 32) (v : α) :
    ringView cap (Function.update data (b.toNat % cap) v) a.toNat (b + 1 - a).toNat =
      ringView cap data a.toNat (b - a).toNat ++ [v] := by
  rw [sub_toNat_add_one hlt, toNat_mod_of_dvd hd a b]
  exact ringView_push hc v

/-- Advancing `a` short of `b` drops the head of the queue. -/
theorem ringView_pop32 (h : a ≠ b) :
    ringView cap data a.toNat (b - a).toNat =
      data (a.toNat % cap) :: ringView cap data (a + 1).toNat (b - (a + 1)).toNat := by
  have hc : (b - a).toNat = (b - a).toNat - 1 + 1 := by
    have := (sub_toNat_eq_zero (a := a) (b := b)).not.2 h
    omega
  rw [hc, ringView_pop, sub_succ_toNat h, UInt32.toNat_add, UInt32.toNat_one, ringView_mod (M := 2 ^ 32) hd]

theorem getLast_ringView32 (h : a ≠ b) :
    (ringView cap data a.toNat (b - a).toNat).getLast? = some (data ((b - 1).toNat % cap)) := by
  have hc : (b - a).toNat = (b - 1 - a).toNat + 1 := by
    have := (sub_toNat_eq_zero (a := a) (b := b)).not.2 h
    rw [sub_one_sub_toNat h]
    omega
  rw [hc, ringView, List.getLast?_concat, toNat_mod_of_dvd hd a (b - 1)]

end Counters

end Framework
