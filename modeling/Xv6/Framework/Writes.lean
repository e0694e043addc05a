import Mathlib

/-!
# Devices that apply block writes in order

A device whose writes are atomic and applied in the order they are issued:
`applyWrites d ws` is `d` after the writes `ws`, and a crash after `k` of
them leaves `d` after `ws.take k`. What crash arguments use: a block no write
names keeps its value (`applyWrites_of_forall_ne`), a block some write names
holds what the writes put there whatever it held before
(`applyWrites_congr`), so writing all of `ws` again over a crashed prefix of
it is writing all of it (`applyWrites_applyWrites_take`), and a list of
writes to distinct blocks leaves each with its own value
(`applyWrites_map_of_mem`). `overwrite` stores a run of values into an
array from an index on.
-/

namespace Framework

variable {α : Type}

/-- `d` after the writes `ws`, first to last. -/
def applyWrites (d : Nat → α) : List (Nat × α) → Nat → α
  | [] => d
  | (b, v) :: ws => applyWrites (Function.update d b v) ws

@[simp] theorem applyWrites_nil (d : Nat → α) : applyWrites d [] = d := rfl

theorem applyWrites_cons (d : Nat → α) (b : Nat) (v : α) (ws : List (Nat × α)) :
    applyWrites d ((b, v) :: ws) = applyWrites (Function.update d b v) ws := rfl

theorem applyWrites_append (d : Nat → α) (ws vs : List (Nat × α)) :
    applyWrites d (ws ++ vs) = applyWrites (applyWrites d ws) vs := by
  induction ws generalizing d with
  | nil => rfl
  | cons w ws ih => exact ih _

/-- A block that no write names keeps its value. -/
theorem applyWrites_of_forall_ne {d : Nat → α} {ws : List (Nat × α)} {x : Nat} (h : ∀ w ∈ ws, w.1 ≠ x) :
    applyWrites d ws x = d x := by
  induction ws generalizing d with
  | nil => rfl
  | cons w ws ih =>
    obtain ⟨b, v⟩ := w
    rw [applyWrites_cons, ih fun w hw => h w (List.mem_cons_of_mem _ hw)]
    exact Function.update_of_ne (h (b, v) List.mem_cons_self).symm _ _

/-- Where some write lands, the old value does not matter. -/
theorem applyWrites_congr {d d' : Nat → α} {ws : List (Nat × α)} {x : Nat}
    (h : (∃ w ∈ ws, w.1 = x) ∨ d x = d' x) : applyWrites d ws x = applyWrites d' ws x := by
  induction ws generalizing d d' with
  | nil =>
    rcases h with ⟨w, hw, _⟩ | h
    · cases hw
    · exact h
  | cons w ws ih =>
    obtain ⟨b, v⟩ := w
    rw [applyWrites_cons, applyWrites_cons]
    apply ih
    by_cases hb : b = x
    · subst hb
      right
      simp
    · rcases h with ⟨w, hw, hwx⟩ | h
      · rcases List.mem_cons.1 hw with rfl | hw
        · exact absurd hwx hb
        · exact .inl ⟨w, hw, hwx⟩
      · right
        simp [Function.update_of_ne (Ne.symm hb), h]

/-- Running all of `ws` after a crash cut it short ends where running it once does. -/
theorem applyWrites_applyWrites_take (d : Nat → α) (ws : List (Nat × α)) (k : Nat) :
    applyWrites (applyWrites d (ws.take k)) ws = applyWrites d ws := by
  funext x
  apply applyWrites_congr
  by_cases h : ∃ w ∈ ws, w.1 = x
  · exact .inl h
  · right
    exact applyWrites_of_forall_ne fun w hw e => h ⟨w, List.mem_of_mem_take hw, e⟩

/-- Writing `f b` to each of the distinct blocks `bs` leaves `f x` in each. -/
theorem applyWrites_map_of_mem {bs : List Nat} (hd : bs.Nodup) (d : Nat → α) (f : Nat → α) {x : Nat}
    (hx : x ∈ bs) : applyWrites d (bs.map fun b => (b, f b)) x = f x := by
  induction bs generalizing d with
  | nil => cases hx
  | cons b bs ih =>
    obtain ⟨hb, hd⟩ := List.nodup_cons.1 hd
    rw [List.map_cons, applyWrites_cons]
    rcases List.mem_cons.1 hx with rfl | hx
    · rw [applyWrites_of_forall_ne]
      · simp
      · intro w hw
        obtain ⟨c, hc, rfl⟩ := List.mem_map.1 hw
        exact fun e => hb (e ▸ hc)
    · exact ih hd _ hx

/-! ## Overwriting a range

`overwrite f a bs` is `f` with `bs` stored from `a` on, as a `memmove` into
an array does. Two stores one after the other are one store of both
(`overwrite_append`). -/

/-- `f` with `bs` stored from `a` on. -/
def overwrite (f : Nat → α) (a : Nat) (bs : List α) : Nat → α :=
  fun x => if a ≤ x then bs.getD (x - a) (f x) else f x

section Overwrite

variable {f : Nat → α} {a : Nat} {bs : List α}

theorem overwrite_of_lt {x : Nat} (h : x < a) : overwrite f a bs x = f x := by
  simp [overwrite, Nat.not_le.mpr h]

theorem overwrite_of_ge {x : Nat} (h : a + bs.length ≤ x) : overwrite f a bs x = f x := by
  simp only [overwrite, if_pos (show a ≤ x by omega)]
  rw [List.getD_eq_default _ _ (by omega)]

theorem overwrite_add {i : Nat} (h : i < bs.length) : overwrite f a bs (a + i) = bs[i] := by
  simp [overwrite, h]

theorem overwrite_out {x : Nat} (h : x < a ∨ a + bs.length ≤ x) : overwrite f a bs x = f x := by
  rcases h with h | h
  · exact overwrite_of_lt h
  · exact overwrite_of_ge h

theorem overwrite_append (cs : List α) :
    overwrite (overwrite f a bs) (a + bs.length) cs = overwrite f a (bs ++ cs) := by
  funext x
  by_cases h₁ : x < a
  · rw [overwrite_of_lt (by omega), overwrite_of_lt h₁, overwrite_of_lt h₁]
  by_cases h₂ : x < a + bs.length
  · obtain ⟨i, rfl⟩ := Nat.exists_eq_add_of_le (Nat.le_of_not_lt h₁)
    rw [overwrite_of_lt h₂, overwrite_add (by omega), overwrite_add (by simp; omega),
      List.getElem_append_left]
  by_cases h₃ : x < a + bs.length + cs.length
  · obtain ⟨i, rfl⟩ := Nat.exists_eq_add_of_le (Nat.le_of_not_lt h₂)
    rw [overwrite_add (by omega), show a + bs.length + i = a + (bs.length + i) by omega,
      overwrite_add (by simp; omega), List.getElem_append_right (by omega)]
    simp
  · rw [overwrite_of_ge (by omega), overwrite_of_ge (by omega), overwrite_of_ge (by simp; omega)]

/-- What an overwrite leaves of a function is all that matters of it. -/
theorem overwrite_congr {g : Nat → α} {x : Nat} (h : x < a ∨ a + bs.length ≤ x → f x = g x) :
    overwrite f a bs x = overwrite g a bs x := by
  by_cases hx : x < a ∨ a + bs.length ≤ x
  · rw [overwrite_out hx, overwrite_out hx, h hx]
  · simp only [overwrite, if_pos (show a ≤ x by omega)]
    rw [List.getD_eq_getElem _ _ (by omega), List.getD_eq_getElem _ _ (by omega)]

@[simp] theorem overwrite_nil : overwrite f a [] = f := by
  funext x; simp [overwrite]

/-- One value stored is a `Function.update`. -/
theorem overwrite_singleton (v : α) : overwrite f a [v] = Function.update f a v := by
  funext x
  rcases Nat.lt_trichotomy x a with h | rfl | h
  · rw [overwrite_of_lt h, Function.update_of_ne (by omega)]
  · rw [Function.update_self]
    simp [overwrite]
  · rw [overwrite_of_ge (by simp; omega), Function.update_of_ne (by omega)]

/-- A store at `a` followed by one from `a + 1` is one store from `a`. -/
theorem overwrite_update_cons (v : α) :
    overwrite (Function.update f a v) (a + 1) bs = overwrite f a (v :: bs) := by
  rw [← overwrite_singleton]
  show overwrite (overwrite f a [v]) (a + [v].length) bs = overwrite f a ([v] ++ bs)
  exact overwrite_append bs

/-- A store just past the range stored, made first, is the range's last value. -/
theorem overwrite_update_concat (v : α) :
    overwrite (Function.update f (a + bs.length) v) a bs = overwrite f a (bs ++ [v]) := by
  rw [← overwrite_append, overwrite_singleton]
  funext x
  by_cases hx : x = a + bs.length
  · rw [hx, overwrite_of_ge (le_refl _), Function.update_self, Function.update_self]
  · rw [Function.update_of_ne hx]
    apply overwrite_congr
    intro _
    exact Function.update_of_ne hx _ _

/-- The values of `f` below `n`, with `bs` stored from `a ≤ n` on: the
first `a` of them, `bs`, and those after. -/
theorem map_range_overwrite (f : Nat → α) {a n : Nat} (bs : List α) (ha : a ≤ n) :
    (List.range (max n (a + bs.length))).map (overwrite f a bs) =
      ((List.range n).map f).take a ++ bs ++ ((List.range n).map f).drop (a + bs.length) := by
  refine List.ext_getElem (by simp; omega) fun x h₁ h₂ => ?_
  simp only [List.length_map, List.length_range] at h₁
  rw [List.getElem_map, List.getElem_range]
  by_cases hx : x < a
  · rw [overwrite_of_lt hx, List.getElem_append_left (by simp; omega), List.getElem_append_left (by simp; omega)]
    simp
  · by_cases hx' : x < a + bs.length
    · obtain ⟨i, rfl⟩ := Nat.exists_eq_add_of_le (Nat.le_of_not_lt hx)
      have hlen : (((List.range n).map f).take a).length = a := by simp [Nat.min_eq_left ha]
      rw [overwrite_add (by omega), List.getElem_append_left (by simp only [List.length_append, hlen]; omega),
        List.getElem_append_right (by omega)]
      simp only [hlen, Nat.add_sub_cancel_left]
    · rw [overwrite_of_ge (by omega), List.getElem_append_right (by simp; omega)]
      simp only [List.length_append, List.length_take, List.length_map, List.length_range, Nat.min_eq_left ha,
        List.getElem_drop, List.getElem_map, List.getElem_range]
      congr 1
      omega

end Overwrite

end Framework
