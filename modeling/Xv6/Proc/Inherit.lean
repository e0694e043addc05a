import Xv6.Proc.Table

/-!
# The signal state across `fork` and `exec`

`fork`'s child gets the parent's handlers and mask, no pending signals, and
`stopped` and `signal_handling` cleared (`fork_child`). Its
`signals_mask_backup` and `user_tf_backup` are not the parent's: no code on
the way sets them, so they are whatever the slot's last occupant left. A
child forked inside a user handler runs that handler and returns through
`sigret`, which restores the mask and the trap frame from those stale
fields (`fork_child_sigret_stale`).

`exec`'s reset loop (`execResetHandlers`, one `resetRound` per signal) sets
every handler other than `SIG_IGN` and `SIG_DFL` to `SIG_DFL`
(`execResetHandlers_signalHandlers`) and changes nothing but the handlers,
the mask and `signal_handling` (`execResetHandlers_frame`). The mask is
cleared as soon as one such handler is found
(`execResetHandlers_signalsMask`, `exec_clears_mask`).
-/

namespace Xv6

/-- A handler value that `exec` resets: neither `SIG_IGN` nor `SIG_DFL`. -/
def IsCustom (h : UInt64) : Prop := h ≠ SIG_IGN ∧ h ≠ SIG_DFL

instance : DecidablePred IsCustom := fun h => inferInstanceAs (Decidable (h ≠ SIG_IGN ∧ h ≠ SIG_DFL))

theorem not_isCustom_dfl : ¬IsCustom SIG_DFL := fun h => h.2 rfl

/-! ## `fork` -/

/-- The child of a `fork` whose allocation and copy succeed, in the slot `c`
that `allocproc` takes: the parent's handlers and mask, nothing pending, not
stopped, not in a handler, and the slot's old backups. -/
theorem fork_child (s : Sys) (parent : Fin NPROC) {c : Fin NPROC} (hc : firstUnused s.table = some c)
    (junk : Trapframe) :
    let pp := s.table.proc parent
    let q := (fork s parent true true true junk).1.table.proc c
    q.signalHandlers = pp.signalHandlers ∧ q.signalsMask = pp.signalsMask ∧ q.pendingSignals = 0 ∧
      q.stopped = false ∧ q.signalHandling = false ∧
      q.signalsMaskBackup = (s.table.proc c).signalsMaskBackup ∧ q.userTfBackup = (s.table.proc c).userTfBackup := by
  simp [fork, allocproc, hc]

/-- A parent in a user handler, whose saved mask is `6` and saved frame at
`0x3000`, forks into the untouched slot 1: the child's `sigret` would
restore mask `0` from address `0`, the parent's mask `6` from `0x3000`. -/
theorem fork_child_sigret_stale :
    let parent : Proc :=
      { Proc.zero with
        state := .running, pid := 1, signalHandling := true, signalsMaskBackup := 6, userTfBackup := 0x3000 }
    let s : Sys := ⟨Table.init.set ⟨0, by decide⟩ parent, 2⟩
    let child := (fork s ⟨0, by decide⟩ true true true Trapframe.zero).1.table.proc ⟨1, by decide⟩
    child.state = .runnable ∧ child.pid = 2 ∧ (sigret child).signalsMask = 0 ∧ (sigret parent).signalsMask = 6 ∧
      child.userTfBackup = 0 ∧ parent.userTfBackup = 0x3000 := by
  intro parent s child
  decide

/-! ## `exec` -/

/-- One round of `exec`'s reset loop. -/
def resetRound (p : Proc) (i : Nat) : Proc :=
  if p.signalHandlers i ≠ SIG_IGN ∧ p.signalHandlers i ≠ SIG_DFL then
    { p with signalHandlers := Function.update p.signalHandlers i SIG_DFL, signalsMask := 0, signalHandling := false }
  else p

theorem execResetHandlers_eq (p : Proc) : execResetHandlers p = (List.range 32).foldl resetRound p := rfl

section Rounds

variable {p : Proc} {i : Nat}

theorem resetRound_of_custom (hc : IsCustom (p.signalHandlers i)) :
    resetRound p i =
      { p with signalHandlers := Function.update p.signalHandlers i SIG_DFL, signalsMask := 0, signalHandling := false } :=
  if_pos hc

theorem resetRound_of_not (hc : ¬IsCustom (p.signalHandlers i)) : resetRound p i = p :=
  if_neg hc

end Rounds

/-- The loop over the signals `is` resets exactly the custom handlers among them. -/
theorem foldl_resetRound_signalHandlers (is : List Nat) (p : Proc) (j : Nat) :
    (is.foldl resetRound p).signalHandlers j =
      if j ∈ is ∧ IsCustom (p.signalHandlers j) then SIG_DFL else p.signalHandlers j := by
  induction is generalizing p with
  | nil => simp
  | cons i is ih =>
    rw [List.foldl_cons, ih]
    by_cases hc : IsCustom (p.signalHandlers i)
    · rw [resetRound_of_custom hc]
      by_cases hj : j = i
      · subst hj
        simp [not_isCustom_dfl, hc]
      · simp [hj]
    · rw [resetRound_of_not hc]
      by_cases hj : j = i
      · subst hj
        simp [hc]
      · simp [hj]

/-- The loop over the signals `is` clears the mask iff one of them has a custom handler. -/
theorem foldl_resetRound_signalsMask (is : List Nat) (p : Proc) :
    (is.foldl resetRound p).signalsMask = if ∃ i ∈ is, IsCustom (p.signalHandlers i) then 0 else p.signalsMask := by
  induction is generalizing p with
  | nil => simp
  | cons i is ih =>
    rw [List.foldl_cons, ih]
    by_cases hc : IsCustom (p.signalHandlers i)
    · rw [resetRound_of_custom hc]
      simp only [ite_self]
      exact (if_pos ⟨i, List.mem_cons_self, hc⟩).symm
    · rw [resetRound_of_not hc]
      simp [hc]

/-- The loop changes nothing but the handlers, the mask and `signal_handling`. -/
theorem foldl_resetRound_frame (is : List Nat) (p : Proc) :
    ∃ hs m b, is.foldl resetRound p = { p with signalHandlers := hs, signalsMask := m, signalHandling := b } := by
  induction is generalizing p with
  | nil => exact ⟨p.signalHandlers, p.signalsMask, p.signalHandling, rfl⟩
  | cons i is ih =>
    rw [List.foldl_cons]
    by_cases hc : IsCustom (p.signalHandlers i)
    · rw [resetRound_of_custom hc]
      obtain ⟨hs, m, b, h⟩ := ih _
      exact ⟨hs, m, b, h⟩
    · rw [resetRound_of_not hc]
      exact ih p

theorem execResetHandlers_signalHandlers (p : Proc) (j : Nat) :
    (execResetHandlers p).signalHandlers j =
      if j < 32 ∧ IsCustom (p.signalHandlers j) then SIG_DFL else p.signalHandlers j := by
  simp only [execResetHandlers_eq, foldl_resetRound_signalHandlers, List.mem_range]

theorem execResetHandlers_signalsMask (p : Proc) :
    (execResetHandlers p).signalsMask =
      if ∃ i ∈ List.range 32, IsCustom (p.signalHandlers i) then 0 else p.signalsMask := by
  rw [execResetHandlers_eq, foldl_resetRound_signalsMask]

theorem execResetHandlers_frame (p : Proc) :
    ∃ hs m b, execResetHandlers p = { p with signalHandlers := hs, signalsMask := m, signalHandling := b } :=
  foldl_resetRound_frame _ p

/-- `exec` of a process with mask `6` and one custom handler, for signal 5,
leaves mask `0`. -/
theorem exec_clears_mask :
    let p : Proc :=
      { Proc.zero with
        state := .running, pid := 1, signalsMask := 6, signalHandlers := fun i => if i = 5 then 0x1000 else SIG_DFL }
    p.signalsMask = 6 ∧ (execResetHandlers p).signalsMask = 0 := by
  intro p
  refine ⟨rfl, ?_⟩
  rw [execResetHandlers_signalsMask, if_pos ⟨5, List.mem_range.2 (by decide), by decide⟩]

end Xv6
