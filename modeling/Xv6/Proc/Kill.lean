import Xv6.Proc.Signal

/-!
# What `kill` does, and what it leaves undone

`kill(pid, signum)` scans the table, taking each slot's `p->lock` in turn.
It changes at most the pending signals of one slot (`kill_proc`). It returns
still holding the lock of the slot it stopped at exactly when that slot's
pid matched and the process is killed, a zombie or unused (`kill_held`):
that exit returns `-1` before its `release`. Freed slots keep pid `0`, so
`kill(0, s)` stops at the first unused slot and leaves its lock held
(`kill_returns_holding_lock`).

Sending `SIGKILL` only sets a pending bit. The bit is acted on by
`signalhandler` on the way back to user space, and `signalhandler` returns at
once while a user handler runs. So a process asleep in the kernel stays
asleep and not killed, and one inside a handler goes back to user space not
killed (`sigkill_postponed`).
-/

namespace Xv6

open Framework

theorem killProc_eq_some {p q : Proc} {k : Nat} (h : killProc p k = some q) :
    q = { p with pendingSignals := p.pendingSignals ||| bit k } := by
  unfold killProc at h
  split at h
  · cases h
  · exact (Option.some.inj h).symm

theorem killProc_eq_none_iff (p : Proc) (k : Nat) :
    killProc p k = none ↔ p.killed = true ∨ p.state = .zombie ∨ p.state = .unused := by
  unfold killProc
  split <;> simp_all [or_assoc]

/-- `kill` changes at most the pending signals of a slot: never its state,
its `killed` flag, its mask or its handlers. -/
theorem kill_proc (t : Table) (pid signum : Int) (j : Fin NPROC) :
    ∃ pend, (kill t pid signum).table.proc j = { t.proc j with pendingSignals := pend } := by
  unfold kill
  split
  · exact ⟨(t.proc j).pendingSignals, rfl⟩
  · split
    · exact ⟨(t.proc j).pendingSignals, rfl⟩
    · rename_i i _
      split
      · exact ⟨(t.proc j).pendingSignals, rfl⟩
      · rename_i p hk
        by_cases hj : j = i
        · subst hj
          exact ⟨_, by rw [Table.set_proc_self, killProc_eq_some hk]⟩
        · exact ⟨(t.proc j).pendingSignals, Table.set_proc_of_ne _ _ hj⟩

/-- `kill` returns holding the lock of slot `i` iff `signum` is in range,
`i` is the first slot with that pid, and its process is killed, a zombie or
unused. -/
theorem kill_held (t : Table) (pid signum : Int) (i : Fin NPROC) :
    (kill t pid signum).held = some i ↔
      ¬(signum < 0 ∨ signum > 31) ∧ (List.finRange NPROC).find? (fun j => (t.proc j).pid == pid) = some i ∧
        ((t.proc i).killed = true ∨ (t.proc i).state = .zombie ∨ (t.proc i).state = .unused) := by
  unfold kill
  split
  · rename_i hr
    simp [hr]
  · rename_i hr
    simp only [hr, not_false_eq_true, true_and]
    split
    · rename_i hf
      simp [hf]
    · rename_i i' hf
      rw [hf, Option.some.injEq]
      split
      · rename_i hk
        constructor
        · rintro ⟨⟩
          exact ⟨rfl, (killProc_eq_none_iff _ _).1 hk⟩
        · rintro ⟨rfl, _⟩
          rfl
      · rename_i p hk
        simp only [reduceCtorEq, false_iff, not_and]
        rintro rfl hb
        rw [(killProc_eq_none_iff _ _).2 hb] at hk
        cases hk

/-- `kill(0, 5)` on the boot table: slot 0 is unused with pid `0`, so `kill`
returns `-1` still holding slot 0's `p->lock`. -/
theorem kill_returns_holding_lock :
    (kill Table.init 0 5).ret = -1 ∧ (kill Table.init 0 5).held = some ⟨0, by decide⟩ := by
  decide

/-- A `SIGKILL` that is not acted on. `kill(2, SIGKILL)` succeeds on a process
asleep in the kernel and leaves it asleep and not killed; `signalhandler`
on a process inside a user handler with `SIGKILL` pending returns with it
not killed. -/
theorem sigkill_postponed :
    let asleep : Proc := { Proc.zero with state := .sleeping, pid := 2 }
    let t : Table := Table.init.set ⟨1, by decide⟩ asleep
    let inHandler : Proc :=
      { Proc.zero with state := .running, pid := 2, signalHandling := true, pendingSignals := bit SIGKILL }
    ((kill t 2 SIGKILL).ret = 0 ∧ ((kill t 2 SIGKILL).table.proc ⟨1, by decide⟩).state = .sleeping ∧
        ((kill t 2 SIGKILL).table.proc ⟨1, by decide⟩).killed = false) ∧
      (signalhandler [] ⟨0, 0⟩ inHandler []).map (fun r => r.1.killed) = some false := by
  intro asleep t inHandler
  obtain ⟨pend, hp⟩ := kill_proc t 2 SIGKILL ⟨1, by decide⟩
  refine ⟨⟨by decide, ?_, ?_⟩, by decide⟩
  · rw [hp]
    rfl
  · rw [hp]
    rfl

end Xv6
