import Xv6.Proc.SignalFrame
import Xv6.Proc.SigretRoundTrip

/-!
# What `signalhandler` leaves, and what `sigaction` installs

A stop is acted on by the next round of `signalhandler`'s scan, whose stopped
loop waits for `SIGCONT`. A stop taken in the last round, at signal 31, has
no next round: `signalhandler` returns with the process stopped, not killed
and outside any handler (`signalhandler_stop_last`,
`signalhandler_returns_stopped`).

`sigaction` stores the pointer `act` itself as the disposition, and rejects
`act == 0`, which is `SIG_DFL`. Its `oldact` is never written to user
memory: both branches `memmove` into the kernel's own copy of the argument.
So a disposition saved through `oldact` and installed again is whatever the
user's record held before, and delivery reads its handler from there
(`sigaction_loses_oldact`).
-/

namespace Xv6

open Framework

section Rounds

variable {callsigret : List UInt8} {junk : Junk} {env : List (List Nat)} {p : Proc}

/-- `signalhandler()` for a process neither killed, stopped nor in a user
handler, whose only pending and unmasked signal is 31 with the handler value
`SIGSTOP`: the last round stops it and the scan ends there. -/
theorem signalhandler_stop_last (hh : p.signalHandling = false) (hk : p.killed = false)
    (hs : p.stopped = false) (hlow : ∀ j < 31, isPendingAndNotMasked p j = false)
    (hi : isPendingAndNotMasked p 31 = true) (hstop : p.signalHandlers 31 = SIGSTOP.toUInt64) :
    signalhandler callsigret junk p env = some (turnoffSigbit (sigstopFunc p) 31, env) := by
  have hlow' : ∀ j ∈ List.range 31, isPendingAndNotMasked p j = false := fun j hj => hlow j (List.mem_range.1 hj)
  rw [signalhandler, if_neg (by simp [hh]), range_eq_append_cons (show 31 < 32 by decide),
    signalLoop_append_skip hk hs hlow']
  -- the round of signal 31, and nothing after it
  simp [signalLoop, hk, waitStopped_of_running hs, hi, hh, hstop, handleSignal, SIG_IGN, SIG_DFL, SIGSTOP]

end Rounds

/-- A process with signal 31 pending, whose handler value for 31 is `SIGSTOP`
(`sigaction(31, (void*)17, 0)` installs it): `signalhandler` returns with it
stopped, not killed and not in a handler. -/
theorem signalhandler_returns_stopped :
    let p : Proc :=
      { Proc.zero with
        state := .running, pid := 1, pendingSignals := bit 31,
        signalHandlers := fun i => if i = 31 then SIGSTOP.toUInt64 else SIG_DFL }
    (signalhandler [] ⟨0, 0⟩ p []).map (fun r => (r.1.killed, r.1.signalHandling, r.1.stopped)) =
      some (false, false, true) := by
  intro p
  rw [signalhandler_stop_last rfl rfl rfl (by decide) (by decide) rfl]
  rfl

/-- `test_restoring_previous_handler` on a process whose records `sa_2`,
`sa_1` and `old_act` lie at `0x2000`, `0x2010` and `0x2020`, with `sa_2`'s
handler at `0x100` and `old_act` zeroed. `sigaction(2, SIG_DFL, 0)` fails;
after `sigaction(2, &sa_2, 0)`, `sigaction(2, &sa_1, &old_act)` and
`sigaction(2, &old_act, 0)` the memory is unchanged, the disposition is the
pointer to `old_act`, and delivering signal 2 enters address `0`, not
`sa_2`'s handler. -/
theorem sigaction_loses_oldact :
    let mem : Space UInt8 := ⟨fun _ => true, fun x => if x = 0x2001 then 0x01 else if x = 0x2011 then 0x02 else 0⟩
    let p : Proc := { Proc.zero with state := .running, pid := 3, pagetable := mem }
    let p₃ := (sigaction (sigaction (sigaction p 2 0x2000 0).1 2 0x2010 0x2020).1 2 0x2020 0).1
    (sigaction p 2 SIG_DFL 0).2 = -1 ∧ leValue (mem.read 0x2000 8) = 0x100 ∧
      p₃.pagetable = mem ∧ p₃.signalHandlers 2 = 0x2020 ∧ (usersignalhandler [] ⟨0, 0⟩ p₃ 2).trapframe.epc = 0 := by
  intro mem p p₃
  have hpt : p₃.pagetable = mem := rfl
  have hh : p₃.signalHandlers 2 = 0x2020 := by decide
  -- the record at `old_act` is read whole, and it is zero
  have hc : mem.copyin PGSIZE 0x2020 8 = (0, mem.read 0x2020 8) := Space.copyin_of_ok mem fun _ _ => rfl
  refine ⟨by decide, by decide, hpt, hh, ?_⟩
  show UInt64.ofNat (copiedValue 8 (p₃.pagetable.copyin PGSIZE (p₃.signalHandlers 2).toNat 8).2 0) = 0
  rw [hpt, hh, show (0x2020 : UInt64).toNat = 0x2020 from rfl, hc]
  decide

end Xv6
