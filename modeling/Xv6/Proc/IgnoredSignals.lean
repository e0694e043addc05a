import Xv6.Proc.SignalFrame

/-!
# Ignored signals

A handler of `SIG_IGN` is consulted in one place only: the main scan of
`signalhandler`, where it is `continue`, leaving the pending bit set
(`signalLoop_cons_ign`). The stopped loop's `search_cont_signals` tests
`SIGCONT`'s pending and mask bits and never its handler, so a stopped process
is resumed by a `SIGCONT` it ignores (`waitStopped_of_sigcont`); and a signal
sent while ignored stays pending, to be delivered to whatever handler is
installed later. `ignored_signal_counterexample` runs both on concrete
processes.
-/

namespace Xv6

variable {callsigret : List UInt8} {junk : Junk} {is : List Nat} {env : List (List Nat)} {p : Proc} {i : Nat}

/-- `search_cont_signals()` resumes on a pending, unmasked `SIGCONT`,
whatever `SIGCONT`'s handler. -/
theorem searchContSignals_of_sigcont (h : isPendingAndNotMasked p SIGCONT = true) :
    searchContSignals p = (turnoffSigbit (sigcontFunc p) SIGCONT, true) := by
  simp [searchContSignals, h]

/-- A stopped process with `SIGCONT` pending and unmasked leaves the stopped
loop at once, resumed, whatever `SIGCONT`'s handler. -/
theorem waitStopped_of_sigcont (hstop : p.stopped = true) (h : isPendingAndNotMasked p SIGCONT = true) :
    waitStopped p env = some (turnoffSigbit (sigcontFunc p) SIGCONT, env) := by
  cases env <;> simp [waitStopped, hstop, searchContSignals_of_sigcont h]

/-- A round on a pending, unmasked signal whose handler is `SIG_IGN` passes
over it and leaves its pending bit set. -/
theorem signalLoop_cons_ign (hk : p.killed = false) (hs : p.stopped = false)
    (hi : isPendingAndNotMasked p i = true) (hh : p.signalHandling = false) (hign : p.signalHandlers i = SIG_IGN) :
    signalLoop callsigret junk (i :: is) p env = signalLoop callsigret junk is p env := by
  simp [signalLoop, hk, waitStopped_of_running hs, hi, hh, hign]

/-- Two pairs of runs that differ only in a `kill` of a signal the target
ignores. A stopped process whose `SIGCONT` handler is `SIG_IGN` is resumed by
a `SIGCONT` sent while it waits, and without it stays stopped. A process
ignoring signal 5 that is sent it enters the user handler `sigaction` installs
for 5 afterwards, and without the `kill` does not. -/
theorem ignored_signal_counterexample :
    let stopped : Proc :=
      { Proc.zero with
        state := .running, pid := 1, stopped := true,
        signalHandlers := fun i => if i = SIGCONT then SIG_IGN else SIG_DFL }
    let running : Proc :=
      { Proc.zero with
        state := .running, pid := 1, signalHandlers := fun i => if i = 5 then SIG_IGN else SIG_DFL }
    let callsigret : List UInt8 := []
    let junk : Junk := ⟨0, 0⟩
    ((signalhandler callsigret junk stopped [[SIGCONT]]).map (fun r => r.1.stopped) = some false ∧
      signalhandler callsigret junk stopped [[]] = none) ∧
    (signalhandler callsigret junk (receive running [5]) [] = some (receive running [5], []) ∧
      (signalhandler callsigret junk (sigaction (receive running [5]) 5 0x1000 0).1 []).map
        (fun r => r.1.signalHandling) = some true) ∧
    (signalhandler callsigret junk running [] = some (running, []) ∧
      (signalhandler callsigret junk (sigaction running 5 0x1000 0).1 []).map
        (fun r => r.1.signalHandling) = some false) := by
  intro stopped running callsigret junk
  refine ⟨⟨by decide, Option.isNone_iff_eq_none.mp (by decide)⟩, ⟨?_, ?_⟩,
    ⟨signalhandler_idle rfl rfl (by decide), ?_⟩⟩
  · -- The ignored signal stays pending through the scan.
    rw [signalhandler, if_neg (by decide), range_eq_append_cons (show 5 < 32 by decide),
      signalLoop_append_skip rfl rfl (by decide), signalLoop_cons_ign rfl rfl (by decide) rfl rfl,
      signalLoop_idle rfl rfl (by decide)]
  · rw [signalhandler_delivers (show 5 < 32 by decide) rfl rfl rfl (by decide) (by decide) (by decide)]
    rfl
  · rw [signalhandler_idle rfl rfl (by decide)]
    rfl

end Xv6
