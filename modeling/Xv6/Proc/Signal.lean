import Xv6.Proc.Defs

/-!
# Signals

The signal code of `kernel/proc.c`, function by function: `kill`,
`sigprocmask`, `sigaction`, `sigret`, the kernel handlers
`sigcont_func`, `sigstop_func` and `sigkill_func`,
`is_pending_and_not_masked`, `turnoff_sigbit`, `search_cont_signals`,
`usersignalhandler` and `signalhandler`.

Each function acts on the current process `p` (`myproc()`), except `kill`,
which scans the table. Two things the C leaves to its surroundings are
explicit here:

* `usersignalhandler` copies the code of `callsigret` (`trampoline.S`) to the
  user stack: its bytes, as the assembler lays them out, are the parameter
  `callsigret`. Its locals `dst` and `sigmask` are uninitialised, and a failed
  `copyin` leaves part of their old contents (`Junk`).
* `signalhandler` gives up the CPU in `yield()` while the process is stopped.
  What other processes do meanwhile that this code can see is the signals
  they send it with `kill`: `env` lists them, one list per `yield`
  (`receive`). If `env` runs out while the process is still stopped, the call
  has not returned (`none`).
-/

namespace Xv6

open Framework

/-- `non_maskable` of `is_pending_and_not_masked`, `~(1 << SIGKILL) & ~(1 <<
SIGSTOP)`. The source widens it to 64 bits; only its low 32 bits meet the
32-bit `signals_mask`. -/
def nonMaskable : UInt32 := ~~~(bit SIGKILL) &&& ~~~(bit SIGSTOP)

/-- `is_pending_and_not_masked(signum)`. -/
def isPendingAndNotMasked (p : Proc) (signum : Nat) : Bool :=
  (p.pendingSignals &&& bit signum != 0) && !((p.signalsMask &&& nonMaskable) &&& bit signum != 0)

/-- `sigprocmask(mask)`: the process with its new mask, `SIGKILL` and `SIGSTOP`
cleared from it, and the old mask. -/
def sigprocmask (p : Proc) (mask : UInt32) : Proc × UInt32 :=
  ({ p with signalsMask := mask &&& ~~~(bit SIGKILL ||| bit SIGSTOP) }, p.signalsMask)

/-- `sigaction(signum, act, oldact)`: the handler of `signum` becomes the
pointer `act`. -/
def sigaction (p : Proc) (signum : Int) (act _oldact : UInt64) : Proc × Int :=
  if signum < 0 ∨ signum > 31 then (p, -1)
  else if signum = SIGKILL ∨ signum = SIGSTOP then (p, -1)
  else if act = 0 then (p, -1)
  -- The branch `act == (void*)SIG_DFL` tests `act == 0` again and is never
  -- taken. Both branches `memmove` into the kernel's own copy of `oldact`, not
  -- into user memory.
  else ({ p with signalHandlers := Function.update p.signalHandlers signum.toNat act }, 0)

/-- `sigret()`: the trap frame read back from `user_tf_backup` (`copyin`
overwrites its first bytes with the bytes it copied), the mask restored from
`signals_mask_backup`. -/
def sigret (p : Proc) : Proc :=
  let r := p.pagetable.copyin PGSIZE p.userTfBackup.toNat Trapframe.size
  { p with
    trapframe := Trapframe.ofBytes (r.2 ++ p.trapframe.toBytes.drop r.2.length)
    signalsMask := p.signalsMaskBackup
    userTfBackup := 0
    signalHandling := false }

/-- `sigcont_func()`. -/
def sigcontFunc (p : Proc) : Proc := { p with stopped := false }

/-- `sigstop_func()`. -/
def sigstopFunc (p : Proc) : Proc := { p with stopped := true }

/-- `sigkill_func()`. -/
def sigkillFunc (p : Proc) : Proc :=
  { p with killed := true, state := if p.state = .sleeping then .runnable else p.state }

/-- `turnoff_sigbit(p, i)`. -/
def turnoffSigbit (p : Proc) (i : Nat) : Proc := { p with pendingSignals := p.pendingSignals &&& ~~~(bit i) }

/-- What `kill` does to the slot whose pid matches: nothing (and `-1`) if it
is killed, a zombie or unused, else bit `signum` of its pending signals set. -/
def killProc (p : Proc) (signum : Nat) : Option Proc :=
  if p.killed || p.state == .zombie || p.state == .unused then none
  else some { p with pendingSignals := p.pendingSignals ||| bit signum }

/-- The outcome of `kill`: the table, the return value, and the slot whose
`p->lock` it still holds when it returns. -/
structure KillResult where
  table : Table
  ret : Int
  held : Option (Fin NPROC)

/-- `kill(pid, signum)`: the first slot whose pid is `pid` decides. Its `-1`
for a killed, zombie or unused process returns without `release(&p->lock)`. -/
def kill (t : Table) (pid signum : Int) : KillResult :=
  if signum < 0 ∨ signum > 31 then ⟨t, -1, none⟩
  else
    match (List.finRange NPROC).find? (fun i => (t.proc i).pid == pid) with
    | none => ⟨t, -1, none⟩
    | some i =>
      match killProc (t.proc i) signum.toNat with
      | none => ⟨t, -1, some i⟩
      | some p => ⟨t.set i p, 0, none⟩

/-- `p` after other processes have sent it the signals `ks` with `kill`. -/
def receive (p : Proc) (ks : List Nat) : Proc := ks.foldl (fun p k => (killProc p k).getD p) p

/-- `search_cont_signals()`: `SIGCONT`, then `SIGKILL`, then the first
pending signal whose handler is the value `SIGCONT`. -/
def searchContSignals (p : Proc) : Proc × Bool :=
  if isPendingAndNotMasked p SIGCONT then (turnoffSigbit (sigcontFunc p) SIGCONT, true)
  else if isPendingAndNotMasked p SIGKILL then (turnoffSigbit (sigkillFunc p) SIGKILL, true)
  else
    match (List.range 32).find? (fun i => isPendingAndNotMasked p i && p.signalHandlers i == SIGCONT.toUInt64) with
    | some i => (turnoffSigbit (sigcontFunc p) i, true)
    | none => (p, false)

/-- The old contents of `usersignalhandler`'s uninitialised locals. -/
structure Junk where
  dst : UInt64
  sigmask : UInt32

/-- The little-endian value of the bytes a `copyin` into a local of `k` bytes
leaves there: those it copied, then the local's old bytes. -/
def copiedValue (k : Nat) (copied : List UInt8) (old : Nat) : Nat :=
  leValue (copied ++ (leBytes k old).drop copied.length)

/-- `usersignalhandler(p, signum)`: read the handler record, install its
mask (backing the old one up), save the trap frame below the user stack,
copy `callsigret` below it, and enter the handler with `a0 = signum` and
`ra` pointing at the copied code. -/
def usersignalhandler (callsigret : List UInt8) (junk : Junk) (p : Proc) (signum : Nat) : Proc :=
  let handler := p.signalHandlers signum
  let d := p.pagetable.copyin PGSIZE handler.toNat 8
  let dst : UInt64 := UInt64.ofNat (copiedValue 8 d.2 junk.dst.toNat)
  let m := p.pagetable.copyin PGSIZE (handler + 8).toNat 4
  let sigmask : UInt32 := UInt32.ofNat (copiedValue 4 m.2 junk.sigmask.toNat)
  let (p, backupMask) := sigprocmask p sigmask
  let p := { p with signalsMaskBackup := backupMask, signalHandling := true }
  let spN := p.trapframe.sp - Trapframe.size.toUInt64
  let p := { p with userTfBackup := spN }
  let p := { p with pagetable := (p.pagetable.copyout PGSIZE p.userTfBackup.toNat p.trapframe.toBytes).2 }
  let p := { p with trapframe.epc := dst }
  let spN := spN - callsigret.length.toUInt64
  let p := { p with trapframe.sp := spN }
  let p := { p with pagetable := (p.pagetable.copyout PGSIZE p.trapframe.sp.toNat callsigret).2 }
  { p with trapframe.a0 := signum.toUInt64, trapframe.ra := spN }

/-- The loop `while(p->stopped) { if(search_cont_signals()) break; yield(); }`. -/
def waitStopped (p : Proc) (env : List (List Nat)) : Option (Proc × List (List Nat)) :=
  if p.stopped then
    match searchContSignals p with
    | (p', true) => some (p', env)
    | (p', false) =>
      match env with
      | [] => none
      | ks :: env' => waitStopped (receive p' ks) env'
  else some (p, env)

/-- What `signalhandler` does with a pending, unmasked signal `i` whose handler
is not `SIG_IGN`. -/
def handleSignal (callsigret : List UInt8) (junk : Junk) (p : Proc) (i : Nat) : Proc :=
  let h := p.signalHandlers i
  if h = SIG_DFL then
    if i = SIGSTOP then sigstopFunc p
    else if i = SIGCONT then sigcontFunc p
    -- `case SIGKILL` and `default` both call `sigkill_func()`.
    else sigkillFunc p
  else if h = SIGSTOP.toUInt64 then sigstopFunc p
  else if h = SIGCONT.toUInt64 then sigcontFunc p
  else if h = SIGKILL.toUInt64 then sigkillFunc p
  else usersignalhandler callsigret junk p i

/-- The loop `for(int i = 0; i < 32; i++)` of `signalhandler`, over the
signals `is` still to scan. -/
def signalLoop (callsigret : List UInt8) (junk : Junk) :
    List Nat → Proc → List (List Nat) → Option (Proc × List (List Nat))
  | [], p, env => some (p, env)
  | i :: is, p, env =>
    if p.killed then some (p, env)
    else
      match waitStopped p env with
      | none => none
      | some (p, env) =>
        if isPendingAndNotMasked p i then
          if p.signalHandling then some (p, env)
          -- `SIG_IGN` is `continue`: the pending bit stays set.
          else if p.signalHandlers i = SIG_IGN then signalLoop callsigret junk is p env
          else signalLoop callsigret junk is (turnoffSigbit (handleSignal callsigret junk p i) i) env
        else signalLoop callsigret junk is p env

/-- `signalhandler()`, called by `usertrapret` on every return to user space. -/
def signalhandler (callsigret : List UInt8) (junk : Junk) (p : Proc) (env : List (List Nat)) :
    Option (Proc × List (List Nat)) :=
  if p.signalHandling then some (p, env) else signalLoop callsigret junk (List.range 32) p env

end Xv6
