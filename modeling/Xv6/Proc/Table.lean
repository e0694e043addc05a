import Xv6.Proc.Signal
import Xv6.Framework.Reach

/-!
# The process table and its steps

`allocproc`, `freeproc` and `fork` on the table, and the handler reset at the
end of a successful `exec` (`execResetHandlers`), as far as they touch the
fields of `Proc`. Their allocations can fail: whether `kalloc` and
`proc_pagetable` succeed, and the junk a fresh trap-frame page holds, are
arguments.

`Step` is one operation of any process on the whole system (the table and
`nextpid`): allocation, `fork`, `exec`, `sigprocmask`, `sigaction`, `kill`,
a completed `signalhandler` call (which includes `usersignalhandler`),
`sigret` and `freeproc`. The image a successful `exec` builds is any user
memory and trap frame here; the signal state it leaves is that of
`execResetHandlers`.
-/

namespace Xv6

open Framework

/-- The whole system: the process table and the next pid `allocpid` hands out. -/
structure Sys where
  table : Table
  nextpid : Int

/-- The system at boot. -/
def Sys.init : Sys := ⟨Table.init, 1⟩

/-- `freeproc(p)`. -/
def freeproc (p : Proc) : Proc :=
  { p with pagetable := Space.zero, pid := 0, killed := false, state := .unused }

/-- The first `UNUSED` slot, as `allocproc`'s scan finds it. -/
def firstUnused (t : Table) : Option (Fin NPROC) :=
  (List.finRange NPROC).find? fun i => (t.proc i).state == .unused

/-- `allocproc()`: the first unused slot with a fresh pid and default signal
state, then its trap-frame page (`tfOk`, holding `junk`) and its empty page
table (`ptOk`); a failed allocation frees the slot again and returns `0`. -/
def allocproc (s : Sys) (tfOk ptOk : Bool) (junk : Trapframe) : Sys × Option (Fin NPROC) :=
  match firstUnused s.table with
  | none => (s, none)
  | some i =>
    let p : Proc :=
      { s.table.proc i with
        pid := s.nextpid, state := .used, signalHandlers := fun _ => SIG_DFL, signalsMask := 0,
        pendingSignals := 0, stopped := false, signalHandling := false, trapframe := junk }
    let s := { s with nextpid := s.nextpid + 1 }
    if tfOk && ptOk then ({ s with table := s.table.set i { p with pagetable := Space.zero } }, some i)
    else ({ s with table := s.table.set i (freeproc p) }, none)

/-- `fork()` by the process in slot `parent`: `copyOk` says whether `uvmcopy`
succeeds. The child gets the parent's memory, handlers and mask, no pending
signals, and the parent's trap frame with `a0 = 0`. -/
def fork (s : Sys) (parent : Fin NPROC) (tfOk ptOk copyOk : Bool) (junk : Trapframe) : Sys × Int :=
  let pp := s.table.proc parent
  match allocproc s tfOk ptOk junk with
  | (s, none) => (s, -1)
  | (s, some c) =>
    let np := s.table.proc c
    if copyOk then
      let np := { np with
        pagetable := pp.pagetable, signalHandlers := pp.signalHandlers, signalsMask := pp.signalsMask,
        pendingSignals := 0, trapframe := { pp.trapframe with a0 := 0 }, state := .runnable }
      ({ s with table := s.table.set c np }, np.pid)
    else ({ s with table := s.table.set c (freeproc np) }, -1)

/-- The loop at the end of a successful `exec`: every handler other than
`SIG_IGN` and `SIG_DFL` becomes `SIG_DFL`, and each one it finds also clears
`signals_mask` and `signal_handling`. -/
def execResetHandlers (p : Proc) : Proc :=
  (List.range 32).foldl
    (fun p i =>
      if p.signalHandlers i ≠ SIG_IGN ∧ p.signalHandlers i ≠ SIG_DFL then
        { p with
          signalHandlers := Function.update p.signalHandlers i SIG_DFL, signalsMask := 0, signalHandling := false }
      else p)
    p

/-- Slot `i` of the system's table replaced by `p`. -/
def Sys.setProc (s : Sys) (i : Fin NPROC) (p : Proc) : Sys := { s with table := s.table.set i p }

/-- One operation of the system. -/
inductive Step : Sys → Sys → Prop
  | allocproc (s : Sys) (tfOk ptOk : Bool) (junk : Trapframe) : Step s (allocproc s tfOk ptOk junk).1
  | fork (s : Sys) (i : Fin NPROC) (tfOk ptOk copyOk : Bool) (junk : Trapframe) :
      Step s (fork s i tfOk ptOk copyOk junk).1
  | exec (s : Sys) (i : Fin NPROC) (pt : Space UInt8) (tf : Trapframe) :
      Step s (s.setProc i (execResetHandlers { s.table.proc i with pagetable := pt, trapframe := tf }))
  | sigprocmask (s : Sys) (i : Fin NPROC) (mask : UInt32) :
      Step s (s.setProc i (sigprocmask (s.table.proc i) mask).1)
  | sigaction (s : Sys) (i : Fin NPROC) (signum : Int) (act oldact : UInt64) :
      Step s (s.setProc i (sigaction (s.table.proc i) signum act oldact).1)
  | kill (s : Sys) (pid signum : Int) : Step s { s with table := (kill s.table pid signum).table }
  | signalhandler (s : Sys) (i : Fin NPROC) (callsigret : List UInt8) (junk : Junk) (env env' : List (List Nat))
      (p : Proc) (h : signalhandler callsigret junk (s.table.proc i) env = some (p, env')) :
      Step s (s.setProc i p)
  | sigret (s : Sys) (i : Fin NPROC) : Step s (s.setProc i (sigret (s.table.proc i)))
  | freeproc (s : Sys) (i : Fin NPROC) : Step s (s.setProc i (freeproc (s.table.proc i)))

/-- The systems reachable from boot. -/
def Sys.Reachable (s : Sys) : Prop := Framework.Reachable (· = Sys.init) Step s

/-- The invariant rule for the system: what holds at boot and is kept by every
step holds in every reachable system. -/
theorem Sys.Reachable.inv {I : Sys → Prop} (h₀ : I Sys.init) (hs : ∀ s s', I s → Step s s' → I s') {s : Sys}
    (h : s.Reachable) : I s :=
  Framework.Reachable.inv (fun _ e => e ▸ h₀) hs h

end Xv6
