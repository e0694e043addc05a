import Xv6.Proc.Signal

/-!
# The system calls of the signal code, and the trap that makes them

`syscall()` reads the call number from `a7` and writes the call's return
value into `a0`. Of `syscalls[]` only the entries of the signal code are
modelled; the others are a parameter (`others`, `none` for a call that does
not return to the caller). `usertrapSyscall` is `usertrap()` for an `ecall`,
from saving `sepc` to its call of `usertrapret()`; `syscall_sigret` says
what it does for `SYS_sigret`.

C's conversions are explicit: an `int` set from a register keeps the low 32
bits as a two's complement value (`toCInt`), a `uint` result is
zero-extended to the 64-bit return value and an `int` one sign-extended.
-/

namespace Xv6

/-- `SYS_sigprocmask`. -/
def SYS_sigprocmask : Nat := 22
/-- `SYS_sigaction`. -/
def SYS_sigaction : Nat := 23
/-- `SYS_sigret`, the last entry of `syscalls[]`. -/
def SYS_sigret : Nat := 24

/-- The `int` that a 64-bit register value converts to. -/
def toCInt (x : UInt64) : Int := x.toUInt32.toInt32.toInt

/-- `sys_sigprocmask()`: `argint(0)` is the new mask. -/
def sysSigprocmask (p : Proc) : Proc × UInt64 :=
  let r := sigprocmask p p.trapframe.a0.toUInt32
  (r.1, r.2.toUInt64)

/-- `sys_sigaction()`: `argint(0)`, `argaddr(1)`, `argaddr(2)`. -/
def sysSigaction (p : Proc) : Proc × UInt64 :=
  let r := sigaction p (toCInt p.trapframe.a0) p.trapframe.a1 p.trapframe.a2
  (r.1, UInt64.ofInt r.2)

/-- `sys_sigret()`. -/
def sysSigret (p : Proc) : Proc × UInt64 := (sigret p, 0)

/-- `syscall()`: dispatch on `a7`, the result into `a0`; an unknown number
gives `-1`. -/
def syscall (others : Nat → Proc → Option (Proc × UInt64)) (p : Proc) : Option Proc :=
  let num := toCInt p.trapframe.a7
  if 0 < num ∧ num < SYS_sigret + 1 then
    let r :=
      if num = SYS_sigprocmask then some (sysSigprocmask p)
      else if num = SYS_sigaction then some (sysSigaction p)
      else if num = SYS_sigret then some (sysSigret p)
      else others num.toNat p
    r.map fun r => { r.1 with trapframe.a0 := r.2 }
  else some { p with trapframe.a0 := UInt64.ofInt (-1) }

/-- `usertrap()` for a system call trapping at `sepc`, up to its call of
`usertrapret()`: `none` if the process exits on the way (`killed` before or
after the call) or the call does not return. -/
def usertrapSyscall (others : Nat → Proc → Option (Proc × UInt64)) (sepc : UInt64) (p : Proc) :
    Option Proc :=
  let p := { p with trapframe.epc := sepc }
  if p.killed then none
  else
    (syscall others { p with trapframe.epc := p.trapframe.epc + 4 }).bind fun p =>
      if p.killed then none else some p

theorem toCInt_SYS_sigret : toCInt SYS_sigret.toUInt64 = SYS_sigret := by decide

/-- `SYS_sigret` runs `sigret()` and then overwrites `a0` with `sys_sigret`'s `0`. -/
theorem syscall_sigret (others : Nat → Proc → Option (Proc × UInt64)) {p : Proc}
    (h : toCInt p.trapframe.a7 = SYS_sigret) : syscall others p = some { sigret p with trapframe.a0 := 0 } := by
  simp [syscall, h, SYS_sigret, SYS_sigprocmask, SYS_sigaction, sysSigret]

/-- An `ecall` of `SYS_sigret` exits if the process is killed, and otherwise
is `sigret()` on the trap frame whose `epc` the trap set, with `a0 = 0`. -/
theorem usertrapSyscall_sigret (others : Nat → Proc → Option (Proc × UInt64)) (sepc : UInt64) {p : Proc}
    (h : toCInt p.trapframe.a7 = SYS_sigret) :
    usertrapSyscall others sepc p =
      if p.killed then none else some { sigret { p with trapframe.epc := sepc + 4 } with trapframe.a0 := 0 } := by
  have hs := syscall_sigret others (p := { p with trapframe.epc := sepc + 4 }) h
  simp only [usertrapSyscall]
  split
  · rfl
  · rename_i hk
    rw [hs, Option.bind_some]
    exact if_neg hk

end Xv6
