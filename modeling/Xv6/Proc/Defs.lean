import Xv6.Param
import Xv6.Framework.Paged
import Xv6.Framework.LittleEndian
import Xv6.Framework.Bits

/-!
# Processes: the trap frame and the signal state

`struct trapframe` (`Trapframe`), laid out in memory as its 36 64-bit words
in order (`Trapframe.toBytes`, read back by `Trapframe.ofBytes`:
`ofBytes_toBytes`), and the fields of `struct proc` that the signal code
reads and writes (`Proc`). A process's user memory is what its page table
lets `copyin` and `copyout` reach: a `Framework.Space` of pages of `PGSIZE`
bytes, accessible where `walkaddr` finds a valid user page.

The process table `proc[NPROC]` is a global of C, so it starts zeroed
(`Table.init`): every slot `UNUSED`, every mask `0` and every handler
`SIG_DFL`.
-/

namespace Xv6

open Framework

/-- `enum procstate`. -/
inductive Procstate
  | unused | used | sleeping | runnable | running | zombie
  deriving DecidableEq, Repr

/-- `struct trapframe`: the user registers saved on a trap, and the kernel
values `uservec` needs. -/
structure Trapframe where
  kernelSatp : UInt64
  kernelSp : UInt64
  kernelTrap : UInt64
  epc : UInt64
  kernelHartid : UInt64
  ra : UInt64
  sp : UInt64
  gp : UInt64
  tp : UInt64
  t0 : UInt64
  t1 : UInt64
  t2 : UInt64
  s0 : UInt64
  s1 : UInt64
  a0 : UInt64
  a1 : UInt64
  a2 : UInt64
  a3 : UInt64
  a4 : UInt64
  a5 : UInt64
  a6 : UInt64
  a7 : UInt64
  s2 : UInt64
  s3 : UInt64
  s4 : UInt64
  s5 : UInt64
  s6 : UInt64
  s7 : UInt64
  s8 : UInt64
  s9 : UInt64
  s10 : UInt64
  s11 : UInt64
  t3 : UInt64
  t4 : UInt64
  t5 : UInt64
  t6 : UInt64
  deriving DecidableEq, Repr

namespace Trapframe

/-- The words of a trap frame, in the order of the struct. -/
def toList (tf : Trapframe) : List UInt64 :=
  [tf.kernelSatp, tf.kernelSp, tf.kernelTrap, tf.epc, tf.kernelHartid, tf.ra, tf.sp, tf.gp, tf.tp, tf.t0,
    tf.t1, tf.t2, tf.s0, tf.s1, tf.a0, tf.a1, tf.a2, tf.a3, tf.a4, tf.a5, tf.a6, tf.a7, tf.s2, tf.s3, tf.s4,
    tf.s5, tf.s6, tf.s7, tf.s8, tf.s9, tf.s10, tf.s11, tf.t3, tf.t4, tf.t5, tf.t6]

/-- The trap frame whose words are `l`. -/
def ofList (l : List UInt64) : Trapframe :=
  ⟨l.getD 0 0, l.getD 1 0, l.getD 2 0, l.getD 3 0, l.getD 4 0, l.getD 5 0, l.getD 6 0, l.getD 7 0,
    l.getD 8 0, l.getD 9 0, l.getD 10 0, l.getD 11 0, l.getD 12 0, l.getD 13 0, l.getD 14 0, l.getD 15 0,
    l.getD 16 0, l.getD 17 0, l.getD 18 0, l.getD 19 0, l.getD 20 0, l.getD 21 0, l.getD 22 0, l.getD 23 0,
    l.getD 24 0, l.getD 25 0, l.getD 26 0, l.getD 27 0, l.getD 28 0, l.getD 29 0, l.getD 30 0, l.getD 31 0,
    l.getD 32 0, l.getD 33 0, l.getD 34 0, l.getD 35 0⟩

/-- `sizeof(struct trapframe)`. -/
def size : Nat := 288

/-- The bytes of a trap frame in memory. -/
def toBytes (tf : Trapframe) : List UInt8 := wordsBytes 8 (tf.toList.map UInt64.toNat)

/-- The trap frame that `size` bytes hold. -/
def ofBytes (bs : List UInt8) : Trapframe := ofList ((bytesWords 8 36 bs).map UInt64.ofNat)

theorem ofList_toList (tf : Trapframe) : ofList tf.toList = tf := by
  cases tf; rfl

@[simp] theorem length_toList (tf : Trapframe) : tf.toList.length = 36 := rfl

@[simp] theorem length_toBytes (tf : Trapframe) : tf.toBytes.length = size := by
  simp [toBytes, size]

/-- A trap frame stored and read back is the same trap frame. -/
theorem ofBytes_toBytes (tf : Trapframe) : ofBytes tf.toBytes = tf := by
  have hw : bytesWords 8 36 tf.toBytes = tf.toList.map UInt64.toNat := by
    rw [toBytes, ← length_toList tf, ← List.length_map (f := UInt64.toNat), bytesWords_wordsBytes]
    simp only [List.map_map]
    refine List.map_congr_left fun w _ => ?_
    simp only [Function.comp_apply]
    exact Nat.mod_eq_of_lt w.toNat_lt
  rw [ofBytes, hw, List.map_map]
  simp only [Function.comp_def, UInt64.ofNat_toNat, List.map_id']
  exact ofList_toList tf

end Trapframe

/-- `SIG_DFL`, as the handler pointer value. -/
def SIG_DFL : UInt64 := 0
/-- `SIG_IGN`, as the handler pointer value. -/
def SIG_IGN : UInt64 := 1
/-- `SIGKILL`. -/
def SIGKILL : Nat := 9
/-- `SIGSTOP`. -/
def SIGSTOP : Nat := 17
/-- `SIGCONT`. -/
def SIGCONT : Nat := 19

/-- The fields of `struct proc` that the process and signal code use.
`signalHandlers i` is entry `i` of `void* signal_handlers[32]`; `killed`,
`stopped` and `signalHandling` are the `int` flags, only ever `0` or `1`.
`pagetable` is the user memory `p->pagetable` maps. -/
structure Proc where
  state : Procstate
  killed : Bool
  pid : Int
  pagetable : Space UInt8
  trapframe : Trapframe
  pendingSignals : UInt32
  signalsMask : UInt32
  signalsMaskBackup : UInt32
  signalHandlers : Nat → UInt64
  userTfBackup : UInt64
  stopped : Bool
  signalHandling : Bool

/-- The all-zero trap frame. -/
def Trapframe.zero : Trapframe := Trapframe.ofList []

/-- The all-zero address space: no page accessible. -/
def Space.zero : Space UInt8 := ⟨fun _ => false, fun _ => 0⟩

/-- A slot of the zero-initialised table `struct proc proc[NPROC]`. -/
def Proc.zero : Proc where
  state := .unused
  killed := false
  pid := 0
  pagetable := Space.zero
  trapframe := Trapframe.zero
  pendingSignals := 0
  signalsMask := 0
  signalsMaskBackup := 0
  signalHandlers := fun _ => SIG_DFL
  userTfBackup := 0
  stopped := false
  signalHandling := false

/-- The process table `proc[NPROC]`. -/
structure Table where
  proc : Fin NPROC → Proc

/-- The process table at boot. -/
def Table.init : Table := ⟨fun _ => Proc.zero⟩

/-- Slot `i` replaced by `p`. -/
def Table.set (t : Table) (i : Fin NPROC) (p : Proc) : Table := ⟨Function.update t.proc i p⟩

@[simp] theorem Table.set_proc_self (t : Table) (i : Fin NPROC) (p : Proc) : (t.set i p).proc i = p := by
  simp [Table.set]

theorem Table.set_proc_of_ne (t : Table) {i j : Fin NPROC} (p : Proc) (h : j ≠ i) :
    (t.set i p).proc j = t.proc j := by
  simp [Table.set, h]

end Xv6
