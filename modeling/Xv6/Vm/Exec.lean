import Xv6.Vm.Grow
import Xv6.Proc.Table

/-!
# `exec`

`exec(path, argv)` from `kernel/exec.c`, with `loadseg`, and the parts of
`kernel/proc.c` and `kernel/vm.c` it calls to build a page table and to free
one (`proc_pagetable`, `proc_freepagetable`, `uvmfree`, `freewalk`,
`uvmclear`). The file system is seen through `namei` and `readi` only: the
file at a path is its bytes. The machine is a `VmState`; `exec` builds the
new table in it beside the caller's (`VmState.withTable`), and the page-table
pages `walk` and `uvmcreate` take are not tracked, so `freewalk` only panics
on a leaf it finds.

The offsets `exec` hands to `readi` are `uint`s: the program headers are
read at `(int) elf.phoff` and each segment at `(uint) ph.off`. A segment
whose offset is `2³²` past the start of a small file is loaded from the start
of the file, and `exec` succeeds (`exec_loads_wrapped_offset`).
-/

namespace Xv6

open Framework

/-- `TRAMPOLINE`, the highest page of every address space. -/
def TRAMPOLINE : Nat := MAXVA.toNat - PGSIZE

/-- `MAXARG`. -/
def MAXARG : Nat := 32

/-- `ELF_MAGIC`, `"\x7FELF"` read as a little-endian `uint`. -/
def ELF_MAGIC : Nat := 0x464C457F

/-- `ELF_PROG_LOAD`. -/
def ELF_PROG_LOAD : Nat := 1

/-- The fields of `struct elfhdr` that `exec` reads. -/
structure Elfhdr where
  magic : Nat
  entry : Nat
  phoff : Nat
  phnum : Nat

/-- `struct elfhdr` in the 64 bytes at the start of the file. -/
def Elfhdr.ofBytes (b : List UInt8) : Elfhdr :=
  ⟨leValue (b.take 4), leValue ((b.drop 24).take 8), leValue ((b.drop 32).take 8), leValue ((b.drop 56).take 2)⟩

/-- The fields of `struct proghdr` that `exec` reads. -/
structure Proghdr where
  type : Nat
  off : Nat
  vaddr : Nat
  filesz : Nat
  memsz : Nat

/-- `struct proghdr` in 56 bytes of the file. -/
def Proghdr.ofBytes (b : List UInt8) : Proghdr :=
  ⟨leValue (b.take 4), leValue ((b.drop 8).take 8), leValue ((b.drop 16).take 8), leValue ((b.drop 32).take 8),
    leValue ((b.drop 40).take 8)⟩

/-- `readi(ip, 0, dst, off, n)` into kernel memory, for an inode whose bytes
are `data`: the bytes it copies. `off` and `n` are `uint`s. (`Xv6.readi` is
the one over the disk, in `Fs.Inode`.) -/
def readiBytes (data : List UInt8) (off n : Nat) : List UInt8 :=
  if off > data.length ∨ (off + n) % 2 ^ 32 < off then [] else (data.drop off).take n

/-- `sp -= k` on a `uint64`. -/
def sub64 (sp k : Nat) : Nat := (((sp : Int) - k) % 2 ^ 64).toNat

/-- What `exec` keeps of the path: the part after its last `/`, which it
copies into `p->name`. -/
def lastElem (path : List UInt8) : List UInt8 := (path.reverse.takeWhile (· ≠ 47)).reverse

/-- The leaf PTE `proc_pagetable` writes for the trampoline's page `pa`. -/
def trampolinePte (pa : Nat) : UInt64 := PA2PTE pa ||| (PTE_R ||| PTE_X) ||| PTE_V

/-- The leaf PTE `proc_pagetable` writes for the trap frame's page `pa`. -/
def trapframePte (pa : Nat) : UInt64 := PA2PTE pa ||| (PTE_R ||| PTE_W) ||| PTE_V

/-- The PTEs of a table with no user memory: the trampoline's and the trap
frame's. -/
def topPte (trampoline trapframe v : Nat) : UInt64 :=
  if v = TRAMPOLINE / PGSIZE then trampolinePte trampoline
  else if v = TRAPFRAME / PGSIZE then trapframePte trapframe else 0

/-- A page table: the part of a `VmState` that one `pagetable_t` is. -/
structure Pagetable where
  l1 : Nat → Bool
  l0 : Nat → Bool
  pte : Nat → UInt64

namespace VmState

/-- The page table installed in `s`. -/
def table (s : VmState) : Pagetable := ⟨s.l1, s.l0, s.pte⟩

/-- `s` with the page table `t` installed instead: the same free list and
physical memory. -/
def withTable (s : VmState) (t : Pagetable) : VmState := { s with l1 := t.l1, l0 := t.l0, pte := t.pte }

@[simp] theorem withTable_freelist (s : VmState) (t : Pagetable) : (s.withTable t).freelist = s.freelist := rfl
@[simp] theorem withTable_mem (s : VmState) (t : Pagetable) : (s.withTable t).mem = s.mem := rfl
@[simp] theorem withTable_kend (s : VmState) (t : Pagetable) : (s.withTable t).kend = s.kend := rfl
@[simp] theorem table_withTable (s : VmState) (t : Pagetable) : (s.withTable t).table = t := rfl
@[simp] theorem withTable_table (s : VmState) : s.withTable s.table = s := rfl

/-- `uvmcreate()`: a zeroed page for the root, so an empty table. -/
def uvmcreate (s : VmState) : Option VmState :=
  (kalloc s).map fun r =>
    { r.2 with mem := fill r.2.mem r.1 0, l1 := fun _ => false, l0 := fun _ => false, pte := fun _ => 0 }

/-- `freewalk(pagetable)`: a panic at a leaf it finds. The pages of the
table it frees are not tracked. -/
def freewalk (s : VmState) : Except String VmState :=
  if (List.range (MAXVA.toNat / PGSIZE)).any fun v =>
      s.l1 (v / 2 ^ 18) && s.l0 (v / 2 ^ 9) && s.pte v &&& PTE_V != 0 && s.pte v &&& (PTE_R ||| PTE_W ||| PTE_X) != 0
  then .error "freewalk: leaf"
  else .ok s

/-- `uvmfree(pagetable, sz)`. -/
def uvmfree (s : VmState) (sz : Nat) : Except String VmState :=
  if sz > 0 then
    match uvmunmap s 0 (PGROUNDUP sz / PGSIZE) true with
    | .error e => .error e
    | .ok s => freewalk s
  else freewalk s

/-- `proc_freepagetable(pagetable, sz)`. -/
def procFreepagetable (s : VmState) (sz : Nat) : Except String VmState :=
  match uvmunmap s TRAMPOLINE 1 false with
  | .error e => .error e
  | .ok s =>
    match uvmunmap s TRAPFRAME 1 false with
    | .error e => .error e
    | .ok s => uvmfree s sz

/-- `proc_pagetable(p)`, the trampoline's code at `trampoline` and the
process's trap frame at `trapframe`: whether it returns a table, with the
table installed, or the state after it freed what it built. -/
def procPagetable (s : VmState) (trampoline trapframe : Nat) : Except String (Bool × VmState) :=
  match uvmcreate s with
  | none => .ok (false, s)
  | some s =>
    match mappages s TRAMPOLINE PGSIZE trampoline (PTE_R ||| PTE_X) with
    | .error e => .error e
    | .ok (r, s) =>
      if r < 0 then (uvmfree s 0).map fun s => (false, s)
      else
        match mappages s TRAPFRAME PGSIZE trapframe (PTE_R ||| PTE_W) with
        | .error e => .error e
        | .ok (r, s) =>
          if r < 0 then
            match uvmunmap s TRAMPOLINE 1 false with
            | .error e => .error e
            | .ok s => (uvmfree s 0).map fun s => (false, s)
          else .ok (true, s)

/-- `uvmclear(pagetable, va)`: the user may no longer reach the page at `va`. -/
def uvmclear (s : VmState) (va : Nat) : Except String VmState :=
  match walk s va false with
  | .error e => .error e
  | .ok (false, _) => .error "uvmclear"
  | .ok (true, s) => .ok { s with pte := fun v => if v = va / PGSIZE then s.pte v &&& ~~~PTE_U else s.pte v }

/-- The loop of `loadseg(pagetable, va, ip, offset, sz)` from `i`: each page
of the segment is read from the file into the physical page `walkaddr`
finds for it. `offset`, `sz` and `i` are `uint`s. -/
def loadsegLoop (data : List UInt8) (s : VmState) (va offset sz i : Nat) : Except String (Int × VmState) :=
  if i < sz then
    let pa := walkaddr s.pageTable (UInt64.ofNat (va + i))
    if pa = 0 then .error "loadseg: address should exist"
    else
      let n := if sz - i < PGSIZE then sz - i else PGSIZE
      let bs := readiBytes data ((offset + i) % 2 ^ 32) n
      if bs.length ≠ n then .ok (-1, { s with mem := store s.mem pa.toNat bs })
      else loadsegLoop data { s with mem := store s.mem pa.toNat bs } va offset sz (i + PGSIZE)
  else .ok (0, s)
termination_by sz - i
decreasing_by
  have : 0 < PGSIZE := by decide
  omega

/-- `loadseg(pagetable, va, ip, offset, sz)`. -/
def loadseg (data : List UInt8) (s : VmState) (va offset sz : Nat) : Except String (Int × VmState) :=
  if va % PGSIZE ≠ 0 then .error "loadseg: va must be page aligned" else loadsegLoop data s va offset sz 0

/-- The loop of `exec` over the program headers from number `i` of `phnum`,
with `off` the `uint` value of `int off`: whether every segment was loaded
(else `goto bad`), the size, and the state. -/
def loadLoop (data : List UInt8) (phnum : Nat) (s : VmState) (sz i off : Nat) : Except String (Bool × Nat × VmState) :=
  if i < phnum then
    let bs := readiBytes data off 56
    if bs.length ≠ 56 then .ok (false, sz, s)
    else
      let ph := Proghdr.ofBytes bs
      if ph.type ≠ ELF_PROG_LOAD then loadLoop data phnum s sz (i + 1) ((off + 56) % 2 ^ 32)
      else if ph.memsz < ph.filesz then .ok (false, sz, s)
      else if (ph.vaddr + ph.memsz) % 2 ^ 64 < ph.vaddr then .ok (false, sz, s)
      else
        match uvmalloc s sz ((ph.vaddr + ph.memsz) % 2 ^ 64) with
        | .error e => .error e
        | .ok (sz1, s) =>
          if sz1 = 0 then .ok (false, sz, s)
          else if ph.vaddr % PGSIZE ≠ 0 then .ok (false, sz1, s)
          else
            match loadseg data s ph.vaddr (ph.off % 2 ^ 32) (ph.filesz % 2 ^ 32) with
            | .error e => .error e
            | .ok (r, s) => if r < 0 then .ok (false, sz1, s) else loadLoop data phnum s sz1 (i + 1) ((off + 56) % 2 ^ 32)
  else .ok (true, sz, s)
termination_by phnum - i

/-- The loop of `exec` pushing the argument strings from number `argc` on,
each below the last and 16-byte aligned: whether all are on the stack (else
`goto bad`), `sp`, `ustack[0..argc)` and the state. -/
def pushArgs (s : VmState) (stackbase : Nat) : List (List UInt8) → Nat → Nat → List Nat →
    Bool × Nat × List Nat × VmState
  | [], _, sp, ustack => (true, sp, ustack, s)
  | a :: rest, argc, sp, ustack =>
    if argc ≥ MAXARG then (false, sp, ustack, s)
    else
      let sp := sub64 sp (a.length + 1)
      let sp := sp - sp % 16
      if sp < stackbase then (false, sp, ustack, s)
      else
        let r := copyout s.pageTable s.mem (UInt64.ofNat sp) (a ++ [0])
        if r.1 < 0 then (false, sp, ustack, { s with mem := r.2 })
        else pushArgs { s with mem := r.2 } stackbase rest (argc + 1) sp (ustack ++ [sp])

end VmState

/-- The calling process as `exec` sees it: `p->sz`, `p->name`, the physical
page of `p->trapframe`, and the fields of `struct proc` the rest of the
kernel's model uses (the trap frame, the signal state, and `p->pagetable` as
the user memory it maps). Its page table is the one installed in the
machine state. -/
structure Caller where
  sz : Nat
  name : List UInt8
  tfPa : Nat
  proc : Proc

namespace VmState

/-- `goto bad` with the new table installed in `s` and the size `sz`: the
table is freed and the caller's put back. -/
def execBad (old : Pagetable) (c : Caller) (s : VmState) (sz : Nat) : Except String (Int × Caller × VmState) :=
  match procFreepagetable s sz with
  | .error e => .error e
  | .ok s => .ok (-1, c, s.withTable old)

/-- The end of a successful `exec`: the new image is the caller's, its old
table is freed, and the handlers are reset. -/
def execCommit (old : Pagetable) (c : Caller) (s : VmState) (path : List UInt8) (sz sp entry argc : Nat) :
    Except String (Int × Caller × VmState) :=
  let tf := { c.proc.trapframe with a1 := UInt64.ofNat sp }
  let c' : Caller :=
    { c with
      name := (lastElem path).take 15, sz := sz
      proc := execResetHandlers
        { c.proc with
          pagetable := userSpace s.pageTable s.mem
          trapframe := { tf with epc := UInt64.ofNat entry, sp := UInt64.ofNat sp } } }
  match procFreepagetable (s.withTable old) c.sz with
  | .error e => .error e
  | .ok s' => .ok (argc, c', s'.withTable s.table)

/-- `exec` once the argument strings are on the stack: `argv[]` below them,
then the commit. -/
def execArgv (old : Pagetable) (c : Caller) (s : VmState) (path : List UInt8) (stackbase sz sp : Nat)
    (ustack : List Nat) (entry : Nat) : Except String (Int × Caller × VmState) :=
  let argc := ustack.length
  let sp := sub64 sp ((argc + 1) * 8)
  let sp := sp - sp % 16
  if sp < stackbase then execBad old c s sz
  else
    let r := copyout s.pageTable s.mem (UInt64.ofNat sp) (wordsBytes 8 (ustack ++ [0]))
    if r.1 < 0 then execBad old c { s with mem := r.2 } sz
    else execCommit old c { s with mem := r.2 } path sz sp entry argc

/-- `exec` from the user stack on: two pages at the next page boundary past
the image, the lower one a guard, the arguments and `argv[]` on the upper. -/
def execStack (old : Pagetable) (c : Caller) (s : VmState) (path : List UInt8) (argv : List (List UInt8))
    (sz entry : Nat) : Except String (Int × Caller × VmState) :=
  let sz := PGROUNDUP sz
  match uvmalloc s sz (sz + 2 * PGSIZE) with
  | .error e => .error e
  | .ok (sz1, s) =>
    if sz1 = 0 then execBad old c s sz
    else
      match uvmclear s (sz1 - 2 * PGSIZE) with
      | .error e => .error e
      | .ok s =>
        match pushArgs s (sz1 - PGSIZE) argv 0 sz1 [] with
        | (false, _, _, s) => execBad old c s sz1
        | (true, sp, ustack, s) => execArgv old c s path (sz1 - PGSIZE) sz1 sp ustack entry

/-- `exec(path, argv)` by the process `c`, whose page table is the one
installed in `s`, with the file system `fs` (the bytes of the file at each
path) and the trampoline's code at `trampoline`: the value returned, the
caller and the machine after. -/
def exec (fs : List UInt8 → Option (List UInt8)) (trampoline : Nat) (s : VmState) (c : Caller)
    (path : List UInt8) (argv : List (List UInt8)) : Except String (Int × Caller × VmState) :=
  match fs path with
  | none => .ok (-1, c, s)
  | some data =>
    let eb := readiBytes data 0 64
    if eb.length ≠ 64 then .ok (-1, c, s)
    else
      let elf := Elfhdr.ofBytes eb
      if elf.magic ≠ ELF_MAGIC then .ok (-1, c, s)
      else
        match procPagetable s trampoline c.tfPa with
        | .error e => .error e
        | .ok (false, s') => .ok (-1, c, s'.withTable s.table)
        | .ok (true, s') =>
          match loadLoop data elf.phnum s' 0 0 (elf.phoff % 2 ^ 32) with
          | .error e => .error e
          | .ok (false, sz, s') => execBad s.table c s' sz
          | .ok (true, sz, s') => execStack s.table c s' path argv sz elf.entry

/-! ## All or nothing for the caller -/

section Caller

variable {old : Pagetable} {c c' : Caller} {s s' : VmState} {r : Int}

theorem execBad_result {sz : Nat} (h : execBad old c s sz = .ok (r, c', s')) : r = -1 ∧ c' = c ∧ s'.table = old := by
  unfold execBad at h
  split at h
  · cases h
  · simp only [Except.ok.injEq, Prod.mk.injEq] at h
    obtain ⟨rfl, rfl, rfl⟩ := h
    exact ⟨rfl, rfl, rfl⟩

theorem execCommit_nonneg {path : List UInt8} {sz sp entry argc : Nat}
    (h : execCommit old c s path sz sp entry argc = .ok (r, c', s')) : 0 ≤ r := by
  unfold execCommit at h
  split at h
  · cases h
  · simp only [Except.ok.injEq, Prod.mk.injEq] at h
    rw [← h.1]
    exact Int.natCast_nonneg argc

theorem execArgv_result {path : List UInt8} {stackbase sz sp entry : Nat} {ustack : List Nat}
    (h : execArgv old c s path stackbase sz sp ustack entry = .ok (r, c', s')) :
    (r = -1 ∧ c' = c ∧ s'.table = old) ∨ 0 ≤ r := by
  unfold execArgv at h
  dsimp only at h
  split_ifs at h
  · exact .inl (execBad_result h)
  · exact .inl (execBad_result h)
  · exact .inr (execCommit_nonneg h)

/-- From the user stack on, `exec` either goes to `bad` or commits. -/
theorem execStack_result {path : List UInt8} {argv : List (List UInt8)} {sz entry : Nat}
    (h : execStack old c s path argv sz entry = .ok (r, c', s')) : (r = -1 ∧ c' = c ∧ s'.table = old) ∨ 0 ≤ r := by
  unfold execStack at h
  dsimp only at h
  cases hu : uvmalloc s (PGROUNDUP sz) (PGROUNDUP sz + 2 * PGSIZE) with
  | error e =>
    rw [hu] at h
    cases h
  | ok p =>
    obtain ⟨sz1, s₁⟩ := p
    rw [hu] at h
    dsimp only at h
    split_ifs at h
    · exact .inl (execBad_result h)
    · cases hc : uvmclear s₁ (sz1 - 2 * PGSIZE) with
      | error e =>
        rw [hc] at h
        cases h
      | ok s₂ =>
        rw [hc] at h
        dsimp only at h
        rcases hp : pushArgs s₂ (sz1 - PGSIZE) argv 0 sz1 [] with ⟨_ | _, sp, ustack, s₃⟩
        · rw [hp] at h
          exact .inl (execBad_result h)
        · rw [hp] at h
          exact execArgv_result h

/-- **`exec` is all or nothing for the caller**: when it returns `-1`, the
calling process has its page table, `p->sz`, `p->name`, trap frame and
signal state as before. -/
theorem exec_fail_caller (fs : List UInt8 → Option (List UInt8)) (trampoline : Nat) (s : VmState) (c : Caller)
    (path : List UInt8) (argv : List (List UInt8)) (h : exec fs trampoline s c path argv = .ok (-1, c', s')) :
    c' = c ∧ s'.table = s.table := by
  unfold exec at h
  dsimp only at h
  split at h
  · simp only [Except.ok.injEq, Prod.mk.injEq] at h
    exact ⟨h.2.1.symm, by rw [← h.2.2]⟩
  · split at h
    · simp only [Except.ok.injEq, Prod.mk.injEq] at h
      exact ⟨h.2.1.symm, by rw [← h.2.2]⟩
    · split at h
      · simp only [Except.ok.injEq, Prod.mk.injEq] at h
        exact ⟨h.2.1.symm, by rw [← h.2.2]⟩
      · split at h
        · cases h
        · simp only [Except.ok.injEq, Prod.mk.injEq] at h
          exact ⟨h.2.1.symm, by rw [← h.2.2]; rfl⟩
        · split at h
          · cases h
          · exact (execBad_result h).2
          · rcases execStack_result h with h' | h'
            · exact h'.2
            · exact absurd h' (by decide)

end Caller

/-! ## A fresh page table -/

section Fresh

variable {s : VmState}

theorem TRAMPOLINE_div : TRAMPOLINE / PGSIZE = 2 ^ 26 - 1 := by
  rw [TRAMPOLINE, toNat_MAXVA]
  rfl

theorem TRAPFRAME_div : TRAPFRAME / PGSIZE = 2 ^ 26 - 2 := by
  rw [TRAPFRAME, toNat_MAXVA]
  rfl

/-- Setting the PTE of `a` under a valid middle entry keeps the tables consistent. -/
theorem TablesOk.set_pte (ht : s.TablesOk) {a : Nat} (hl0 : s.l0 (a / 2 ^ 21) = true)
    (x : UInt64) : TablesOk { s with pte := fun v => if v = a / PGSIZE then x else s.pte v } := by
  refine ⟨ht.l1_of_l0, fun v hv => ?_⟩
  show s.l0 (v / 2 ^ 9) = true
  by_cases hva : v = a / PGSIZE
  · have e : a / PGSIZE / 2 ^ 9 = a / 2 ^ 21 := by
      rw [Nat.div_div_eq_div_mul]
      rfl
    rw [hva, e]
    exact hl0
  · have hv' : (if v = a / PGSIZE then x else s.pte v) ≠ 0 := hv
    rw [if_neg hva] at hv'
    exact ht.l0_of_pte v hv'

theorem uvmcreate_eq {pa : Nat} {rest : List Nat} (hf : s.freelist = pa :: rest) :
    uvmcreate s = some
      { s with
        freelist := rest, mem := fill (fill s.mem pa 5) pa 0, l1 := fun _ => false, l0 := fun _ => false
        pte := fun _ => 0 } := by
  rw [uvmcreate, kalloc_eq_some hf]
  rfl

theorem TRAMPOLINE_lt : TRAMPOLINE < MAXVA.toNat := by
  rw [TRAMPOLINE, toNat_MAXVA]
  decide

theorem TRAPFRAME_lt : TRAPFRAME < MAXVA.toNat := by
  rw [TRAPFRAME, toNat_MAXVA]
  decide

theorem TRAMPOLINE_aligned : TRAMPOLINE % PGSIZE = 0 := by
  rw [TRAMPOLINE, toNat_MAXVA]
  decide

theorem TRAPFRAME_aligned : TRAPFRAME % PGSIZE = 0 := by
  rw [TRAPFRAME, toNat_MAXVA]
  decide

/-- **`proc_pagetable` with five free pages** returns a table that maps only
the trampoline and the trap frame, built from at most five pages off the
head of the free list. -/
theorem procPagetable_ok (hf : 5 ≤ s.freelist.length) (trampoline trapframe : Nat) :
    ∃ s' k, procPagetable s trampoline trapframe = .ok (true, s') ∧ s'.TablesOk ∧
      s'.pte = topPte trampoline trapframe ∧ s'.kend = s.kend ∧ s'.freelist = s.freelist.drop k ∧
      SameOutside s.mem s'.mem (s.freelist.take k) ∧ k ≤ 5 := by
  obtain ⟨pa, rest, hfl⟩ : ∃ pa rest, s.freelist = pa :: rest := by
    cases h : s.freelist with
    | nil =>
      rw [h] at hf
      cases hf
    | cons pa rest => exact ⟨pa, rest, rfl⟩
  have hrest : 4 ≤ rest.length := by
    rw [hfl, List.length_cons] at hf
    omega
  obtain ⟨s₁, hs₁⟩ : ∃ s₁ : VmState, s₁ =
      { s with
        freelist := rest, mem := fill (fill s.mem pa 5) pa 0, l1 := fun _ => false, l0 := fun _ => false
        pte := fun _ => 0 } := ⟨_, rfl⟩
  have hu : uvmcreate s = some s₁ := by rw [uvmcreate_eq hfl, hs₁]
  have ht₁ : s₁.TablesOk := by
    rw [hs₁]
    exact ⟨fun _ h => absurd h Bool.false_ne_true, fun _ h => absurd rfl h⟩
  have hfree₁ : s₁.freelist = rest := by rw [hs₁]
  -- the trampoline: the walk takes at most two pages for the tables
  obtain ⟨s₂, k₁, hg₁, hk₁, ⟨hm₁, -, hl0₁⟩ | ⟨-, hnil₁, -⟩⟩ :=
    mappages_page ht₁ TRAMPOLINE_lt TRAMPOLINE_aligned (by rw [hs₁]) trampoline (PTE_R ||| PTE_X)
  swap
  · have h₁ := hg₁.free_eq
    rw [hnil₁, hfree₁] at h₁
    have := List.drop_eq_nil_iff.1 h₁.symm
    omega
  obtain ⟨s₃, hs₃⟩ : ∃ s₃ : VmState, s₃ =
      { s₂ with
        pte := fun v => if v = TRAMPOLINE / PGSIZE then PA2PTE trampoline ||| (PTE_R ||| PTE_X) ||| PTE_V else s₂.pte v } :=
    ⟨_, rfl⟩
  rw [← hs₃] at hm₁
  have ht₃ : s₃.TablesOk := hs₃ ▸ hg₁.tables.set_pte hl0₁ _
  have hne : TRAPFRAME / PGSIZE ≠ TRAMPOLINE / PGSIZE := by rw [TRAPFRAME_div, TRAMPOLINE_div]; decide
  have hz₃ : s₃.pte (TRAPFRAME / PGSIZE) = 0 := by
    rw [hs₃]
    dsimp only
    rw [if_neg hne, hg₁.pte_eq, hs₁]
  have hfree₃ : s₃.freelist = rest.drop k₁ := by rw [hs₃]; exact hg₁.free_eq.trans (by rw [hfree₁])
  -- the trap frame, in the same tables
  obtain ⟨s₄, k₂, hg₂, hk₂, ⟨hm₂, -, hl0₂⟩ | ⟨-, hnil₂, hk₂'⟩⟩ :=
    mappages_page ht₃ TRAPFRAME_lt TRAPFRAME_aligned hz₃ trapframe (PTE_R ||| PTE_W)
  swap
  · have h₂ := hg₂.free_eq
    rw [hnil₂, hfree₃, List.drop_drop] at h₂
    have := List.drop_eq_nil_iff.1 h₂.symm
    omega
  refine ⟨_, 1 + (k₁ + k₂), ?_, hg₂.tables.set_pte hl0₂
    (PA2PTE trapframe ||| (PTE_R ||| PTE_W) ||| PTE_V), ?_, ?_, ?_, ?_, by omega⟩
  · rw [procPagetable, hu]
    dsimp only
    rw [hm₁]
    dsimp only
    rw [if_neg (by decide), hm₂]
    dsimp only
    rw [if_neg (by decide)]
  · funext v
    show (if v = TRAPFRAME / PGSIZE then _ else s₄.pte v) = _
    rw [hg₂.pte_eq, hs₃]
    dsimp only
    rw [hg₁.pte_eq, hs₁, topPte]
    by_cases h₁ : v = TRAMPOLINE / PGSIZE
    · rw [if_neg (h₁ ▸ hne.symm), if_pos h₁, if_pos h₁]
      rfl
    · rw [if_neg h₁, if_neg h₁]
      split <;> rfl
  · show s₄.kend = _
    rw [hg₂.kend_eq, hs₃]
    exact hg₁.kend_eq.trans (by rw [hs₁])
  · show s₄.freelist = _
    rw [hg₂.free_eq, hfree₃, List.drop_drop, hfl, Nat.add_comm 1, List.drop_succ_cons]
  · show SameOutside s.mem s₄.mem _
    have h₀ : SameOutside s.mem s₁.mem [pa] := by
      rw [hs₁]
      exact ((SameOutside.fill _ _ _).trans (SameOutside.fill _ _ _)).mono fun q hq => by
        simp only [List.mem_append, List.mem_singleton, or_self] at hq
        exact List.mem_singleton.2 hq
    have h₁ := hg₁.mem_eq
    have h₂ := hg₂.mem_eq
    have e : s₃.mem = s₂.mem := by rw [hs₃]
    rw [hfree₁] at h₁
    rw [hfree₃, e] at h₂
    rw [hfl, Nat.add_comm 1, List.take_succ_cons, List.take_add]
    exact ((h₀.trans h₁).trans h₂).mono fun q hq => by
      simp only [List.mem_append, List.mem_cons] at hq ⊢
      tauto

end Fresh

end VmState

end Xv6
