import Xv6.Proc.Exit
import Xv6.Vm.Resize

/-!
# `sbrk` on the process table

`growproc(n)` and `sys_sbrk()` of `kernel/proc.c` and `kernel/sysproc.c`
on the slot of the calling process: `p->sz` and the page table are what
`Ptab.growproc` leaves, the rest of the slot as it was. On the slot's
address space they are `VmState.sysSbrk` (`sysSbrk_vm`).

What a slot in use keeps through it: a growth or a shrink that `Resized`
describes leaves it live (`Slot.Live.resize`) and moves pages only between
it and the free list (`Slot.owned_resize`); the user reads zeroes on the
new pages and the old bytes below both sizes (`userByte_new`,
`userByte_kept`).
-/

namespace Xv6

open VmState

/-- A process that keeps `Grow`'s invariant maps no page up to the trap frame. -/
theorem npages_le_trapframe {s : VmState} {sz : Nat} (hg : s.Good sz) : npages sz ≤ TRAPFRAME / PGSIZE := by
  have := npages_le_of_good hg
  have := TRAPFRAME_div
  unfold PHYSTOP KERNBASE PGSIZE at *
  omega

/-- Above a resized table's size only what the old one mapped above its own
is mapped: the trampoline and the trap frame, when it mapped nothing else. -/
theorem Ptab.Resized.top {pt pt' : Ptab} {k k' : Kmem} {sz sz' trampoline trapframe : Nat}
    (hr : Ptab.Resized pt k sz pt' k' sz') (hT : npages sz ≤ TRAPFRAME / PGSIZE)
    (htop : ∀ v, npages sz ≤ v → pt.pte v = topPte trampoline trapframe v) :
    ∀ v, npages sz' ≤ v → pt'.pte v = topPte trampoline trapframe v := by
  intro v hv
  by_cases hv' : npages sz ≤ v
  · -- above both sizes nothing changed
    rw [hr.pte_above v hv' hv, htop v hv']
  · -- a page `sbrk` gave back, below the trap frame
    have hlt : v < TRAPFRAME / PGSIZE := by omega
    rw [← Ptab.vm_pte, hr.good.unmapped v hv hlt, topPte_of_lt hlt]

/-- A slot whose page table and size a `growproc` changed keeps its live
address space: the PTEs below the new size are leaves, and above it only
the trampoline and the trap frame are mapped. -/
theorem Slot.Live.resize {trampoline : Nat} {p : Slot} {k k' : Kmem} {pt' : Ptab} {sz' : Nat} (hl : p.Live trampoline)
    (hr : Ptab.Resized p.pagetable k p.sz pt' k' sz') : { p with pagetable := pt', sz := sz' }.Live trampoline :=
  ⟨hr.ok, hr.root_eq ▸ hl.root, hl.trapframe, npages_le_trapframe hr.good, hr.good.leaf, hr.top hl.sz hl.top⟩

/-- `growproc` moves pages only between the slot and the free list. -/
theorem Slot.owned_resize {p : Slot} {k k' : Kmem} {pt' : Ptab} {sz' : Nat} (hp : p.state ≠ .unused)
    (hr : Ptab.Resized p.pagetable k p.sz pt' k' sz') :
    ↑k'.freelist + { p with pagetable := pt', sz := sz' }.owned = ↑k.freelist + p.owned := by
  rw [Slot.owned_of_ne hp, Slot.owned_of_ne (p := { p with pagetable := pt', sz := sz' }) hp]
  have hU : ({ p with pagetable := pt', sz := sz' } : Slot).userPages = (pt'.vm k').physPages 0 (npages sz') := rfl
  have hU₀ : p.userPages = (p.pagetable.vm k).physPages 0 (npages p.sz) := rfl
  simp only [hU, hU₀, Multiset.add_cons]
  congr 1
  calc ↑k'.freelist + (↑((pt'.vm k').physPages 0 (npages sz')) + pt'.tablePages)
      = pt'.tablePages + ↑((pt'.vm k').physPages 0 (npages sz')) + ↑k'.freelist := by abel
    _ = p.pagetable.tablePages + ↑((p.pagetable.vm k).physPages 0 (npages p.sz)) + ↑k.freelist := hr.pages
    _ = ↑k.freelist + (↑((p.pagetable.vm k).physPages 0 (npages p.sz)) + p.pagetable.tablePages) := by abel

/-- The slot `q` takes the place of `p`, memory `k` becoming `k'`: the same
process, with a live address space, and the pages it gained came off the
free list and those it gave back went onto it. -/
structure Slot.Replaced (trampoline : Nat) (p q : Slot) (k k' : Kmem) : Prop where
  state : q.state = p.state
  pid : q.pid = p.pid
  parent : q.parent = p.parent
  live : q.Live trampoline
  kend_eq : k'.kend = k.kend
  pages : ↑k'.freelist + q.owned = ↑k.freelist + p.owned

/-- A process left as it was, over memory whose free list holds the same pages. -/
theorem Slot.Replaced.self {trampoline : Nat} {p : Slot} {k k' : Kmem} (hl : p.Live trampoline) (hk : k'.kend = k.kend)
    (hf : (↑k'.freelist : Multiset Nat) = ↑k.freelist) : Slot.Replaced trampoline p p k k' :=
  ⟨rfl, rfl, rfl, hl, hk, by rw [hf]⟩

/-- A process in use that `growproc` resized. -/
theorem Slot.Replaced.resize {trampoline : Nat} {p : Slot} {k k' : Kmem} {pt' : Ptab} {sz' : Nat} (hp : p.state ≠ .unused)
    (hl : p.Live trampoline) (hr : Ptab.Resized p.pagetable k p.sz pt' k' sz') :
    Slot.Replaced trampoline p { p with pagetable := pt', sz := sz' } k k' :=
  ⟨rfl, rfl, rfl, hl.resize hr, hr.kend_eq, Slot.owned_resize hp hr⟩

namespace Kernel

/-- `growproc(n)` by the process in slot `p`: the result, and the process
table with `p->sz` and the page table `Ptab.growproc` leaves. -/
def growproc (K : Kernel) (p : Fin NPROC) (n : Int) : Except String (Int × Kernel) :=
  match (K.proc p).pagetable.growproc K.kmem (K.proc p).sz n with
  | .error e => .error e
  | .ok (r, sz, pt, k) => .ok (r, K.setProc p { K.proc p with pagetable := pt, sz := sz } k)

/-- `sys_sbrk()` by the process in slot `p` with argument `n`: the `uint64`
returned (the old size, taken into an `int`, or `-1`) and the process table. -/
def sysSbrk (K : Kernel) (p : Fin NPROC) (n : Int) : Except String (Nat × Kernel) :=
  match K.growproc p n with
  | .error e => .error e
  | .ok (r, K') => if r < 0 then .ok (2 ^ 64 - 1, K') else .ok ((toInt32 (K.proc p).sz % 2 ^ 64).toNat, K')

section Sbrk

variable {K : Kernel} {p : Fin NPROC} {n : Int}

/-- On the slot's address space, the kernel's `growproc` is `VmState.growproc`. -/
theorem growproc_vm (K : Kernel) (p : Fin NPROC) (n : Int) :
    (K.growproc p n).map (fun r => (r.1, (r.2.proc p).sz, (r.2.proc p).pagetable.vm r.2.kmem)) =
      ((K.proc p).pagetable.vm K.kmem).growproc (K.proc p).sz n := by
  rw [growproc, ← Ptab.growproc_vm]
  generalize (K.proc p).pagetable.growproc K.kmem (K.proc p).sz n = x
  rcases x with e | ⟨r, sz, pt, k⟩
  · rfl
  · simp only [Except.map, setProc_proc, Function.update_self, setProc_kmem]

/-- On the slot's address space, the kernel's `sys_sbrk` is `VmState.sysSbrk`. -/
theorem sysSbrk_vm (K : Kernel) (p : Fin NPROC) (n : Int) :
    (K.sysSbrk p n).map (fun r => (r.1, (r.2.proc p).sz, (r.2.proc p).pagetable.vm r.2.kmem)) =
      ((K.proc p).pagetable.vm K.kmem).sysSbrk (K.proc p).sz n := by
  rw [sysSbrk, VmState.sysSbrk, ← growproc_vm]
  generalize K.growproc p n = x
  rcases x with e | ⟨r, K'⟩
  · rfl
  · by_cases hr : r < 0
    · simp only [Except.map, if_pos hr]
    · simp only [Except.map, if_neg hr]

/-- `growproc` from a live address space leaves one that `Resized` relates
to it, and, for an `int` argument, either `-1` after a failed growth with
the size unchanged or `0` with the size `sz + n` (or `sz`, when `sz + n`
is negative). -/
theorem growproc_resized (ho : (K.proc p).pagetable.Ok) (hg : ((K.proc p).pagetable.vm K.kmem).Good (K.proc p).sz)
    (n : Int) :
    ∃ r sz' pt' k', K.growproc p n = .ok (r, K.setProc p { K.proc p with pagetable := pt', sz := sz' } k') ∧
      Ptab.Resized (K.proc p).pagetable K.kmem (K.proc p).sz pt' k' sz' ∧
      (-2 ^ 31 ≤ n → n < 2 ^ 31 → r = -1 ∧ sz' = (K.proc p).sz ∧ 0 < n ∨
        r = 0 ∧ sz' = if 0 ≤ ((K.proc p).sz : Int) + n then (((K.proc p).sz : Int) + n).toNat else (K.proc p).sz) := by
  obtain ⟨r, sz', pt', k', h, hr, hs⟩ := Ptab.growproc_tracks ho hg n
  exact ⟨r, sz', pt', k', by rw [growproc, h], hr, hs⟩

/-- `sys_sbrk` returns `-1` or, below `2³¹`, the old size unchanged by the
trip through an `int`. -/
theorem sysSbrk_of_growproc {r : Int} {K' : Kernel} (hsz : (K.proc p).sz < 2 ^ 31) (h : K.growproc p n = .ok (r, K')) :
    K.sysSbrk p n = if r < 0 then .ok (2 ^ 64 - 1, K') else .ok ((K.proc p).sz, K') := by
  rw [sysSbrk, h, toInt32_of_lt hsz, Int.emod_eq_of_lt (by omega) (by omega)]
  rfl

/-- `sys_sbrk` from a live address space, for an `int` argument: the old
size, with the size now `sz + n` (or `sz`), or `-1` after a failed growth. -/
theorem sysSbrk_resized (ho : (K.proc p).pagetable.Ok) (hg : ((K.proc p).pagetable.vm K.kmem).Good (K.proc p).sz)
    (n : Int) :
    ∃ r sz' pt' k', K.sysSbrk p n = .ok (r, K.setProc p { K.proc p with pagetable := pt', sz := sz' } k') ∧
      Ptab.Resized (K.proc p).pagetable K.kmem (K.proc p).sz pt' k' sz' ∧
      (-2 ^ 31 ≤ n → n < 2 ^ 31 → r = 2 ^ 64 - 1 ∧ sz' = (K.proc p).sz ∧ 0 < n ∨
        r = (K.proc p).sz ∧ sz' = if 0 ≤ ((K.proc p).sz : Int) + n then (((K.proc p).sz : Int) + n).toNat else (K.proc p).sz) := by
  obtain ⟨r, sz', pt', k', h, hr, hs⟩ := growproc_resized ho hg n
  have hsb := sysSbrk_of_growproc (lt_two_pow_31_of_good hg) h
  refine ⟨if r < 0 then 2 ^ 64 - 1 else (K.proc p).sz, sz', pt', k', ?_, hr, fun h₁ h₂ => ?_⟩
  · rw [hsb]
    split_ifs <;> rfl
  · rcases hs h₁ h₂ with ⟨rfl, hsz, hpos⟩ | ⟨rfl, hsz⟩
    · exact .inl ⟨if_pos (by decide), hsz, hpos⟩
    · exact .inr ⟨if_neg (by decide), hsz⟩

variable {pt' : Ptab} {k' : Kmem} {sz' : Nat}

/-- The user reads zeroes on the pages `growproc` added. -/
theorem userByte_new (hr : Ptab.Resized (K.proc p).pagetable K.kmem (K.proc p).sz pt' k' sz') {x : Nat}
    (h₁ : PGROUNDUP (K.proc p).sz ≤ x) (h₂ : x < PGROUNDUP sz') :
    (K.setProc p { K.proc p with pagetable := pt', sz := sz' } k').userByte p x = 0 := by
  rw [PGROUNDUP_eq] at h₁ h₂
  have hv₁ : npages (K.proc p).sz ≤ x / PGSIZE := (Nat.le_div_iff_mul_le (by decide)).2 h₁
  have hv₂ : x / PGSIZE < npages sz' := (Nat.div_lt_iff_lt_mul (by decide)).2 h₂
  simp only [userByte, setProc_kmem, setProc_proc, Function.update_self]
  exact hr.zero _ hv₁ hv₂ _ (Nat.mod_lt _ (by decide))

/-- The user reads the old bytes below both sizes. -/
theorem userByte_kept (hr : Ptab.Resized (K.proc p).pagetable K.kmem (K.proc p).sz pt' k' sz') {x : Nat}
    (h₁ : x < (K.proc p).sz) (h₂ : x < sz') :
    (K.setProc p { K.proc p with pagetable := pt', sz := sz' } k').userByte p x = K.userByte p x := by
  obtain ⟨hpte, hmem⟩ := hr.kept _ (div_lt_npages h₁) (div_lt_npages h₂)
  simp only [userByte, setProc_kmem, setProc_proc, Function.update_self, hpte]
  exact hmem _ (Nat.mod_lt _ (by decide))

end Sbrk

end Kernel

end Xv6
