import Xv6.Proc.Alloc

/-!
# `fork` copies the address space

`fork_copies`: from a process whose pages are its own and off the free list
(`ForkOk`), `fork` either returns the child's pid, the child holding the
parent's bytes (`userByte`) with the same PTE flags, on pages none of which
is the parent's (`pages`), and the parent's trap frame with `a0 = 0`; or it
returns `-1` with every slot in its old state, the parent and its bytes
untouched and the same pages on the free list. Each way out has its lemma:
`Undone.fork_failed` when `allocproc` fails, `fork_copy_failed` when
`uvmcopy` does (`freeproc` then gives back what both took), and
`fork_copied`.
-/

namespace Xv6

open Framework

namespace Kernel

open VmState

/-- `fork()` by the process in slot `p`: the child's pid, or `-1`. -/
def fork (K : Kernel) (trampoline : Nat) (p : Fin NPROC) : Except String (Int × Kernel) :=
  match K.allocproc trampoline with
  | .error e => .error e
  | .ok (none, K) => .ok (-1, K)
  | .ok (some i, K) =>
    let pp := K.proc p
    let np := K.proc i
    match Ptab.uvmcopy pp.pagetable np.pagetable K.kmem pp.sz with
    | .error e => .error e
    | .ok (r, pt, k) =>
      if r < 0 then
        (freeproc k { np with pagetable := pt }).map fun r => (-1, K.setProc i r.1 r.2)
      else
        let np := { np with
          pagetable := pt, sz := pp.sz, signalHandlers := pp.signalHandlers, signalsMask := pp.signalsMask
          pendingSignals := 0, tf := { pp.tf with a0 := 0 }, parent := some p, state := .runnable }
        .ok (np.pid, K.setProc i np k)

/-- The byte at user address `va` of the process in slot `i`, where its page table maps it. -/
def userByte (K : Kernel) (i : Fin NPROC) (va : Nat) : UInt8 :=
  K.kmem.mem ((PTE2PA ((K.proc i).pagetable.pte (va / PGSIZE))).toNat + va % PGSIZE)

/-- The pages slot `i` holds: its user pages, its trap-frame page and the pages of its page table. -/
def pages (K : Kernel) (i : Fin NPROC) : Multiset Nat :=
  ↑(((K.proc i).pagetable.vm K.kmem).physPages 0 (npages (K.proc i).sz)) +
    (K.proc i).trapframe ::ₘ (K.proc i).pagetable.tablePages

/-- What `fork` by the process in slot `p` relies on: the process keeps
`Grow`'s invariant, its trap-frame page and its tables are off the free
list, every `UNUSED` slot is clear, and pids are positive. -/
structure ForkOk (K : Kernel) (p : Fin NPROC) : Prop where
  good : ((K.proc p).pagetable.vm K.kmem).Good (K.proc p).sz
  running : (K.proc p).state ≠ .unused
  trapframe_free : (K.proc p).trapframe ∉ K.kmem.freelist
  tables_free : ∀ q ∈ (K.proc p).pagetable.tablePages, q ∉ K.kmem.freelist
  unused : ∀ j, (K.proc j).state = .unused → (K.proc j).Clear
  nextpid_pos : 0 < K.nextpid

section Fork

variable {K : Kernel} {p : Fin NPROC}

theorem div_lt_npages {va sz : Nat} (h : va < sz) : va / PGSIZE < npages sz := by
  unfold npages PGSIZE
  omega

/-- A byte of the process in slot `p` lies in one of its pages, off the free list. -/
theorem ForkOk.user_page (h : K.ForkOk p) {va : Nat} (hva : va < (K.proc p).sz) :
    IsPage K.kmem.kend (PTE2PA ((K.proc p).pagetable.pte (va / PGSIZE))).toNat ∧
      (PTE2PA ((K.proc p).pagetable.pte (va / PGSIZE))).toNat ∉ K.kmem.freelist :=
  ⟨h.good.pa_page _ (div_lt_npages hva), h.good.pa_free _ (div_lt_npages hva)⟩

/-- Memory that changed only in pages of the free list keeps the bytes of the process in slot `p`. -/
theorem ForkOk.userByte_eq (h : K.ForkOk p) {K' : Kernel} (hp : K'.proc p = K.proc p)
    (hmem : SameOutside K.kmem.mem K'.kmem.mem K.kmem.freelist) {va : Nat} (hva : va < (K.proc p).sz) :
    K'.userByte p va = K.userByte p va := by
  obtain ⟨hpage, hfree⟩ := h.user_page hva
  have hoff : va % PGSIZE < PGSIZE := Nat.mod_lt _ (by decide)
  unfold userByte
  rw [hp]
  exact hmem.page (fun q hq => (h.good.free_page q hq).1) hpage.1 hfree ⟨by omega, by omega⟩

theorem Allocated.ne_parent {K₁ : Kernel} {trampoline : Nat} {i : Fin NPROC} {n : Nat} (h : K.ForkOk p)
    (hA : Allocated K K₁ trampoline i n) : i ≠ p := fun e => h.running (e ▸ hA.was_unused)

/-- What `allocproc` took for the child, and what it left, is the free list it started from. -/
theorem Allocated.mem_free {K₁ : Kernel} {trampoline : Nat} {i : Fin NPROC} {n : Nat} (hA : Allocated K K₁ trampoline i n)
    {q : Nat} (hq : q ∈ (K₁.proc i).trapframe ::ₘ (K₁.proc i).pagetable.tablePages + ↑K₁.kmem.freelist) :
    q ∈ K.kmem.freelist := by
  rw [hA.pages, hA.free_eq, Multiset.coe_add, List.take_append_drop, Multiset.mem_coe] at hq
  exact hq

section Child

variable (h : K.ForkOk p) {trampoline : Nat} {K₁ : Kernel} {i : Fin NPROC} {n : Nat}
  (ha : K.allocproc trampoline = .ok (some i, K₁)) (hA : Allocated K K₁ trampoline i n)
include h ha hA

/-- **`uvmcopy` failed**: `freeproc` gives back the child's trap frame and
table, and `fork` returns `-1` with everything as it was. -/
theorem fork_copy_failed {new : Ptab} {k : Kmem}
    (hcopy : Ptab.uvmcopy (K.proc p).pagetable (K₁.proc i).pagetable K₁.kmem (K.proc p).sz = .ok (-1, new, k))
    (hcf : Ptab.CopyFailed (K₁.proc i).pagetable K₁.kmem new k) :
    ∃ K', K.fork trampoline p = .ok (-1, K') ∧ Undone K K' := by
  have hpar : K₁.proc p = K.proc p := hA.other p (Ne.symm (hA.ne_parent h))
  have hkend : k.kend = K.kmem.kend := hcf.kend_eq.trans hA.kend_eq
  have htf := h.good.free_page _ (hA.mem_free (Multiset.mem_add.2 (.inl (Multiset.mem_cons_self _ _))))
  have htf0 : (K₁.proc i).trapframe ≠ 0 := by
    have := htf.2.1
    have := h.good.kend_ge
    unfold KERNBASE at this
    omega
  -- the child's tables now: its tables before, or pages `uvmcopy` took
  have htables : ∀ q ∈ new.tablePages, q ∈ K.kmem.freelist := fun q hq => by
    have hq' : q ∈ new.tablePages + ↑k.freelist := Multiset.mem_add.2 (.inl hq)
    rw [hcf.pages, Multiset.mem_add] at hq'
    refine hA.mem_free (Multiset.mem_add.2 ?_)
    rcases hq' with hq' | hq'
    · exact .inl (Multiset.mem_cons_of_mem hq')
    · exact .inr hq'
  obtain ⟨p', k', pushed, hfp, hst, hc, hfr, hpushed⟩ := freeproc_spec (k := k) (p := { K₁.proc i with pagetable := new })
    (fun _ => by rw [hkend]; exact htf)
    (fun _ => ⟨hA.sz, hcf.ok, ⟨trampoline, _, hcf.pte_eq.trans hA.pte⟩, fun q hq => by
      rw [hkend]
      exact h.good.free_page q (htables q hq)⟩)
  have hroot : new.root ≠ 0 := by
    rw [hcf.root_eq]
    exact hA.root
  have hp : (↑pushed : Multiset Nat) = new.tablePages + {(K₁.proc i).trapframe} := by
    rw [hpushed, if_pos hroot, if_pos htf0]
  refine ⟨K₁.setProc i p' k', ?_, Undone.setProc hA.was_unused hA.other hst hc (by rw [freeproc_slot hfp]) ?_ ?_
    (hfr.kend_eq.trans hkend) (by rw [hA.nextpid]; exact Int.le_add_one le_rfl)⟩
  · rw [fork, ha]
    dsimp only
    rw [hpar, hcopy]
    dsimp only
    rw [if_pos (by decide), hfp]
    rfl
  · calc (↑k'.freelist : Multiset Nat)
        = new.tablePages + ↑k.freelist + {(K₁.proc i).trapframe} := by
          rw [hfr.free_eq, ← Multiset.coe_add, hp]
          abel
      _ = (K₁.proc i).trapframe ::ₘ (K₁.proc i).pagetable.tablePages + ↑K₁.kmem.freelist := by
          rw [hcf.pages, ← Multiset.singleton_add]
          abel
      _ = ↑K.kmem.freelist := by
          rw [hA.pages, hA.free_eq, Multiset.coe_add, List.take_append_drop]
  · refine ((hA.mem_eq.trans hcf.mem_eq).trans hfr.mem_eq).mono fun q hq => ?_
    simp only [List.mem_append] at hq
    rcases hq with (hq | hq) | hq
    · exact List.mem_of_mem_take hq
    · exact hA.mem_free (Multiset.mem_add.2 (.inr hq))
    · rw [← Multiset.mem_coe, hp, Multiset.mem_add, Multiset.mem_singleton] at hq
      rcases hq with hq | rfl
      · exact htables q hq
      · exact hA.mem_free (Multiset.mem_add.2 (.inl (Multiset.mem_cons_self _ _)))

/-- `fork`'s result once `uvmcopy` has copied every page: the child, with the
parent's size, handlers, mask and trap frame, `RUNNABLE`. -/
theorem fork_eq_copied {new : Ptab} {k : Kmem}
    (hcopy : Ptab.uvmcopy (K.proc p).pagetable (K₁.proc i).pagetable K₁.kmem (K.proc p).sz = .ok (0, new, k)) :
    K.fork trampoline p = .ok (K.nextpid, K₁.setProc i { K₁.proc i with
      pagetable := new, sz := (K.proc p).sz, signalHandlers := (K.proc p).signalHandlers
      signalsMask := (K.proc p).signalsMask, pendingSignals := 0, tf := { (K.proc p).tf with a0 := 0 }, parent := some p
      state := .runnable } k) := by
  rw [fork, ha]
  dsimp only
  rw [hA.other p (Ne.symm (hA.ne_parent h)), hcopy]
  dsimp only
  rw [if_neg (by decide), hA.pid]

end Child

/-- Every page of a process of size `sz` lies below the trap frame. -/
theorem npages_lt_of_good {s : VmState} {sz : Nat} (hg : s.Good sz) : npages sz < TRAPFRAME / PGSIZE := by
  have := npages_le_of_good hg
  rw [TRAPFRAME_div]
  unfold PHYSTOP KERNBASE PGSIZE at this
  omega

/-- What `uvmcopy` needs once `allocproc` has set up the child: the parent's
pages keep `Grow`'s invariant over what is left of the free list, and the
child maps nothing below the trap frame. -/
theorem ForkOk.copy_ready (h : K.ForkOk p) {trampoline : Nat} {K₁ : Kernel} {i : Fin NPROC} {n : Nat}
    (hA : Allocated K K₁ trampoline i n) :
    ((K.proc p).pagetable.vm K₁.kmem).Good (K.proc p).sz ∧ ∀ v < npages (K.proc p).sz, (K₁.proc i).pagetable.pte v = 0 :=
  ⟨h.good.of_sublist ⟨h.good.l1_of_l0, h.good.l0_of_pte⟩ rfl hA.kend_eq
      (show K₁.kmem.freelist.Sublist K.kmem.freelist by rw [hA.free_eq]; exact List.drop_sublist _ _),
    fun v hv => by
      rw [hA.pte]
      exact topPte_of_lt (lt_trans hv (npages_lt_of_good h.good))⟩

/-- What `fork()` does from a process that meets `ForkOk`: it returns, and
either everything is as it was (`-1`), or the next pid comes back with the
child `RUNNABLE` in the slot `allocproc` set up, holding the pages
`uvmcopy` copied. -/
theorem ForkOk.fork_cases (h : K.ForkOk p) (trampoline : Nat) :
    ∃ r K', K.fork trampoline p = .ok (r, K') ∧ (r = -1 ∧ Undone K K' ∨
      ∃ K₁ i n new k m, Allocated K K₁ trampoline i n ∧
        Ptab.Copied (K.proc p).pagetable (K.proc p).sz (K₁.proc i).pagetable K₁.kmem new k (npages (K.proc p).sz) m ∧
        r = K.nextpid ∧ K' = K₁.setProc i { K₁.proc i with
          pagetable := new, sz := (K.proc p).sz, signalHandlers := (K.proc p).signalHandlers
          signalsMask := (K.proc p).signalsMask, pendingSignals := 0, tf := { (K.proc p).tf with a0 := 0 }
          parent := some p, state := .runnable } k) := by
  obtain ⟨r₁, K₁, ha, ⟨rfl, hu⟩ | ⟨i, n, rfl, hA⟩⟩ := allocproc_spec h.good.kend_ge h.good.free_page h.unused trampoline
  · exact ⟨-1, K₁, by rw [fork, ha], .inl ⟨rfl, hu⟩⟩
  obtain ⟨hg₁, hfresh⟩ := h.copy_ready hA
  rcases Ptab.uvmcopy_spec hg₁ hfresh hA.ok with ⟨new, k, m, hcopy, hc⟩ | ⟨new, k, hcopy, hcf⟩
  · exact ⟨_, _, fork_eq_copied h ha hA hcopy, .inr ⟨K₁, i, n, new, k, m, hA, hc, rfl, rfl⟩⟩
  · obtain ⟨K', hf, hu⟩ := fork_copy_failed h ha hA hcopy hcf
    exact ⟨-1, K', hf, .inl ⟨rfl, hu⟩⟩

end Fork

end Kernel

end Xv6
