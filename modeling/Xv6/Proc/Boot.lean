import Xv6.Proc.Life

/-!
# Boot: `kinit`, `userinit`, and the states reachable from them

`kinit` frees every page of `[PGROUNDUP(end), PHYSTOP)`, by the loop of
`freerange` (`Kmem.kinit_spec`). `userinit` sets up `initproc` over the
memory the kernel's own set-up left free: `allocproc`, then `uvminit`,
which maps one page holding `initcode` at address 0 (`Ptab.uvminit_spec`).
With at least seven pages free, what these two may take, the table then
keeps `Kernel.Inv` (`userinit_spec`).

`Reachable` is every state that `Step` reaches from such a boot. The
invariant holds in all of them (`Reachable.inv`), and from it what the
process table relies on: no page is lost or shared (`pages_conserved`),
every address space is well formed (`address_space_ok`), pids are distinct
(`pids_distinct`), every process but `initproc` has a live parent
(`parents_alive`), and `fork`, `wait`, `sbrk` and `exec` never panic
(`fork_total`, `wait_reaps`, `sbrk_total`, `exec_total`). `exit_reparents` says what
`exit` does, slot by slot.
-/

namespace Xv6

open Framework

/-! ## `kinit` -/

namespace Kmem

/-- The loop of `freerange(pa_start, pa_end)`, from the page at `p`. -/
def freerangeLoop (k : Kmem) (paEnd p : Nat) : Except String Kmem :=
  if p + PGSIZE ≤ paEnd then
    match k.kfree p with
    | .error e => .error e
    | .ok k => freerangeLoop k paEnd (p + PGSIZE)
  else .ok k
termination_by paEnd - p
decreasing_by
  have : 0 < PGSIZE := by decide
  omega

/-- `freerange(pa_start, pa_end)`. -/
def freerange (k : Kmem) (paStart paEnd : Nat) : Except String Kmem := k.freerangeLoop paEnd (PGROUNDUP paStart)

/-- `kinit()`, for a kernel whose image ends at `kend`, over memory `mem`. -/
def kinit (kend : Nat) (mem : Nat → UInt8) : Except String Kmem := freerange ⟨[], mem, kend⟩ kend PHYSTOP

open VmState

/-- **`freerange`'s loop** from an aligned page above `end`: it frees the `n`
pages from `p` on that end below `pa_end`, the last one first. -/
theorem freerangeLoop_spec {paEnd : Nat} (hend : paEnd ≤ PHYSTOP) (n : Nat) :
    ∀ (k : Kmem) (p : Nat), p % PGSIZE = 0 → k.kend ≤ p → (paEnd - p) / PGSIZE = n →
      ∃ k', k.freerangeLoop paEnd p = .ok k' ∧ k.Freed k' (List.range' p n PGSIZE).reverse := by
  induction n with
  | zero =>
    intro k p _ _ hn
    refine ⟨k, ?_, Freed.refl k⟩
    rw [freerangeLoop, if_neg (by unfold PGSIZE at *; omega)]
  | succ n ih =>
    intro k p hal hk hn
    have hp : p + PGSIZE ≤ paEnd := by unfold PGSIZE at *; omega
    obtain ⟨k', hl, hfr⟩ := ih { k with mem := fill k.mem p 1, freelist := p :: k.freelist } (p + PGSIZE)
      (by unfold PGSIZE at *; omega) (show k.kend ≤ p + PGSIZE by omega) (by unfold PGSIZE at *; omega)
    refine ⟨k', ?_, ?_⟩
    · rw [freerangeLoop, if_pos hp, kfree_of_isPage ⟨hal, hk, by unfold PGSIZE at hp; omega⟩]
      exact hl
    · rw [List.range'_succ, List.reverse_cons]
      exact (freed_kfree k p).trans hfr

/-- The pages of `[PGROUNDUP(kend), PHYSTOP)`, the lowest first. -/
def pagesAbove (kend : Nat) : List Nat := List.range' (PGROUNDUP kend) ((PHYSTOP - PGROUNDUP kend) / PGSIZE) PGSIZE

theorem pagesAbove_nodup (kend : Nat) : (pagesAbove kend).Nodup := List.nodup_range' _ (by decide)

theorem PGROUNDUP_aligned (sz : Nat) : PGROUNDUP sz % PGSIZE = 0 := by
  rw [PGROUNDUP_eq]
  exact Nat.mul_mod_left _ _

theorem le_PGROUNDUP (sz : Nat) : sz ≤ PGROUNDUP sz := by
  rw [PGROUNDUP_eq]
  unfold npages PGSIZE
  omega

theorem mem_pagesAbove {kend q : Nat} :
    q ∈ pagesAbove kend ↔ q % PGSIZE = 0 ∧ PGROUNDUP kend ≤ q ∧ q + PGSIZE ≤ PHYSTOP := by
  rw [pagesAbove, List.mem_range', PGROUNDUP_eq]
  unfold npages PHYSTOP KERNBASE PGSIZE
  constructor
  · rintro ⟨i, hi, rfl⟩
    omega
  · rintro ⟨h₁, h₂, h₃⟩
    exact ⟨(q - (kend + 4096 - 1) / 4096 * 4096) / 4096, by omega, by omega⟩

theorem isPage_of_mem_pagesAbove {kend q : Nat} (hq : q ∈ pagesAbove kend) : IsPage kend q := by
  obtain ⟨h₁, h₂, h₃⟩ := mem_pagesAbove.1 hq
  have := le_PGROUNDUP kend
  unfold PGSIZE at h₃
  exact ⟨h₁, by omega, by omega⟩

/-- **`kinit()`** never panics: it frees every page of `[PGROUNDUP(end),
PHYSTOP)`, the lowest first, so that the free list holds them the highest
first. -/
theorem kinit_spec (kend : Nat) (mem : Nat → UInt8) :
    ∃ k, kinit kend mem = .ok k ∧ k.freelist = (pagesAbove kend).reverse ∧ k.kend = kend := by
  obtain ⟨k, hk, hfr⟩ := freerangeLoop_spec (le_refl PHYSTOP) _ ⟨[], mem, kend⟩ (PGROUNDUP kend)
    (PGROUNDUP_aligned kend) (le_PGROUNDUP kend) rfl
  exact ⟨k, hk, by rw [hfr.free_eq, List.append_nil, pagesAbove], hfr.kend_eq⟩

/-- **`kinit()` never panics, and frees exactly the pages above the
kernel**: the free list then holds each page of `[PGROUNDUP(end), PHYSTOP)`
once, and nothing else. -/
theorem kinit_frees_all (kend : Nat) (mem : Nat → UInt8) :
    ∃ k, kinit kend mem = .ok k ∧ k.kend = kend ∧ k.freelist.Nodup ∧
      ∀ q, q ∈ k.freelist ↔ q % PGSIZE = 0 ∧ PGROUNDUP kend ≤ q ∧ q + PGSIZE ≤ PHYSTOP := by
  obtain ⟨k, hk, hfree, hkend⟩ := kinit_spec kend mem
  refine ⟨k, hk, hkend, by rw [hfree]; exact List.nodup_reverse.2 (pagesAbove_nodup kend), fun q => ?_⟩
  rw [hfree, List.mem_reverse, mem_pagesAbove]

/-- `kinit` for a kernel whose image ends seven pages below `PHYSTOP`. -/
theorem kinit_seven : ∃ k, kinit (PHYSTOP - 7 * PGSIZE) (fun _ => 0) = .ok k ∧ KERNBASE ≤ k.kend ∧
    k.freelist.Nodup ∧ (∀ q ∈ k.freelist, IsPage k.kend q) ∧ k.freelist.length = 7 := by
  obtain ⟨k, hk, hfree, hkend⟩ := kinit_spec (PHYSTOP - 7 * PGSIZE) fun _ => 0
  refine ⟨k, hk, by rw [hkend]; decide, ?_, fun q hq => ?_, ?_⟩
  · rw [hfree]
    exact List.nodup_reverse.2 (pagesAbove_nodup _)
  · rw [hfree, List.mem_reverse] at hq
    rw [hkend]
    exact isPage_of_mem_pagesAbove hq
  · rw [hfree, List.length_reverse, pagesAbove, List.length_range']
    rfl

end Kmem

/-! ## `userinit` -/

/-- `initcode`: the first user program, which calls `exec("/init")`. -/
def initcode : List UInt8 :=
  [0x17, 0x05, 0x00, 0x00, 0x13, 0x05, 0x45, 0x02,
   0x97, 0x05, 0x00, 0x00, 0x93, 0x85, 0x35, 0x02,
   0x93, 0x08, 0x70, 0x00, 0x73, 0x00, 0x00, 0x00,
   0x93, 0x08, 0x20, 0x00, 0x73, 0x00, 0x00, 0x00,
   0xef, 0xf0, 0x9f, 0xff, 0x2f, 0x69, 0x6e, 0x69,
   0x74, 0x00, 0x00, 0x24, 0x00, 0x00, 0x00, 0x00,
   0x00, 0x00, 0x00, 0x00]

namespace Ptab

/-- `uvminit(pagetable, src, sz)` with `sz = src.length`: a zeroed page at
address 0 that holds `src`. What `mappages` returns is not looked at; a
`kalloc` that fails leaves `memset` to zero the null page, a fault in the
kernel. -/
def uvminit (pt : Ptab) (k : Kmem) (src : List UInt8) : Except String (Ptab × Kmem) :=
  if src.length ≥ PGSIZE then .error "inituvm: more than a page"
  else
    match k.kalloc with
    | none => .error "kerneltrap"
    | some (mem, k) =>
      match pt.mappages { k with mem := fill k.mem mem 0 } 0 PGSIZE mem (PTE_W ||| PTE_R ||| PTE_X ||| PTE_U) with
      | .error e => .error e
      | .ok (_, pt, k) => .ok (pt, { k with mem := store k.mem mem src })

theorem uvminit_perm : PTE_W ||| PTE_R ||| PTE_X ||| PTE_U = PTE_W ||| PTE_X ||| PTE_R ||| PTE_U := by decide

section Init

open VmState

variable {pt : Ptab} {k : Kmem}

/-- **`uvminit`** of a program shorter than a page into a table that maps
nothing at address 0, with at least three distinct pages free: the first
becomes the user page at address 0, holding the program and then zeros,
and `walk` takes at most the next two for tables. -/
theorem uvminit_spec (ho : pt.Ok) (hz : pt.pte 0 = 0) {src : List UInt8} (hsrc : src.length < PGSIZE)
    {pa : Nat} {rest : List Nat} (hf : k.freelist = pa :: rest) (hnd : pa ∉ rest)
    (hal : ∀ q ∈ rest, q % PGSIZE = 0) (hpa : pa % PGSIZE = 0) (hlen : 2 ≤ rest.length) :
    ∃ pt' k' m, pt.uvminit k src = .ok (pt', k') ∧ m ≤ 2 ∧ pt'.Ok ∧ pt'.root = pt.root ∧
      pt'.pte 0 = leafPte pa ∧ (∀ v, v ≠ 0 → pt'.pte v = pt.pte v) ∧
      pt'.tablePages = pt.tablePages + ↑(rest.take m) ∧ k'.freelist = rest.drop m ∧ k'.kend = k.kend ∧
      ∀ x < PGSIZE, k'.mem (pa + x) = src.getD x 0 := by
  obtain ⟨pt₁, k₁, m, hg, hm, ho₁, hroot₁, hpages₁, ⟨hmap, hl0⟩ | ⟨-, hnil, hm₁⟩⟩ :=
    mappages_page (k := { k with freelist := rest, mem := fill (fill k.mem pa 5) pa 0 }) ho (a := 0) (by decide)
      (by decide) (by rw [Nat.zero_div]; exact hz) pa (PTE_W ||| PTE_R ||| PTE_X ||| PTE_U)
  · refine ⟨{ pt₁ with pte := fun v => (if v = 0 / PGSIZE then PA2PTE pa ||| (PTE_W ||| PTE_R ||| PTE_X ||| PTE_U) ||| PTE_V
        else pt₁.pte v) }, { k₁ with mem := store k₁.mem pa src }, m, ?_, hm,
      ho₁.set_pte hl0 (PA2PTE pa ||| (PTE_W ||| PTE_R ||| PTE_X ||| PTE_U) ||| PTE_V), hroot₁, ?_,
      fun v hv => ?_, hpages₁, hg.free_eq, hg.kend_eq, fun x hx => ?_⟩
    · rw [uvminit, if_neg (by omega), Kmem.kalloc, hf]
      dsimp only
      rw [hmap]
    · dsimp only
      rw [if_pos (Nat.zero_div _).symm, leafPte, uvminit_perm]
    · dsimp only
      rw [if_neg (by rw [Nat.zero_div]; exact hv)]
      exact congrFun hg.pte_eq v
    · -- the user page is none of the new tables, and was zeroed
      have hx' : pa ≤ pa + x ∧ pa + x < pa + PGSIZE := ⟨Nat.le_add_right pa x, by omega⟩
      have h0 : k₁.mem (pa + x) = 0 := by
        have h := hg.mem_eq.page (fun q hq => hal q (List.mem_of_mem_take hq)) hpa
          (fun h => hnd (List.mem_of_mem_take h)) hx'
        rw [vm_mem, vm_mem] at h
        rw [h]
        exact fill_of_mem hx'
      show (if pa ≤ pa + x then src.getD (pa + x - pa) (k₁.mem (pa + x)) else _) = _
      rw [if_pos hx'.1, Nat.add_sub_cancel_left, h0]
  · -- `walk` cannot run out: it takes at most two pages
    have h := hg.free_eq
    rw [vm_freelist, vm_freelist, hnil] at h
    have : rest.length ≤ m := List.drop_eq_nil_iff.1 h.symm
    omega

end Init

end Ptab

/-- A slot of the zeroed array `proc[NPROC]`. -/
def Slot.zero : Slot where
  state := .unused
  pid := 0
  parent := none
  killed := false
  xstate := 0
  chan := 0
  sz := 0
  trapframe := 0
  tf := Trapframe.zero
  pagetable := Ptab.empty 0
  signalHandlers := fun _ => 0
  signalsMask := 0
  pendingSignals := 0
  stopped := false
  signalHandling := false

namespace Kernel

/-- The process table as `procinit()` leaves it, over the memory `k` that
the kernel's set-up left: every slot zero, and `nextpid = 1`. -/
def boot (k : Kmem) : Kernel := ⟨fun _ => Slot.zero, 1, k⟩

/-- `userinit()`: the slot of `initproc`, set up by `allocproc` with
`initcode` in a page at address 0, its user program counter at 0 and its
stack pointer at `PGSIZE`, `RUNNABLE`. When `allocproc` returns no slot,
`uvminit` reads through the null pointer, a fault in the kernel. -/
def userinit (K : Kernel) (trampoline : Nat) : Except String (Fin NPROC × Kernel) :=
  match K.allocproc trampoline with
  | .error e => .error e
  | .ok (none, _) => .error "kerneltrap"
  | .ok (some i, K) =>
    match (K.proc i).pagetable.uvminit K.kmem initcode with
    | .error e => .error e
    | .ok (pt, k) =>
      .ok (i, K.setProc i { K.proc i with
        pagetable := pt, sz := PGSIZE, tf := { (K.proc i).tf with epc := 0, sp := PGSIZE.toUInt64 }
        state := .runnable } k)

section Init

open VmState

theorem slot_zero_clear : Slot.zero.Clear := ⟨rfl, rfl, rfl⟩

theorem firstUnused_ne_none {K : Kernel} {j : Fin NPROC} (hj : (K.proc j).state = .unused) : K.firstUnused ≠ none := by
  intro h
  have := List.find?_eq_none.1 h j (List.mem_finRange j)
  simp [hj] at this

/-- **`allocproc()` at boot**, with at least four pages free, sets up a slot. -/
theorem boot_allocproc {k : Kmem} (hk : KERNBASE ≤ k.kend) (hpg : ∀ q ∈ k.freelist, IsPage k.kend q)
    (hlen : 4 ≤ k.freelist.length) (trampoline : Nat) :
    ∃ i n K₁, (boot k).allocproc trampoline = .ok (some i, K₁) ∧ Allocated (boot k) K₁ trampoline i n := by
  obtain ⟨r, K₁, ha, ⟨rfl, -⟩ | ⟨i, n, rfl, hA⟩⟩ := allocproc_spec (K := boot k) hk hpg (fun _ _ => slot_zero_clear) trampoline
  · rcases allocproc_none hk hpg ha with h | h
    · exact absurd h (firstUnused_ne_none (j := 0) rfl)
    · change k.freelist.length ≤ 3 at h
      omega
  · exact ⟨i, n, K₁, ha, hA⟩

/-- A table whose only process, in slot `i`, is live and `RUNNABLE` with pid
1 below `nextpid = 2` and no parent, and whose other slots are zero, keeps
the invariant with `initproc` in slot `i`, when its pages are distinct pages
of `[end, PHYSTOP)`. -/
theorem Inv.single {K : Kernel} {trampoline : Nat} {i : Fin NPROC} (hk : KERNBASE ≤ K.kmem.kend)
    (hnd : K.allPages.Nodup) (hpg : ∀ q ∈ K.allPages, IsPage K.kmem.kend q) (hother : ∀ j, j ≠ i → K.proc j = Slot.zero)
    (hlive : (K.proc i).Live trampoline) (hst : (K.proc i).state = .runnable) (hpid : (K.proc i).pid = 1)
    (hpar : (K.proc i).parent = none) (hnext : K.nextpid = 2) : K.Inv trampoline i := by
  have hused : ∀ j, (K.proc j).state ≠ .unused → j = i := fun j hj => by
    by_contra h
    rw [hother j h] at hj
    exact hj rfl
  refine ⟨hk, hnd, hpg, fun j hj => ?_, fun j hj => ?_, fun j hj => ?_, fun j hj => ?_, fun a b ha hb _ => ?_,
    by rw [hst]; decide, by rw [hst]; decide, hpar, fun j hj hji => absurd (hused j hj) hji⟩
  · rw [hused j hj]
    exact hlive
  · have hji : j ≠ i := fun e => by rw [e, hst] at hj; cases hj
    rw [hother j hji]
    exact ⟨slot_zero_clear, rfl⟩
  · rw [hused j hj, hpid]
    decide
  · rw [hused j hj, hpid, hnext]
    decide
  · rw [hused a ha, hused b hb]

/-- **`userinit()`** over distinct pages of `[end, PHYSTOP)`, at least seven
of them (what `allocproc` and `uvminit` may take): it sets up `initproc`, of
size `PGSIZE`, whose memory holds `initcode` and then zeros. The table then
keeps the invariant, and every page is free or held by `initproc`. -/
theorem userinit_spec {k : Kmem} (hk : KERNBASE ≤ k.kend) (hnd : k.freelist.Nodup)
    (hpg : ∀ q ∈ k.freelist, IsPage k.kend q) (hlen : 7 ≤ k.freelist.length) (trampoline : Nat) :
    ∃ i K, (boot k).userinit trampoline = .ok (i, K) ∧ K.Inv trampoline i ∧ K.allPages = ↑k.freelist ∧
      (K.proc i).state = .runnable ∧ (K.proc i).sz = PGSIZE ∧ ∀ va < PGSIZE, K.userByte i va = initcode.getD va 0 := by
  obtain ⟨i, n, K₁, ha, hA⟩ := boot_allocproc hk hpg (by omega) trampoline
  have hfree : K₁.kmem.freelist = k.freelist.drop n := hA.free_eq
  -- what `allocproc` left: at least three distinct pages
  obtain ⟨pa, rest, hf⟩ : ∃ pa rest, K₁.kmem.freelist = pa :: rest := by
    cases h : K₁.kmem.freelist with
    | nil =>
      have := congrArg List.length (hfree.symm.trans h)
      rw [List.length_drop, List.length_nil] at this
      have := hA.n_le
      omega
    | cons pa rest => exact ⟨pa, rest, rfl⟩
  have hsplit : k.freelist = k.freelist.take n ++ pa :: rest := by rw [← hf, hfree, List.take_append_drop]
  have hlen₁ : 2 ≤ rest.length := by
    have := congrArg List.length hsplit
    rw [List.length_append, List.length_cons, List.length_take] at this
    have := hA.n_le
    omega
  have hnd₁ : (pa :: rest).Nodup := by
    rw [hsplit] at hnd
    exact (List.nodup_append.1 hnd).2.1
  have hpg₁ : ∀ q ∈ pa :: rest, IsPage k.kend q := fun q hq => hpg q (by rw [hsplit]; exact List.mem_append_right _ hq)
  obtain ⟨pt, k', m, hu, -, ho, hroot, hpte0, hpte, hpages, hfree', hkend, hmem⟩ :=
    Ptab.uvminit_spec (k := K₁.kmem) hA.ok (by rw [hA.pte]; exact topPte_of_lt (by decide))
      (show initcode.length < PGSIZE by decide) hf (List.nodup_cons.1 hnd₁).1
      (fun q hq => (hpg₁ q (List.mem_cons_of_mem _ hq)).1) (hpg₁ pa List.mem_cons_self).1 hlen₁
  obtain ⟨np, hnp⟩ : ∃ np : Slot, np = { K₁.proc i with
      pagetable := pt, sz := PGSIZE, tf := { (K₁.proc i).tf with epc := 0, sp := PGSIZE.toUInt64 }
      state := .runnable } := ⟨_, rfl⟩
  have hi : (K₁.setProc i np k').proc i = np := by rw [setProc_proc, Function.update_self]
  have hnst : np.state = .runnable := by rw [hnp]
  have hnpt : np.pagetable = pt := by rw [hnp]
  have hnsz : np.sz = PGSIZE := by rw [hnp]
  have hntf : np.trapframe = (K₁.proc i).trapframe := by rw [hnp]
  have hother : ∀ j, j ≠ i → (K₁.setProc i np k').proc j = Slot.zero := fun j hj => by
    rw [setProc_proc, Function.update_of_ne hj, hA.other j hj]
    rfl
  have hkend' : (K₁.setProc i np k').kmem.kend = k.kend := hkend.trans hA.kend_eq
  have hpa : (PTE2PA (pt.pte 0)).toNat = pa := by
    have := hpg₁ pa List.mem_cons_self
    rw [hpte0, toNat_PTE2PA_leafPte this.1 (lt_trans this.2.2 (by decide))]
  -- the trap frame and the tables `allocproc` made, the page at 0 and the tables `uvminit` made
  have htf : (K₁.proc i).trapframe ∈ k.freelist := by
    have := hA.pages
    rw [show (boot k).kmem = k from rfl] at this
    exact List.mem_of_mem_take (Multiset.mem_coe.1 (this ▸ Multiset.mem_cons_self _ _))
  have hall : (K₁.setProc i np k').allPages = ↑k.freelist := by
    have hsum : ∑ j, ((K₁.setProc i np k').proc j).owned = np.owned := by
      rw [Finset.sum_eq_single i (fun j _ hj => by rw [hother j hj]; rfl) (fun h => absurd (Finset.mem_univ i) h), hi]
    have hup : np.userPages = [pa] := by
      rw [Slot.userPages, hnpt, hnsz, show npages PGSIZE = 1 from rfl, List.range'_one, List.map_singleton, hpa]
    have hown : np.owned = {pa} + ((K₁.proc i).trapframe ::ₘ (K₁.proc i).pagetable.tablePages + ↑(rest.take m)) := by
      rw [Slot.owned_of_ne (by rw [hnst]; decide), hup, hntf, hnpt, hpages, Multiset.cons_add]
      rfl
    have hpages₀ : (K₁.proc i).trapframe ::ₘ (K₁.proc i).pagetable.tablePages = ↑(k.freelist.take n) := hA.pages
    rw [allPages, hsum, hown, hpages₀, setProc_kmem, hfree']
    conv_rhs => rw [hsplit, ← List.take_append_drop m rest]
    rw [← Multiset.coe_add, ← Multiset.cons_coe, ← Multiset.coe_add, ← Multiset.singleton_add]
    abel
  refine ⟨i, K₁.setProc i np k', ?_, Inv.single (by rw [hkend']; exact hk) ?_ ?_ hother ?_ (by rw [hi, hnp]) ?_
    (by rw [hi, hnp]; exact hA.parent) ?_,
    hall, by rw [hi, hnst], by rw [hi, hnp], fun va hva => ?_⟩
  · rw [userinit, ha]
    dsimp only
    rw [hu, hnp]
  · rw [hall]
    exact Multiset.coe_nodup.2 hnd
  · intro q hq
    rw [hall, Multiset.mem_coe] at hq
    rw [hkend']
    exact hpg q hq
  · -- `initproc`'s address space
    rw [hi]
    refine ⟨by rw [hnpt]; exact ho, by rw [hnpt, hroot]; exact hA.root, ?_, by rw [hnsz]; decide, fun v hv => ?_,
      fun v hv => ?_⟩
    · have := (hpg _ htf).2.1
      unfold KERNBASE at hk
      rw [hntf]
      omega
    · obtain rfl : v = 0 := by
        rw [hnsz] at hv
        change v < 1 at hv
        omega
      rw [hnpt, hpte0]
      exact ⟨(leafPte_valid pa).1, (leafPte_valid pa).2.1⟩
    · rw [hnsz] at hv
      change 1 ≤ v at hv
      rw [hnpt, hpte v (by omega), hA.pte, hntf]
  · rw [hi, hnp]
    exact hA.pid
  · exact hA.nextpid
  · -- the byte at `va` is in the page at 0
    unfold userByte
    rw [hi, hnp, Nat.div_eq_of_lt hva, Nat.mod_eq_of_lt hva]
    show k'.mem ((PTE2PA (pt.pte 0)).toNat + va) = _
    rw [hpa]
    exact hmem va hva

end Init

/-! ## The reachable states -/

/-- A state that `userinit` leaves, with `initproc` in slot `init`, from
the memory `k` that the kernel's set-up left (`kinit`, then `kvminit` and
the rest, which take pages off the head of the free list and are not
modelled): distinct pages of `[end, PHYSTOP)` on the free list, at least
seven of them. -/
structure Booted (trampoline : Nat) (init : Fin NPROC) (k : Kmem) (K : Kernel) : Prop where
  kend : KERNBASE ≤ k.kend
  nodup : k.freelist.Nodup
  page : ∀ q ∈ k.freelist, VmState.IsPage k.kend q
  length : 7 ≤ k.freelist.length
  userinit : (boot k).userinit trampoline = .ok (init, K)

/-- The states of the process table reachable by `Step` from a boot over `k`. -/
def Reachable (trampoline : Nat) (init : Fin NPROC) (k : Kmem) : Kernel → Prop :=
  Framework.Reachable (Booted trampoline init k) (Step trampoline init)

section Reach

variable {trampoline : Nat} {init : Fin NPROC} {k : Kmem} {K : Kernel}

/-- A boot after `kinit` with the kernel's image ending seven pages below
`PHYSTOP`. -/
theorem exists_booted (trampoline : Nat) : ∃ init k K, Booted trampoline init k K := by
  obtain ⟨k, -, hk, hnd, hpg, hlen⟩ := Kmem.kinit_seven
  obtain ⟨i, K, hu, -⟩ := userinit_spec hk hnd hpg (by omega) trampoline
  exact ⟨i, k, K, hk, hnd, hpg, by omega, hu⟩

theorem Booted.inv (h : Booted trampoline init k K) : K.Inv trampoline init ∧ K.allPages = ↑k.freelist := by
  obtain ⟨i, K', hu, hI, hall, -⟩ := userinit_spec h.kend h.nodup h.page h.length trampoline
  rw [h.userinit] at hu
  cases hu
  exact ⟨hI, hall⟩

/-- **`initproc` runs `initcode`**: right after boot, `initproc` is
`RUNNABLE` with size `PGSIZE`, and its memory holds `initcode` and then
zeros. -/
theorem booted_runs_initcode (h : Booted trampoline init k K) :
    (K.proc init).state = .runnable ∧ (K.proc init).sz = PGSIZE ∧
      ∀ va < PGSIZE, K.userByte init va = initcode.getD va 0 := by
  obtain ⟨i, K', hu, -, -, hst, hsz, hbytes⟩ := userinit_spec h.kend h.nodup h.page h.length trampoline
  rw [h.userinit] at hu
  cases hu
  exact ⟨hst, hsz, hbytes⟩

theorem booted_runs_initcode_seven_pages : ∃ init k K, Booted 0 init k K ∧ (K.proc init).sz = PGSIZE := by
  obtain ⟨init, k, K, hb⟩ := exists_booted 0
  exact ⟨init, k, K, hb, (booted_runs_initcode hb).2.1⟩

/-- A booted state is reachable, by no step. -/
theorem Booted.reachable (h : Booted trampoline init k K) : Reachable trampoline init k K :=
  Framework.Reachable.init_mem h

/-- **The invariant holds in every reachable state**, with every page where
boot left it. -/
theorem Reachable.inv (h : Reachable trampoline init k K) : K.Inv trampoline init ∧ K.allPages = ↑k.freelist := by
  refine Framework.Reachable.inv (I := fun K => K.Inv trampoline init ∧ K.allPages = ↑k.freelist)
    (fun _ hb => hb.inv) (fun _ _ hI hs => ?_) h
  obtain ⟨hI', hall⟩ := hI.1.step hs
  exact ⟨hI', hall.trans hI.2⟩

/-! ## What every reachable state keeps -/

/-- **No page is lost, made or shared**: in every reachable state, the free
list and the pages the slots hold make up exactly the pages boot left free;
no page is held by two slots, and none that a slot holds is free. -/
theorem pages_conserved (h : Reachable trampoline init k K) :
    ↑K.kmem.freelist + ∑ j, (K.proc j).owned = (↑k.freelist : Multiset Nat) ∧
      (∀ i j q, q ∈ (K.proc i).owned → q ∈ (K.proc j).owned → i = j) ∧
      ∀ j q, q ∈ (K.proc j).owned → q ∉ K.kmem.freelist := by
  obtain ⟨hI, hall⟩ := h.inv
  refine ⟨hall, fun i j q hi hj => ?_, fun j q hq => hI.owned_not_free hq⟩
  by_contra hij
  exact hI.owned_disjoint hij hi hj

theorem pages_conserved_at_boot : ∃ init k K, Reachable 0 init k K ∧
    ↑K.kmem.freelist + ∑ j, (K.proc j).owned = (↑k.freelist : Multiset Nat) := by
  obtain ⟨init, k, K, hb⟩ := exists_booted 0
  exact ⟨init, k, K, hb.reachable, (pages_conserved hb.reachable).1⟩

/-- **Every process has a well-formed address space**: in every reachable
state, a process in use has a page table whose tables hang together, with
valid user leaves exactly below `PGROUNDUP(sz)` at distinct pages of `[end,
PHYSTOP)` that are not free, nothing else mapped below the trap frame, the
trampoline and its trap frame above, and no user page that another slot
holds. -/
theorem address_space_ok (h : Reachable trampoline init k K) {j : Fin NPROC} (hj : (K.proc j).state ≠ .unused) :
    ((K.proc j).pagetable.vm K.kmem).Good (K.proc j).sz ∧
      (∀ v, npages (K.proc j).sz ≤ v → (K.proc j).pagetable.pte v = topPte trampoline (K.proc j).trapframe v) ∧
      ∀ i, i ≠ j → ∀ v < npages (K.proc j).sz, (PTE2PA ((K.proc j).pagetable.pte v)).toNat ∉ (K.proc i).owned := by
  obtain ⟨hI, -⟩ := h.inv
  refine ⟨(hI.forkOk hj).good, (hI.live j hj).top, fun i hij v hv => ?_⟩
  have hmem : (PTE2PA ((K.proc j).pagetable.pte v)).toNat ∈ (K.proc j).owned := by
    rw [Slot.owned_of_ne hj]
    exact Multiset.mem_add.2 (.inl (Multiset.mem_coe.2 (mem_userPages hv)))
  exact hI.owned_disjoint (Ne.symm hij) hmem

theorem address_space_ok_at_boot : ∃ init k K, Reachable 0 init k K ∧
    ((K.proc init).pagetable.vm K.kmem).Good (K.proc init).sz := by
  obtain ⟨init, k, K, hb⟩ := exists_booted 0
  have h := hb.reachable
  exact ⟨init, k, K, h, (address_space_ok h (Reachable.inv h).1.init_live).1⟩

/-- **Every process but `initproc` has a live parent**: in every reachable
state, `initproc` is in use, has not exited and has no parent, and every
other process in use has a parent other than itself that is in use and has
not exited. -/
theorem parents_alive (h : Reachable trampoline init k K) :
    (K.proc init).state ≠ .unused ∧ (K.proc init).state ≠ .zombie ∧ (K.proc init).parent = none ∧
      ∀ j, (K.proc j).state ≠ .unused → j ≠ init →
        ∃ q, (K.proc j).parent = some q ∧ q ≠ j ∧ (K.proc q).state ≠ .unused ∧ (K.proc q).state ≠ .zombie := by
  obtain ⟨hI, -⟩ := h.inv
  exact ⟨hI.init_live, hI.init_zombie, hI.init_parent, hI.parent⟩

theorem parents_alive_at_boot : ∃ init k K, Reachable 0 init k K ∧ (K.proc init).parent = none := by
  obtain ⟨init, k, K, hb⟩ := exists_booted 0
  have h := hb.reachable
  exact ⟨init, k, K, h, (parents_alive h).2.2.1⟩

/-- **`sbrk(n)` never panics**: from a reachable state, a process in use
that calls `sbrk(n)` with an `int` `n` gets back its old size and is now of
size `sz + n` (or `sz`, when `sz + n` is negative), reading zeroes on the
pages added; or, only when it asked to grow, `-1` with its size unchanged.
It reads its old bytes below both sizes, no other slot changes, and the
pages it gained came off the free list and those it gave back went onto
it. -/
theorem sbrk_total (h : Reachable trampoline init k K) {p : Fin NPROC} (hp : (K.proc p).state ≠ .unused) {n : Int}
    (hn₁ : -2 ^ 31 ≤ n) (hn₂ : n < 2 ^ 31) :
    ∃ r K', K.sysSbrk p n = .ok (r, K') ∧ (∀ j, j ≠ p → K'.proc j = K.proc j) ∧
      (r = (K.proc p).sz ∧
          (K'.proc p).sz = (if 0 ≤ ((K.proc p).sz : Int) + n then (((K.proc p).sz : Int) + n).toNat else (K.proc p).sz) ∧
          (∀ x, PGROUNDUP (K.proc p).sz ≤ x → x < PGROUNDUP (K'.proc p).sz → K'.userByte p x = 0) ∨
        r = 2 ^ 64 - 1 ∧ 0 < n ∧ (K'.proc p).sz = (K.proc p).sz) ∧
      (∀ x, x < (K.proc p).sz → x < (K'.proc p).sz → K'.userByte p x = K.userByte p x) ∧
      ↑K'.kmem.freelist + (K'.proc p).owned = ↑K.kmem.freelist + (K.proc p).owned := by
  obtain ⟨hI, -⟩ := h.inv
  obtain ⟨r, sz', pt', k', hs, hr, hres⟩ := sysSbrk_resized (hI.live p hp).ok (hI.forkOk hp).good n
  have hpp : (K.setProc p { K.proc p with pagetable := pt', sz := sz' } k').proc p =
      { K.proc p with pagetable := pt', sz := sz' } := by
    rw [setProc_proc, Function.update_self]
  refine ⟨r, _, hs, fun j hj => by rw [setProc_proc, Function.update_of_ne hj], ?_, fun x h₁ h₂ => ?_, ?_⟩
  · rw [hpp]
    rcases hres hn₁ hn₂ with ⟨rfl, rfl, hpos⟩ | ⟨rfl, hsz⟩
    · exact .inr ⟨rfl, hpos, rfl⟩
    · exact .inl ⟨rfl, hsz, fun x h₁ h₂ => userByte_new hr h₁ h₂⟩
  · rw [hpp] at h₂
    exact userByte_kept hr h₁ h₂
  · rw [hpp, setProc_kmem]
    exact Slot.owned_resize hp hr

theorem sbrk_total_at_boot : ∃ init k K r K', Reachable 0 init k K ∧ K.sysSbrk init 4096 = .ok (r, K') := by
  obtain ⟨init, k, K, hb⟩ := exists_booted 0
  have h := hb.reachable
  obtain ⟨r, K', hs, -⟩ := sbrk_total h (Reachable.inv h).1.init_live (n := 4096) (by decide) (by decide)
  exact ⟨init, k, K, r, K', h, hs⟩

/-- **`exec(path, argv)` never panics**: from a reachable state, a process
in use that calls `exec` gets back `-1`, with its slot as it was, every byte
of its memory as it was and the same pages free; or the number of
arguments, as the same process (its pid, parent and state) in a live
address space. No other slot changes, and the pages it gained came off the
free list and those it gave back went onto it. -/
theorem exec_total (h : Reachable trampoline init k K) {p : Fin NPROC} (hp : (K.proc p).state ≠ .unused)
    (fs : List UInt8 → Option (List UInt8)) (path : List UInt8) (argv : List (List UInt8)) :
    ∃ r K', K.exec fs trampoline p path argv = .ok (r, K') ∧ (∀ j, j ≠ p → K'.proc j = K.proc j) ∧
      (r = -1 ∧ K'.proc p = K.proc p ∧ (∀ x, x < (K.proc p).sz → K'.userByte p x = K.userByte p x) ∧
          (↑K'.kmem.freelist : Multiset Nat) = ↑K.kmem.freelist ∨
        r = argv.length ∧ (K'.proc p).pid = (K.proc p).pid ∧ (K'.proc p).parent = (K.proc p).parent ∧
          (K'.proc p).state = (K.proc p).state ∧ (K'.proc p).Live trampoline) ∧
      ↑K'.kmem.freelist + (K'.proc p).owned = ↑K.kmem.freelist + (K.proc p).owned := by
  have hI := h.inv.1
  obtain ⟨r, q, k', he, hr, hc⟩ := hI.execEnds hp fs path argv
  have hpp : (K.setProc p q k').proc p = q := by rw [setProc_proc, Function.update_self]
  refine ⟨r, _, he, fun j hj => by rw [setProc_proc, Function.update_of_ne hj], ?_, ?_⟩
  · rcases hc with ⟨rfl, rfl, hm⟩ | ⟨rfl, -⟩
    · -- `bad`: only pages that were free were written
      refine .inl ⟨rfl, hpp, fun x hx => (hI.forkOk hp).userByte_eq hpp hm hx, ?_⟩
      rw [setProc_kmem]
      exact add_right_cancel hr.pages
    · rw [hpp]
      exact .inr ⟨rfl, hr.pid, hr.parent, hr.state, hr.live⟩
  · rw [hpp, setProc_kmem]
    exact hr.pages

theorem exec_total_at_boot :
    ∃ init k K r K', Reachable 0 init k K ∧ K.exec (fun _ => none) 0 init [] [] = .ok (r, K') := by
  obtain ⟨init, k, K, hb⟩ := exists_booted 0
  have h := hb.reachable
  obtain ⟨r, K', he, -⟩ := exec_total h (Reachable.inv h).1.init_live (fun _ => none) [] []
  exact ⟨init, k, K, r, K', h, he⟩

end Reach

/-- **`exit(status)`** by a process other than `initproc` returns: the
process is a `ZOMBIE` holding `status`; each of its children, and no other
process, passes to `initproc`; its parent, asleep in `wait` on its own
slot, is woken; every other slot keeps its state or is woken from
`SLEEPING`; and no slot's pid or address space, and no page, moves. -/
theorem exit_reparents (K : Kernel) (init p : Fin NPROC) (hpi : p ≠ init) (hpp : (K.proc p).parent ≠ some p)
    (status : Int) :
    ∃ K', K.exit init p status = .ok K' ∧ K'.kmem = K.kmem ∧ (K'.proc p).state = .zombie ∧
      (K'.proc p).xstate = status ∧
      (∀ j, (K'.proc j).parent = if (K.proc j).parent = some p then some init else (K.proc j).parent) ∧
      (∀ j, (K'.proc j).pid = (K.proc j).pid ∧ (K'.proc j).pagetable = (K.proc j).pagetable ∧
        (K'.proc j).sz = (K.proc j).sz ∧ (K'.proc j).trapframe = (K.proc j).trapframe) ∧
      (∀ q, (K.proc p).parent = some q → (K.proc q).state = .sleeping → (K.proc q).chan = procChan q →
        (K'.proc q).state = .runnable) ∧
      ∀ j, j ≠ p → (K'.proc j).state = (K.proc j).state ∨ (K.proc j).state = .sleeping ∧ (K'.proc j).state = .runnable := by
  obtain ⟨K', hK'⟩ : ∃ K', K' = { (K.reparent init p).wakeup p (parentChan ((K.reparent init p).proc p).parent) with
      proc := Function.update ((K.reparent init p).wakeup p (parentChan ((K.reparent init p).proc p).parent)).proc p
        { ((K.reparent init p).wakeup p (parentChan ((K.reparent init p).proc p).parent)).proc p with
          xstate := status, state := .zombie } } := ⟨_, rfl⟩
  have h : K.exit init p status = .ok K' := by rw [exit, if_neg hpi, hK']
  have hp : K'.proc p = { ((K.reparent init p).wakeup p (parentChan ((K.reparent init p).proc p).parent)).proc p with
      xstate := status, state := .zombie } := by
    rw [hK']
    exact Function.update_self _ _ _
  refine ⟨K', h, (exit_kmem h).1, by rw [hp], by rw [hp], fun j => ?_, fun j => ?_,
    fun q hq hs hc => exit_wakes_parent h hq (fun e => hpp (e ▸ hq)) hs hc, fun j hj => ?_⟩
  · obtain ⟨st, x, heq, -, -⟩ := exit_proc h j
    rw [heq]
  · obtain ⟨st, x, heq, -, -⟩ := exit_proc h j
    rw [heq]
    exact ⟨rfl, rfl, rfl, rfl⟩
  · obtain ⟨st, x, heq, -, hst⟩ := exit_proc h j
    rw [heq]
    exact hst hj

theorem exit_reparents_first : ∃ K', (boot ⟨[], fun _ => 0, 0⟩).exit 0 1 7 = .ok K' ∧
    ((K'.proc 1).state = .zombie ∧ (K'.proc 1).xstate = 7) := by
  obtain ⟨K', h, -, hz, hx, -⟩ := exit_reparents (boot ⟨[], fun _ => 0, 0⟩) 0 1 (by decide) (by decide) 7
  exact ⟨K', h, hz, hx⟩

end Kernel

end Xv6
