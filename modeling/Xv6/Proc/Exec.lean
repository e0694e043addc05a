import Xv6.Proc.Sbrk
import Xv6.Framework.Owners

/-!
# `exec` on the process table

`exec(path, argv)` of `kernel/exec.c` by the process in a slot, over the
page tables with their pages (`Ptab`): `proc_pagetable` builds a new table,
the loop over the program headers grows it with `uvmalloc` and fills it with
`loadseg`, two more pages make the guard page and the stack, the argument
strings and `argv[]` are copied onto the stack, and only then is the new
image the process's and the old table freed. At every `goto bad` the new
table is freed and the process is as it was. The file system is a map from
a path to the file's bytes, as in `Vm.Exec`, whose model of `exec` this is
with the tables' pages recorded.

While the table is built it stays one that a live slot could hold, with
every page it and the free list hold coming from the free list `exec`
started with (`Ptab.Building`). `uvmalloc` of a segment of any size keeps
it, since the free list runs out before the trap frame is reached
(`Building.cap`). So `exec` never panics, and it either leaves the process
and the free list as they were or swaps the process's pages for the new
image's (`ExecEnds`, `exec_spec`).
-/

namespace Xv6

open Framework VmState

namespace Ptab

/-- `uvmclear(pagetable, va)`: `Exec`'s, on the table's view; it makes no table. -/
def uvmclear (pt : Ptab) (k : Kmem) (va : Nat) : Except String Ptab :=
  ((pt.vm k).uvmclear va).map pt.setVm

/-- `loadseg(pagetable, va, ip, offset, sz)`: `Exec`'s, on the table's view;
it writes only memory. -/
def loadseg (data : List UInt8) (pt : Ptab) (k : Kmem) (va offset sz : Nat) : Except String (Int × Kmem) :=
  ((pt.vm k).loadseg data va offset sz).map fun r => (r.1, Kmem.ofVm r.2)

/-- The loop of `exec` over the program headers from number `i` of `phnum`,
with `off` the `uint` value of `int off`: whether every segment was loaded
(else `goto bad`), the size, the table and the memory. -/
def loadLoop (data : List UInt8) (phnum : Nat) (pt : Ptab) (k : Kmem) (sz i off : Nat) :
    Except String (Bool × Nat × Ptab × Kmem) :=
  if i < phnum then
    let bs := readiBytes data off 56
    if bs.length ≠ 56 then .ok (false, sz, pt, k)
    else
      let ph := Proghdr.ofBytes bs
      if ph.type ≠ ELF_PROG_LOAD then loadLoop data phnum pt k sz (i + 1) ((off + 56) % 2 ^ 32)
      else if ph.memsz < ph.filesz then .ok (false, sz, pt, k)
      else if (ph.vaddr + ph.memsz) % 2 ^ 64 < ph.vaddr then .ok (false, sz, pt, k)
      else
        match pt.uvmalloc k sz ((ph.vaddr + ph.memsz) % 2 ^ 64) with
        | .error e => .error e
        | .ok (sz1, pt, k) =>
          if sz1 = 0 then .ok (false, sz, pt, k)
          else if ph.vaddr % PGSIZE ≠ 0 then .ok (false, sz1, pt, k)
          else
            match pt.loadseg data k ph.vaddr (ph.off % 2 ^ 32) (ph.filesz % 2 ^ 32) with
            | .error e => .error e
            | .ok (r, k) =>
              if r < 0 then .ok (false, sz1, pt, k) else loadLoop data phnum pt k sz1 (i + 1) ((off + 56) % 2 ^ 32)
  else .ok (true, sz, pt, k)
termination_by phnum - i

end Ptab

/-- The end of `exec`: each handler other than `SIG_IGN` and `SIG_DFL` back
to `SIG_DFL`, clearing the mask and `signal_handling` with it. -/
def Slot.execResetHandlers (p : Slot) : Slot :=
  (List.range 32).foldl
    (fun p i =>
      if p.signalHandlers i ≠ SIG_IGN ∧ p.signalHandlers i ≠ SIG_DFL then
        { p with signalHandlers := Function.update p.signalHandlers i SIG_DFL, signalsMask := 0, signalHandling := false }
      else p)
    p

/-! ## What the steps of `exec` change -/

section Steps

/-- Clearing `PTE_U` keeps the physical page. -/
theorem PTE2PA_clearU (x : UInt64) : PTE2PA (x &&& ~~~PTE_U) = PTE2PA x := by
  have hU : PTE_U.toBitVec = BitVec.twoPow 64 4 := by decide
  unfold PTE2PA
  apply UInt64.toBitVec_inj.1
  ext i hi
  simp only [UInt64.toBitVec_shiftLeft, UInt64.toBitVec_shiftRight, UInt64.toBitVec_and, UInt64.toBitVec_not, hU]
  simp [BitVec.getElem_shiftLeft, BitVec.getElem_ushiftRight, BitVec.getLsbD_twoPow]
  -- below bit 12 the page is zero; above it, bit `i` is bit `i - 2` of the PTE, never bit 4
  by_cases h : i < 12
  · simp [h]
  · have h₁ : 10 + (i - 12) < 64 := by omega
    have h₂ : ¬4 = 10 + (i - 12) := by omega
    simp [h, h₁, h₂]

theorem valid_clearU (x : UInt64) : (x &&& ~~~PTE_U) &&& PTE_V = x &&& PTE_V := by
  rw [UInt64.and_assoc, show ~~~PTE_U &&& PTE_V = PTE_V by decide]

/-- A user leaf without `PTE_U` is still a leaf: it keeps `R`, `W` and `X`. -/
theorem flags_clearU_leafPte (pa : Nat) : PTE_FLAGS (leafPte pa &&& ~~~PTE_U) ≠ PTE_V := by
  rw [PTE_FLAGS, UInt64.and_assoc, and_flag_leafPte pa (by decide)]
  decide

/-- Neither the trampoline's nor the trap frame's PTE lets the user in. -/
theorem topPte_not_user (trampoline trapframe v : Nat) : topPte trampoline trapframe v &&& PTE_U = 0 := by
  have hU : ∀ y : UInt64, y &&& PTE_U = PTE_FLAGS y &&& PTE_U := fun y => by
    rw [PTE_FLAGS, UInt64.and_assoc, show (0x3FF : UInt64) &&& PTE_U = PTE_U by decide]
  unfold topPte
  split_ifs
  · rw [hU, trampolinePte, flags_mappedPte _ (by decide)]
    decide
  · rw [hU, trapframePte, flags_mappedPte _ (by decide)]
    decide
  · rfl

/-- What `walkaddr` finds in a table with only the trampoline and the trap
frame above its user pages is one of its user pages. -/
theorem walkaddr_mem_physPages {s : VmState} {sz trampoline trapframe : Nat}
    (htop : ∀ v, npages sz ≤ v → s.pte v = topPte trampoline trapframe v) {va : UInt64}
    (h : walkaddr s.pageTable va ≠ 0) : (walkaddr s.pageTable va).toNat ∈ s.physPages 0 (npages sz) := by
  have hul : UserLeaf s.pageTable va.toNat := by
    by_contra hn
    exact h (walkaddr_of_not hn)
  obtain ⟨pte, hl, hu, he⟩ := walkaddr_of_userLeaf hul
  -- the leaf `walk` finds is the PTE of the page
  have hpte : pte = s.pte (va.toNat / PGSIZE) := by
    simp only [pageTable] at hl
    split_ifs at hl
    exact (Option.some_inj.1 hl).symm
  have hv : va.toNat / PGSIZE < npages sz := by
    by_contra hv
    rw [hpte, htop _ (not_lt.1 hv)] at hu
    exact hu.2 (topPte_not_user _ _ _)
  rw [he, hpte]
  exact mem_physPages.2 ⟨_, Nat.zero_le _, by omega, rfl⟩

/-- Storing bytes that stay within the page at `pa` writes only that page. -/
theorem sameOutside_store (m : Nat → UInt8) {pa a : Nat} {bs : List UInt8} (h₁ : pa ≤ a)
    (h₂ : a + bs.length ≤ pa + PGSIZE) : SameOutside m (store m a bs) [pa] := fun x hx => by
  have hx' := hx pa (List.mem_singleton_self pa)
  unfold store
  split_ifs with ha
  · exact List.getD_eq_default _ _ (by omega)
  · rfl

theorem sameOutside_store_page {m : Nat → UInt8} {pas : List Nat} {pa : Nat} (hpa : pa ∈ pas) {bs : List UInt8}
    (h : bs.length ≤ PGSIZE) : SameOutside m (store m pa bs) pas :=
  SameOutside.mono (sameOutside_store m le_rfl (by omega)) fun q hq => List.mem_singleton.1 hq ▸ hpa

theorem sameOutside_trans_same {m m' m'' : Nat → UInt8} {pas : List Nat} (h : SameOutside m m' pas)
    (h' : SameOutside m' m'' pas) : SameOutside m m'' pas :=
  SameOutside.mono (SameOutside.trans h h') fun _ hq => (List.mem_append.1 hq).elim id id

/-- `copyout` writes only pages that `walkaddr` finds. -/
theorem copyout_sameOutside {pt : PageTable} {pas : List Nat}
    (hpas : ∀ a, walkaddr pt a ≠ 0 → (walkaddr pt a).toNat ∈ pas) (mem : Nat → UInt8) (dstva : UInt64)
    (src : List UInt8) : SameOutside mem (copyout pt mem dstva src).2 pas := by
  fun_induction copyout pt mem dstva src with
  | case1 => exact SameOutside.refl _ _
  | case2 => exact SameOutside.refl _ _
  | case3 mem dstva src h va0 pa0 hpa n ih =>
    -- one round fills the rest of the page `pa0` from the offset of `dstva` in it, or less
    have hoff : (dstva - va0).toNat < PGSIZE := offset_lt dstva
    have hn : n ≤ PGSIZE - (dstva - va0).toNat := min_le_left _ _
    have hlen : (src.take n).length ≤ PGSIZE - (dstva - va0).toNat := by
      rw [List.length_take]
      omega
    have hpage : pa0.toNat ∈ pas := hpas _ hpa
    refine sameOutside_trans_same (SameOutside.mono (sameOutside_store mem (Nat.le_add_right _ _) ?_)
      fun q hq => List.mem_singleton.1 hq ▸ hpage) ih
    omega

theorem readiBytes_length_le (data : List UInt8) (off n : Nat) : (readiBytes data off n).length ≤ n := by
  unfold readiBytes
  split_ifs
  · exact Nat.zero_le n
  · exact List.length_take_le _ _

/-- One round of `loadseg`'s loop reads at most a page into the page
`walkaddr` found, and writes nothing else. -/
theorem loadsegLoop_store {P : PageTable} {pas : List Nat}
    (hpas : ∀ a, walkaddr P a ≠ 0 → (walkaddr P a).toNat ∈ pas) {s : VmState} (hs : s.pageTable = P) {a : UInt64}
    (hpa : ¬walkaddr s.pageTable a = 0) (data : List UInt8) (off : Nat) {n : Nat} (hn : n ≤ PGSIZE) :
    SameOutside s.mem (store s.mem (walkaddr s.pageTable a).toNat (readiBytes data off n)) pas := by
  have hpage : (walkaddr s.pageTable a).toNat ∈ pas := by
    rw [hs]
    exact hpas a (hs ▸ hpa)
  exact sameOutside_store_page hpage ((readiBytes_length_le _ _ _).trans hn)

/-- `loadseg`'s loop finds each page it needs when every page of the
segment is a user page, and writes only memory, on pages `walkaddr` finds. -/
theorem loadsegLoop_ok (data : List UInt8) (offset : Nat) {P : PageTable} {va sz : Nat} {pas : List Nat}
    (hw : ∀ j < sz, walkaddr P (UInt64.ofNat (va + j)) ≠ 0)
    (hpas : ∀ a, walkaddr P a ≠ 0 → (walkaddr P a).toNat ∈ pas) (s : VmState) (i : Nat) (hs : s.pageTable = P) :
    ∃ r m, s.loadsegLoop data va offset sz i = .ok (r, { s with mem := m }) ∧ SameOutside s.mem m pas := by
  fun_induction s.loadsegLoop data va offset sz i with
  | case1 s i hi pa hpa =>
    have h : walkaddr s.pageTable (UInt64.ofNat (va + i)) = 0 := hpa
    rw [hs] at h
    exact absurd h (hw i hi)
  | case2 s i hi pa hpa n bs hn =>
    have hle : n ≤ PGSIZE := by dsimp only [n]; split <;> omega
    exact ⟨-1, _, rfl, loadsegLoop_store hpas hs hpa data _ hle⟩
  | case3 s i hi pa hpa n bs hn ih =>
    -- this round's page, then the rounds after it
    have hle : n ≤ PGSIZE := by dsimp only [n]; split <;> omega
    obtain ⟨r, m, h, hm⟩ := ih hs
    exact ⟨r, m, h, sameOutside_trans_same (loadsegLoop_store hpas hs hpa data _ hle) hm⟩
  | case4 s i hi => exact ⟨0, s.mem, rfl, SameOutside.refl _ _⟩

/-- Pushing the argument strings writes only memory, on pages `walkaddr` finds. -/
theorem pushArgs_mem (s : VmState) {pas : List Nat}
    (hpas : ∀ a, walkaddr s.pageTable a ≠ 0 → (walkaddr s.pageTable a).toNat ∈ pas) (stackbase : Nat)
    (args : List (List UInt8)) (argc sp : Nat) (ustack : List Nat) :
    ∃ m, (s.pushArgs stackbase args argc sp ustack).2.2.2 = { s with mem := m } ∧ SameOutside s.mem m pas := by
  induction args generalizing s argc sp ustack with
  | nil => exact ⟨s.mem, rfl, SameOutside.refl _ _⟩
  | cons a rest ih =>
    simp only [VmState.pushArgs]
    split_ifs
    · exact ⟨s.mem, rfl, SameOutside.refl _ _⟩
    · exact ⟨s.mem, rfl, SameOutside.refl _ _⟩
    · exact ⟨_, rfl, copyout_sameOutside hpas _ _ _⟩
    · -- the string went onto the stack; the rest are pushed over the memory it left
      generalize hr : copyout s.pageTable s.mem _ (a ++ [0]) = r
      obtain ⟨m, hm, hm'⟩ := ih { s with mem := r.2 } hpas (argc + 1) _ _
      exact ⟨m, hm, sameOutside_trans_same (hr ▸ copyout_sameOutside hpas _ _ _) hm'⟩

/-- The handlers `exec` resets are all it changes of the slot. -/
theorem Slot.execResetHandlers_eq (p : Slot) :
    ∃ h m b, p.execResetHandlers = { p with signalHandlers := h, signalsMask := m, signalHandling := b } := by
  unfold Slot.execResetHandlers
  generalize List.range 32 = l
  induction l generalizing p with
  | nil => exact ⟨p.signalHandlers, p.signalsMask, p.signalHandling, rfl⟩
  | cons i l ih =>
    rw [List.foldl_cons]
    by_cases hc : p.signalHandlers i ≠ SIG_IGN ∧ p.signalHandlers i ≠ SIG_DFL
    · obtain ⟨h, m, b, he⟩ := ih
        { p with signalHandlers := Function.update p.signalHandlers i SIG_DFL, signalsMask := 0, signalHandling := false }
      exact ⟨h, m, b, by simp only [if_pos hc]; exact he⟩
    · obtain ⟨h, m, b, he⟩ := ih p
      exact ⟨h, m, b, by simp only [if_neg hc]; exact he⟩

namespace Ptab

variable {pt : Ptab} {k : Kmem}

/-- `uvmclear` of a mapped page clears `PTE_U` in its PTE and nothing else. -/
theorem uvmclear_eq (ho : pt.Ok) {va : Nat} (ha : va < MAXVA.toNat) (hv : pt.pte (va / PGSIZE) ≠ 0) :
    pt.uvmclear k va =
      .ok { pt with pte := fun v => if v = va / PGSIZE then pt.pte (va / PGSIZE) &&& ~~~PTE_U else pt.pte v } := by
  have ht := ho.tables k
  -- the entries above a nonzero PTE are valid, so `walk` finds it
  have h0 : pt.l0 (va / 2 ^ 21) = true := by
    have := ht.l0_of_pte _ hv
    rwa [Nat.div_div_eq_div_mul] at this
  have h1 : pt.l1 (va / 2 ^ 30) = true := by
    have := ht.l1_of_l0 _ h0
    rwa [div_two_pow_21_div] at this
  rw [uvmclear, VmState.uvmclear, walk_false ha]
  simp only [vm_l1, vm_l0, h1, h0, Bool.and_self]
  show Except.ok { pt with pte := fun v => if v = va / PGSIZE then pt.pte v &&& ~~~PTE_U else pt.pte v } = _
  congr 2
  funext v
  by_cases hv : v = va / PGSIZE
  · rw [if_pos hv, if_pos hv, hv]
  · rw [if_neg hv, if_neg hv]

/-- `loadseg` of an aligned segment of user pages writes only memory, on
pages `walkaddr` finds. -/
theorem loadseg_ok (data : List UInt8) (offset : Nat) {va sz : Nat} {pas : List Nat} (hva : va % PGSIZE = 0)
    (hw : ∀ j < sz, walkaddr (pt.vm k).pageTable (UInt64.ofNat (va + j)) ≠ 0)
    (hpas : ∀ a, walkaddr (pt.vm k).pageTable a ≠ 0 → (walkaddr (pt.vm k).pageTable a).toNat ∈ pas) :
    ∃ r m, pt.loadseg data k va offset sz = .ok (r, { k with mem := m }) ∧ SameOutside k.mem m pas := by
  obtain ⟨r, m, h, hm⟩ := loadsegLoop_ok data offset hw hpas (pt.vm k) 0 rfl
  refine ⟨r, m, ?_, hm⟩
  rw [loadseg, VmState.loadseg, if_neg (by omega), h]
  rfl

end Ptab

end Steps

/-! ## The table `exec` builds -/

namespace Ptab

/-- A table `exec` is building, of size `sz` over `k`, for a process whose
trap frame is at `trapframe`, from the memory `k₀` it started with: a table
a live slot could hold, whose tables and user pages with the free list are
exactly the pages free in `k₀`, and which wrote no byte off those pages. -/
structure Building (trampoline trapframe : Nat) (k₀ : Kmem) (pt : Ptab) (k : Kmem) (sz : Nat) : Prop where
  ok : pt.Ok
  root : pt.root ≠ 0
  kend_eq : k.kend = k₀.kend
  good : (pt.vm k).Good sz
  top : ∀ v, npages sz ≤ v → pt.pte v = topPte trampoline trapframe v
  pages : pt.tablePages + ↑((pt.vm k).physPages 0 (npages sz)) + ↑k.freelist = ↑k₀.freelist
  mem_eq : SameOutside k₀.mem k.mem k₀.freelist

section Building

variable {trampoline trapframe : Nat} {k₀ : Kmem} {pt pt' : Ptab} {k k' : Kmem} {sz sz' : Nat}

/-- The table `proc_pagetable` made, with its tables off the head of the free list. -/
theorem Building.start {n : Nat} (hk₀ : KERNBASE ≤ k₀.kend) (hnd : k₀.freelist.Nodup)
    (hpg : ∀ q ∈ k₀.freelist, IsPage k₀.kend q) (hroot : pt.root ≠ 0) (ho : pt.Ok)
    (hpte : pt.pte = topPte trampoline trapframe) (htab : pt.tablePages = ↑(k₀.freelist.take n))
    (hfree : k.freelist = k₀.freelist.drop n) (hkend : k.kend = k₀.kend)
    (hmem : SameOutside k₀.mem k.mem (k₀.freelist.take n)) :
    Building trampoline trapframe k₀ pt k 0 := by
  have h0 : npages 0 = 0 := rfl
  refine ⟨ho, hroot, hkend, ?_, fun v _ => by rw [hpte], ?_, hmem.mono fun _ => List.mem_of_mem_take⟩
  · refine
      { toTablesOk := ho.tables k
        kend_ge := by rw [vm_kend, hkend]; exact hk₀
        free_nodup := by rw [vm_freelist, hfree]; exact hnd.sublist (List.drop_sublist _ _)
        free_page := fun q hq => by
          rw [vm_freelist, hfree] at hq
          rw [vm_kend, hkend]
          exact hpg q (List.mem_of_mem_drop hq)
        leaf := fun v hv => absurd hv (by omega)
        pa_page := fun v hv => absurd hv (by omega)
        pa_inj := fun v hv => absurd hv (by omega)
        pa_free := fun v hv => absurd hv (by omega)
        unmapped := fun v _ hv => by rw [vm_pte, hpte]; exact topPte_of_lt hv }
  · rw [h0, htab, hfree]
    show (↑(k₀.freelist.take n) : Multiset Nat) + ↑([] : List Nat) + ↑(k₀.freelist.drop n) = _
    rw [Multiset.coe_nil, add_zero, Multiset.coe_add, List.take_append_drop]

/-- The free list and the user pages of a table being built were free when
`exec` started. -/
theorem Building.mem_free (hb : Building trampoline trapframe k₀ pt k sz) (q : Nat)
    (hq : q ∈ k.freelist ++ (pt.vm k).physPages 0 (npages sz)) : q ∈ k₀.freelist := by
  rw [← Multiset.mem_coe, ← hb.pages]
  rcases List.mem_append.1 hq with hq | hq
  · exact Multiset.mem_add.2 (.inr (Multiset.mem_coe.2 hq))
  · exact Multiset.mem_add.2 (.inl (Multiset.mem_add.2 (.inr (Multiset.mem_coe.2 hq))))

/-- A table `growproc`'s steps resized. -/
theorem Building.resize (hb : Building trampoline trapframe k₀ pt k sz) (hr : Resized pt k sz pt' k' sz') :
    Building trampoline trapframe k₀ pt' k' sz' :=
  ⟨hr.ok, hr.root_eq ▸ hb.root, hr.kend_eq.trans hb.kend_eq, hr.good, hr.top (npages_le_trapframe hb.good) hb.top,
    by rw [hr.pages, hb.pages], SameOutside.mono (hb.mem_eq.trans hr.mem_eq) fun q hq =>
      (List.mem_append.1 hq).elim id (hb.mem_free q)⟩

theorem Building.congr (hb : Building trampoline trapframe k₀ pt k sz) (h : npages sz' = npages sz) :
    Building trampoline trapframe k₀ pt k sz' :=
  ⟨hb.ok, hb.root, hb.kend_eq, hb.good.congr h, fun v hv => hb.top v (h ▸ hv), by rw [h]; exact hb.pages, hb.mem_eq⟩

/-- Writing the table's own user pages keeps it. -/
theorem Building.mem (hb : Building trampoline trapframe k₀ pt k sz) {m : Nat → UInt8}
    (hm : SameOutside k.mem m ((pt.vm k).physPages 0 (npages sz))) :
    Building trampoline trapframe k₀ pt { k with mem := m } sz :=
  ⟨hb.ok, hb.root, hb.kend_eq, hb.good.of_sublist (hb.ok.tables _) rfl rfl (List.Sublist.refl _), hb.top, hb.pages,
    SameOutside.mono (hb.mem_eq.trans hm) fun q hq => (List.mem_append.1 hq).elim id
      fun h => hb.mem_free q (List.mem_append_right _ h)⟩

/-- `uvmclear` of a user page below the size keeps the table: the page stays
a leaf on the same physical page. -/
theorem Building.clear (hb : Building trampoline trapframe k₀ pt k sz) {va pa : Nat} (hv : va / PGSIZE < npages sz)
    (hleaf : pt.pte (va / PGSIZE) = leafPte pa) :
    Building trampoline trapframe k₀
      { pt with pte := fun v => if v = va / PGSIZE then pt.pte (va / PGSIZE) &&& ~~~PTE_U else pt.pte v } k sz := by
  obtain ⟨pt', hpt'⟩ : ∃ pt' : Ptab,
      pt' = { pt with pte := fun v => if v = va / PGSIZE then pt.pte (va / PGSIZE) &&& ~~~PTE_U else pt.pte v } :=
    ⟨_, rfl⟩
  rw [← hpt']
  have hl0 : pt.l0 (va / 2 ^ 21) = true := by
    have := (hb.ok.tables k).l0_of_pte (va / PGSIZE) (by rw [vm_pte, hleaf]; exact leafPte_ne_zero pa)
    rwa [Nat.div_div_eq_div_mul] at this
  have ho : pt'.Ok := hpt' ▸ hb.ok.set_pte hl0 _
  -- every PTE keeps its physical page; only the page at `va` changed, and it stays a leaf
  have hpa : ∀ v, PTE2PA (pt'.pte v) = PTE2PA (pt.pte v) := fun v => by
    rw [hpt']
    dsimp only
    split_ifs with h
    · rw [PTE2PA_clearU, h]
    · rfl
  have hout : ∀ v, v ≠ va / PGSIZE → pt'.pte v = pt.pte v := fun v h => by
    rw [hpt']
    exact if_neg h
  have hphys : (pt'.vm k).physPages 0 (npages sz) = (pt.vm k).physPages 0 (npages sz) :=
    List.map_congr_left fun v _ => by rw [vm_pte, vm_pte, hpa]
  have hg := hb.good
  refine ⟨ho, hpt' ▸ hb.root, hb.kend_eq, ?_, fun v h => by rw [hout v (by omega)]; exact hb.top v h, ?_, ?_⟩
  · refine
      { toTablesOk := ho.tables k
        kend_ge := hg.kend_ge
        free_nodup := hg.free_nodup
        free_page := hg.free_page
        leaf := fun v h => ?_
        pa_page := fun v h => by rw [vm_pte, hpa]; exact hg.pa_page v h
        pa_inj := fun v h w h' he => hg.pa_inj v h w h' (by simp only [vm_pte, hpa] at he ⊢; exact he)
        pa_free := fun v h => by rw [vm_pte, hpa]; exact hg.pa_free v h
        unmapped := fun v h h' => by rw [vm_pte, hout v (by omega)]; exact hg.unmapped v h h' }
    by_cases hva : v = va / PGSIZE
    · rw [vm_pte, hpt']
      dsimp only
      rw [if_pos hva, hleaf, valid_clearU]
      exact ⟨(leafPte_valid pa).1, flags_clearU_leafPte pa⟩
    · rw [vm_pte, hout v hva]
      exact hg.leaf v h
  · rw [hphys, hpt']
    exact hb.pages
  · exact hb.mem_eq

/-- What the new table and the free list hold are distinct pages of
`[KERNBASE, PHYSTOP)`, so no more than the memory holds. -/
theorem Building.cap (hb : Building trampoline trapframe k₀ pt k sz) (hk₀ : KERNBASE ≤ k₀.kend)
    (hnd : k₀.freelist.Nodup) (hpg : ∀ q ∈ k₀.freelist, IsPage k₀.kend q) :
    npages sz + Multiset.card pt.tablePages + k.freelist.length < TRAPFRAME / PGSIZE := by
  have h := congrArg Multiset.card hb.pages
  simp only [Multiset.card_add, Multiset.coe_card, physPages, List.length_map, List.length_range'] at h
  have hc : Multiset.card (↑k₀.freelist : Multiset Nat) ≤ (PHYSTOP - KERNBASE) / PGSIZE :=
    Framework.card_le_of_aligned (by decide) (by decide) (by decide) (Multiset.coe_nodup.2 hnd) fun q hq => by
      obtain ⟨h₁, h₂, h₃⟩ := hpg q (Multiset.mem_coe.1 hq)
      exact ⟨Nat.dvd_of_mod_eq_zero h₁, le_trans hk₀ h₂, h₃⟩
  rw [Multiset.coe_card] at hc
  have := TRAPFRAME_div
  unfold PHYSTOP KERNBASE PGSIZE at hc
  omega

/-- `uvmalloc` on a table being built, to any size: it grows the table,
keeping the old PTEs and putting user leaves on the new pages; or it ran out
of pages and left the table as it was; or the size asked for is below the
table's and nothing happens. -/
theorem Building.uvmalloc (hb : Building trampoline trapframe k₀ pt k sz)
    (hcap : npages sz + Multiset.card pt.tablePages + k.freelist.length < TRAPFRAME / PGSIZE) (newsz : Nat) :
    ∃ r pt' k', pt.uvmalloc k sz newsz = .ok (r, pt', k') ∧
      (r = 0 ∧ Building trampoline trapframe k₀ pt' k' sz ∨
        r = max sz newsz ∧ 0 < r ∧ Building trampoline trapframe k₀ pt' k' r ∧ (∀ v < npages sz, pt'.pte v = pt.pte v) ∧
          ∀ v, npages sz ≤ v → v < npages r → ∃ pa, pt'.pte v = leafPte pa) := by
  by_cases hlt : newsz < sz
  · -- nothing to allocate
    exact ⟨sz, pt, k, by rw [Ptab.uvmalloc, if_pos hlt],
      .inr ⟨(max_eq_left hlt.le).symm, by omega, hb, fun _ _ => rfl, fun v h₁ h₂ => absurd h₂ (by omega)⟩⟩
  · have hle : sz ≤ newsz := by omega
    rcases uvmalloc_tracks hb.ok hb.good hle (.inr hcap) with ⟨pt', k', m, hu, ha⟩ | ⟨pt', k', hu, hres⟩
    · have hb' := hb.resize (Resized.of_alloced hle ha)
      by_cases hz : newsz = 0
      · -- a size of zero is what `uvmalloc` returns when it fails
        subst hz
        obtain rfl : sz = 0 := by omega
        exact ⟨0, pt', k', hu, .inl ⟨rfl, hb'⟩⟩
      · refine ⟨newsz, pt', k', hu, .inr ⟨(max_eq_right hle).symm, by omega, hb', fun v hv => ha.grown.pte_out v (by omega),
          fun v h₁ h₂ => ?_⟩⟩
        obtain ⟨pa, -, hpte, -⟩ := ha.grown.new_page v h₁ h₂
        exact ⟨pa, hpte⟩
    · exact ⟨0, pt', k', hu, .inl ⟨rfl, hb.resize (Resized.of_restored hb.good hres)⟩⟩

/-- What `uvmalloc` on a table being built returned, read back. -/
theorem Building.uvmalloc_cases (hb : Building trampoline trapframe k₀ pt k sz)
    (hcap : npages sz + Multiset.card pt.tablePages + k.freelist.length < TRAPFRAME / PGSIZE) {newsz r : Nat}
    (h : pt.uvmalloc k sz newsz = .ok (r, pt', k')) :
    r = 0 ∧ Building trampoline trapframe k₀ pt' k' sz ∨
      r = max sz newsz ∧ 0 < r ∧ Building trampoline trapframe k₀ pt' k' r ∧ (∀ v < npages sz, pt'.pte v = pt.pte v) ∧
        ∀ v, npages sz ≤ v → v < npages r → ∃ pa, pt'.pte v = leafPte pa := by
  obtain ⟨r', pt'', k'', h', hc⟩ := hb.uvmalloc hcap newsz
  rw [h] at h'
  cases h'
  exact hc

/-- An address below the size of a process that keeps `Grow`'s invariant is below `MAXVA`. -/
theorem lt_MAXVA_of_good {s : VmState} {x : Nat} (hg : s.Good sz) (hx : x / PGSIZE < npages sz) : x < MAXVA.toNat := by
  have := npages_le_of_good hg
  rw [toNat_MAXVA]
  unfold PHYSTOP KERNBASE PGSIZE at *
  omega

/-- A user page of a process that keeps `Grow`'s invariant is one `walkaddr` finds. -/
theorem walkaddr_ne_zero_of_good {s : VmState} {x : Nat} (hg : s.Good sz) (hx : x / PGSIZE < npages sz)
    (hu : s.pte (x / PGSIZE) &&& PTE_U ≠ 0) : walkaddr s.pageTable (UInt64.ofNat x) ≠ 0 := by
  have hxm := lt_MAXVA_of_good hg hx
  have hx64 : (UInt64.ofNat x).toNat = x := UInt64.toNat_ofNat_of_lt' (lt_of_lt_of_le hxm (by rw [toNat_MAXVA]; decide))
  have hne : s.pte (x / PGSIZE) ≠ 0 := fun h => (hg.leaf _ hx).1 (by rw [h]; decide)
  have hl := pageTable_leaf hg.toTablesOk hne
  have hul : UserLeaf s.pageTable (UInt64.ofNat x).toNat :=
    ⟨by rw [hx64]; exact hxm, _, by rw [hx64]; exact hl, (hg.leaf _ hx).1, hu⟩
  obtain ⟨pte, h₁, -, he⟩ := walkaddr_of_userLeaf hul
  rw [hx64, hl, Option.some_inj] at h₁
  rw [he, ← h₁]
  -- its physical page lies in `kalloc`'s memory, so is not page 0
  intro h
  obtain ⟨-, h₂, -⟩ := hg.pa_page _ hx
  have hk := hg.kend_ge
  rw [h, UInt64.toNat_zero] at h₂
  unfold KERNBASE at hk
  omega

/-- `uvmclear` of a user leaf below the size: the table is still being built. -/
theorem Building.uvmclear (hb : Building trampoline trapframe k₀ pt k sz) {va pa : Nat} (hv : va / PGSIZE < npages sz)
    (hleaf : pt.pte (va / PGSIZE) = leafPte pa) :
    ∃ pt', pt.uvmclear k va = .ok pt' ∧ Building trampoline trapframe k₀ pt' k sz := by
  have hne : pt.pte (va / PGSIZE) ≠ 0 := fun h => (leafPte_valid pa).1 (by rw [← hleaf, h]; decide)
  exact ⟨_, uvmclear_eq hb.ok (lt_MAXVA_of_good hb.good hv) hne, hb.clear hv hleaf⟩

/-- A segment's round of the loop, once `uvmalloc` to its end succeeded: the
table is still being built, every page below the new size is a user page,
and the new size reaches the segment's end. -/
theorem Building.load (hb : Building trampoline trapframe k₀ pt k sz) (hu : ∀ v < npages sz, pt.pte v &&& PTE_U ≠ 0)
    (hcap : npages sz + Multiset.card pt.tablePages + k.freelist.length < TRAPFRAME / PGSIZE) {newsz sz1 : Nat}
    (h : pt.uvmalloc k sz newsz = .ok (sz1, pt', k')) (hz : sz1 ≠ 0) :
    Building trampoline trapframe k₀ pt' k' sz1 ∧ (∀ v < npages sz1, pt'.pte v &&& PTE_U ≠ 0) ∧ newsz ≤ sz1 := by
  rcases hb.uvmalloc_cases hcap h with ⟨hr, -⟩ | ⟨hr, -, hb', hkept, hnew⟩
  · exact absurd hr hz
  refine ⟨hb', fun v hv => ?_, by omega⟩
  by_cases hvs : v < npages sz
  · rw [hkept v hvs]
    exact hu v hvs
  · obtain ⟨pa, hpa⟩ := hnew v (by omega) hv
    rw [hpa]
    exact (leafPte_valid pa).2.2.2

/-- The pages below the size of a table being built whose pages are user
pages are all found by `walkaddr`. -/
theorem Building.mapped (hb : Building trampoline trapframe k₀ pt k sz) (hu : ∀ v < npages sz, pt.pte v &&& PTE_U ≠ 0)
    {va n : Nat} (hn : va + n ≤ sz) : ∀ j < n, walkaddr (pt.vm k).pageTable (UInt64.ofNat (va + j)) ≠ 0 := fun j hj =>
  have hx := Kernel.div_lt_npages (show va + j < sz by omega)
  walkaddr_ne_zero_of_good hb.good hx (hu _ hx)

/-- What `walkaddr` finds in a table being built is one of its user pages. -/
theorem Building.walkaddr_mem (hb : Building trampoline trapframe k₀ pt k sz) (a : UInt64)
    (h : walkaddr (pt.vm k).pageTable a ≠ 0) :
    (walkaddr (pt.vm k).pageTable a).toNat ∈ (pt.vm k).physPages 0 (npages sz) :=
  walkaddr_mem_physPages (fun v hv => by rw [vm_pte]; exact hb.top v hv) h

/-- Eight bytes read as a number are below `2⁶⁴`. -/
theorem leValue_take_eight_lt (bs : List UInt8) : leValue (bs.take 8) < 2 ^ 64 :=
  calc leValue (bs.take 8) < 256 ^ (bs.take 8).length := leValue_lt _
    _ ≤ 256 ^ 8 := Nat.pow_le_pow_right (by decide) (by simp)
    _ = 2 ^ 64 := by norm_num

/-- The file part of a segment that passed `exec`'s checks ends below the
size `uvmalloc` reached. -/
theorem segment_end {bs : List UInt8}
    (hmem : ¬(Proghdr.ofBytes bs).memsz < (Proghdr.ofBytes bs).filesz)
    (hov : ¬((Proghdr.ofBytes bs).vaddr + (Proghdr.ofBytes bs).memsz) % 2 ^ 64 < (Proghdr.ofBytes bs).vaddr) {sz1 : Nat}
    (hle : ((Proghdr.ofBytes bs).vaddr + (Proghdr.ofBytes bs).memsz) % 2 ^ 64 ≤ sz1) :
    (Proghdr.ofBytes bs).vaddr + (Proghdr.ofBytes bs).filesz % 2 ^ 32 ≤ sz1 := by
  have hv : (Proghdr.ofBytes bs).vaddr < 2 ^ 64 := leValue_take_eight_lt (bs.drop 16)
  have hm : (Proghdr.ofBytes bs).memsz < 2 ^ 64 := leValue_take_eight_lt (bs.drop 40)
  have := Nat.mod_le (Proghdr.ofBytes bs).filesz (2 ^ 32)
  -- the check against overflow leaves `vaddr + memsz` below `2⁶⁴`
  omega

/-- A segment's round of the loop once `uvmalloc` to its end succeeded and
its start is aligned: `loadseg` returns, writing only the table's own user
pages, and the table is still being built. -/
theorem Building.segment (hk₀ : KERNBASE ≤ k₀.kend) (hnd : k₀.freelist.Nodup)
    (hpg : ∀ q ∈ k₀.freelist, IsPage k₀.kend q) (hb : Building trampoline trapframe k₀ pt k sz)
    (hu : ∀ v < npages sz, pt.pte v &&& PTE_U ≠ 0) (data : List UInt8) {bs : List UInt8} {sz1 : Nat}
    (hmem : ¬(Proghdr.ofBytes bs).memsz < (Proghdr.ofBytes bs).filesz)
    (hov : ¬((Proghdr.ofBytes bs).vaddr + (Proghdr.ofBytes bs).memsz) % 2 ^ 64 < (Proghdr.ofBytes bs).vaddr)
    (h : pt.uvmalloc k sz (((Proghdr.ofBytes bs).vaddr + (Proghdr.ofBytes bs).memsz) % 2 ^ 64) = .ok (sz1, pt', k'))
    (hz : sz1 ≠ 0) (hal : (Proghdr.ofBytes bs).vaddr % PGSIZE = 0) :
    ∃ r m, pt'.loadseg data k' (Proghdr.ofBytes bs).vaddr ((Proghdr.ofBytes bs).off % 2 ^ 32)
        ((Proghdr.ofBytes bs).filesz % 2 ^ 32) = .ok (r, { k' with mem := m }) ∧
      Building trampoline trapframe k₀ pt' { k' with mem := m } sz1 ∧ ∀ v < npages sz1, pt'.pte v &&& PTE_U ≠ 0 := by
  obtain ⟨hb', hu', hle⟩ := hb.load hu (hb.cap hk₀ hnd hpg) h hz
  obtain ⟨r, m, hl, hm⟩ := loadseg_ok data ((Proghdr.ofBytes bs).off % 2 ^ 32) hal
    (hb'.mapped hu' (n := (Proghdr.ofBytes bs).filesz % 2 ^ 32) (segment_end hmem hov hle)) hb'.walkaddr_mem
  exact ⟨r, m, hl, hb'.mem hm, hu'⟩

/-- **The loop over the program headers** never panics, and keeps the
table being built with every page below its size a user page. -/
theorem loadLoop_spec (hk₀ : KERNBASE ≤ k₀.kend) (hnd : k₀.freelist.Nodup) (hpg : ∀ q ∈ k₀.freelist, IsPage k₀.kend q)
    (data : List UInt8) (phnum : Nat) (pt : Ptab) (k : Kmem) (sz i off : Nat)
    (hb : Building trampoline trapframe k₀ pt k sz) (hu : ∀ v < npages sz, pt.pte v &&& PTE_U ≠ 0) :
    ∃ b sz' pt' k', pt.loadLoop data phnum k sz i off = .ok (b, sz', pt', k') ∧
      Building trampoline trapframe k₀ pt' k' sz' := by
  fun_induction pt.loadLoop data phnum k sz i off with
  | case1 => exact ⟨_, _, _, _, rfl, hb⟩
  | case2 pt k sz i off hi bs hlen ph htype ih => exact ih hb hu
  | case3 => exact ⟨_, _, _, _, rfl, hb⟩
  | case4 => exact ⟨_, _, _, _, rfl, hb⟩
  | case5 pt k sz i off hi bs hlen ph htype hmem hov e he =>
    obtain ⟨r, pt', k', h, -⟩ := hb.uvmalloc (hb.cap hk₀ hnd hpg) ((ph.vaddr + ph.memsz) % 2 ^ 64)
    rw [he] at h
    cases h
  | case6 pt k sz i off hi bs hlen ph htype hmem hov pt' k' h =>
    rcases hb.uvmalloc_cases (hb.cap hk₀ hnd hpg) h with ⟨-, hb'⟩ | ⟨-, hr, -⟩
    · exact ⟨_, _, _, _, rfl, hb'⟩
    · omega
  | case7 pt k sz i off hi bs hlen ph htype hmem hov sz1 pt' k' h hz hal =>
    rcases hb.uvmalloc_cases (hb.cap hk₀ hnd hpg) h with ⟨hr, -⟩ | ⟨-, -, hb', -⟩
    · omega
    · exact ⟨_, _, _, _, rfl, hb'⟩
  | case8 pt k sz i off hi bs hlen ph htype hmem hov sz1 pt' k' h hz hal e he =>
    obtain ⟨r, m, hl, -⟩ := hb.segment hk₀ hnd hpg hu data hmem hov h hz (not_not.1 hal)
    rw [hl] at he
    cases he
  | case9 pt k sz i off hi bs hlen ph htype hmem hov sz1 pt' k' h hz hal r k'' hl hr =>
    obtain ⟨r', m, hl', hb', -⟩ := hb.segment hk₀ hnd hpg hu data hmem hov h hz (not_not.1 hal)
    rw [hl] at hl'
    cases hl'
    exact ⟨_, _, _, _, rfl, hb'⟩
  | case10 pt k sz i off hi bs hlen ph htype hmem hov sz1 pt' k' h hz hal r k'' hl hr ih =>
    obtain ⟨r', m, hl', hb', hu'⟩ := hb.segment hk₀ hnd hpg hu data hmem hov h hz (not_not.1 hal)
    rw [hl] at hl'
    cases hl'
    exact ih hb' hu'
  | case11 => exact ⟨_, _, _, _, rfl, hb⟩

end Building

end Ptab

namespace Kernel

/-- `goto bad` with the new table `pt` built up to size `sz`: the table is
freed and `exec` returns `-1`. -/
def execBad (K : Kernel) (pt : Ptab) (k : Kmem) (sz : Nat) : Except String (Int × Kernel) :=
  match pt.procFreepagetable k sz with
  | .error e => .error e
  | .ok k => .ok (-1, { K with kmem := k })

/-- The end of a successful `exec` by slot `p`: the new table and size are
the process's, the trap frame starts it at `entry` with the stack at `sp`
and `argv` in `a1`, the old table is freed, and the handlers are reset. -/
def execCommit (K : Kernel) (p : Fin NPROC) (pt : Ptab) (k : Kmem) (sz sp entry argc : Nat) :
    Except String (Int × Kernel) :=
  let q := K.proc p
  let tf := { q.tf with a1 := UInt64.ofNat sp }
  match q.pagetable.procFreepagetable k q.sz with
  | .error e => .error e
  | .ok k =>
    .ok (argc, K.setProc p
      (Slot.execResetHandlers
        { q with pagetable := pt, sz := sz, tf := { tf with epc := UInt64.ofNat entry, sp := UInt64.ofNat sp } }) k)

/-- `exec` once the argument strings are on the stack: `argv[]` below them,
then the commit. -/
def execArgv (K : Kernel) (p : Fin NPROC) (pt : Ptab) (k : Kmem) (stackbase sz sp : Nat) (ustack : List Nat)
    (entry : Nat) : Except String (Int × Kernel) :=
  let argc := ustack.length
  let sp := sub64 sp ((argc + 1) * 8)
  let sp := sp - sp % 16
  if sp < stackbase then K.execBad pt k sz
  else
    let r := copyout (pt.vm k).pageTable k.mem (UInt64.ofNat sp) (wordsBytes 8 (ustack ++ [0]))
    if r.1 < 0 then K.execBad pt { k with mem := r.2 } sz
    else K.execCommit p pt { k with mem := r.2 } sz sp entry argc

/-- `exec` from the user stack on: two pages at the next page boundary past
the image, the lower one a guard, the arguments and `argv[]` on the upper. -/
def execStack (K : Kernel) (p : Fin NPROC) (pt : Ptab) (k : Kmem) (argv : List (List UInt8)) (sz entry : Nat) :
    Except String (Int × Kernel) :=
  let sz := PGROUNDUP sz
  match pt.uvmalloc k sz (sz + 2 * PGSIZE) with
  | .error e => .error e
  | .ok (sz1, pt, k) =>
    if sz1 = 0 then K.execBad pt k sz
    else
      match pt.uvmclear k (sz1 - 2 * PGSIZE) with
      | .error e => .error e
      | .ok pt =>
        match (pt.vm k).pushArgs (sz1 - PGSIZE) argv 0 sz1 [] with
        | (false, _, _, s) => K.execBad pt (Kmem.ofVm s) sz1
        | (true, sp, ustack, s) => K.execArgv p pt (Kmem.ofVm s) (sz1 - PGSIZE) sz1 sp ustack entry

/-- `exec(path, argv)` by the process in slot `p`, with the file system `fs`
(the bytes of the file at each path) and the trampoline's code at
`trampoline`: the value returned and the process table after. -/
def exec (fs : List UInt8 → Option (List UInt8)) (trampoline : Nat) (K : Kernel) (p : Fin NPROC)
    (path : List UInt8) (argv : List (List UInt8)) : Except String (Int × Kernel) :=
  match fs path with
  | none => .ok (-1, K)
  | some data =>
    let eb := readiBytes data 0 64
    if eb.length ≠ 64 then .ok (-1, K)
    else
      let elf := Elfhdr.ofBytes eb
      if elf.magic ≠ ELF_MAGIC then .ok (-1, K)
      else
        match Ptab.procPagetable K.kmem trampoline (K.proc p).trapframe with
        | .error e => .error e
        | .ok (pt, k) =>
          if pt.root = 0 then .ok (-1, { K with kmem := k })
          else
            match pt.loadLoop data elf.phnum k 0 0 (elf.phoff % 2 ^ 32) with
            | .error e => .error e
            | .ok (false, sz, pt, k) => K.execBad pt k sz
            | .ok (true, sz, pt, k) => K.execStack p pt k argv sz elf.entry

end Kernel

/-- A slot that takes the table being built, at its size, is live. -/
theorem Ptab.Building.live {trampoline trapframe : Nat} {k₀ : Kmem} {pt : Ptab} {k : Kmem} {sz : Nat}
    (hb : Ptab.Building trampoline trapframe k₀ pt k sz) {q : Slot} (hpt : q.pagetable = pt) (hsz : q.sz = sz)
    (htf : q.trapframe = trapframe) (h0 : trapframe ≠ 0) : q.Live trampoline := by
  refine ⟨?_, ?_, ?_, ?_, fun v hv => ?_, fun v hv => ?_⟩
  · rw [hpt]; exact hb.ok
  · rw [hpt]; exact hb.root
  · rw [htf]; exact h0
  · rw [hsz]; exact npages_le_trapframe hb.good
  · rw [hsz] at hv
    rw [hpt]
    exact hb.good.leaf v hv
  · rw [hsz] at hv
    rw [hpt, htf]
    exact hb.top v hv

/-- A slot that takes the finished table in place of the live process `p`'s,
whose old table was then freed, replaces `p`. -/
theorem Ptab.Building.replaced {trampoline : Nat} {p : Slot} {k₀ k k' : Kmem} {pt : Ptab} {sz : Nat}
    {pushed : List Nat} (hb : Ptab.Building trampoline p.trapframe k₀ pt k sz) (hp : p.state ≠ .unused)
    (hl : p.Live trampoline) (hfr : k.Freed k' pushed)
    (hpushed : (↑pushed : Multiset Nat) = ↑((p.pagetable.vm k).physPages 0 (npages p.sz)) + p.pagetable.tablePages)
    {q : Slot} (hs : q.state = p.state) (hpid : q.pid = p.pid) (hpar : q.parent = p.parent) (hpt : q.pagetable = pt)
    (hsz : q.sz = sz) (htf : q.trapframe = p.trapframe) :
    Slot.Replaced trampoline p q k₀ k' := by
  refine ⟨hs, hpid, hpar, hb.live hpt hsz htf hl.trapframe, hfr.kend_eq.trans hb.kend_eq, ?_⟩
  have hU : q.userPages = (pt.vm k).physPages 0 (npages sz) := by subst hpt hsz; rfl
  have hU₀ : p.userPages = (p.pagetable.vm k).physPages 0 (npages p.sz) := rfl
  -- the old image's pages go onto the free list, the new one's came off it
  rw [Slot.owned_of_ne (p := q) (hs ▸ hp), Slot.owned_of_ne hp, hU, hU₀, htf, hpt, hfr.free_eq, ← Multiset.coe_add,
    hpushed, ← hb.pages]
  simp only [← Multiset.singleton_add]
  abel

/-- Pushing every argument string leaves one stack address for each. -/
theorem pushArgs_length (s : VmState) (stackbase : Nat) (args : List (List UInt8)) (argc sp : Nat) (ustack : List Nat)
    (h : (s.pushArgs stackbase args argc sp ustack).1 = true) :
    (s.pushArgs stackbase args argc sp ustack).2.2.1.length = ustack.length + args.length := by
  induction args generalizing s argc sp ustack with
  | nil => rfl
  | cons a rest ih =>
    simp only [VmState.pushArgs] at h ⊢
    split_ifs at h ⊢
    rw [ih _ _ _ _ h]
    simp only [List.length_append, List.length_cons, List.length_nil]
    omega

namespace Kernel

/-- The process table with slot `p` put back as it was, over memory `k`. -/
theorem setProc_self (K : Kernel) (p : Fin NPROC) (k : Kmem) : K.setProc p (K.proc p) k = { K with kmem := k } := by
  simp only [setProc, Function.update_eq_self]

/-- How `exec` by process `p` may end: `-1` with the slot as it was and
only free pages written, or `argc` with a new image in it and only free
pages and `p`'s own written; either way the slot holds the same process,
live, and the pages it gained or gave back went through the free list. -/
def ExecEnds (trampoline : Nat) (K : Kernel) (p : Fin NPROC) (argc : Nat) (res : Except String (Int × Kernel)) :
    Prop :=
  ∃ r q k', res = .ok (r, K.setProc p q k') ∧ Slot.Replaced trampoline (K.proc p) q K.kmem k' ∧
    (r = -1 ∧ q = K.proc p ∧ SameOutside K.kmem.mem k'.mem K.kmem.freelist ∨
      r = argc ∧ ∃ l, SameOutside K.kmem.mem k'.mem l ∧ ∀ x ∈ l, x ∈ K.kmem.freelist ∨ x ∈ (K.proc p).owned)

section Exec

variable {trampoline : Nat} {K : Kernel} {p : Fin NPROC} {pt : Ptab} {k : Kmem} {sz : Nat}

/-- **`goto bad`**: the table being built is freed, and the free list holds
the pages it held when `exec` started. -/
theorem execBad_spec {trapframe : Nat} {k₀ : Kmem} (hb : Ptab.Building trampoline trapframe k₀ pt k sz)
    (hpg : ∀ q ∈ k₀.freelist, IsPage k₀.kend q) :
    ∃ k', K.execBad pt k sz = .ok (-1, { K with kmem := k' }) ∧ (↑k'.freelist : Multiset Nat) = ↑k₀.freelist ∧
      k'.kend = k₀.kend ∧ SameOutside k₀.mem k'.mem k₀.freelist := by
  have htab : ∀ q ∈ pt.tablePages, IsPage k.kend q := fun q hq => by
    rw [hb.kend_eq]
    apply hpg q
    rw [← Multiset.mem_coe, ← hb.pages]
    exact Multiset.mem_add.2 (.inl (Multiset.mem_add.2 (.inl hq)))
  obtain ⟨k', pushed, hf, hfr, hpushed⟩ := Ptab.procFreepagetable_user hb.ok (npages_le_trapframe hb.good)
    (fun v hv => ⟨(hb.good.leaf v hv).1, (hb.good.leaf v hv).2, hb.good.pa_page v hv⟩) hb.top htab
  refine ⟨k', by rw [execBad, hf], ?_, hfr.kend_eq.trans hb.kend_eq, ?_⟩
  · rw [hfr.free_eq, ← Multiset.coe_add, hpushed, ← hb.pages]
    abel
  · -- what `freewalk` and `uvmunmap` junk-fill are the table's pages, all free at the start
    refine SameOutside.mono (hb.mem_eq.trans hfr.mem_eq) fun q hq => (List.mem_append.1 hq).elim id fun hq => ?_
    rw [← Multiset.mem_coe, ← hb.pages]
    rw [← Multiset.mem_coe, hpushed] at hq
    exact Multiset.mem_add.2 (.inl (by rwa [add_comm] at hq))

/-- `goto bad` in `exec` by the live process `p`: the process is as it was. -/
theorem execBad_replaced (hl : (K.proc p).Live trampoline) (hb : Ptab.Building trampoline (K.proc p).trapframe K.kmem pt k sz)
    (hpg : ∀ q ∈ K.kmem.freelist, IsPage K.kmem.kend q) :
    ∃ k', K.execBad pt k sz = .ok (-1, K.setProc p (K.proc p) k') ∧
      Slot.Replaced trampoline (K.proc p) (K.proc p) K.kmem k' ∧ SameOutside K.kmem.mem k'.mem K.kmem.freelist := by
  obtain ⟨k', hbad, hf, hk, hm⟩ := execBad_spec (K := K) hb hpg
  exact ⟨k', by rw [setProc_self, hbad], .self hl hk hf, hm⟩

/-- **The commit**: the new image is the process's, its old table is freed,
and the pages of the old image go back onto the free list. -/
theorem execCommit_spec (hp : (K.proc p).state ≠ .unused) (hl : (K.proc p).Live trampoline)
    (hg : ((K.proc p).pagetable.vm K.kmem).Good (K.proc p).sz)
    (htab : ∀ q ∈ (K.proc p).pagetable.tablePages, IsPage K.kmem.kend q)
    (hb : Ptab.Building trampoline (K.proc p).trapframe K.kmem pt k sz) (sp entry argc : Nat) :
    ∃ q k', K.execCommit p pt k sz sp entry argc = .ok (argc, K.setProc p q k') ∧
      Slot.Replaced trampoline (K.proc p) q K.kmem k' ∧
      ∃ l, SameOutside K.kmem.mem k'.mem l ∧ ∀ x ∈ l, x ∈ K.kmem.freelist ∨ x ∈ (K.proc p).owned := by
  obtain ⟨k', pushed, hf, hfr, hpushed⟩ := Ptab.procFreepagetable_user hl.ok hl.sz
    (fun v hv => ⟨(hg.leaf v hv).1, (hg.leaf v hv).2, hb.kend_eq ▸ hg.pa_page v hv⟩) hl.top
    (fun q hq => hb.kend_eq ▸ htab q hq)
  obtain ⟨h, m, b, he⟩ := Slot.execResetHandlers_eq
    { K.proc p with
      pagetable := pt, sz := sz,
      tf := { { (K.proc p).tf with a1 := UInt64.ofNat sp } with epc := UInt64.ofNat entry, sp := UInt64.ofNat sp } }
  simp only [execCommit, hf, he]
  refine ⟨_, k', rfl, hb.replaced hp hl hfr hpushed rfl rfl rfl rfl rfl rfl,
    ⟨_, SameOutside.trans hb.mem_eq hfr.mem_eq, fun x hx => (List.mem_append.1 hx).imp id fun hx => ?_⟩⟩
  -- what `proc_freepagetable` junk-fills are the pages of the old image
  rw [← Multiset.mem_coe, hpushed] at hx
  rw [Slot.owned_of_ne hp]
  rcases Multiset.mem_add.1 hx with hx | hx
  · exact Multiset.mem_add.2 (.inl hx)
  · exact Multiset.mem_add.2 (.inr (Multiset.mem_cons_of_mem hx))

/-- `exec` gave up before it took any page for good. -/
theorem ExecEnds.keep (hl : (K.proc p).Live trampoline) (hk : k.kend = K.kmem.kend)
    (hf : (↑k.freelist : Multiset Nat) = ↑K.kmem.freelist) (hm : SameOutside K.kmem.mem k.mem K.kmem.freelist)
    (argc : Nat) : ExecEnds trampoline K p argc (.ok (-1, { K with kmem := k })) :=
  ⟨-1, K.proc p, k, by rw [setProc_self], .self hl hk hf, .inl ⟨rfl, rfl, hm⟩⟩

/-- `exec` went to `bad` with the table it was building. -/
theorem ExecEnds.bad (hl : (K.proc p).Live trampoline)
    (hb : Ptab.Building trampoline (K.proc p).trapframe K.kmem pt k sz)
    (hpg : ∀ q ∈ K.kmem.freelist, IsPage K.kmem.kend q) (argc : Nat) :
    ExecEnds trampoline K p argc (K.execBad pt k sz) := by
  obtain ⟨k', he, hr, hm⟩ := execBad_replaced hl hb hpg
  exact ⟨-1, _, k', he, hr, .inl ⟨rfl, rfl, hm⟩⟩

/-- `exec` committed to the new image. -/
theorem ExecEnds.commit (hp : (K.proc p).state ≠ .unused) (hl : (K.proc p).Live trampoline)
    (hg : ((K.proc p).pagetable.vm K.kmem).Good (K.proc p).sz)
    (htab : ∀ q ∈ (K.proc p).pagetable.tablePages, IsPage K.kmem.kend q)
    (hb : Ptab.Building trampoline (K.proc p).trapframe K.kmem pt k sz) (sp entry argc : Nat) :
    ExecEnds trampoline K p argc (K.execCommit p pt k sz sp entry argc) := by
  obtain ⟨q, k', he, hr, hm⟩ := execCommit_spec hp hl hg htab hb sp entry argc
  exact ⟨_, q, k', he, hr, .inr ⟨rfl, hm⟩⟩

/-- From `argv[]` on: `bad`, or the commit with one argument for each stack address. -/
theorem execArgv_spec (hp : (K.proc p).state ≠ .unused) (hl : (K.proc p).Live trampoline)
    (hg : ((K.proc p).pagetable.vm K.kmem).Good (K.proc p).sz)
    (htab : ∀ q ∈ (K.proc p).pagetable.tablePages, IsPage K.kmem.kend q)
    (hpg : ∀ q ∈ K.kmem.freelist, IsPage K.kmem.kend q)
    (hb : Ptab.Building trampoline (K.proc p).trapframe K.kmem pt k sz) (stackbase sp : Nat) (ustack : List Nat)
    (entry : Nat) :
    ExecEnds trampoline K p ustack.length (K.execArgv p pt k stackbase sz sp ustack entry) := by
  simp only [execArgv]
  split_ifs
  · exact .bad hl hb hpg _
  · exact .bad hl (hb.mem (copyout_sameOutside hb.walkaddr_mem _ _ _)) hpg _
  · exact .commit hp hl hg htab (hb.mem (copyout_sameOutside hb.walkaddr_mem _ _ _)) _ _ _

/-- From the user stack on, with the image loaded: the stack's two pages,
the guard page made a kernel page, and the arguments. -/
theorem execStack_spec (hk₀ : KERNBASE ≤ K.kmem.kend) (hnd : K.kmem.freelist.Nodup)
    (hpg : ∀ q ∈ K.kmem.freelist, IsPage K.kmem.kend q) (hp : (K.proc p).state ≠ .unused)
    (hl : (K.proc p).Live trampoline) (hg : ((K.proc p).pagetable.vm K.kmem).Good (K.proc p).sz)
    (htab : ∀ q ∈ (K.proc p).pagetable.tablePages, IsPage K.kmem.kend q)
    (hb : Ptab.Building trampoline (K.proc p).trapframe K.kmem pt k sz) (argv : List (List UInt8)) (entry : Nat) :
    ExecEnds trampoline K p argv.length (K.execStack p pt k argv sz entry) := by
  have hb₀ : Ptab.Building trampoline (K.proc p).trapframe K.kmem pt k (PGROUNDUP sz) :=
    hb.congr (by rw [PGROUNDUP_eq, npages_mul])
  obtain ⟨sz1, pt₁, k₁, hu, hc⟩ := hb₀.uvmalloc (hb₀.cap hk₀ hnd hpg) (PGROUNDUP sz + 2 * PGSIZE)
  rcases hc with ⟨rfl, hb₁⟩ | ⟨hr, hpos, hb₁, -, hnew⟩
  · -- no pages for the stack
    simp only [execStack, hu, if_pos]
    exact .bad hl hb₁ hpg _
  -- the guard page is the lower of the two new pages
  have hsz1 : sz1 = (npages sz + 2) * PGSIZE := by
    rw [hr, max_eq_right (by omega), PGROUNDUP_eq]
    ring
  have hva : (sz1 - 2 * PGSIZE) / PGSIZE = npages (PGROUNDUP sz) := by
    rw [hsz1, PGROUNDUP_eq, npages_mul, add_mul, Nat.add_sub_cancel, Nat.mul_div_cancel _ (by decide)]
  have hv : (sz1 - 2 * PGSIZE) / PGSIZE < npages sz1 := by
    rw [hva, hsz1, npages_mul, PGROUNDUP_eq, npages_mul]
    omega
  obtain ⟨pa, hpa⟩ := hnew _ hva.ge hv
  obtain ⟨pt₂, huc, hb₂⟩ := hb₁.uvmclear hv hpa
  have hz : sz1 ≠ 0 := by omega
  -- the argument strings, then `argv[]`, on the upper page
  obtain ⟨m, hm, hm'⟩ := pushArgs_mem (pt₂.vm k₁) hb₂.walkaddr_mem (sz1 - PGSIZE) argv 0 sz1 []
  have hlen := pushArgs_length (pt₂.vm k₁) (sz1 - PGSIZE) argv 0 sz1 []
  rcases hpush : (pt₂.vm k₁).pushArgs (sz1 - PGSIZE) argv 0 sz1 [] with ⟨_ | _, sp, ustack, s⟩
  all_goals
    rw [hpush] at hm hlen
    simp only [execStack, hu, if_neg hz, huc, hpush]
    subst hm
  · exact .bad hl (hb₂.mem hm') hpg _
  · have hn : ustack.length = argv.length := by simpa using hlen rfl
    exact hn ▸ execArgv_spec hp hl hg htab hpg (hb₂.mem hm') (sz1 - PGSIZE) sp ustack entry


/-- **`exec` by a live process never panics**: it ends in `-1` with the
process as it was, or in `argc` with the new image, and the pages it took
or gave back went through the free list. -/
theorem exec_spec (fs : List UInt8 → Option (List UInt8)) (hk₀ : KERNBASE ≤ K.kmem.kend)
    (hnd : K.kmem.freelist.Nodup) (hpg : ∀ q ∈ K.kmem.freelist, IsPage K.kmem.kend q) (hp : (K.proc p).state ≠ .unused)
    (hl : (K.proc p).Live trampoline) (hg : ((K.proc p).pagetable.vm K.kmem).Good (K.proc p).sz)
    (htab : ∀ q ∈ (K.proc p).pagetable.tablePages, IsPage K.kmem.kend q) (path : List UInt8)
    (argv : List (List UInt8)) :
    ExecEnds trampoline K p argv.length (K.exec fs trampoline p path argv) := by
  rcases hfs : fs path with _ | data
  · simp only [exec, hfs]
    exact .keep hl rfl rfl (SameOutside.refl _ _) _
  simp only [exec, hfs]
  split_ifs with hlen hmag
  · exact .keep hl rfl rfl (SameOutside.refl _ _) _
  · exact .keep hl rfl rfl (SameOutside.refl _ _) _
  obtain ⟨pt, k, hpt, hkend, hc⟩ := Ptab.procPagetable_spec hk₀ hpg trampoline (K.proc p).trapframe
  rcases hc with ⟨hroot, ho, hpte, n, -, htab', hfree, hmem⟩ | ⟨hroot, hf, hmem, -⟩
  · have hb := Ptab.Building.start hk₀ hnd hpg hroot ho hpte htab' hfree hkend hmem
    generalize Elfhdr.ofBytes (readiBytes data 0 64) = elf
    obtain ⟨b, sz, pt', k', hload, hb'⟩ := Ptab.loadLoop_spec hk₀ hnd hpg data elf.phnum pt k 0 0 (elf.phoff % 2 ^ 32) hb
      fun v hv => absurd hv (Nat.not_lt_zero v)
    simp only [hpt, if_neg hroot, hload]
    cases b
    · exact .bad hl hb' hpg _
    · exact execStack_spec hk₀ hnd hpg hp hl hg htab hb' argv _
  · simp only [hpt, if_pos hroot]
    exact .keep hl hkend hf hmem _

end Exec

end Kernel

end Xv6
