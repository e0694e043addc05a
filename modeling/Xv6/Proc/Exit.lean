import Xv6.Proc.Fork

/-!
# `exit`, `wait` and what a process holds

What a slot in use holds (`Slot.owned`): its user pages, its trap-frame page
and the pages of its page table. `freeproc` of a slot in use gives back
exactly these (`freeproc_live`): `proc_freepagetable` unmaps the trampoline
and the trap frame, frees the user pages and then the tables
(`Ptab.procFreepagetable_user`).

`exit` passes the process's children to `initproc` (`reparent`, whose
loop is `reparent_proc` in closed form), wakes its parent and leaves it a
`ZOMBIE`; `wait` frees the first `ZOMBIE` child, after storing its exit
status in the caller's memory, or sleeps on the caller's slot until a
child exits. Open files and the current directory, which `exit` also
gives back, are not modelled. A sleep channel is the address of a slot
(`procChan`); the process that `sleep` wakes keeps its channel until it
runs again.
-/

namespace Xv6

open Framework

namespace Ptab

section Free

open VmState

variable {pt : Ptab} {k : Kmem}

/-- **`uvmunmap(pagetable, 0, n, 1)`** of `n` user leaves: it clears their
PTEs and frees their pages, the last one first. -/
theorem uvmunmap_user (ho : pt.Ok) {n : Nat} (hn : n * PGSIZE ≤ MAXVA.toNat)
    (hleaf : ∀ v < n, pt.pte v &&& PTE_V ≠ 0 ∧ PTE_FLAGS (pt.pte v) ≠ PTE_V ∧ IsPage k.kend (PTE2PA (pt.pte v)).toNat) :
    ∃ k', pt.uvmunmap k 0 n true = .ok ({ pt with pte := fun v => if v < n then 0 else pt.pte v }, k') ∧
      k.Freed k' ((pt.vm k).physPages 0 n).reverse := by
  obtain ⟨s', hs', hl1, hl0, hkend, hpte, hfree, hmem⟩ :=
    uvmunmapLoop_spec n (pt.vm k) 0 (ho.tables k) (by rw [Nat.zero_add]; exact hn) fun v _ hv => hleaf v (by omega)
  have hset : pt.setVm s' = { pt with pte := fun v => if v < n then 0 else pt.pte v } := by
    rw [setVm, hl1, hl0, hpte]
    congr 1
    funext v
    exact if_congr (by omega) rfl rfl
  refine ⟨Kmem.ofVm s', ?_, ⟨?_, ?_, hkend⟩⟩
  · rw [uvmunmap, VmState.uvmunmap, if_neg (by decide), ← Nat.zero_mul PGSIZE, hs', ← hset]
    rfl
  · exact hfree
  · exact hmem.mono fun q hq => List.mem_reverse.2 hq

/-- Above the user pages, only the trampoline and the trap frame are mapped. -/
theorem top_not_valid {sz trampoline trapframe : Nat} (htop : ∀ v, npages sz ≤ v → pt.pte v = topPte trampoline trapframe v)
    {v : Nat} (hv : npages sz ≤ v) (htr : v ≠ TRAMPOLINE / PGSIZE) (htf : v ≠ TRAPFRAME / PGSIZE) :
    pt.pte v &&& PTE_V = 0 := by
  rw [htop v hv, topPte, if_neg htr, if_neg htf]
  rfl

/-- **`proc_freepagetable(pagetable, sz)`** of the table of a process of
size `sz`, whose pages below `PGROUNDUP(sz)` are user leaves and which maps
only the trampoline and the trap frame above them: it frees exactly the
user pages and the table's own pages. -/
theorem procFreepagetable_user (ho : pt.Ok) {sz trampoline trapframe : Nat} (hsz : npages sz ≤ TRAPFRAME / PGSIZE)
    (hleaf : ∀ v < npages sz,
      pt.pte v &&& PTE_V ≠ 0 ∧ PTE_FLAGS (pt.pte v) ≠ PTE_V ∧ IsPage k.kend (PTE2PA (pt.pte v)).toNat)
    (htop : ∀ v, npages sz ≤ v → pt.pte v = topPte trampoline trapframe v)
    (hp : ∀ q ∈ pt.tablePages, IsPage k.kend q) :
    ∃ k' pushed, pt.procFreepagetable k sz = .ok k' ∧ k.Freed k' pushed ∧
      (↑pushed : Multiset Nat) = ↑((pt.vm k).physPages 0 (npages sz)) + pt.tablePages := by
  have hdiv := TRAPFRAME_div
  have hdiv' := TRAMPOLINE_div
  obtain ⟨pt₁, hpt₁⟩ : ∃ pt₁ : Ptab, pt₁ = { pt with pte := fun v => if v = TRAMPOLINE / PGSIZE then 0 else pt.pte v } :=
    ⟨_, rfl⟩
  obtain ⟨pt₂, hpt₂⟩ : ∃ pt₂ : Ptab, pt₂ = { pt₁ with pte := fun v => if v = TRAPFRAME / PGSIZE then 0 else pt₁.pte v } :=
    ⟨_, rfl⟩
  have h₁ : pt.uvmunmap k TRAMPOLINE 1 false = .ok (pt₁, k) := by
    rw [hpt₁]
    exact uvmunmap_leaf ho TRAMPOLINE_lt TRAMPOLINE_aligned
      (by rw [htop _ (by omega), topPte_trampoline]; exact trampolinePte_leaf trampoline)
  have h₂ : pt₁.uvmunmap k TRAPFRAME 1 false = .ok (pt₂, k) := by
    have hpte₁ : pt₁.pte (TRAPFRAME / PGSIZE) = trapframePte trapframe := by
      rw [hpt₁]
      dsimp only
      rw [if_neg TRAPFRAME_div_ne, htop _ hsz, topPte_trapframe]
    rw [hpt₂]
    exact uvmunmap_leaf (hpt₁ ▸ ho.clear_pte _) TRAPFRAME_lt TRAPFRAME_aligned
      (by rw [hpte₁]; exact trapframePte_leaf trapframe)
  have ho₂ : pt₂.Ok := by
    rw [hpt₂, hpt₁]
    exact (ho.clear_pte _).clear_pte _
  -- the user pages keep their PTEs through the two unmaps
  have hlow : ∀ v < npages sz, pt₂.pte v = pt.pte v := fun v hv => by
    rw [hpt₂, hpt₁]
    dsimp only
    rw [if_neg (by omega), if_neg (by omega)]
  have htab : pt₂.tablePages = pt.tablePages := by rw [hpt₂, tablePages_pte, hpt₁, tablePages_pte]
  have hrest : ∀ v, npages sz ≤ v → pt₂.pte v &&& PTE_V = 0 := fun v hv => by
    rw [hpt₂, hpt₁]
    dsimp only
    by_cases htf : v = TRAPFRAME / PGSIZE
    · rw [if_pos htf]
      rfl
    by_cases htr : v = TRAMPOLINE / PGSIZE
    · rw [if_neg htf, if_pos htr]
      rfl
    rw [if_neg htf, if_neg htr]
    exact top_not_valid htop hv htr htf
  have hfree : pt.procFreepagetable k sz = pt₂.uvmfree k sz := by
    rw [procFreepagetable, h₁]
    dsimp only
    rw [h₂]
  rw [hfree, uvmfree]
  by_cases hsz0 : sz > 0
  · rw [if_pos hsz0, PGROUNDUP_eq, page_div]
    obtain ⟨k₃, hun, hfr₃⟩ := uvmunmap_user (k := k) ho₂ (n := npages sz)
      (by have := TRAPFRAME_lt; unfold PGSIZE at *; omega) fun v hv => by rw [hlow v hv]; exact hleaf v hv
    have hno : NoLeaf { pt₂ with pte := fun v => if v < npages sz then 0 else pt₂.pte v } := fun v => by
      show (if v < npages sz then 0 else pt₂.pte v) &&& PTE_V = 0
      by_cases hv : v < npages sz
      · rw [if_pos hv]
        rfl
      · rw [if_neg hv]
        exact hrest v (by omega)
    obtain ⟨k', pushed, hw, hfr, hpushed⟩ := freewalk_spec (k := k₃) hno fun q hq => by
      rw [tablePages_pte, htab] at hq
      rw [hfr₃.kend_eq]
      exact hp q hq
    have hphys : (pt₂.vm k).physPages 0 (npages sz) = (pt.vm k).physPages 0 (npages sz) := by
      unfold physPages
      refine List.map_congr_left fun v hv => ?_
      rw [List.mem_range'_1] at hv
      rw [vm_pte, vm_pte, hlow v (by omega)]
    refine ⟨k', pushed ++ ((pt₂.vm k).physPages 0 (npages sz)).reverse, ?_, hfr₃.trans hfr, ?_⟩
    · rw [hun]
      exact hw
    · rw [← Multiset.coe_add, hpushed, tablePages_pte, htab, Multiset.coe_reverse, hphys, add_comm]
  · have hn : npages sz = 0 := by
      unfold npages PGSIZE
      omega
    rw [if_neg hsz0]
    obtain ⟨k', pushed, hw, hfr, hpushed⟩ := freewalk_spec (k := k) (show pt₂.NoLeaf from fun v => hrest v (by omega))
      fun q hq => by
        rw [htab] at hq
        exact hp q hq
    refine ⟨k', pushed, hw, hfr, ?_⟩
    rw [hpushed, htab, hn, physPages, List.range'_zero, List.map_nil, Multiset.coe_nil, zero_add]

end Free

end Ptab

/-- What a slot in use holds: a page table whose tables hang together, a
trap-frame page, valid leaves below `PGROUNDUP(sz)` and, above them, only
the trampoline and the trap frame. -/
structure Slot.Live (trampoline : Nat) (p : Slot) : Prop where
  ok : p.pagetable.Ok
  root : p.pagetable.root ≠ 0
  trapframe : p.trapframe ≠ 0
  sz : npages p.sz ≤ TRAPFRAME / PGSIZE
  leaf : ∀ v < npages p.sz, p.pagetable.pte v &&& PTE_V ≠ 0 ∧ PTE_FLAGS (p.pagetable.pte v) ≠ PTE_V
  top : ∀ v, npages p.sz ≤ v → p.pagetable.pte v = topPte trampoline p.trapframe v

/-- The physical pages of a slot's user memory, page by page. -/
def Slot.userPages (p : Slot) : List Nat := (List.range' 0 (npages p.sz)).map fun v => (PTE2PA (p.pagetable.pte v)).toNat

/-- The pages a slot holds: none when it is `UNUSED`; else its user pages,
its trap-frame page and the pages of its tables. -/
def Slot.owned (p : Slot) : Multiset Nat :=
  if p.state = .unused then 0 else ↑p.userPages + p.trapframe ::ₘ p.pagetable.tablePages

theorem Slot.owned_of_ne {p : Slot} (h : p.state ≠ .unused) :
    p.owned = ↑p.userPages + p.trapframe ::ₘ p.pagetable.tablePages := if_neg h

theorem Slot.owned_of_eq {p : Slot} (h : p.state = .unused) : p.owned = 0 := if_pos h

theorem Slot.mem_owned {p : Slot} (h : p.state ≠ .unused) {q : Nat} (hq : q ∈ p.userPages) : q ∈ p.owned := by
  rw [Slot.owned_of_ne h]
  exact Multiset.mem_add.2 (.inl (Multiset.mem_coe.2 hq))

theorem mem_userPages {p : Slot} {v : Nat} (hv : v < npages p.sz) : (PTE2PA (p.pagetable.pte v)).toNat ∈ p.userPages :=
  List.mem_map.2 ⟨v, List.mem_range'_1.2 ⟨Nat.zero_le v, by omega⟩, rfl⟩

theorem Slot.Live.congr {p p' : Slot} {trampoline : Nat} (h : p.Live trampoline) (hpt : p'.pagetable = p.pagetable) (hsz : p'.sz = p.sz)
    (htf : p'.trapframe = p.trapframe) : p'.Live trampoline := by
  obtain ⟨ho, hr, ht, hs, hl, htop⟩ := h
  refine ⟨?_, ?_, ?_, ?_, ?_, ?_⟩ <;> simp only [hpt, hsz, htf] <;> assumption

/-- The sleep channel `&proc[i]`, the address `wait` sleeps on; `0` is the
null pointer. -/
def procChan (i : Fin NPROC) : Nat := i.val + 1

/-- The channel of a `parent` pointer. -/
def parentChan : Option (Fin NPROC) → Nat
  | none => 0
  | some q => procChan q

namespace Kernel

/-- `wakeup(chan)` called by the process in slot `me`: every other slot
`SLEEPING` on `chan` becomes `RUNNABLE`. -/
@[simps] def wakeup (K : Kernel) (me : Fin NPROC) (chan : Nat) : Kernel :=
  { K with
    proc := fun j =>
      if j ≠ me ∧ (K.proc j).state = .sleeping ∧ (K.proc j).chan = chan then { K.proc j with state := .runnable }
      else K.proc j }

/-- One round of `reparent(p)`'s loop, at slot `j`: a child of `p` passes to
`initproc`, which is woken. -/
def reparentStep (init p : Fin NPROC) (K : Kernel) (j : Fin NPROC) : Kernel :=
  if (K.proc j).parent = some p then
    ({ K with proc := Function.update K.proc j { K.proc j with parent := some init } }).wakeup p (procChan init)
  else K

/-- `reparent(p)`, called by `p`: its children pass to `initproc`. -/
def reparent (K : Kernel) (init p : Fin NPROC) : Kernel :=
  (List.finRange NPROC).foldl (reparentStep init p) K

/-- `exit(status)` by the process in slot `p`: its children pass to
`initproc`, its parent is woken, and it becomes a `ZOMBIE` holding `status`. -/
def exit (K : Kernel) (init p : Fin NPROC) (status : Int) : Except String Kernel :=
  if p = init then .error "init exiting"
  else
    let K := K.reparent init p
    let K := K.wakeup p (parentChan (K.proc p).parent)
    .ok { K with proc := Function.update K.proc p { K.proc p with xstate := status, state := .zombie } }

/-- The first `ZOMBIE` child of `p` in table order. -/
def zombieChild (K : Kernel) (p : Fin NPROC) : Option (Fin NPROC) :=
  (List.finRange NPROC).find? fun j => (K.proc j).parent == some p && (K.proc j).state == .zombie

/-- `wait(addr)` by the process in slot `p`: the pid of the `ZOMBIE` child it
freed, after storing its exit status at `addr`, or `-1`; `none` when it went
to sleep on its own slot until a child exits, to scan again once woken. -/
def wait (K : Kernel) (p : Fin NPROC) (addr : UInt64) : Except String (Option Int × Kernel) :=
  match K.zombieChild p with
  | some j =>
    let r := if addr ≠ 0 then
        copyout ((K.proc p).pagetable.vm K.kmem).pageTable K.kmem.mem addr (leBytes 4 ((K.proc j).xstate % 2 ^ 32).toNat)
      else (0, K.kmem.mem)
    if addr ≠ 0 ∧ r.1 < 0 then .ok (some (-1), K)
    else (freeproc { K.kmem with mem := r.2 } (K.proc j)).map fun r' => (some (K.proc j).pid, K.setProc j r'.1 r'.2)
  | none =>
    if (List.finRange NPROC).any (fun j => (K.proc j).parent == some p) = false ∨ (K.proc p).killed then
      .ok (some (-1), K)
    else .ok (none, K.setProc p { K.proc p with chan := procChan p, state := .sleeping } K.kmem)

section Free

open VmState

/-- **`freeproc(p)`** of a slot in use whose pages are pages of `[end,
PHYSTOP)`: it frees exactly the pages the slot holds. -/
theorem freeproc_live {trampoline : Nat} {k : Kmem} {p : Slot} (hl : p.Live trampoline)
    (hpg : ∀ q ∈ ↑p.userPages + p.trapframe ::ₘ p.pagetable.tablePages, IsPage k.kend q) :
    ∃ p' k' pushed, freeproc k p = .ok (p', k') ∧ p'.state = .unused ∧ p'.Clear ∧ p'.parent = none ∧
      k.Freed k' pushed ∧ (↑pushed : Multiset Nat) = ↑p.userPages + p.trapframe ::ₘ p.pagetable.tablePages := by
  have htf : IsPage k.kend p.trapframe := hpg _ (Multiset.mem_add.2 (.inr (Multiset.mem_cons_self _ _)))
  obtain ⟨k₂, p₂, h₂, hfr₂, hp₂⟩ :=
    Ptab.procFreepagetable_user (k := { k with mem := fill k.mem p.trapframe 1, freelist := p.trapframe :: k.freelist })
      hl.ok hl.sz
    (fun v hv => ⟨(hl.leaf v hv).1, (hl.leaf v hv).2, hpg _ (Multiset.mem_add.2 (.inl (Multiset.mem_coe.2
      (List.mem_map.2 ⟨v, List.mem_range'_1.2 ⟨Nat.zero_le v, by omega⟩, rfl⟩))))⟩)
    hl.top fun q hq => hpg q (Multiset.mem_add.2 (.inr (Multiset.mem_cons_of_mem hq)))
  refine ⟨{ p with
      trapframe := 0, pagetable := Ptab.empty 0, sz := 0, pid := 0, parent := none, chan := 0, killed := false
      xstate := 0, state := .unused }, k₂, p₂ ++ [p.trapframe], ?_, rfl, ⟨rfl, rfl, rfl⟩, rfl,
    (Kmem.freed_kfree k _).trans hfr₂, ?_⟩
  · rw [freeproc, if_pos hl.trapframe, Kmem.kfree_of_isPage htf]
    dsimp only
    rw [if_pos hl.root, h₂]
  · rw [← Multiset.coe_add, hp₂, ← Multiset.singleton_add, ← Multiset.coe_singleton]
    show ↑p.userPages + p.pagetable.tablePages + ↑[p.trapframe] = ↑p.userPages + (↑[p.trapframe] + p.pagetable.tablePages)
    rw [add_assoc, add_comm p.pagetable.tablePages]

end Free

section Reparent

variable {K : Kernel} {init p : Fin NPROC}

/-- One round of `reparent`, slot by slot. -/
theorem reparentStep_proc (K : Kernel) (a j : Fin NPROC) :
    (reparentStep init p K a).proc j =
      { K.proc j with
        parent := if j = a ∧ (K.proc j).parent = some p then some init else (K.proc j).parent
        state :=
          if (K.proc a).parent = some p ∧ j ≠ p ∧ (K.proc j).state = .sleeping ∧ (K.proc j).chan = procChan init then
            .runnable
          else (K.proc j).state } := by
  unfold reparentStep
  by_cases ha : (K.proc a).parent = some p
  · rw [if_pos ha, wakeup_proc]
    by_cases hj : j = a
    · subst hj
      simp only [Function.update_self, ha, and_self, if_true, true_and]
      split <;> rfl
    · simp only [Function.update_of_ne hj, hj, false_and, if_false, ha, true_and]
      split <;> rfl
  · rw [if_neg ha]
    simp only [ha, false_and, if_false]
    by_cases hj : j = a
    · subst hj
      simp only [ha, and_false, if_false]
    · simp only [hj, false_and, if_false]

@[simp] theorem reparentStep_kmem (K : Kernel) (a : Fin NPROC) : (reparentStep init p K a).kmem = K.kmem := by
  unfold reparentStep
  split <;> rfl

@[simp] theorem reparentStep_nextpid (K : Kernel) (a : Fin NPROC) :
    (reparentStep init p K a).nextpid = K.nextpid := by
  unfold reparentStep
  split <;> rfl

/-- The rounds of `reparent` over distinct slots `l`: each child of `p` in
`l` passes to `initproc`, and once one has, every other slot sleeping on
`initproc` is woken. -/
theorem foldl_reparentStep_proc (l : List (Fin NPROC)) (hl : l.Nodup) (K : Kernel) (j : Fin NPROC) :
    (l.foldl (reparentStep init p) K).proc j =
      { K.proc j with
        parent := if j ∈ l ∧ (K.proc j).parent = some p then some init else (K.proc j).parent
        state :=
          if (∃ c ∈ l, (K.proc c).parent = some p) ∧ j ≠ p ∧ (K.proc j).state = .sleeping ∧
              (K.proc j).chan = procChan init then .runnable
          else (K.proc j).state } := by
  induction l generalizing K with
  | nil => simp
  | cons a l ih =>
    obtain ⟨ha, hl⟩ := List.nodup_cons.1 hl
    have hc : ∀ c ∈ l, ((reparentStep init p K a).proc c).parent = (K.proc c).parent := fun c hc => by
      have hca : c ≠ a := fun h => ha (h ▸ hc)
      rw [reparentStep_proc]
      dsimp only
      rw [if_neg fun h => hca h.1]
    have he : (∃ c ∈ l, ((reparentStep init p K a).proc c).parent = some p) ↔ ∃ c ∈ l, (K.proc c).parent = some p :=
      ⟨fun ⟨c, hcl, h⟩ => ⟨c, hcl, hc c hcl ▸ h⟩, fun ⟨c, hcl, h⟩ => ⟨c, hcl, (hc c hcl).symm ▸ h⟩⟩
    rw [List.foldl_cons, ih hl, reparentStep_proc]
    dsimp only
    simp only [he]
    have hcons : (∃ c ∈ a :: l, (K.proc c).parent = some p) ↔
        (K.proc a).parent = some p ∨ ∃ c ∈ l, (K.proc c).parent = some p := by
      simp only [List.mem_cons, exists_eq_or_imp]
    congr 1
    · -- woken by this round, or by a later one
      by_cases hA : (K.proc a).parent = some p ∧ j ≠ p ∧ (K.proc j).state = .sleeping ∧ (K.proc j).chan = procChan init
      · rw [if_pos hA, if_neg (fun h => by cases h.2.2.1), if_pos ⟨hcons.2 (.inl hA.1), hA.2⟩]
      · rw [if_neg hA]
        refine if_congr ⟨fun h => ⟨hcons.2 (.inr h.1), h.2⟩, fun h => ⟨?_, h.2⟩⟩ rfl rfl
        exact (hcons.1 h.1).resolve_left fun h' => hA ⟨h', h.2⟩
    · by_cases hj : j = a
      · subst hj
        simp only [ha, false_and, if_false, List.mem_cons_self, true_and]
      · simp only [hj, false_and, if_false, List.mem_cons, false_or]

/-- **`reparent(p)`**: every child of `p` passes to `initproc`, and if there
was one, every other slot sleeping on `initproc` is woken. -/
theorem reparent_proc (K : Kernel) (j : Fin NPROC) :
    (K.reparent init p).proc j =
      { K.proc j with
        parent := if (K.proc j).parent = some p then some init else (K.proc j).parent
        state :=
          if (∃ c, (K.proc c).parent = some p) ∧ j ≠ p ∧ (K.proc j).state = .sleeping ∧
              (K.proc j).chan = procChan init then .runnable
          else (K.proc j).state } := by
  rw [reparent, foldl_reparentStep_proc _ (List.nodup_finRange NPROC)]
  simp only [List.mem_finRange, true_and]

theorem foldl_reparentStep_kmem (l : List (Fin NPROC)) (K : Kernel) :
    (l.foldl (reparentStep init p) K).kmem = K.kmem ∧ (l.foldl (reparentStep init p) K).nextpid = K.nextpid := by
  induction l generalizing K with
  | nil => exact ⟨rfl, rfl⟩
  | cons a l ih =>
    rw [List.foldl_cons]
    obtain ⟨h₁, h₂⟩ := ih (reparentStep init p K a)
    exact ⟨h₁.trans (reparentStep_kmem K a), h₂.trans (reparentStep_nextpid K a)⟩

@[simp] theorem reparent_kmem (K : Kernel) : (K.reparent init p).kmem = K.kmem :=
  (foldl_reparentStep_kmem _ K).1

@[simp] theorem reparent_nextpid (K : Kernel) : (K.reparent init p).nextpid = K.nextpid :=
  (foldl_reparentStep_kmem _ K).2

end Reparent

section Exit

variable {K K' : Kernel} {init p : Fin NPROC} {status : Int}

theorem exit_ne (h : K.exit init p status = .ok K') : p ≠ init := by
  intro e
  rw [exit, if_pos e] at h
  cases h

theorem exit_kmem (h : K.exit init p status = .ok K') : K'.kmem = K.kmem ∧ K'.nextpid = K.nextpid := by
  unfold exit at h
  rw [if_neg (exit_ne h)] at h
  cases h
  exact ⟨by simp only [wakeup_kmem, reparent_kmem], by simp only [wakeup_nextpid, reparent_nextpid]⟩

/-- **`exit(status)`** by `p`, slot by slot: the children of `p` pass to
`initproc`; `p` becomes a `ZOMBIE`; every other slot keeps its state, or
was asleep and is woken. -/
theorem exit_proc (h : K.exit init p status = .ok K') (j : Fin NPROC) :
    ∃ st x, K'.proc j =
        { K.proc j with
          parent := if (K.proc j).parent = some p then some init else (K.proc j).parent, state := st, xstate := x } ∧
      (j = p → st = .zombie) ∧ (j ≠ p → st = (K.proc j).state ∨ (K.proc j).state = .sleeping ∧ st = .runnable) := by
  unfold exit at h
  rw [if_neg (exit_ne h)] at h
  cases h
  dsimp only
  by_cases hj : j = p
  · subst hj
    refine ⟨.zombie, status, ?_, fun _ => rfl, fun h => absurd rfl h⟩
    rw [Function.update_self, wakeup_proc, if_neg (fun h => h.1 rfl), reparent_proc]
  · rw [Function.update_of_ne hj, wakeup_proc, reparent_proc]
    dsimp only
    -- woken by `reparent`'s wakeups or by the parent's: it was asleep
    split_ifs <;> refine ⟨_, _, rfl, fun h => absurd h hj, fun _ => ?_⟩ <;>
      first | exact .inl rfl | exact .inr ⟨by simp_all, rfl⟩

/-- **`exit` wakes a parent waiting for it**: a parent asleep in `wait`, on
its own slot, is `RUNNABLE` after its child's `exit`. -/
theorem exit_wakes_parent (h : K.exit init p status = .ok K') {q : Fin NPROC} (hq : (K.proc p).parent = some q)
    (hqp : q ≠ p) (hs : (K.proc q).state = .sleeping) (hc : (K.proc q).chan = procChan q) :
    (K'.proc q).state = .runnable := by
  unfold exit at h
  rw [if_neg (exit_ne h)] at h
  cases h
  have hpar : ((K.reparent init p).proc p).parent = some q := by
    rw [reparent_proc]
    dsimp only
    rw [if_neg (fun e => hqp (Option.some.inj (hq.symm.trans e))), hq]
  dsimp only
  rw [Function.update_of_ne hqp, wakeup_proc, hpar, reparent_proc]
  dsimp only
  rw [hs, hc]
  -- woken by `reparent` already, or now by the parent's own `wakeup`
  by_cases hw : (∃ c, (K.proc c).parent = some p) ∧ q ≠ p ∧ Procstate.sleeping = .sleeping ∧ procChan q = procChan init
  · rw [if_pos hw, if_neg (fun h => by cases h.2.1)]
  · rw [if_neg hw, if_pos ⟨hqp, rfl, rfl⟩]

end Exit

section Wait

variable {K K' : Kernel} {p : Fin NPROC}

theorem zombieChild_some {j : Fin NPROC} (h : K.zombieChild p = some j) :
    (K.proc j).parent = some p ∧ (K.proc j).state = .zombie := by
  have := List.find?_some h
  simpa using this

/-- **`wait(addr)`**, case by case: nothing changes (no child, killed, or
the exit status could not be stored); or the first `ZOMBIE` child is freed
over memory that changed only in its bytes, and its pid returned; or the
caller sleeps on its own slot. -/
theorem wait_cases {addr : UInt64} {r : Option Int} (h : K.wait p addr = .ok (r, K')) :
    K' = K ∨
      (∃ j mem p' k', K.zombieChild p = some j ∧ freeproc { K.kmem with mem := mem } (K.proc j) = .ok (p', k') ∧
        K' = K.setProc j p' k' ∧ r = some (K.proc j).pid) ∨
      K' = K.setProc p { K.proc p with chan := procChan p, state := .sleeping } K.kmem := by
  unfold wait at h
  split at h
  · rename_i j hj
    generalize (if addr ≠ 0 then copyout ((K.proc p).pagetable.vm K.kmem).pageTable K.kmem.mem addr
      (leBytes 4 ((K.proc j).xstate % 2 ^ 32).toNat) else (0, K.kmem.mem)) = res at h
    dsimp only at h
    split at h
    · cases h
      exact .inl rfl
    · cases hf : freeproc { K.kmem with mem := res.2 } (K.proc j) with
      | error e => rw [hf] at h; cases h
      | ok r' =>
        rw [hf] at h
        cases h
        exact .inr (.inl ⟨j, res.2, r'.1, r'.2, hj, hf, rfl, rfl⟩)
  · split at h
    · cases h
      exact .inl rfl
    · cases h
      exact .inr (.inr rfl)

end Wait

end Kernel

end Xv6
