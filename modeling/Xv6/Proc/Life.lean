import Xv6.Proc.Exec
import Xv6.Framework.Owners

/-!
# The process table's invariant

What every state of the process table keeps (`Kernel.Inv`): each page of
`kalloc`'s memory is on the free list or held by exactly one slot
(`allPages`, without duplicates); a slot in use holds a live address space
(`Slot.Live`) and an `UNUSED` one nothing; the slots in use have distinct
pids; `initproc` never exits; and every other process's parent is alive.

Each system call keeps it and leaves every page where it was: `fork`
(`Inv.fork`, whatever `allocproc` and `uvmcopy` do), `exit` (`Inv.exit`,
through `reparent`), `wait` (`Inv.wait`, which frees a `ZOMBIE` child's
pages through `freeproc`), `sbrk` (`Inv.sbrk`) and `exec` (`Inv.exec`),
which give the process another address space, what they take coming off
the free list and what they give back going onto it (`Inv.replace`), and
the steps that only change states: `sleep`, `wakeup`, `yield` and the
scheduler (`Inv.restate`). `Step` collects them, and
`Inv.step` is the invariant of one step.
-/

namespace Xv6

open Framework

namespace Kernel

open VmState

/-- Every page of `kalloc`'s memory: the free list and what each slot holds. -/
def allPages (K : Kernel) : Multiset Nat := ↑K.kmem.freelist + ∑ j, (K.proc j).owned

/-- What every reachable state keeps, for the trampoline's page
`trampoline` and `initproc` in slot `init`: the pages of the free list and
of the slots are distinct pages of `[end, PHYSTOP)`; each slot in use holds
a live address space and an `UNUSED` one nothing; the slots in use have
distinct positive pids below `nextpid`; `initproc` is alive and has no
parent; and every other process's parent is another live process that has
not exited. -/
structure Inv (trampoline : Nat) (init : Fin NPROC) (K : Kernel) : Prop where
  kend : KERNBASE ≤ K.kmem.kend
  nodup : K.allPages.Nodup
  page : ∀ q ∈ K.allPages, IsPage K.kmem.kend q
  live : ∀ j, (K.proc j).state ≠ .unused → (K.proc j).Live trampoline
  clear : ∀ j, (K.proc j).state = .unused → (K.proc j).Clear ∧ (K.proc j).parent = none
  pid_pos : ∀ j, (K.proc j).state ≠ .unused → 0 < (K.proc j).pid
  pid_lt : ∀ j, (K.proc j).state ≠ .unused → (K.proc j).pid < K.nextpid
  pid_inj : ∀ i j, (K.proc i).state ≠ .unused → (K.proc j).state ≠ .unused → (K.proc i).pid = (K.proc j).pid → i = j
  init_live : (K.proc init).state ≠ .unused
  init_zombie : (K.proc init).state ≠ .zombie
  init_parent : (K.proc init).parent = none
  parent : ∀ j, (K.proc j).state ≠ .unused → j ≠ init →
    ∃ q, (K.proc j).parent = some q ∧ q ≠ j ∧ (K.proc q).state ≠ .unused ∧ (K.proc q).state ≠ .zombie

section Pool

variable {trampoline : Nat} {init : Fin NPROC} {K : Kernel} (hI : K.Inv trampoline init)
include hI

theorem Inv.owned_page {j : Fin NPROC} {q : Nat} (hq : q ∈ (K.proc j).owned) : IsPage K.kmem.kend q :=
  hI.page q (mem_pool_of_held hq)

theorem Inv.owned_not_free {j : Fin NPROC} {q : Nat} (hq : q ∈ (K.proc j).owned) : q ∉ K.kmem.freelist :=
  fun hf => held_not_free hI.nodup hq (Multiset.mem_coe.2 hf)

theorem Inv.owned_disjoint {i j : Fin NPROC} (hij : i ≠ j) {q : Nat} (hq : q ∈ (K.proc i).owned) :
    q ∉ (K.proc j).owned :=
  held_disjoint hI.nodup hij hq

theorem Inv.owned_nodup (j : Fin NPROC) : (K.proc j).owned.Nodup := held_nodup hI.nodup j

theorem Inv.free_page {q : Nat} (hq : q ∈ K.kmem.freelist) : IsPage K.kmem.kend q :=
  hI.page q (Multiset.mem_add.2 (.inl (Multiset.mem_coe.2 hq)))

theorem Inv.ne_zero_of_page {q : Nat} (hq : IsPage K.kmem.kend q) : q ≠ 0 := by
  have := hq.2.1
  have := hI.kend
  unfold KERNBASE at this
  omega

theorem Inv.nextpid_pos : 0 < K.nextpid :=
  lt_trans (hI.pid_pos init hI.init_live) (hI.pid_lt init hI.init_live)

/-- A process in use meets what `fork` needs. -/
theorem Inv.forkOk {p : Fin NPROC} (hp : (K.proc p).state ≠ .unused) : K.ForkOk p := by
  have hl := hI.live p hp
  have hown := Slot.owned_of_ne hp
  have huser : ∀ v < npages (K.proc p).sz, (PTE2PA ((K.proc p).pagetable.pte v)).toNat ∈ (K.proc p).owned :=
    fun v hv => by
      rw [hown]
      exact Multiset.mem_add.2 (.inl (Multiset.mem_coe.2 (mem_userPages hv)))
  have htf : (K.proc p).trapframe ∈ (K.proc p).owned := by
    rw [hown]
    exact Multiset.mem_add.2 (.inr (Multiset.mem_cons_self _ _))
  have htab : ∀ q ∈ (K.proc p).pagetable.tablePages, q ∈ (K.proc p).owned := fun q hq => by
    rw [hown]
    exact Multiset.mem_add.2 (.inr (Multiset.mem_cons_of_mem hq))
  refine ⟨?_, hp, hI.owned_not_free htf, fun q hq => hI.owned_not_free (htab q hq), fun j hj => (hI.clear j hj).1,
    hI.nextpid_pos⟩
  refine
    { toTablesOk := hl.ok.tables K.kmem
      kend_ge := hI.kend
      free_nodup := Multiset.coe_nodup.1 (free_nodup hI.nodup)
      free_page := fun q hq => hI.page q (Multiset.mem_add.2 (.inl (Multiset.mem_coe.2 hq)))
      leaf := hl.leaf
      pa_page := fun v hv => hI.owned_page (huser v hv)
      pa_inj := fun v hv w hw he => ?_
      pa_free := fun v hv => hI.owned_not_free (huser v hv)
      unmapped := fun v hv hv' => by
        rw [Ptab.vm_pte, hl.top v hv]
        exact topPte_of_lt hv' }
  -- the user pages are distinct, so the map from pages to them is one-to-one
  have hnd : (K.proc p).userPages.Nodup := by
    have := hI.owned_nodup p
    rw [hown, Multiset.nodup_add] at this
    exact Multiset.coe_nodup.1 this.1
  rw [Ptab.vm_pte] at he
  exact List.inj_on_of_nodup_map hnd (List.mem_range'_1.2 ⟨Nat.zero_le v, by omega⟩)
    (List.mem_range'_1.2 ⟨Nat.zero_le w, by omega⟩) (by rw [he])

end Pool

section Steps

variable {trampoline : Nat} {init : Fin NPROC} {K : Kernel}

theorem allPages_congr {K' : Kernel} (hfree : (↑K'.kmem.freelist : Multiset Nat) = ↑K.kmem.freelist)
    (hown : ∀ j, (K'.proc j).owned = (K.proc j).owned) : K'.allPages = K.allPages := by
  rw [allPages, allPages, hfree, Finset.sum_congr rfl fun j _ => hown j]

/-- **A failed `allocproc` or `fork`** keeps the invariant, and every page
where it was. -/
theorem Inv.undone (hI : K.Inv trampoline init) {K' : Kernel} (hu : Undone K K') :
    K'.Inv trampoline init ∧ K'.allPages = K.allPages := by
  have hst : ∀ j, (K'.proc j).state ≠ .unused → K'.proc j = K.proc j := fun j hj =>
    hu.used j (by rw [← hu.state j]; exact hj)
  have hown : ∀ j, (K'.proc j).owned = (K.proc j).owned := fun j => by
    by_cases h : (K.proc j).state = .unused
    · rw [Slot.owned_of_eq h, Slot.owned_of_eq (by rw [hu.state j]; exact h)]
    · rw [hu.used j h]
  have hall := allPages_congr hu.free_eq hown
  refine ⟨⟨hu.kend_eq ▸ hI.kend, hall ▸ hI.nodup, fun q hq => hu.kend_eq ▸ hI.page q (hall ▸ hq), fun j hj => ?_,
    fun j hj => ?_, fun j hj => ?_, fun j hj => ?_, fun i j hi hj he => ?_, by rw [hu.state]; exact hI.init_live,
    by rw [hu.state]; exact hI.init_zombie, by rw [hu.used init hI.init_live]; exact hI.init_parent,
    fun j hj hji => ?_⟩, hall⟩
  · rw [hst j hj]
    exact hI.live j (hst j hj ▸ hj)
  · have hj' : (K.proc j).state = .unused := by rw [← hu.state j]; exact hj
    exact ⟨hu.clear j (hI.clear j hj').1, hu.parent j (hI.clear j hj').2⟩
  · rw [hst j hj]
    exact hI.pid_pos j (hst j hj ▸ hj)
  · rw [hst j hj]
    exact lt_of_lt_of_le (hI.pid_lt j (hst j hj ▸ hj)) hu.nextpid_le
  · rw [hst i hi, hst j hj] at he
    exact hI.pid_inj i j (hst i hi ▸ hi) (hst j hj ▸ hj) he
  · obtain ⟨q, hq, hqj, hq₁, hq₂⟩ := hI.parent j (hst j hj ▸ hj) hji
    refine ⟨q, by rw [hst j hj]; exact hq, hqj, ?_, ?_⟩ <;> rw [hu.state q]
    · exact hq₁
    · exact hq₂

section Forked

variable {p : Fin NPROC} {K₁ : Kernel} {i : Fin NPROC} {n : Nat} {new : Ptab} {k : Kmem} {m : Nat} {np : Slot}

/-- The child's pages and what is left free are the pages that were free. -/
theorem forked_pool (hA : Allocated K K₁ trampoline i n)
    (hc : Ptab.Copied (K.proc p).pagetable (K.proc p).sz (K₁.proc i).pagetable K₁.kmem new k (npages (K.proc p).sz) m)
    (hnp : np = { K₁.proc i with
      pagetable := new, sz := (K.proc p).sz, signalHandlers := (K.proc p).signalHandlers
      signalsMask := (K.proc p).signalsMask, pendingSignals := 0, tf := { (K.proc p).tf with a0 := 0 }, parent := some p
      state := .runnable }) :
    ↑k.freelist + np.owned = (↑K.kmem.freelist : Multiset Nat) := by
  have hown : np.owned = (K₁.proc i).trapframe ::ₘ (new.tablePages + ↑((new.vm k).physPages 0 (npages (K.proc p).sz))) := by
    rw [Slot.owned_of_ne (by rw [hnp]; exact Procstate.noConfusion), hnp]
    show ↑((new.vm k).physPages 0 (npages (K.proc p).sz)) + (K₁.proc i).trapframe ::ₘ new.tablePages = _
    rw [Multiset.add_cons, add_comm]
  calc ↑k.freelist + np.owned
      = ↑(K₁.kmem.freelist.take m) + ↑(K₁.kmem.freelist.drop m) + (K₁.proc i).trapframe ::ₘ (K₁.proc i).pagetable.tablePages := by
        rw [hown, hc.pages, hc.free_eq, ← Multiset.singleton_add, ← Multiset.singleton_add]
        abel
    _ = ↑K.kmem.freelist := by
        rw [Multiset.coe_add, List.take_append_drop, hA.pages, hA.free_eq, add_comm, Multiset.coe_add,
          List.take_append_drop]

/-- The child holds a copy of a live address space. -/
theorem forked_live (hI : K.Inv trampoline init) (hp : (K.proc p).state ≠ .unused) (hA : Allocated K K₁ trampoline i n)
    (hc : Ptab.Copied (K.proc p).pagetable (K.proc p).sz (K₁.proc i).pagetable K₁.kmem new k (npages (K.proc p).sz) m)
    (hnp : np = { K₁.proc i with
      pagetable := new, sz := (K.proc p).sz, signalHandlers := (K.proc p).signalHandlers
      signalsMask := (K.proc p).signalsMask, pendingSignals := 0, tf := { (K.proc p).tf with a0 := 0 }, parent := some p
      state := .runnable }) :
    np.Live trampoline := by
  have hl := hI.live p hp
  have htf : (K₁.proc i).trapframe ∈ K.kmem.freelist := by
    rw [← Multiset.mem_coe, ← List.take_append_drop n K.kmem.freelist, ← Multiset.coe_add, ← hA.pages]
    exact Multiset.mem_add.2 (.inl (Multiset.mem_cons_self _ _))
  subst hnp
  refine ⟨hc.ok, by rw [hc.root_eq]; exact hA.root, hI.ne_zero_of_page (hI.free_page htf), hl.sz, fun v hv => ?_,
    fun v hv => by rw [hc.pte_out v hv, hA.pte]⟩
  obtain ⟨q, -, hpte, -⟩ := hc.copy v hv
  show new.pte v &&& PTE_V ≠ 0 ∧ PTE_FLAGS (new.pte v) ≠ PTE_V
  rw [hpte, flags_copiedPte q (hl.leaf v hv).1]
  exact ⟨mappedPte_valid q (PTE_FLAGS_flags _), (hl.leaf v hv).2⟩

/-- **A `fork` that copied every page** keeps the invariant, and every page
where it was: the child's pages were free. -/
theorem Inv.forked (hI : K.Inv trampoline init) (hp : (K.proc p).state ≠ .unused) (hpz : (K.proc p).state ≠ .zombie)
    (hA : Allocated K K₁ trampoline i n)
    (hc : Ptab.Copied (K.proc p).pagetable (K.proc p).sz (K₁.proc i).pagetable K₁.kmem new k (npages (K.proc p).sz) m)
    (hnp : np = { K₁.proc i with
      pagetable := new, sz := (K.proc p).sz, signalHandlers := (K.proc p).signalHandlers
      signalsMask := (K.proc p).signalsMask, pendingSignals := 0, tf := { (K.proc p).tf with a0 := 0 }, parent := some p
      state := .runnable }) :
    (K₁.setProc i np k).Inv trampoline init ∧ (K₁.setProc i np k).allPages = K.allPages := by
  have hip : i ≠ p := fun e => hp (e ▸ hA.was_unused)
  have hproc : (K₁.setProc i np k).proc = Function.update K.proc i np := by
    funext j
    rw [setProc_proc]
    by_cases hj : j = i
    · rw [hj, Function.update_self, Function.update_self]
    · rw [Function.update_of_ne hj, Function.update_of_ne hj, hA.other j hj]
  have hi : (K₁.setProc i np k).proc i = np := by rw [hproc, Function.update_self]
  have hother : ∀ j, j ≠ i → (K₁.setProc i np k).proc j = K.proc j := fun j hj => by
    rw [hproc, Function.update_of_ne hj]
  have hst : np.state = .runnable := by rw [hnp]
  have hpid : np.pid = K.nextpid := by rw [hnp]; exact hA.pid
  have hnext : (K₁.setProc i np k).nextpid = K.nextpid + 1 := hA.nextpid
  have hkend : (K₁.setProc i np k).kmem.kend = K.kmem.kend := hc.kend_eq.trans hA.kend_eq
  -- every slot is the child or as it was
  have hne : ∀ j, (j = i ∧ (K₁.setProc i np k).proc j = np) ∨ (j ≠ i ∧ (K₁.setProc i np k).proc j = K.proc j) :=
    fun j => by
      by_cases hj : j = i
      · exact .inl ⟨hj, hj ▸ hi⟩
      · exact .inr ⟨hj, hother j hj⟩
  have hall : (K₁.setProc i np k).allPages = K.allPages := by
    have hs := sum_update_held Slot.owned K.proc i np
    rw [Slot.owned_of_eq hA.was_unused, add_zero] at hs
    rw [allPages, allPages, setProc_kmem, hproc, hs, ← forked_pool hA hc hnp]
    abel
  have hused : ∀ j, (K.proc j).state ≠ .unused → j ≠ i := fun j hj e => hj (e ▸ hA.was_unused)
  have hlt : K.nextpid < K.nextpid + 1 := Int.lt_add_one_iff.2 le_rfl
  refine ⟨⟨hkend ▸ hI.kend, hall ▸ hI.nodup, fun q hq => hkend ▸ hI.page q (hall ▸ hq), fun j hj => ?_, fun j hj => ?_,
    fun j hj => ?_, fun j hj => ?_, fun a b ha hb he => ?_, ?_, ?_, ?_, fun j hj hji => ?_⟩, hall⟩
  · rcases hne j with ⟨-, h⟩ | ⟨-, h⟩ <;> rw [h] at hj ⊢
    · exact forked_live hI hp hA hc hnp
    · exact hI.live j hj
  · rcases hne j with ⟨-, h⟩ | ⟨-, h⟩ <;> rw [h] at hj ⊢
    · rw [hst] at hj
      cases hj
    · exact hI.clear j hj
  · rcases hne j with ⟨-, h⟩ | ⟨-, h⟩ <;> rw [h] at hj ⊢
    · rw [hpid]
      exact hI.nextpid_pos
    · exact hI.pid_pos j hj
  · rw [hnext]
    rcases hne j with ⟨-, h⟩ | ⟨-, h⟩ <;> rw [h] at hj ⊢
    · rw [hpid]
      exact hlt
    · exact lt_trans (hI.pid_lt j hj) hlt
  · -- the child's pid is `nextpid`, above every other pid
    rcases hne a with ⟨rfl, h⟩ | ⟨hai, h⟩ <;> rcases hne b with ⟨hb', h'⟩ | ⟨hbi, h'⟩ <;> rw [h, h'] at he
    · exact hb'.symm
    · rw [h'] at hb
      exact absurd (he ▸ hpid ▸ hI.pid_lt b hb) (lt_irrefl _)
    · rw [h] at ha
      exact absurd (he.symm ▸ hpid ▸ hI.pid_lt a ha) (lt_irrefl _)
    · rw [h] at ha
      rw [h'] at hb
      exact hI.pid_inj a b ha hb he
  · rw [hother init (hused init hI.init_live)]
    exact hI.init_live
  · rw [hother init (hused init hI.init_live)]
    exact hI.init_zombie
  · rw [hother init (hused init hI.init_live)]
    exact hI.init_parent
  · rcases hne j with ⟨rfl, h⟩ | ⟨hji', h⟩
    · refine ⟨p, by rw [h, hnp], fun e => hip e.symm, ?_⟩
      rw [hother p (Ne.symm hip)]
      exact ⟨hp, hpz⟩
    · rw [h] at hj ⊢
      obtain ⟨q, hq, hqj, hq₁, hq₂⟩ := hI.parent j hj hji
      exact ⟨q, hq, hqj, by rw [hother q (hused q hq₁)]; exact ⟨hq₁, hq₂⟩⟩

end Forked

/-- **`fork`** by a process in use that has not exited keeps the invariant,
and every page where it was. -/
theorem Inv.fork (hI : K.Inv trampoline init) {p : Fin NPROC} (hp : (K.proc p).state ≠ .unused)
    (hpz : (K.proc p).state ≠ .zombie) {r : Int} {K' : Kernel} (hf : K.fork trampoline p = .ok (r, K')) :
    K'.Inv trampoline init ∧ K'.allPages = K.allPages := by
  obtain ⟨r', K'', hf', hc⟩ := (hI.forkOk hp).fork_cases trampoline
  rw [hf] at hf'
  cases hf'
  rcases hc with ⟨-, hu⟩ | ⟨K₁, i, n, new, k, m, hA, hc, -, rfl⟩
  · exact hI.undone hu
  · exact hI.forked hp hpz hA hc rfl

/-- `K'` differs from `K` only in the states, parents, exit statuses and
channels of its slots, and no slot comes into use or goes out of it. -/
structure Relabel (K K' : Kernel) : Prop where
  kmem : K'.kmem = K.kmem
  nextpid : K'.nextpid = K.nextpid
  hold : ∀ j, (K'.proc j).pagetable = (K.proc j).pagetable ∧ (K'.proc j).sz = (K.proc j).sz ∧
    (K'.proc j).trapframe = (K.proc j).trapframe ∧ (K'.proc j).pid = (K.proc j).pid
  unused : ∀ j, (K'.proc j).state = .unused ↔ (K.proc j).state = .unused
  parent : ∀ j, (K.proc j).state = .unused → (K'.proc j).parent = (K.proc j).parent

theorem Relabel.owned {K' : Kernel} (hR : Relabel K K') (j : Fin NPROC) : (K'.proc j).owned = (K.proc j).owned := by
  obtain ⟨hpt, hsz, htf, -⟩ := hR.hold j
  unfold Slot.owned Slot.userPages
  rw [hpt, hsz, htf]
  exact if_congr (hR.unused j) rfl rfl

/-- **A step that only relabels slots** keeps the invariant, given that
`initproc` stays alive and every process keeps a live parent, and keeps
every page where it was. -/
theorem Inv.relabel (hI : K.Inv trampoline init) {K' : Kernel} (hR : Relabel K K')
    (hinit : (K'.proc init).state ≠ .unused ∧ (K'.proc init).state ≠ .zombie) (hinitp : (K'.proc init).parent = none)
    (hpar : ∀ j, (K'.proc j).state ≠ .unused → j ≠ init →
      ∃ q, (K'.proc j).parent = some q ∧ q ≠ j ∧ (K'.proc q).state ≠ .unused ∧ (K'.proc q).state ≠ .zombie) :
    K'.Inv trampoline init ∧ K'.allPages = K.allPages := by
  have hall : K'.allPages = K.allPages := allPages_congr (by rw [hR.kmem]) hR.owned
  have hu : ∀ j, (K'.proc j).state ≠ .unused → (K.proc j).state ≠ .unused := fun j hj h => hj ((hR.unused j).2 h)
  have hk : K'.kmem.kend = K.kmem.kend := by rw [hR.kmem]
  refine ⟨⟨hk ▸ hI.kend, hall ▸ hI.nodup, fun q hq => hk ▸ hI.page q (hall ▸ hq), fun j hj => ?_, fun j hj => ?_,
    fun j hj => ?_, fun j hj => ?_, fun a b ha hb he => ?_, hinit.1, hinit.2, hinitp, hpar⟩, hall⟩
  · obtain ⟨hpt, hsz, htf, -⟩ := hR.hold j
    exact (hI.live j (hu j hj)).congr hpt hsz htf
  · obtain ⟨hpt, hsz, htf, -⟩ := hR.hold j
    have hj' := (hR.unused j).1 hj
    obtain ⟨⟨h₁, h₂, h₃⟩, h₄⟩ := hI.clear j hj'
    exact ⟨⟨htf.trans h₁, by rw [hpt]; exact h₂, hsz.trans h₃⟩, (hR.parent j hj').trans h₄⟩
  · rw [(hR.hold j).2.2.2]
    exact hI.pid_pos j (hu j hj)
  · rw [(hR.hold j).2.2.2, hR.nextpid]
    exact hI.pid_lt j (hu j hj)
  · rw [(hR.hold a).2.2.2, (hR.hold b).2.2.2] at he
    exact hI.pid_inj a b (hu a ha) (hu b hb) he

/-- **`exit`** by a process in use keeps the invariant, and every page where
it was: its pages stay with the `ZOMBIE` until `wait` frees them. -/
theorem Inv.exit (hI : K.Inv trampoline init) {p : Fin NPROC} {status : Int} {K' : Kernel}
    (hp : (K.proc p).state ≠ .unused) (h : K.exit init p status = .ok K') :
    K'.Inv trampoline init ∧ K'.allPages = K.allPages := by
  have hpi := exit_ne h
  -- a slot other than `p` alive and not exited before is so after
  have hok : ∀ j, j ≠ p → (K.proc j).state ≠ .unused → (K.proc j).state ≠ .zombie →
      (K'.proc j).state ≠ .unused ∧ (K'.proc j).state ≠ .zombie := fun j hj h₁ h₂ => by
    obtain ⟨st, x, heq, -, hst⟩ := exit_proc h j
    rw [heq]
    rcases hst hj with rfl | ⟨-, rfl⟩
    · exact ⟨h₁, h₂⟩
    · exact ⟨Procstate.noConfusion, Procstate.noConfusion⟩
  have hR : Relabel K K' := by
    refine ⟨(exit_kmem h).1, (exit_kmem h).2, fun j => ?_, fun j => ?_, fun j hj => ?_⟩
    · obtain ⟨st, x, heq, -, -⟩ := exit_proc h j
      rw [heq]
      exact ⟨rfl, rfl, rfl, rfl⟩
    · obtain ⟨st, x, heq, hz, hst⟩ := exit_proc h j
      rw [heq]
      by_cases hj : j = p
      · subst hj
        rw [hz rfl]
        exact ⟨Procstate.noConfusion, fun e => absurd e hp⟩
      · rcases hst hj with rfl | ⟨hs, rfl⟩
        · exact Iff.rfl
        · rw [hs]
          exact ⟨Procstate.noConfusion, Procstate.noConfusion⟩
    · obtain ⟨st, x, heq, -, -⟩ := exit_proc h j
      rw [heq, (hI.clear j hj).2]
      rfl
  have hinit := hok init (Ne.symm hpi) hI.init_live hI.init_zombie
  -- `initproc` has no parent, so none to pass on
  have hinitp : (K'.proc init).parent = none := by
    obtain ⟨st, x, heq, -, -⟩ := exit_proc h init
    rw [heq, hI.init_parent]
    rfl
  refine hI.relabel hR hinit hinitp fun j hj hji => ?_
  obtain ⟨st, x, heq, -, -⟩ := exit_proc h j
  have hj' : (K.proc j).state ≠ .unused := fun e => hj ((hR.unused j).2 e)
  obtain ⟨q, hq, hqj, hq₁, hq₂⟩ := hI.parent j hj' hji
  rw [heq]
  by_cases hc : (K.proc j).parent = some p
  · exact ⟨init, by rw [if_pos hc], Ne.symm hji, hinit⟩
  · have hqp : q ≠ p := fun e => hc (e ▸ hq)
    exact ⟨q, by rw [if_neg hc, hq], hqj, hok q hqp hq₁ hq₂⟩

/-- **A step that changes only states and channels** keeps the invariant and
every page where it was, when no slot comes into use or goes out of it and
none becomes a `ZOMBIE`. -/
theorem Inv.restate (hI : K.Inv trampoline init) {K' : Kernel} (hk : K'.kmem = K.kmem) (hn : K'.nextpid = K.nextpid)
    (h : ∀ j, ∃ st c, K'.proc j = { K.proc j with chan := c, state := st } ∧
      (st = .unused ↔ (K.proc j).state = .unused) ∧ ((K.proc j).state ≠ .zombie → st ≠ .zombie)) :
    K'.Inv trampoline init ∧ K'.allPages = K.allPages := by
  -- a slot alive and not exited stays so, under the same parent
  have hok : ∀ j, (K.proc j).state ≠ .unused → (K.proc j).state ≠ .zombie →
      (K'.proc j).state ≠ .unused ∧ (K'.proc j).state ≠ .zombie := fun j h₁ h₂ => by
    obtain ⟨st, c, he, hu, hz⟩ := h j
    rw [he]
    exact ⟨fun e => h₁ (hu.1 e), hz h₂⟩
  have hpar : ∀ j, (K'.proc j).parent = (K.proc j).parent := fun j => by
    obtain ⟨st, c, he, -, -⟩ := h j
    rw [he]
  have hR : Relabel K K' := by
    refine ⟨hk, hn, fun j => ?_, fun j => ?_, fun j _ => hpar j⟩ <;> obtain ⟨st, c, he, hu, -⟩ := h j <;> rw [he]
    · exact ⟨rfl, rfl, rfl, rfl⟩
    · exact hu
  refine hI.relabel hR (hok init hI.init_live hI.init_zombie) ((hpar init).trans hI.init_parent) fun j hj hji => ?_
  obtain ⟨q, hq, hqj, hq₁, hq₂⟩ := hI.parent j (fun e => hj ((hR.unused j).2 e)) hji
  exact ⟨q, (hpar j).trans hq, hqj, hok q hq₁ hq₂⟩

/-- **Setting the state of a process** in use to one in use that is not
`ZOMBIE` (`sleep`, `yield`, the scheduler) keeps the invariant and every
page where it was. -/
theorem Inv.setState (hI : K.Inv trampoline init) {p : Fin NPROC} (hp : (K.proc p).state ≠ .unused) {st : Procstate}
    (hs : st ≠ .unused) (hsz : st ≠ .zombie) (c : Nat) :
    (K.setProc p { K.proc p with chan := c, state := st } K.kmem).Inv trampoline init ∧
      (K.setProc p { K.proc p with chan := c, state := st } K.kmem).allPages = K.allPages := by
  refine hI.restate rfl rfl fun j => ?_
  rw [setProc_proc]
  by_cases h : j = p
  · subst h
    exact ⟨st, c, Function.update_self .., ⟨fun e => absurd e hs, fun e => absurd e hp⟩, fun _ => hsz⟩
  · exact ⟨(K.proc j).state, (K.proc j).chan, Function.update_of_ne h .., Iff.rfl, id⟩

/-- **`wakeup(chan)`** keeps the invariant and every page where it was: it
only makes `SLEEPING` slots `RUNNABLE`. -/
theorem Inv.wakeup (hI : K.Inv trampoline init) (me : Fin NPROC) (c : Nat) :
    (K.wakeup me c).Inv trampoline init ∧ (K.wakeup me c).allPages = K.allPages := by
  refine hI.restate rfl rfl fun j => ?_
  rw [wakeup_proc]
  split_ifs with h
  · rw [h.2.1]
    exact ⟨.runnable, (K.proc j).chan, rfl, by decide, fun _ => by decide⟩
  · exact ⟨(K.proc j).state, (K.proc j).chan, rfl, Iff.rfl, id⟩

/-- **`wait` freeing a `ZOMBIE` child** keeps the invariant, and every page
where it was: the child's pages go back on the free list. -/
theorem Inv.reap (hI : K.Inv trampoline init) {j : Fin NPROC} (hj : (K.proc j).state = .zombie) {mem : Nat → UInt8}
    {p' : Slot} {k' : Kmem} (hf : freeproc { K.kmem with mem := mem } (K.proc j) = .ok (p', k')) :
    (K.setProc j p' k').Inv trampoline init ∧ (K.setProc j p' k').allPages = K.allPages := by
  have hju : (K.proc j).state ≠ .unused := by rw [hj]; exact Procstate.noConfusion
  have hown := Slot.owned_of_ne hju
  obtain ⟨p'', k'', pushed, hf', hst, hc, hpar, hfr, hpushed⟩ :=
    freeproc_live (k := { K.kmem with mem := mem }) (hI.live j hju) fun q hq => hI.owned_page (hown ▸ hq)
  rw [hf] at hf'
  cases hf'
  have hother : ∀ x, x ≠ j → (K.setProc j p' k').proc x = K.proc x := fun x hx => by
    rw [setProc_proc, Function.update_of_ne hx]
  have hk : (K.setProc j p' k').kmem.kend = K.kmem.kend := hfr.kend_eq
  have hall : (K.setProc j p' k').allPages = K.allPages := by
    have hs := sum_update_held Slot.owned K.proc j p'
    rw [Slot.owned_of_eq hst, add_zero, hown, ← hpushed] at hs
    simp only [allPages, setProc_kmem, setProc_proc]
    rw [hfr.free_eq, ← Multiset.coe_add, ← hs]
    show (↑pushed : Multiset Nat) + ↑K.kmem.freelist + _ = _
    abel
  -- the slots in use after are those in use before, but the child
  have hne : ∀ x, ((K.setProc j p' k').proc x).state ≠ .unused → x ≠ j ∧ (K.setProc j p' k').proc x = K.proc x :=
    fun x hx => by
      have hxj : x ≠ j := fun e => hx (by rw [e, setProc_proc, Function.update_self]; exact hst)
      exact ⟨hxj, hother x hxj⟩
  have hinit : init ≠ j := fun e => hI.init_zombie (e ▸ hj)
  refine ⟨⟨hk ▸ hI.kend, hall ▸ hI.nodup, fun q hq => hk ▸ hI.page q (hall ▸ hq), fun x hx => ?_, fun x hx => ?_,
    fun x hx => ?_, fun x hx => ?_, fun a b ha hb he => ?_, ?_, ?_, ?_, fun x hx hxi => ?_⟩, hall⟩
  · obtain ⟨-, hxe⟩ := hne x hx
    rw [hxe] at hx ⊢
    exact hI.live x hx
  · by_cases h : x = j
    · rw [h, setProc_proc, Function.update_self]
      exact ⟨hc, hpar⟩
    · rw [hother x h] at hx ⊢
      exact hI.clear x hx
  · obtain ⟨-, hxe⟩ := hne x hx
    rw [hxe] at hx ⊢
    exact hI.pid_pos x hx
  · obtain ⟨-, hxe⟩ := hne x hx
    rw [hxe] at hx ⊢
    exact hI.pid_lt x hx
  · obtain ⟨-, hae⟩ := hne a ha
    obtain ⟨-, hbe⟩ := hne b hb
    rw [hae] at ha he
    rw [hbe] at hb he
    exact hI.pid_inj a b ha hb he
  · rw [hother init hinit]
    exact hI.init_live
  · rw [hother init hinit]
    exact hI.init_zombie
  · rw [hother init hinit]
    exact hI.init_parent
  · obtain ⟨-, hxe⟩ := hne x hx
    rw [hxe] at hx ⊢
    obtain ⟨q, hq, hqx, hq₁, hq₂⟩ := hI.parent x hx hxi
    have hqj : q ≠ j := fun e => hq₂ (e ▸ hj)
    exact ⟨q, hq, hqx, by rw [hother q hqj]; exact ⟨hq₁, hq₂⟩⟩

/-- **`wait`** by a process in use keeps the invariant, and
every page where it was. -/
theorem Inv.wait (hI : K.Inv trampoline init) {p : Fin NPROC} (hp : (K.proc p).state ≠ .unused) {addr : UInt64} {r : Option Int} {K' : Kernel} (h : K.wait p addr = .ok (r, K')) :
    K'.Inv trampoline init ∧ K'.allPages = K.allPages := by
  rcases wait_cases h with rfl | ⟨j, mem, p', k', hj, hf, rfl, -⟩ | rfl
  · exact ⟨hI, rfl⟩
  · exact hI.reap (zombieChild_some hj).2 hf
  · exact hI.setState hp Procstate.noConfusion Procstate.noConfusion _

/-- **A process in use replaced by the same process** with another live
address space keeps the invariant, and every page where it was: `sbrk` and
`exec` make such steps. -/
theorem Inv.replace (hI : K.Inv trampoline init) {p : Fin NPROC} (hp : (K.proc p).state ≠ .unused) {q : Slot}
    {k' : Kmem} (he : Slot.Replaced trampoline (K.proc p) q K.kmem k') :
    (K.setProc p q k').Inv trampoline init ∧ (K.setProc p q k').allPages = K.allPages := by
  obtain ⟨K', hK'⟩ : ∃ K', K' = K.setProc p q k' := ⟨_, rfl⟩
  rw [← hK']
  have hother : ∀ j, j ≠ p → K'.proc j = K.proc j := fun j hj => by
    rw [hK', setProc_proc, Function.update_of_ne hj]
  -- every slot keeps its state, its pid and its parent
  have hsame : ∀ j, (K'.proc j).state = (K.proc j).state ∧ (K'.proc j).pid = (K.proc j).pid ∧
      (K'.proc j).parent = (K.proc j).parent := fun j => by
    by_cases h : j = p
    · rw [h, hK', setProc_proc, Function.update_self]
      exact ⟨he.state, he.pid, he.parent⟩
    · rw [hother j h]
      exact ⟨rfl, rfl, rfl⟩
  have hk : K'.kmem.kend = K.kmem.kend := by rw [hK', setProc_kmem]; exact he.kend_eq
  have hall : K'.allPages = K.allPages := by
    have hs := sum_update_held Slot.owned K.proc p q
    apply add_right_cancel (b := (K.proc p).owned)
    simp only [hK', allPages, setProc_kmem, setProc_proc]
    rw [add_assoc, hs, add_left_comm, he.pages]
    abel
  have hu : ∀ j, (K'.proc j).state ≠ .unused → (K.proc j).state ≠ .unused := fun j hj => (hsame j).1 ▸ hj
  refine ⟨⟨hk ▸ hI.kend, hall ▸ hI.nodup, fun q hq => hk ▸ hI.page q (hall ▸ hq), fun j hj => ?_, fun j hj => ?_,
    fun j hj => ?_, fun j hj => ?_, fun a b ha hb he => ?_, (hsame init).1 ▸ hI.init_live,
    (hsame init).1 ▸ hI.init_zombie, (hsame init).2.2 ▸ hI.init_parent, fun j hj hji => ?_⟩, hall⟩
  · by_cases h : j = p
    · rw [h, hK', setProc_proc, Function.update_self]
      exact he.live
    · rw [hother j h]
      exact hI.live j (hu j hj)
  · have hjp : j ≠ p := fun e => hp (e ▸ (hsame j).1 ▸ hj)
    rw [hother j hjp] at hj ⊢
    exact hI.clear j hj
  · rw [(hsame j).2.1]
    exact hI.pid_pos j (hu j hj)
  · rw [(hsame j).2.1, hK']
    exact hI.pid_lt j (hu j hj)
  · rw [(hsame a).2.1, (hsame b).2.1] at he
    exact hI.pid_inj a b (hu a ha) (hu b hb) he
  · obtain ⟨q, hq, hqj, hq₁, hq₂⟩ := hI.parent j (hu j hj) hji
    exact ⟨q, (hsame j).2.2.trans hq, hqj, (hsame q).1.symm ▸ hq₁, (hsame q).1.symm ▸ hq₂⟩

/-- **`sbrk`** by a process in use keeps the invariant, and every page where it was. -/
theorem Inv.sbrk (hI : K.Inv trampoline init) {p : Fin NPROC} (hp : (K.proc p).state ≠ .unused) {n : Int} {r : Nat}
    {K' : Kernel} (h : K.sysSbrk p n = .ok (r, K')) :
    K'.Inv trampoline init ∧ K'.allPages = K.allPages := by
  obtain ⟨r', sz', pt', k', h', hr, -⟩ := sysSbrk_resized (hI.live p hp).ok (hI.forkOk hp).good n
  rw [h] at h'
  cases h'
  exact hI.replace hp (.resize hp (hI.live p hp) hr)

/-- `exec` by a process in use, from a state that keeps the invariant, ends
as `ExecEnds` says. -/
theorem Inv.execEnds (hI : K.Inv trampoline init) {p : Fin NPROC} (hp : (K.proc p).state ≠ .unused)
    (fs : List UInt8 → Option (List UInt8)) (path : List UInt8) (argv : List (List UInt8)) :
    ExecEnds trampoline K p argv.length (K.exec fs trampoline p path argv) := by
  have htab : ∀ q ∈ (K.proc p).pagetable.tablePages, IsPage K.kmem.kend q := fun q hq => hI.owned_page (by
    rw [Slot.owned_of_ne hp]
    exact Multiset.mem_add.2 (.inr (Multiset.mem_cons_of_mem hq)))
  exact exec_spec fs hI.kend (Multiset.coe_nodup.1 (free_nodup hI.nodup)) (fun q hq => hI.free_page hq) hp
    (hI.live p hp) (hI.forkOk hp).good htab path argv

/-- **`exec`** by a process in use keeps the invariant, and every page where
it was, whether it fails or replaces the process's image. -/
theorem Inv.exec (hI : K.Inv trampoline init) {p : Fin NPROC} (hp : (K.proc p).state ≠ .unused)
    {fs : List UInt8 → Option (List UInt8)} {path : List UInt8} {argv : List (List UInt8)} {r : Int} {K' : Kernel}
    (h : K.exec fs trampoline p path argv = .ok (r, K')) :
    K'.Inv trampoline init ∧ K'.allPages = K.allPages := by
  obtain ⟨r', q, k', he, hr, -⟩ := hI.execEnds hp fs path argv
  rw [h] at he
  cases he
  exact hI.replace hp hr

end Steps

/-- A step of the process table, made by the process `p` that runs on a CPU:
`fork`, `exit`, `wait`, `sbrk` (whose argument is an `int`) and `exec` (over
a file system `fs`) as they return to it, going to sleep on a channel, `wakeup` of a channel and
`yield`; or the scheduler switching to a `RUNNABLE` process. `wait` that finds no `ZOMBIE` child sleeps, and runs
again from its scan once woken and scheduled. -/
inductive Step (trampoline : Nat) (init : Fin NPROC) : Kernel → Kernel → Prop
  | fork {K K' : Kernel} {p : Fin NPROC} {r : Int} :
      (K.proc p).state = .running → K.fork trampoline p = .ok (r, K') → Step trampoline init K K'
  | exit {K K' : Kernel} {p : Fin NPROC} {status : Int} :
      (K.proc p).state = .running → K.exit init p status = .ok K' → Step trampoline init K K'
  | wait {K K' : Kernel} {p : Fin NPROC} {addr : UInt64} {r : Option Int} :
      (K.proc p).state = .running → K.wait p addr = .ok (r, K') → Step trampoline init K K'
  | sleep {K : Kernel} {p : Fin NPROC} (c : Nat) :
      (K.proc p).state = .running →
        Step trampoline init K (K.setProc p { K.proc p with chan := c, state := .sleeping } K.kmem)
  | wakeup {K : Kernel} {p : Fin NPROC} (c : Nat) :
      (K.proc p).state = .running → Step trampoline init K (K.wakeup p c)
  | yield {K : Kernel} {p : Fin NPROC} :
      (K.proc p).state = .running →
        Step trampoline init K (K.setProc p { K.proc p with state := .runnable } K.kmem)
  | schedule {K : Kernel} {p : Fin NPROC} :
      (K.proc p).state = .runnable →
        Step trampoline init K (K.setProc p { K.proc p with state := .running } K.kmem)
  | sbrk {K K' : Kernel} {p : Fin NPROC} {n : Int} {r : Nat} :
      (K.proc p).state = .running → -2 ^ 31 ≤ n → n < 2 ^ 31 → K.sysSbrk p n = .ok (r, K') →
        Step trampoline init K K'
  | exec {K K' : Kernel} {p : Fin NPROC} {fs : List UInt8 → Option (List UInt8)} {path : List UInt8}
      {argv : List (List UInt8)} {r : Int} :
      (K.proc p).state = .running → K.exec fs trampoline p path argv = .ok (r, K') → Step trampoline init K K'

section Run

variable {trampoline : Nat} {init : Fin NPROC} {K K' : Kernel}

/-- **Every step keeps the invariant**, and every page where it was. -/
theorem Inv.step (hI : K.Inv trampoline init) (hs : Step trampoline init K K') :
    K'.Inv trampoline init ∧ K'.allPages = K.allPages := by
  cases hs with
  | fork hp hf => exact hI.fork (by rw [hp]; decide) (by rw [hp]; decide) hf
  | exit hp hf => exact hI.exit (by rw [hp]; decide) hf
  | wait hp hf => exact hI.wait (by rw [hp]; decide) hf
  | sleep c hp => exact hI.setState (by rw [hp]; decide) (by decide) (by decide) c
  | wakeup c hp => exact hI.wakeup _ c
  | yield hp => exact hI.setState (by rw [hp]; decide) (by decide) (by decide) (K.proc _).chan
  | schedule hp => exact hI.setState (by rw [hp]; decide) (by decide) (by decide) (K.proc _).chan
  | sbrk hp _ _ hs => exact hI.sbrk (by rw [hp]; decide) hs
  | exec hp he => exact hI.exec (by rw [hp]; decide) he

end Run

end Kernel

end Xv6
