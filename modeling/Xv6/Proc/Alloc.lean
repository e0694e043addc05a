import Xv6.Vm.Uvmcopy

/-!
# `allocproc`, `freeproc` and the process's page table

The process table as `allocproc`, `freeproc` and `fork` see it: each slot
with its trap-frame page, its page table over `kalloc`'s memory (`Ptab`,
`Kmem`) and the size it maps, and `nextpid`.

`proc_pagetable` builds a table that maps only the trampoline and the trap
frame (`topPte`), from pages off the head of the free list, or gives every
page it took back (`procPagetable_spec`); `proc_freepagetable` of such a
table gives back exactly its table pages (`procFreepagetable_spec`), and
`freeproc` these and the trap frame (`freeproc_spec`). `allocproc_spec`
puts them together: `allocproc` sets up a slot that was `UNUSED` from the
first pages of the free list (`Allocated`), or fails with every slot in
its old state and the same pages free (`Undone`).

The trap frame's registers are the slot's record `tf`, read from its page
when `allocproc` takes it; the trampoline's physical page is an argument.
-/

namespace Xv6

open Framework

/-- A slot of `proc[NPROC]` with what hangs from it: the page `trapframe`
(`0` for none) and what it holds (`tf`), the page table (`root = 0` for
none) and the size of the memory it maps, and the fields `allocproc`,
`freeproc` and `fork` set. -/
structure Slot where
  state : Procstate
  pid : Int
  parent : Option (Fin NPROC)
  killed : Bool
  xstate : Int
  chan : Nat
  sz : Nat
  trapframe : Nat
  tf : Trapframe
  pagetable : Ptab
  signalHandlers : Nat → UInt64
  signalsMask : UInt32
  pendingSignals : UInt32
  stopped : Bool
  signalHandling : Bool

/-- The process table with `nextpid` and the memory `kalloc` hands out. -/
structure Kernel where
  proc : Fin NPROC → Slot
  nextpid : Int
  kmem : Kmem

namespace Ptab

/-- `proc_pagetable(p)` with the trampoline's code at `trampoline` and the
trap frame at `trapframe`: the table, or the null table once it has freed
what it built. -/
def procPagetable (k : Kmem) (trampoline trapframe : Nat) : Except String (Ptab × Kmem) :=
  match uvmcreate k with
  | (pt, k) =>
    if pt.root = 0 then .ok (pt, k)
    else
      match pt.mappages k TRAMPOLINE PGSIZE trampoline (PTE_R ||| PTE_X) with
      | .error e => .error e
      | .ok (r, pt, k) =>
        if r < 0 then (pt.uvmfree k 0).map fun k => (empty 0, k)
        else
          match pt.mappages k TRAPFRAME PGSIZE trapframe (PTE_R ||| PTE_W) with
          | .error e => .error e
          | .ok (r, pt, k) =>
            if r < 0 then
              match pt.uvmunmap k TRAMPOLINE 1 false with
              | .error e => .error e
              | .ok (pt, k) => (pt.uvmfree k 0).map fun k => (empty 0, k)
            else .ok (pt, k)

/-- `proc_freepagetable(pagetable, sz)`. -/
def procFreepagetable (pt : Ptab) (k : Kmem) (sz : Nat) : Except String Kmem :=
  match pt.uvmunmap k TRAMPOLINE 1 false with
  | .error e => .error e
  | .ok (pt, k) =>
    match pt.uvmunmap k TRAPFRAME 1 false with
    | .error e => .error e
    | .ok (pt, k) => pt.uvmfree k sz

end Ptab

namespace Kernel

/-- `freeproc(p)`: its trap-frame page and its page table back to `kalloc`,
and the slot `UNUSED`. -/
def freeproc (k : Kmem) (p : Slot) : Except String (Slot × Kmem) :=
  match (if p.trapframe ≠ 0 then k.kfree p.trapframe else .ok k) with
  | .error e => .error e
  | .ok k =>
    match (if p.pagetable.root ≠ 0 then p.pagetable.procFreepagetable k p.sz else .ok k) with
    | .error e => .error e
    | .ok k =>
      .ok ({ p with
        trapframe := 0, pagetable := Ptab.empty 0, sz := 0, pid := 0, parent := none, chan := 0, killed := false
        xstate := 0, state := .unused }, k)

/-- The first `UNUSED` slot, as `allocproc`'s scan finds it. -/
def firstUnused (K : Kernel) : Option (Fin NPROC) :=
  (List.finRange NPROC).find? fun i => (K.proc i).state == .unused

/-- Slot `i` replaced by `p`, over memory `k`. -/
@[simps] def setProc (K : Kernel) (i : Fin NPROC) (p : Slot) (k : Kmem) : Kernel :=
  { K with proc := Function.update K.proc i p, kmem := k }

/-- `allocproc()`: the first `UNUSED` slot, with a fresh pid, default
signal state, a trap-frame page and an empty user page table; `none` when no
slot is free, or when an allocation fails and `freeproc` has given back
what was taken. -/
def allocproc (K : Kernel) (trampoline : Nat) : Except String (Option (Fin NPROC) × Kernel) :=
  match K.firstUnused with
  | none => .ok (none, K)
  | some i =>
    let p : Slot := { K.proc i with
      pid := K.nextpid, state := .used, signalHandlers := fun _ => SIG_DFL, signalsMask := 0, pendingSignals := 0
      stopped := false, signalHandling := false }
    let K := { K with nextpid := K.nextpid + 1 }
    match K.kmem.kalloc with
    | none =>
      (freeproc K.kmem { p with trapframe := 0 }).map fun r => (none, K.setProc i r.1 r.2)
    | some (pa, k) =>
      let p := { p with trapframe := pa, tf := Trapframe.ofBytes (bytesAt k.mem pa Trapframe.size) }
      match Ptab.procPagetable k trampoline pa with
      | .error e => .error e
      | .ok (pt, k) =>
        if pt.root = 0 then
          (freeproc k { p with pagetable := pt }).map fun r => (none, K.setProc i r.1 r.2)
        else .ok (some i, K.setProc i { p with pagetable := pt } k)

end Kernel

/-! ## The trampoline and the trap frame -/

theorem TRAPFRAME_div_ne : TRAPFRAME / PGSIZE ≠ TRAMPOLINE / PGSIZE := by
  rw [VmState.TRAPFRAME_div, VmState.TRAMPOLINE_div]
  decide

theorem topPte_trampoline (trampoline trapframe : Nat) :
    topPte trampoline trapframe (TRAMPOLINE / PGSIZE) = trampolinePte trampoline := if_pos rfl

theorem topPte_trapframe (trampoline trapframe : Nat) :
    topPte trampoline trapframe (TRAPFRAME / PGSIZE) = trapframePte trapframe := by
  rw [topPte, if_neg TRAPFRAME_div_ne, if_pos rfl]

theorem topPte_of_lt {trampoline trapframe v : Nat} (hv : v < TRAPFRAME / PGSIZE) : topPte trampoline trapframe v = 0 := by
  have := VmState.TRAPFRAME_div
  have := VmState.TRAMPOLINE_div
  rw [topPte, if_neg (by omega), if_neg (by omega)]

/-- The trampoline's and the trap frame's PTEs are valid leaves. -/
theorem trampolinePte_leaf (pa : Nat) : trampolinePte pa &&& PTE_V ≠ 0 ∧ PTE_FLAGS (trampolinePte pa) ≠ PTE_V := by
  refine ⟨mappedPte_valid pa (by decide), ?_⟩
  rw [trampolinePte, flags_mappedPte pa (by decide)]
  decide

theorem trapframePte_leaf (pa : Nat) : trapframePte pa &&& PTE_V ≠ 0 ∧ PTE_FLAGS (trapframePte pa) ≠ PTE_V := by
  refine ⟨mappedPte_valid pa (by decide), ?_⟩
  rw [trapframePte, flags_mappedPte pa (by decide)]
  decide

namespace Ptab

section Fresh

open VmState

variable {pt : Ptab} {k : Kmem}

@[simp] theorem tablePages_empty (pa : Nat) : (empty pa).tablePages = {pa} := by
  have h : entries.filter (fun i => (empty pa).l1 i = true) = 0 :=
    Multiset.filter_eq_nil.2 fun _ _ h => Bool.false_ne_true h
  rw [tablePages, h, Multiset.zero_bind]
  rfl

theorem ok_empty (pa : Nat) : (empty pa).Ok :=
  ⟨fun _ h => absurd h Bool.false_ne_true, fun _ h => absurd rfl h, fun _ h => absurd h Bool.false_ne_true⟩

/-- Clearing a PTE keeps the tables. -/
theorem Ok.clear_pte (ho : pt.Ok) (a : Nat) : ({ pt with pte := fun v => if v = a then 0 else pt.pte v } : Ptab).Ok := by
  refine ⟨ho.l1_of_l0, fun v hv => ?_, ho.l1_lt⟩
  have hv' : (if v = a then 0 else pt.pte v) ≠ 0 := hv
  split at hv'
  · exact absurd rfl hv'
  · exact ho.l0_of_pte v hv'

/-- **`mappages` of one page under valid tables** allocates nothing. -/
theorem mappages_of_valid {a : Nat} (ha : a < MAXVA.toNat) (hal : a % PGSIZE = 0) (h1 : pt.l1 (a / 2 ^ 30) = true)
    (h0 : pt.l0 (a / 2 ^ 21) = true) (hz : pt.pte (a / PGSIZE) = 0) (pa : Nat) (perm : UInt64) :
    pt.mappages k a PGSIZE pa perm =
      .ok (0, { pt with pte := fun v => if v = a / PGSIZE then PA2PTE pa ||| perm ||| PTE_V else pt.pte v }, k) := by
  rw [mappages_one hal, mappagesLoop, walk_of_valid ha h1 h0]
  dsimp only
  rw [if_neg (by rw [hz]; decide), if_pos rfl]

/-- **`uvmunmap` of one leaf without `do_free`** clears its PTE. -/
theorem uvmunmap_leaf (ho : pt.Ok) {a : Nat} (ha : a < MAXVA.toNat) (hal : a % PGSIZE = 0)
    (hleaf : pt.pte (a / PGSIZE) &&& PTE_V ≠ 0 ∧ PTE_FLAGS (pt.pte (a / PGSIZE)) ≠ PTE_V) :
    pt.uvmunmap k a 1 false = .ok ({ pt with pte := fun v => if v = a / PGSIZE then 0 else pt.pte v }, k) := by
  have hne : pt.pte (a / PGSIZE) ≠ 0 := fun h => hleaf.1 (by rw [h]; decide)
  have e : a / PGSIZE * PGSIZE = a := Nat.div_mul_cancel (Nat.dvd_of_mod_eq_zero hal)
  obtain ⟨h1, h0⟩ := tables_of_pte (ho.tables k) hne
  rw [e] at h1 h0
  rw [uvmunmap, VmState.uvmunmap, if_neg (by omega), uvmunmapLoop, walk_false ha, h1, h0, Bool.and_self]
  dsimp only
  rw [vm_pte, if_neg hleaf.1, if_neg hleaf.2, if_neg Bool.false_ne_true]
  rfl

theorem TRAPFRAME_div_21 : TRAPFRAME / 2 ^ 21 = TRAMPOLINE / 2 ^ 21 := by
  rw [TRAPFRAME, TRAMPOLINE, toNat_MAXVA]
  rfl

/-- **`proc_pagetable`** over a free list of pages of `[end, PHYSTOP)`: a
table whose pages are the first `n` (at most three) of the free list and which maps only the
trampoline and the trap frame; or the null table, with every page it took
back on the free list, which only happens when it held at most two. -/
theorem procPagetable_spec (hk : KERNBASE ≤ k.kend) (hpg : ∀ q ∈ k.freelist, IsPage k.kend q) (trampoline trapframe : Nat) :
    ∃ pt k', procPagetable k trampoline trapframe = .ok (pt, k') ∧ k'.kend = k.kend ∧
      ((pt.root ≠ 0 ∧ pt.Ok ∧ pt.pte = topPte trampoline trapframe ∧ ∃ n ≤ 3, pt.tablePages = ↑(k.freelist.take n) ∧
          k'.freelist = k.freelist.drop n ∧ SameOutside k.mem k'.mem (k.freelist.take n)) ∨
        (pt.root = 0 ∧ (↑k'.freelist : Multiset Nat) = ↑k.freelist ∧ SameOutside k.mem k'.mem k.freelist ∧
          k.freelist.length ≤ 2)) := by
  cases hf : k.freelist with
  | nil =>
    -- `uvmcreate` finds no page
    refine ⟨empty 0, k, ?_, rfl, .inr ⟨rfl, by rw [hf], SameOutside.refl _ _, by decide⟩⟩
    rw [procPagetable, uvmcreate, Kmem.kalloc, hf]
    dsimp only
    rw [if_pos (show (empty 0).root = 0 from rfl)]
  | cons pa rest =>
    have hpa : IsPage k.kend pa := hpg pa (by rw [hf]; exact List.mem_cons_self)
    have hroot : (empty pa).root ≠ 0 := by
      have := hpa.2.1
      unfold KERNBASE at hk
      show pa ≠ 0
      omega
    obtain ⟨k₁, hk₁⟩ : ∃ k₁ : Kmem, k₁ = { k with freelist := rest, mem := fill (fill k.mem pa 5) pa 0 } := ⟨_, rfl⟩
    have hu : uvmcreate k = (empty pa, k₁) := by rw [uvmcreate, Kmem.kalloc, hf, hk₁]
    have hmem₁ : SameOutside k.mem k₁.mem [pa] := by
      rw [hk₁]
      exact ((SameOutside.fill _ _ _).trans (SameOutside.fill _ _ _)).mono fun q hq => by
        simp only [List.mem_append, List.mem_singleton, or_self] at hq
        exact List.mem_singleton.2 hq
    -- the trampoline: `walk` takes at most two pages for the tables
    obtain ⟨pt₁, k₂, n, hg, hn, ho₁, hroot₁, hpages₁, ⟨hm, hl0⟩ | ⟨hm, hnil, hn₁⟩⟩ :=
      mappages_page (k := k₁) (ok_empty pa) TRAMPOLINE_lt TRAMPOLINE_aligned rfl trampoline (PTE_R ||| PTE_X)
    · obtain ⟨pt₂, hpt₂⟩ : ∃ pt₂ : Ptab, pt₂ = { pt₁ with
          pte := fun v => if v = TRAMPOLINE / PGSIZE then PA2PTE trampoline ||| (PTE_R ||| PTE_X) ||| PTE_V else pt₁.pte v } :=
        ⟨_, rfl⟩
      rw [← hpt₂] at hm
      have hpte₁ : pt₁.pte = fun _ => 0 := hg.pte_eq
      have ho₂ : pt₂.Ok := hpt₂ ▸ ho₁.set_pte hl0 _
      -- the trap frame: the same tables
      have h0' : pt₂.l0 (TRAPFRAME / 2 ^ 21) = true := by rw [hpt₂, TRAPFRAME_div_21]; exact hl0
      have h1' : pt₂.l1 (TRAPFRAME / 2 ^ 30) = true := by
        rw [← div_two_pow_21_div]
        exact ho₂.l1_of_l0 _ h0'
      have hz' : pt₂.pte (TRAPFRAME / PGSIZE) = 0 := by
        rw [hpt₂]
        dsimp only
        rw [if_neg TRAPFRAME_div_ne, hpte₁]
      have hroot₂ : pt₂.root ≠ 0 := by
        rw [hpt₂]
        show pt₁.root ≠ 0
        rw [hroot₁]
        exact hroot
      refine ⟨{ pt₂ with pte := fun v => if v = TRAPFRAME / PGSIZE then PA2PTE trapframe ||| (PTE_R ||| PTE_W) ||| PTE_V else pt₂.pte v },
        k₂, ?_, ?_, .inl ⟨hroot₂, ho₂.set_pte h0' _, ?_, 1 + n, by omega, ?_, ?_, ?_⟩⟩
      · rw [procPagetable, hu]
        dsimp only
        rw [if_neg hroot, hm]
        dsimp only
        rw [if_neg (by decide), mappages_of_valid TRAPFRAME_lt TRAPFRAME_aligned h1' h0' hz']
        dsimp only
        rw [if_neg (by decide)]
      · show k₂.kend = _
        rw [show k₂.kend = k₁.kend from hg.kend_eq, hk₁]
      · funext v
        show (if v = TRAPFRAME / PGSIZE then _ else pt₂.pte v) = _
        rw [hpt₂]
        dsimp only
        rw [hpte₁, topPte]
        by_cases h₁ : v = TRAMPOLINE / PGSIZE
        · rw [if_neg (h₁ ▸ TRAPFRAME_div_ne.symm), if_pos h₁, if_pos h₁]
          rfl
        · rw [if_neg h₁, if_neg h₁]
          split <;> rfl
      · show pt₂.tablePages = _
        rw [hpt₂]
        show pt₁.tablePages = _
        rw [hpages₁, tablePages_empty, hk₁, Nat.add_comm 1 n, List.take_succ_cons, ← Multiset.cons_coe,
          Multiset.singleton_add]
      · show k₂.freelist = _
        rw [show k₂.freelist = k₁.freelist.drop n from hg.free_eq, hk₁, Nat.add_comm 1 n, List.drop_succ_cons]
      · rw [Nat.add_comm 1 n, List.take_succ_cons]
        have hmem₂ : SameOutside k₁.mem k₂.mem (rest.take n) := by
          have := hg.mem_eq
          rw [vm_freelist, hk₁] at this
          rw [hk₁]
          exact this
        exact (hmem₁.trans hmem₂).mono fun q hq => hq
    · -- no page for a table: `uvmfree` gives back what `walk` took
      have hpte₁ : pt₁.pte = fun _ => 0 := hg.pte_eq
      have hkend₂ : k₂.kend = k.kend := by rw [show k₂.kend = k₁.kend from hg.kend_eq, hk₁]
      -- `walk` took every page left, at most one
      have hlen : rest.length ≤ n := by
        have h := hg.free_eq
        rw [vm_freelist, vm_freelist, hnil, hk₁] at h
        exact List.drop_eq_nil_iff.1 h.symm
      have hrest : rest.take n = rest := List.take_of_length_le hlen
      have htp : pt₁.tablePages = ↑(pa :: rest) := by
        rw [hpages₁, tablePages_empty, hk₁]
        dsimp only
        rw [hrest, Multiset.singleton_add, Multiset.cons_coe]
      obtain ⟨k₃, pushed, hw, hfr, hpushed⟩ := freewalk_spec (k := k₂) (show pt₁.NoLeaf from fun v => by simp only [hpte₁]; decide)
        fun q hq => by
          rw [htp, Multiset.mem_coe, ← hf] at hq
          rw [hkend₂]
          exact hpg q hq
      refine ⟨empty 0, k₃, ?_, hfr.kend_eq.trans hkend₂, .inr ⟨rfl, ?_, ?_, by rw [List.length_cons]; omega⟩⟩
      · rw [procPagetable, hu]
        dsimp only
        rw [if_neg hroot, hm]
        dsimp only
        rw [if_pos (by decide), uvmfree, if_neg (by decide), hw]
        rfl
      · rw [hfr.free_eq, hnil, List.append_nil, hpushed, htp]
      · have hmem₂ : SameOutside k₁.mem k₂.mem rest := by
          have := hg.mem_eq
          rw [vm_freelist, hk₁] at this
          rw [hk₁]
          dsimp only at this
          rw [hrest] at this
          exact this
        refine ((hmem₁.trans hmem₂).trans hfr.mem_eq).mono fun q hq => ?_
        rcases List.mem_append.1 hq with hq | hq
        · exact hq
        · rw [← Multiset.mem_coe, hpushed, htp, Multiset.mem_coe] at hq
          exact hq

/-- The pages of the tables do not depend on the PTEs. -/
@[simp] theorem tablePages_pte (pt : Ptab) (f : Nat → UInt64) : ({ pt with pte := f } : Ptab).tablePages = pt.tablePages :=
  rfl

/-- **`proc_freepagetable(pagetable, 0)`** of a table that maps only the
trampoline and the trap frame: it frees exactly the table's pages. -/
theorem procFreepagetable_spec (ho : pt.Ok) {trampoline trapframe : Nat} (hpte : pt.pte = topPte trampoline trapframe)
    (hp : ∀ q ∈ pt.tablePages, IsPage k.kend q) :
    ∃ k' pushed, pt.procFreepagetable k 0 = .ok k' ∧ k.Freed k' pushed ∧ (↑pushed : Multiset Nat) = pt.tablePages := by
  obtain ⟨pt₁, hpt₁⟩ : ∃ pt₁ : Ptab, pt₁ = { pt with pte := fun v => if v = TRAMPOLINE / PGSIZE then 0 else pt.pte v } :=
    ⟨_, rfl⟩
  have h₁ : pt.uvmunmap k TRAMPOLINE 1 false = .ok (pt₁, k) := by
    rw [hpt₁]
    exact uvmunmap_leaf ho TRAMPOLINE_lt TRAMPOLINE_aligned
      (by rw [hpte, topPte_trampoline]; exact trampolinePte_leaf trampoline)
  have hpte₁ : pt₁.pte (TRAPFRAME / PGSIZE) = trapframePte trapframe := by
    rw [hpt₁]
    dsimp only
    rw [if_neg TRAPFRAME_div_ne, hpte, topPte_trapframe]
  have h₂ := uvmunmap_leaf (k := k) (hpt₁ ▸ ho.clear_pte _) TRAPFRAME_lt TRAPFRAME_aligned
    (by rw [hpte₁]; exact trapframePte_leaf trapframe)
  -- nothing is left mapped
  have hno : NoLeaf { pt₁ with pte := fun v => if v = TRAPFRAME / PGSIZE then 0 else pt₁.pte v } := fun v => by
    show (if v = TRAPFRAME / PGSIZE then 0 else pt₁.pte v) &&& PTE_V = 0
    by_cases hf : v = TRAPFRAME / PGSIZE
    · rw [if_pos hf]
      rfl
    · rw [if_neg hf, hpt₁]
      show (if v = TRAMPOLINE / PGSIZE then 0 else pt.pte v) &&& PTE_V = 0
      by_cases ht : v = TRAMPOLINE / PGSIZE
      · rw [if_pos ht]
        rfl
      · rw [if_neg ht, hpte, topPte, if_neg ht, if_neg hf]
        rfl
  obtain ⟨k', pushed, hw, hfr, hpushed⟩ := freewalk_spec (k := k) hno fun q hq => by
    rw [tablePages_pte, hpt₁, tablePages_pte] at hq
    exact hp q hq
  refine ⟨k', pushed, ?_, hfr, by rw [hpushed, tablePages_pte, hpt₁, tablePages_pte]⟩
  rw [procFreepagetable, h₁]
  dsimp only
  rw [h₂]
  dsimp only
  rw [uvmfree, if_neg (by decide)]
  exact hw

end Fresh

end Ptab

/-- What `freeproc` leaves in a slot: no trap-frame page, no page table, size `0`. -/
structure Slot.Clear (p : Slot) : Prop where
  trapframe : p.trapframe = 0
  root : p.pagetable.root = 0
  sz : p.sz = 0

namespace Kernel

open VmState

/-- **`freeproc(p)`** of a slot whose trap-frame page, if it has one, is a
page of `[end, PHYSTOP)`, and whose page table, if it has one, maps only the
trampoline and the trap frame at size `0`: the slot is left `UNUSED` and
clear, and the pages freed are that page and the table's. -/
theorem freeproc_spec {k : Kmem} {p : Slot} (htf : p.trapframe ≠ 0 → IsPage k.kend p.trapframe)
    (hpt : p.pagetable.root ≠ 0 → p.sz = 0 ∧ p.pagetable.Ok ∧ (∃ tr tf, p.pagetable.pte = topPte tr tf) ∧
      ∀ q ∈ p.pagetable.tablePages, IsPage k.kend q) :
    ∃ p' k' pushed, freeproc k p = .ok (p', k') ∧ p'.state = .unused ∧ p'.Clear ∧ k.Freed k' pushed ∧
      (↑pushed : Multiset Nat) =
        (if p.pagetable.root ≠ 0 then p.pagetable.tablePages else 0) + (if p.trapframe ≠ 0 then {p.trapframe} else 0) := by
  -- `kfree(p->trapframe)`
  obtain ⟨k₁, p₁, h₁, hfr₁, hp₁⟩ : ∃ k₁ p₁, (if p.trapframe ≠ 0 then k.kfree p.trapframe else .ok k) = .ok k₁ ∧
      k.Freed k₁ p₁ ∧ (↑p₁ : Multiset Nat) = if p.trapframe ≠ 0 then {p.trapframe} else 0 := by
    by_cases h : p.trapframe ≠ 0
    · exact ⟨_, [p.trapframe], by rw [if_pos h, Kmem.kfree_of_isPage (htf h)], Kmem.freed_kfree _ _, by rw [if_pos h]; rfl⟩
    · exact ⟨k, [], by rw [if_neg h], Kmem.Freed.refl k, by rw [if_neg h]; rfl⟩
  -- `proc_freepagetable(p->pagetable, p->sz)`
  obtain ⟨k₂, p₂, h₂, hfr₂, hp₂⟩ : ∃ k₂ p₂,
      (if p.pagetable.root ≠ 0 then p.pagetable.procFreepagetable k₁ p.sz else .ok k₁) = .ok k₂ ∧ k₁.Freed k₂ p₂ ∧
        (↑p₂ : Multiset Nat) = if p.pagetable.root ≠ 0 then p.pagetable.tablePages else 0 := by
    by_cases h : p.pagetable.root ≠ 0
    · obtain ⟨hsz, ho, ⟨tr, tf, hpte⟩, hpg⟩ := hpt h
      obtain ⟨k₂, p₂, hw, hfr, hpushed⟩ := Ptab.procFreepagetable_spec (k := k₁) ho hpte fun q hq => by
        rw [hfr₁.kend_eq]
        exact hpg q hq
      exact ⟨k₂, p₂, by rw [if_pos h, hsz, hw], hfr, by rw [if_pos h, hpushed]⟩
    · exact ⟨k₁, [], by rw [if_neg h], Kmem.Freed.refl k₁, by rw [if_neg h]; rfl⟩
  refine ⟨{ p with
      trapframe := 0, pagetable := Ptab.empty 0, sz := 0, pid := 0, parent := none, chan := 0, killed := false
      xstate := 0, state := .unused }, k₂, p₂ ++ p₁, ?_, rfl, ⟨rfl, rfl, rfl⟩, hfr₁.trans hfr₂,
    by rw [← Multiset.coe_add, hp₁, hp₂]⟩
  rw [freeproc, h₁]
  dsimp only
  rw [h₂]

/-- The slot `freeproc` leaves. -/
theorem freeproc_slot {k k' : Kmem} {p p' : Slot} (h : freeproc k p = .ok (p', k')) :
    p' = { p with
      trapframe := 0, pagetable := Ptab.empty 0, sz := 0, pid := 0, parent := none, chan := 0, killed := false
      xstate := 0, state := .unused } := by
  unfold freeproc at h
  split at h
  · cases h
  · split at h
    · cases h
    · cases h
      rfl

theorem firstUnused_unused {K : Kernel} {i : Fin NPROC} (h : K.firstUnused = some i) : (K.proc i).state = .unused := by
  have := List.find?_some h
  simpa using this

/-- How a failed `allocproc` or `fork` leaves the kernel: every slot's
state as before, every slot in use untouched, every clear slot still clear,
every page back on the free list, and only pages of the free list written. -/
structure Undone (K K' : Kernel) : Prop where
  state : ∀ j, (K'.proc j).state = (K.proc j).state
  used : ∀ j, (K.proc j).state ≠ .unused → K'.proc j = K.proc j
  clear : ∀ j, (K.proc j).Clear → (K'.proc j).Clear
  parent : ∀ j, (K.proc j).parent = none → (K'.proc j).parent = none
  free_eq : (↑K'.kmem.freelist : Multiset Nat) = ↑K.kmem.freelist
  mem_eq : SameOutside K.kmem.mem K'.kmem.mem K.kmem.freelist
  kend_eq : K'.kmem.kend = K.kmem.kend
  nextpid_le : K.nextpid ≤ K'.nextpid

theorem Undone.refl (K : Kernel) : Undone K K :=
  ⟨fun _ => rfl, fun _ _ => rfl, fun _ h => h, fun _ h => h, rfl, SameOutside.refl _ _, rfl, le_rfl⟩

/-- Slot `i`, `UNUSED` before, freed again. -/
theorem Undone.setProc {K K₀ : Kernel} {i : Fin NPROC} (hi : (K.proc i).state = .unused)
    (hother : ∀ j, j ≠ i → K₀.proc j = K.proc j) {p' : Slot} {k' : Kmem}
    (hst : p'.state = .unused) (hc : p'.Clear) (hpar : p'.parent = none)
    (hfree : (↑k'.freelist : Multiset Nat) = ↑K.kmem.freelist) (hmem : SameOutside K.kmem.mem k'.mem K.kmem.freelist)
    (hkend : k'.kend = K.kmem.kend) (hnext : K.nextpid ≤ K₀.nextpid) :
    Undone K (K₀.setProc i p' k') where
  state j := by
    rw [setProc_proc]
    by_cases h : j = i
    · rw [h, Function.update_self, hst, hi]
    · rw [Function.update_of_ne h, hother j h]
  used j hj := by
    have h : j ≠ i := fun e => hj (e ▸ hi)
    rw [setProc_proc, Function.update_of_ne h, hother j h]
  clear j hc' := by
    rw [setProc_proc]
    by_cases h : j = i
    · rw [h, Function.update_self]
      exact hc
    · rw [Function.update_of_ne h, hother j h]
      exact hc'
  parent j hj := by
    rw [setProc_proc]
    by_cases h : j = i
    · rw [h, Function.update_self]
      exact hpar
    · rw [Function.update_of_ne h, hother j h]
      exact hj
  free_eq := hfree
  mem_eq := hmem
  kend_eq := hkend
  nextpid_le := hnext

/-- How `allocproc` leaves the kernel when it returns slot `i`: the slot was
`UNUSED` and is now `USED`, with the next pid, size `0`, its parent as it
was, and a table that maps only the trampoline and its trap frame; its
trap-frame page and the pages of its table are the first `n` (at most
four) of the free list, and only those were written. -/
structure Allocated (K K' : Kernel) (trampoline : Nat) (i : Fin NPROC) (n : Nat) : Prop where
  was_unused : (K.proc i).state = .unused
  other : ∀ j, j ≠ i → K'.proc j = K.proc j
  state : (K'.proc i).state = .used
  pid : (K'.proc i).pid = K.nextpid
  sz : (K'.proc i).sz = 0
  ok : (K'.proc i).pagetable.Ok
  root : (K'.proc i).pagetable.root ≠ 0
  pte : (K'.proc i).pagetable.pte = topPte trampoline (K'.proc i).trapframe
  pages : (K'.proc i).trapframe ::ₘ (K'.proc i).pagetable.tablePages = ↑(K.kmem.freelist.take n)
  free_eq : K'.kmem.freelist = K.kmem.freelist.drop n
  mem_eq : SameOutside K.kmem.mem K'.kmem.mem (K.kmem.freelist.take n)
  kend_eq : K'.kmem.kend = K.kmem.kend
  nextpid : K'.nextpid = K.nextpid + 1
  n_le : n ≤ 4
  parent : (K'.proc i).parent = (K.proc i).parent

/-- **`allocproc()`** over a free list of pages of `[end, PHYSTOP)`, with
every `UNUSED` slot clear: it returns a slot it set up, or `0` with
everything as it was. -/
theorem allocproc_spec {K : Kernel} (hk : KERNBASE ≤ K.kmem.kend) (hpg : ∀ q ∈ K.kmem.freelist, IsPage K.kmem.kend q)
    (hun : ∀ j, (K.proc j).state = .unused → (K.proc j).Clear) (trampoline : Nat) :
    ∃ r K', K.allocproc trampoline = .ok (r, K') ∧
      ((r = none ∧ Undone K K') ∨ ∃ i n, r = some i ∧ Allocated K K' trampoline i n) := by
  cases hi : K.firstUnused with
  | none => exact ⟨none, K, by rw [allocproc, hi], .inl ⟨rfl, Undone.refl K⟩⟩
  | some i =>
    have hui := firstUnused_unused hi
    have hci := hun i hui
    cases hf : K.kmem.freelist with
    | nil =>
      -- no page for the trap frame: `freeproc` has nothing to free
      obtain ⟨p', k', pushed, hfp, hst, hc, hfr, hpushed⟩ := freeproc_spec (k := K.kmem) (p := { K.proc i with
          pid := K.nextpid, state := .used, signalHandlers := fun _ => SIG_DFL, signalsMask := 0, pendingSignals := 0
          stopped := false, signalHandling := false, trapframe := 0 })
        (fun h => absurd rfl h) (fun h => absurd hci.root h)
      have hnil : pushed = [] := by
        rw [← Multiset.coe_eq_zero, hpushed, if_neg (fun h => h hci.root), if_neg (fun h => h rfl), zero_add]
      subst hnil
      refine ⟨none, { K with nextpid := K.nextpid + 1 }.setProc i p' k', ?_, .inl ⟨rfl, Undone.setProc hui (fun _ _ => by rfl)
        hst hc (by rw [freeproc_slot hfp]) (by rw [hfr.free_eq, List.nil_append])
        (hfr.mem_eq.mono fun _ h => absurd h List.not_mem_nil)
        hfr.kend_eq (Int.le_add_one le_rfl)⟩⟩
      rw [allocproc, hi]
      dsimp only
      rw [Kmem.kalloc, hf]
      dsimp only at hfp ⊢
      rw [hfp]
      rfl
    | cons pa rest =>
      have hpa : IsPage K.kmem.kend pa := hpg pa (by rw [hf]; exact List.mem_cons_self)
      have hpa0 : pa ≠ 0 := by
        have := hpa.2.1
        unfold KERNBASE at hk
        omega
      obtain ⟨pt, k', hpp, hkend, ⟨hroot, ho, hpte, n, hn, hpages, hfree, hmem⟩ | ⟨hroot, hfree, hmem, -⟩⟩ :=
        Ptab.procPagetable_spec (k := { K.kmem with freelist := rest, mem := fill K.kmem.mem pa 5 }) hk
          (fun q hq => hpg q (by rw [hf]; exact List.mem_cons_of_mem _ hq)) trampoline pa
      · -- the slot is set up
        obtain ⟨np, hnp⟩ : ∃ np : Slot, np = { K.proc i with
            pid := K.nextpid, state := .used, signalHandlers := fun _ => SIG_DFL, signalsMask := 0, pendingSignals := 0
            stopped := false, signalHandling := false, trapframe := pa
            tf := Trapframe.ofBytes (bytesAt (fill K.kmem.mem pa 5) pa Trapframe.size), pagetable := pt } := ⟨_, rfl⟩
        have hK : ({ K with nextpid := K.nextpid + 1 }.setProc i np k').proc i = np := by
          rw [setProc_proc, Function.update_self]
        refine ⟨some i, { K with nextpid := K.nextpid + 1 }.setProc i np k', ?_,
          .inr ⟨i, 1 + n, rfl, ⟨hui, fun j hj => Function.update_of_ne hj _ _, ?_, ?_, ?_, ?_, ?_, ?_, ?_, ?_, ?_, hkend, rfl,
            by omega, by rw [hK, hnp]⟩⟩⟩
        · rw [allocproc, hi]
          dsimp only
          rw [Kmem.kalloc, hf]
          dsimp only
          rw [hpp]
          dsimp only
          rw [if_neg hroot, hnp]
        · rw [hK, hnp]
        · rw [hK, hnp]
        · rw [hK, hnp]
          exact hci.sz
        · rw [hK, hnp]
          exact ho
        · rw [hK, hnp]
          exact hroot
        · rw [hK, hnp]
          exact hpte
        · rw [hK, hnp]
          show pa ::ₘ pt.tablePages = _
          rw [hpages, hf, Nat.add_comm 1 n, List.take_succ_cons, ← Multiset.cons_coe]
        · show k'.freelist = _
          rw [hfree, hf, Nat.add_comm 1 n, List.drop_succ_cons]
        · show SameOutside K.kmem.mem k'.mem _
          rw [hf, Nat.add_comm 1 n, List.take_succ_cons]
          exact (SameOutside.fill _ _ _).trans hmem
      · -- no table: `freeproc` gives the trap-frame page back
        obtain ⟨p', k'', pushed, hfp, hst, hc, hfr, hpushed⟩ := freeproc_spec (k := k') (p := { K.proc i with
            pid := K.nextpid, state := .used, signalHandlers := fun _ => SIG_DFL, signalsMask := 0, pendingSignals := 0
            stopped := false, signalHandling := false, trapframe := pa
            tf := Trapframe.ofBytes (bytesAt (fill K.kmem.mem pa 5) pa Trapframe.size), pagetable := pt })
          (fun _ => by rw [hkend]; exact hpa) (fun h => absurd hroot h)
        have hp : (↑pushed : Multiset Nat) = {pa} := by
          rw [hpushed, if_neg (fun h => h hroot), if_pos hpa0, zero_add]
        refine ⟨none, { K with nextpid := K.nextpid + 1 }.setProc i p' k'', ?_, .inl ⟨rfl, Undone.setProc hui
          (fun _ _ => by rfl) hst hc (by rw [freeproc_slot hfp]) ?_ ?_ (hfr.kend_eq.trans hkend) (Int.le_add_one le_rfl)⟩⟩
        · rw [allocproc, hi]
          dsimp only
          rw [Kmem.kalloc, hf]
          dsimp only
          rw [hpp]
          dsimp only
          rw [if_pos hroot]
          dsimp only at hfp ⊢
          rw [hfp]
          rfl
        · rw [hfr.free_eq, ← Multiset.coe_add, hp, hfree, hf, Multiset.singleton_add, Multiset.cons_coe]
        · rw [hf]
          refine (((SameOutside.fill _ _ _).trans hmem).trans hfr.mem_eq).mono fun q hq => ?_
          rcases List.mem_append.1 hq with hq | hq
          · exact hq
          · rw [← Multiset.mem_coe, hp, Multiset.mem_singleton] at hq
            rw [hq]
            exact List.mem_cons_self

/-- `allocproc()` returns no slot only when none is `UNUSED` or at most
three pages are free. -/
theorem allocproc_none {K K' : Kernel} (hk : KERNBASE ≤ K.kmem.kend)
    (hpg : ∀ q ∈ K.kmem.freelist, IsPage K.kmem.kend q) {trampoline : Nat}
    (h : K.allocproc trampoline = .ok (none, K')) : K.firstUnused = none ∨ K.kmem.freelist.length ≤ 3 := by
  cases hi : K.firstUnused with
  | none => exact .inl rfl
  | some i =>
    right
    cases hf : K.kmem.freelist with
    | nil => exact Nat.zero_le _
    | cons pa rest =>
      obtain ⟨pt, k', hpp, -, ⟨hroot, -⟩ | ⟨-, -, -, hlen⟩⟩ :=
        Ptab.procPagetable_spec (k := { K.kmem with freelist := rest, mem := fill K.kmem.mem pa 5 }) hk
          (fun q hq => hpg q (by rw [hf]; exact List.mem_cons_of_mem _ hq)) trampoline pa
      · -- the table was built, and `allocproc` returns the slot
        rw [allocproc, hi] at h
        dsimp only at h
        rw [Kmem.kalloc, hf] at h
        dsimp only at h
        rw [hpp] at h
        dsimp only at h
        rw [if_neg hroot] at h
        cases h
      · rw [List.length_cons]
        exact Nat.succ_le_succ hlen

end Kernel

end Xv6
