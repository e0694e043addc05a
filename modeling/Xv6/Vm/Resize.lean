import Xv6.Vm.Tables

/-!
# Growing and shrinking a page table with its pages

`uvmalloc`, `uvmdealloc` and `growproc` of `kernel/vm.c` and
`kernel/proc.c`, over a page table that records the pages of its tables
(`Ptab`). `Grow` proves what `sys_sbrk` does to a process's memory as `walk`
sees it (`VmState`), where the pages `walk` takes for new tables are
forgotten; each function here computes what `Grow`'s does (`walk_vm`,
`uvmallocLoop_vm`, `growproc_vm`), so all of `Grow` holds of it.

What `Grow` cannot say is where the pages went. `growproc_tracks`: the
tables, the user pages and the free list hold after `growproc` exactly the
pages they held before. A round of `uvmalloc` moves the head of the free
list to a new user page and the next pages to new tables (`Alloced`); when
the free list runs out, `uvmdealloc` gives the user pages back, while the
tables made so far stay the table's (`Unalloced.dealloc`).
-/

namespace Xv6

namespace Ptab

open VmState

/-! ## The functions -/

/-- `uvmdealloc(pagetable, oldsz, newsz)`: the new size. -/
def uvmdealloc (pt : Ptab) (k : Kmem) (oldsz newsz : Nat) : Except String (Nat × Ptab × Kmem) :=
  if newsz ≥ oldsz then .ok (oldsz, pt, k)
  else if PGROUNDUP newsz < PGROUNDUP oldsz then
    (pt.uvmunmap k (PGROUNDUP newsz) ((PGROUNDUP oldsz - PGROUNDUP newsz) / PGSIZE) true).map fun r => (newsz, r)
  else .ok (newsz, pt, k)

/-- The loop of `uvmalloc` from `a` on, with `oldsz` already rounded up: the
new size, or `0` once it has undone its work. -/
def uvmallocLoop (pt : Ptab) (k : Kmem) (oldsz newsz a : Nat) : Except String (Nat × Ptab × Kmem) :=
  if a < newsz then
    match k.kalloc with
    | none => (pt.uvmdealloc k a oldsz).map fun r => (0, r.2)
    | some (mem, k) =>
      match pt.mappages { k with mem := fill k.mem mem 0 } a PGSIZE mem (PTE_W ||| PTE_X ||| PTE_R ||| PTE_U) with
      | .error e => .error e
      | .ok (r, pt, k) =>
        if r ≠ 0 then
          match k.kfree mem with
          | .error e => .error e
          | .ok k => (pt.uvmdealloc k a oldsz).map fun r => (0, r.2)
        else uvmallocLoop pt k oldsz newsz (a + PGSIZE)
  else .ok (newsz, pt, k)
termination_by newsz - a
decreasing_by
  have : 0 < PGSIZE := by decide
  omega

/-- `uvmalloc(pagetable, oldsz, newsz)`: the new size, or `0`. -/
def uvmalloc (pt : Ptab) (k : Kmem) (oldsz newsz : Nat) : Except String (Nat × Ptab × Kmem) :=
  if newsz < oldsz then .ok (oldsz, pt, k)
  else pt.uvmallocLoop k (PGROUNDUP oldsz) newsz (PGROUNDUP oldsz)

/-- `growproc(n)` for a process of size `sz` with page table `pt`: its
result, `p->sz` after, the table and memory. The size is read into a
`uint sz`, and `sz + n` is a `uint` sum. -/
def growproc (pt : Ptab) (k : Kmem) (sz : Nat) (n : Int) : Except String (Int × Nat × Ptab × Kmem) :=
  let sz32 := sz % 2 ^ 32
  let newsz := ((sz32 + n) % 2 ^ 32).toNat
  if n > 0 then
    match pt.uvmalloc k sz32 newsz with
    | .error e => .error e
    | .ok (r, pt, k) => if r % 2 ^ 32 = 0 then .ok (-1, sz, pt, k) else .ok (0, r % 2 ^ 32, pt, k)
  else if n < 0 then
    match pt.uvmdealloc k sz32 newsz with
    | .error e => .error e
    | .ok (r, pt, k) => .ok (0, r % 2 ^ 32, pt, k)
  else .ok (0, sz32, pt, k)

/-! ## The same computation as `Grow`'s -/

section View

theorem vm_ofVm (pt : Ptab) (s : VmState) : (pt.setVm s).vm (Kmem.ofVm s) = s := rfl

theorem kalloc_vm (pt : Ptab) (k : Kmem) :
    (pt.vm k).kalloc = k.kalloc.map fun r => (r.1, pt.vm r.2) := by
  unfold VmState.kalloc Kmem.kalloc
  rw [vm_freelist]
  cases k.freelist <;> rfl

theorem kfree_vm (pt : Ptab) (k : Kmem) (pa : Nat) :
    (pt.vm k).kfree pa = (k.kfree pa).map pt.vm := by
  unfold VmState.kfree Kmem.kfree
  rw [vm_kend]
  by_cases h : pa % PGSIZE ≠ 0 ∨ pa < k.kend ∨ pa ≥ PHYSTOP
  · rw [if_pos h, if_pos h]
    rfl
  · rw [if_neg h, if_neg h]
    rfl

theorem walk_vm (pt : Ptab) (k : Kmem) (va : Nat) (alloc : Bool) :
    (pt.walk k va alloc).map (fun r => (r.1, r.2.1.vm r.2.2)) = (pt.vm k).walk va alloc := by
  unfold walk VmState.walk
  split
  · rfl
  · cases VmState.table1 (pt.vm k) (va / 2 ^ 30) alloc with
    | none => rfl
    | some s₁ =>
      dsimp only
      cases VmState.table0 s₁ (va / 2 ^ 21) alloc <;> rfl

theorem mappagesLoop_vm (perm : UInt64) (n : Nat) : ∀ (pt : Ptab) (k : Kmem) (a pa : Nat),
    (pt.mappagesLoop k perm a pa n).map (fun r => (r.1, r.2.1.vm r.2.2)) = (pt.vm k).mappagesLoop perm a pa n := by
  induction n with
  | zero => intro pt k a pa; rfl
  | succ n ih =>
    intro pt k a pa
    rw [mappagesLoop, VmState.mappagesLoop, ← walk_vm]
    rcases pt.walk k a true with e | ⟨b, pt', k'⟩
    · rfl
    · cases b with
      | false => rfl
      | true =>
        dsimp only [Except.map]
        simp only [vm_pte]
        by_cases hv : pt'.pte (a / PGSIZE) &&& PTE_V = 0
        · simp only [hv, ne_eq, not_true_eq_false, if_false]
          by_cases hn : n = 0
          · simp only [hn, if_true]
            rfl
          · simp only [hn, if_false]
            exact ih _ _ _ _
        · simp only [ne_eq, hv, not_false_eq_true, if_true]

theorem mappages_vm (pt : Ptab) (k : Kmem) (va size pa : Nat) (perm : UInt64) :
    (pt.mappages k va size pa perm).map (fun r => (r.1, r.2.1.vm r.2.2)) = (pt.vm k).mappages va size pa perm :=
  mappagesLoop_vm perm _ pt k _ pa

theorem uvmunmap_vm (pt : Ptab) (k : Kmem) (va n : Nat) (doFree : Bool) :
    (pt.uvmunmap k va n doFree).map (fun r => r.1.vm r.2) = (pt.vm k).uvmunmap va n doFree := by
  unfold uvmunmap
  cases (pt.vm k).uvmunmap va n doFree <;> rfl

theorem uvmdealloc_vm (pt : Ptab) (k : Kmem) (oldsz newsz : Nat) :
    (pt.uvmdealloc k oldsz newsz).map (fun r => (r.1, r.2.1.vm r.2.2)) = (pt.vm k).uvmdealloc oldsz newsz := by
  unfold uvmdealloc VmState.uvmdealloc
  split
  · rfl
  · split
    · rw [← uvmunmap_vm]
      cases pt.uvmunmap k (PGROUNDUP newsz) ((PGROUNDUP oldsz - PGROUNDUP newsz) / PGSIZE) true <;> rfl
    · rfl

/-- A round of `Grow`'s loop on the table's view, once `kalloc` and
`mappages` have run. -/
theorem uvmallocLoop_vm_round {pt pt' : Ptab} {k k' k'' : Kmem} {oldsz newsz a mem : Nat} {r : Int} (h : a < newsz)
    (hk : k.kalloc = some (mem, k'))
    (hm : pt.mappages { k' with mem := fill k'.mem mem 0 } a PGSIZE mem (PTE_W ||| PTE_X ||| PTE_R ||| PTE_U) =
      .ok (r, pt', k'')) :
    (pt.vm k).uvmallocLoop oldsz newsz a =
      if r ≠ 0 then
        match (pt'.vm k'').kfree mem with
        | .error e => .error e
        | .ok s => (s.uvmdealloc a oldsz).map fun r => (0, r.2)
      else (pt'.vm k'').uvmallocLoop oldsz newsz (a + PGSIZE) := by
  have hm' : (pt.vm { k' with mem := fill k'.mem mem 0 }).mappages a PGSIZE mem (PTE_W ||| PTE_X ||| PTE_R ||| PTE_U) =
      .ok (r, pt'.vm k'') := by rw [← mappages_vm, hm]; rfl
  rw [VmState.uvmallocLoop, if_pos h, kalloc_vm, hk, Option.map_some]
  dsimp only
  rw [show ({ pt.vm k' with mem := fill (pt.vm k').mem mem 0 } : VmState) = pt.vm { k' with mem := fill k'.mem mem 0 }
    from rfl]
  exact hm' ▸ rfl

/-- **`uvmalloc`'s loop over the table computes `Grow`'s.** -/
theorem uvmallocLoop_vm (pt : Ptab) (k : Kmem) (oldsz newsz a : Nat) :
    (pt.uvmallocLoop k oldsz newsz a).map (fun r => (r.1, r.2.1.vm r.2.2)) = (pt.vm k).uvmallocLoop oldsz newsz a := by
  fun_induction pt.uvmallocLoop k oldsz newsz a with
  | case1 pt k a h hk =>
    rw [VmState.uvmallocLoop, if_pos h, kalloc_vm, hk, Option.map_none, ← uvmdealloc_vm]
    cases pt.uvmdealloc k a oldsz <;> rfl
  | case2 pt k a h mem k' hk e hm =>
    have hm' : (pt.vm { k' with mem := fill k'.mem mem 0 }).mappages a PGSIZE mem (PTE_W ||| PTE_X ||| PTE_R ||| PTE_U) =
        .error e := by rw [← mappages_vm, hm]; rfl
    rw [VmState.uvmallocLoop, if_pos h, kalloc_vm, hk, Option.map_some]
    dsimp only
    rw [show ({ pt.vm k' with mem := fill (pt.vm k').mem mem 0 } : VmState) = pt.vm { k' with mem := fill k'.mem mem 0 }
      from rfl, hm']
    rfl
  | case3 pt k a h mem k' hk r pt' k'' hm hr e hf =>
    rw [uvmallocLoop_vm_round h hk hm, if_pos hr, kfree_vm, hf]
    rfl
  | case4 pt k a h mem k' hk r pt' k'' hm hr k₁ hf =>
    rw [uvmallocLoop_vm_round h hk hm, if_pos hr, kfree_vm, hf]
    dsimp only [Except.map]
    rw [← uvmdealloc_vm]
    cases pt'.uvmdealloc k₁ a oldsz <;> rfl
  | case5 pt k a h mem k' hk r pt' k'' hm hr ih =>
    rw [uvmallocLoop_vm_round h hk hm, if_neg hr, ih]
  | case6 pt k a h =>
    rw [VmState.uvmallocLoop, if_neg h]
    rfl

theorem uvmalloc_vm (pt : Ptab) (k : Kmem) (oldsz newsz : Nat) :
    (pt.uvmalloc k oldsz newsz).map (fun r => (r.1, r.2.1.vm r.2.2)) = (pt.vm k).uvmalloc oldsz newsz := by
  unfold uvmalloc VmState.uvmalloc
  split
  · rfl
  · exact uvmallocLoop_vm pt k _ _ _

/-- **`growproc` over the table computes `Grow`'s.** -/
theorem growproc_vm (pt : Ptab) (k : Kmem) (sz : Nat) (n : Int) :
    (pt.growproc k sz n).map (fun r => (r.1, r.2.1, r.2.2.1.vm r.2.2.2)) = (pt.vm k).growproc sz n := by
  unfold growproc VmState.growproc
  dsimp only
  split
  · rw [← uvmalloc_vm]
    generalize pt.uvmalloc k _ _ = x
    rcases x with e | ⟨r, pt', k'⟩
    · rfl
    · dsimp only [Except.map]
      by_cases hr : r % 2 ^ 32 = 0
      · rw [if_pos hr, if_pos hr]
      · rw [if_neg hr, if_neg hr]
  · split
    · rw [← uvmdealloc_vm]
      generalize pt.uvmdealloc k _ _ = x
      rcases x with e | ⟨r, pt', k'⟩ <;> rfl
    · rfl

end View

/-! ## Where the pages go -/

section Track

variable {pt₀ pt : Ptab} {k₀ k : Kmem} {L A m : Nat}

/-- `uvmdealloc` makes no table: it is `Grow`'s on the table's entries. -/
theorem uvmdealloc_eq (pt : Ptab) (k : Kmem) (oldsz newsz : Nat) :
    pt.uvmdealloc k oldsz newsz = ((pt.vm k).uvmdealloc oldsz newsz).map fun r => (r.1, pt.setVm r.2, Kmem.ofVm r.2) := by
  unfold uvmdealloc VmState.uvmdealloc uvmunmap
  split
  · rfl
  · split
    · cases (pt.vm k).uvmunmap (PGROUNDUP newsz) ((PGROUNDUP oldsz - PGROUNDUP newsz) / PGSIZE) true <;> rfl
    · rfl

theorem uvmallocLoop_done {oldsz newsz a : Nat} (h : ¬a < newsz) : pt.uvmallocLoop k oldsz newsz a = .ok (newsz, pt, k) := by
  rw [uvmallocLoop, if_neg h]

theorem uvmallocLoop_nil {oldsz newsz a : Nat} (h : a < newsz) (hf : k.freelist = []) :
    pt.uvmallocLoop k oldsz newsz a = (pt.uvmdealloc k a oldsz).map fun r => (0, r.2) := by
  rw [uvmallocLoop, if_pos h, Kmem.kalloc, hf]

theorem uvmallocLoop_mapped {oldsz newsz a pa : Nat} {rest : List Nat} {pt' : Ptab} {k' : Kmem} (h : a < newsz)
    (hf : k.freelist = pa :: rest)
    (hm : pt.mappages { k with freelist := rest, mem := fill (fill k.mem pa 5) pa 0 } a PGSIZE pa
      (PTE_W ||| PTE_X ||| PTE_R ||| PTE_U) = .ok (0, pt', k')) :
    pt.uvmallocLoop k oldsz newsz a = pt'.uvmallocLoop k' oldsz newsz (a + PGSIZE) := by
  rw [uvmallocLoop, if_pos h, Kmem.kalloc, hf]
  dsimp only
  rw [hm]
  dsimp only
  rw [if_neg (by decide)]

theorem uvmallocLoop_unmapped {oldsz newsz a pa : Nat} {rest : List Nat} {pt' : Ptab} {k' k'' : Kmem} {r : Int}
    (h : a < newsz) (hf : k.freelist = pa :: rest)
    (hm : pt.mappages { k with freelist := rest, mem := fill (fill k.mem pa 5) pa 0 } a PGSIZE pa
      (PTE_W ||| PTE_X ||| PTE_R ||| PTE_U) = .ok (r, pt', k')) (hr : r ≠ 0) (hk : k'.kfree pa = .ok k'') :
    pt.uvmallocLoop k oldsz newsz a = (pt'.uvmdealloc k'' a oldsz).map fun r => (0, r.2) := by
  rw [uvmallocLoop, if_pos h, Kmem.kalloc, hf]
  dsimp only
  rw [hm]
  dsimp only
  rw [if_pos hr, hk]

/-- What `uvmalloc`'s loop has done when it reaches page `A`, having started
at page `L` from `pt₀` over `k₀`: what `Grow`'s loop has done, with the
tables kept together, and the first `m` pages of the free list now the new
tables and the new pages `[L, A)`. -/
structure Alloced (pt₀ : Ptab) (k₀ : Kmem) (pt : Ptab) (k : Kmem) (L A m : Nat) : Prop where
  grown : Grown (pt₀.vm k₀) (pt.vm k) L A m
  ok : pt.Ok
  root_eq : pt.root = pt₀.root
  pages : pt.tablePages + ↑((pt.vm k).physPages L (A - L)) = pt₀.tablePages + ↑(k₀.freelist.take m)

/-- What `uvmalloc` has to undo when it runs out at page `A`: the new pages
`[L, A)`, which with the tables and the free list make up what `pt₀` and
`k₀` had. -/
structure Unalloced (pt₀ : Ptab) (k₀ : Kmem) (pt : Ptab) (k : Kmem) (L A : Nat) : Prop where
  undo : Undo (pt₀.vm k₀) (pt.vm k) L A
  ok : pt.Ok
  root_eq : pt.root = pt₀.root
  pages : pt.tablePages + ↑((pt.vm k).physPages L (A - L)) + ↑k.freelist = pt₀.tablePages + ↑k₀.freelist

/-- How `uvmalloc` leaves a table it could not grow: every PTE as before,
and each page it took either back on the free list or one of the tables
`walk` added. -/
structure Restored (pt₀ : Ptab) (k₀ : Kmem) (pt : Ptab) (k : Kmem) (L : Nat) : Prop where
  ok : pt.Ok
  root_eq : pt.root = pt₀.root
  kend_eq : k.kend = k₀.kend
  good : (pt.vm k).Good (L * PGSIZE)
  pte_eq : pt.pte = pt₀.pte
  pages : pt.tablePages + ↑k.freelist = pt₀.tablePages + ↑k₀.freelist
  mem_eq : SameOutside k₀.mem k.mem k₀.freelist

theorem Alloced.start_self (ho : pt₀.Ok) (hg : (pt₀.vm k₀).Good (L * PGSIZE)) : Alloced pt₀ k₀ pt₀ k₀ L L 0 :=
  ⟨Grown.start_self hg, ho, rfl, by simp [physPages]⟩

/-- The physical pages of `[L, A)` are read from the PTEs alone. -/
theorem physPages_congr {s s' : VmState} {lo n : Nat} (h : ∀ v, lo ≤ v → v < lo + n → s'.pte v = s.pte v) :
    s'.physPages lo n = s.physPages lo n :=
  List.map_congr_left fun v hv => by
    rw [List.mem_range'_1] at hv
    rw [h v hv.1 hv.2]

/-- **Running out of pages** for a new user page: everything taken so far
goes back, the new pages by `uvmdealloc`, the tables staying. -/
theorem Alloced.undo (ha : Alloced pt₀ k₀ pt k L A m) (hf : k.freelist = []) : Unalloced pt₀ k₀ pt k L A := by
  have hdrop : k₀.freelist.drop m = [] := ha.grown.free_eq.symm.trans hf
  refine ⟨ha.grown.undo, ha.ok, ha.root_eq, ?_⟩
  rw [ha.pages, hf, Multiset.coe_nil, add_zero, ← List.take_append_drop m k₀.freelist, hdrop, List.append_nil,
    List.take_take, min_self]

section Round

variable (ha : Alloced pt₀ k₀ pt k L A m) {pa : Nat} {rest : List Nat} (hf : k.freelist = pa :: rest)
include ha hf

theorem Alloced.drop_eq : k₀.freelist.drop m = pa :: rest := ha.grown.drop_eq hf

theorem Alloced.take_succ (n : Nat) : k₀.freelist.take (m + 1 + n) = k₀.freelist.take m ++ pa :: rest.take n :=
  ha.grown.take_succ hf n

/-- **A round that maps its page**: the head of the free list becomes page
`A`, after the `n` tables `walk` took, which are now the table's. -/
theorem Alloced.map_page {pt' : Ptab} {k' : Kmem} {n : Nat}
    (hgs : Grows (pt.vm { k with freelist := rest, mem := fill (fill k.mem pa 5) pa 0 }) (pt'.vm k') n) (hn : n ≤ 2)
    (ho' : pt'.Ok) (hroot : pt'.root = pt.root) (hpages : pt'.tablePages = pt.tablePages + ↑(rest.take n))
    (hl0 : pt'.l0 (A * PGSIZE / 2 ^ 21) = true) :
    Alloced pt₀ k₀ { pt' with pte := fun v => if v = A * PGSIZE / PGSIZE then leafPte pa else pt'.pte v } k' L (A + 1)
      (m + 1 + n) := by
  have hgr := ha.grown.map_page hf hgs hn hl0
  have hLA := ha.grown.le
  have hpa : IsPage k₀.kend pa :=
    ha.grown.start.free_page pa (List.mem_of_mem_drop ((ha.grown.drop_eq hf).symm ▸ List.mem_cons_self))
  have hpte : pt'.pte = pt.pte := hgs.pte_eq
  -- the physical pages of `[L, A + 1)`: those of `[L, A)`, then `pa`
  have hphys : physPages ({ pt' with pte := fun v => if v = A * PGSIZE / PGSIZE then leafPte pa else pt'.pte v }.vm k')
      L (A + 1 - L) = (pt.vm k).physPages L (A - L) ++ [pa] := by
    unfold physPages
    rw [show A + 1 - L = A - L + 1 by omega, List.range'_1_concat, List.map_append, List.map_singleton,
      show L + (A - L) = A by omega]
    refine congrArg₂ (· ++ ·) (List.map_congr_left fun v hv => ?_) ?_
    · rw [List.mem_range'_1] at hv
      show (PTE2PA (if v = A * PGSIZE / PGSIZE then _ else pt'.pte v)).toNat = _
      rw [page_div, if_neg (by omega), hpte]
      rfl
    · show [(PTE2PA (if A = A * PGSIZE / PGSIZE then _ else pt'.pte A)).toNat] = _
      rw [page_div, if_pos rfl, toNat_PTE2PA_leafPte hpa.1 (lt_of_lt_of_le hpa.2.2 (by decide))]
  refine ⟨hgr, ho'.set_pte hl0 _, hroot.trans ha.root_eq, ?_⟩
  show pt'.tablePages + _ = _
  rw [hphys, ha.take_succ hf, hpages, ← Multiset.coe_add, ← Multiset.coe_add, Multiset.coe_singleton,
    ← Multiset.cons_coe pa (rest.take n)]
  calc pt.tablePages + ↑(rest.take n) + (↑((pt.vm k).physPages L (A - L)) + {pa})
      = (pt.tablePages + ↑((pt.vm k).physPages L (A - L))) + (pa ::ₘ ↑(rest.take n)) := by
        rw [← Multiset.singleton_add]
        abel
    _ = pt₀.tablePages + (↑(k₀.freelist.take m) + pa ::ₘ ↑(rest.take n)) := by rw [ha.pages, add_assoc]

/-- **A round whose `walk` ran out**: `kfree` takes the page back; the
tables `walk` made stay, and what is left to undo is the earlier pages. -/
theorem Alloced.undo_of_full {pt' : Ptab} {k' : Kmem} {n : Nat}
    (hgs : Grows (pt.vm { k with freelist := rest, mem := fill (fill k.mem pa 5) pa 0 }) (pt'.vm k') n) (hn : n ≤ 1)
    (ho' : pt'.Ok) (hroot : pt'.root = pt.root) (hpages : pt'.tablePages = pt.tablePages + ↑(rest.take n))
    (hnil : k'.freelist = []) :
    ∃ k'', k'.kfree pa = .ok k'' ∧ Unalloced pt₀ k₀ pt' k'' L A := by
  obtain ⟨s'', hkf, hu, -⟩ := ha.grown.undo_of_full hf hgs hn hnil
  have hpage : IsPage k'.kend pa := by
    rw [show k'.kend = (pt'.vm k').kend from rfl, hgs.kend_eq]
    exact ha.grown.good.free_page pa (by rw [vm_freelist, hf]; exact List.mem_cons_self)
  have hk := Kmem.kfree_of_isPage hpage
  -- the state `Grow` frees into is the table's view of the one `kfree` returns
  have he : pt'.vm { k' with mem := fill k'.mem pa 1, freelist := pa :: k'.freelist } = s'' := by
    have := kfree_vm pt' k' pa
    rw [hkf, hk] at this
    exact (Except.ok.inj this).symm
  have hrest : rest.take n = rest := List.take_of_length_le (List.drop_eq_nil_iff.1 (hgs.free_eq.symm.trans hnil))
  have hphys : (pt'.vm { k' with mem := fill k'.mem pa 1, freelist := pa :: k'.freelist }).physPages L (A - L) =
      (pt.vm k).physPages L (A - L) := physPages_congr fun v _ _ => congrFun hgs.pte_eq v
  refine ⟨_, hk, he ▸ hu, ho', hroot.trans ha.root_eq, ?_⟩
  show pt'.tablePages + _ + ↑(pa :: k'.freelist) = _
  rw [hphys, hnil, hpages, hrest, ← List.take_append_drop m k₀.freelist, ha.drop_eq hf, ← Multiset.coe_add,
    ← add_assoc, ← ha.pages, ← Multiset.cons_coe, ← Multiset.cons_coe, Multiset.coe_nil, ← Multiset.singleton_add,
    ← Multiset.singleton_add pa ↑rest]
  abel

end Round

/-- Each page the loop mapped took a page off the free list, or was a
page of the tables it started with: the loop maps at most as many pages as
there were free pages and table pages. -/
theorem Alloced.count (ha : Alloced pt₀ k₀ pt k L A m) :
    A - L + Multiset.card pt.tablePages = Multiset.card pt₀.tablePages + min m k₀.freelist.length := by
  have h := congrArg Multiset.card ha.pages
  simp only [Multiset.card_add, Multiset.coe_card, physPages, List.length_map, List.length_range',
    List.length_take] at h
  omega

/-- A page left on the free list is one the loop has not taken. -/
theorem Alloced.taken_lt (ha : Alloced pt₀ k₀ pt k L A m) (hne : k.freelist ≠ []) : m < k₀.freelist.length := by
  have hd : (pt₀.vm k₀).freelist.drop m ≠ [] := by rw [← ha.grown.free_eq]; exact hne
  rw [Ne, List.drop_eq_nil_iff, Nat.not_le] at hd
  exact hd

/-- **One round of `uvmalloc`** at page `A`: it maps the page and goes on,
or it ran out of pages and goes to undo what it mapped. -/
theorem Alloced.round (ha : Alloced pt₀ k₀ pt k L A m) {newsz : Nat} (hA : A * PGSIZE < newsz)
    (hT : k.freelist ≠ [] → A + 1 ≤ TRAPFRAME / PGSIZE) :
    (∃ pt' k' n, pt.uvmallocLoop k (L * PGSIZE) newsz (A * PGSIZE) =
          pt'.uvmallocLoop k' (L * PGSIZE) newsz ((A + 1) * PGSIZE) ∧ Alloced pt₀ k₀ pt' k' L (A + 1) (m + 1 + n)) ∨
      (∃ pt' k', pt.uvmallocLoop k (L * PGSIZE) newsz (A * PGSIZE) =
          (pt'.uvmdealloc k' (A * PGSIZE) (L * PGSIZE)).map (fun r => (0, r.2)) ∧ Unalloced pt₀ k₀ pt' k' L A) := by
  cases hf : k.freelist with
  | nil => exact .inr ⟨pt, k, uvmallocLoop_nil hA hf, ha.undo hf⟩
  | cons pa rest =>
    have hT := hT (by rw [hf]; exact List.cons_ne_nil _ _)
    have ha' : A * PGSIZE < MAXVA.toNat := by
      unfold TRAPFRAME at hT
      rw [toNat_MAXVA] at hT ⊢
      unfold PGSIZE at hT ⊢
      omega
    have hz : pt.pte (A * PGSIZE / PGSIZE) = 0 := by
      rw [page_div]
      exact ha.grown.good.unmapped A (by rw [npages_mul]) (by omega)
    obtain ⟨pt', k', n, hgs, hn, ho', hroot, hpages, ⟨hm, hl0⟩ | ⟨hm, hnil, hn₁⟩⟩ :=
      mappages_page (k := { k with freelist := rest, mem := fill (fill k.mem pa 5) pa 0 }) ha.ok ha'
        (Nat.mul_mod_left A PGSIZE) hz pa (PTE_W ||| PTE_X ||| PTE_R ||| PTE_U)
    · refine .inl ⟨_, k', n, ?_, ha.map_page hf hgs hn ho' hroot hpages hl0⟩
      rw [uvmallocLoop_mapped hA hf hm, Nat.succ_mul]
      rfl
    · obtain ⟨k'', hkf, hu⟩ := ha.undo_of_full hf hgs hn₁ ho' hroot hpages hnil
      exact .inr ⟨pt', k'', uvmallocLoop_unmapped hA hf hm (by decide) hkf, hu⟩

/-- **Undoing**: `uvmdealloc` from page `A` back to page `L` leaves every PTE
as `pt₀` had it; the pages `[L, A)` go back on the free list. -/
theorem Unalloced.dealloc (hu : Unalloced pt₀ k₀ pt k L A) (hA : A ≤ TRAPFRAME / PGSIZE) :
    ∃ r pt' k', pt.uvmdealloc k (A * PGSIZE) (L * PGSIZE) = .ok (r, pt', k') ∧ Restored pt₀ k₀ pt' k' L := by
  rcases Nat.eq_or_lt_of_le hu.undo.le with hLA | hLA
  · subst hLA
    refine ⟨_, pt, k, by rw [uvmdealloc, if_pos (le_refl _)], hu.ok, hu.root_eq, hu.undo.kend_eq, hu.undo.good, ?_, ?_,
      hu.undo.mem_eq⟩
    · funext v
      exact hu.undo.pte_out v (by omega)
    · simpa [physPages] using hu.pages
  · obtain ⟨s', hs', hg', hkend, hl1, hl0, hpte, hfree, hmem⟩ :=
      uvmdealloc_shrink hu.undo.good (Nat.mul_lt_mul_of_pos_right hLA (by decide))
    rw [npages_mul, npages_mul] at hpte hfree hmem
    refine ⟨L * PGSIZE, pt.setVm s', Kmem.ofVm s', by rw [uvmdealloc_eq, hs']; rfl,
      ⟨⟨hg'.l1_of_l0, hg'.l0_of_pte, fun i hi => hu.ok.l1_lt i (by rw [← vm_l1 pt k, ← hl1]; exact hi)⟩, hu.root_eq,
        hkend.trans hu.undo.kend_eq, hg', ?_, ?_, ?_⟩⟩
    · funext v
      show s'.pte v = _
      rw [hpte]
      dsimp only
      split
      · -- the pages `[L, A)` had no PTE before
        rename_i hv
        exact (hu.undo.start.unmapped v (by rw [npages_mul]; exact hv.1) (by omega)).symm
      · exact hu.undo.pte_out v (by assumption)
    · show (pt.setVm s').tablePages + ↑s'.freelist = _
      rw [tablePages_setVm hl1 hl0, hfree, ← Multiset.coe_add, Multiset.coe_reverse, ← hu.pages, add_assoc]
      rfl
    · -- the pages freed are pages `[L, A)` took from the free list
      refine (hu.undo.mem_eq.trans hmem).mono fun q hq => ?_
      rcases List.mem_append.1 hq with hq | hq
      · exact hq
      · obtain ⟨v, h₁, h₂, rfl⟩ := mem_physPages.1 hq
        exact hu.undo.data v h₁ (by omega)

/-- **`uvmalloc`'s loop** from page `A` on: it reaches the last page with
every page mapped, or it ran out of pages, undid its work and returns `0`. -/
theorem uvmallocLoop_tracks {newsz : Nat}
    (hT : npages newsz ≤ TRAPFRAME / PGSIZE ∨ L + Multiset.card pt₀.tablePages + k₀.freelist.length < TRAPFRAME / PGSIZE)
    (r : Nat) :
    ∀ (pt : Ptab) (k : Kmem) (A m : Nat), npages newsz - A = r → A ≤ npages newsz → Alloced pt₀ k₀ pt k L A m →
      (∃ pt' k' m', pt.uvmallocLoop k (L * PGSIZE) newsz (A * PGSIZE) = .ok (newsz, pt', k') ∧
          Alloced pt₀ k₀ pt' k' L (npages newsz) m') ∨
      (∃ pt' k', pt.uvmallocLoop k (L * PGSIZE) newsz (A * PGSIZE) = .ok (0, pt', k') ∧ Restored pt₀ k₀ pt' k' L) := by
  induction r with
  | zero =>
    intro pt k A m hr hA ha
    have hAe : A = npages newsz := by omega
    subst hAe
    refine .inl ⟨pt, k, m, uvmallocLoop_done ?_, ha⟩
    unfold npages PGSIZE
    omega
  | succ r ih =>
    intro pt k A m hr hA ha
    have hlt : A * PGSIZE < newsz := by
      have : A < npages newsz := by omega
      unfold npages at this
      unfold PGSIZE at this ⊢
      omega
    -- the page to map lies below the trap frame: it is below `newsz`, or
    -- the free list runs out before the loop gets there
    have hcount := ha.count
    have hle := ha.grown.le
    have hround : k.freelist ≠ [] → A + 1 ≤ TRAPFRAME / PGSIZE := fun hne => by
      have := ha.taken_lt hne
      omega
    have hAT : A ≤ TRAPFRAME / PGSIZE := by omega
    rcases ha.round hlt hround with ⟨pt', k', n, he, ha'⟩ | ⟨pt', k', he, hu⟩
    · rw [he]
      exact ih pt' k' (A + 1) (m + 1 + n) (by omega) (by omega) ha'
    · obtain ⟨r', pt'', k'', hd, hres⟩ := hu.dealloc hAT
      exact .inr ⟨pt'', k'', by rw [he, hd]; rfl, hres⟩

/-- **`uvmalloc`** to a size `newsz ≥ oldsz`. -/
theorem uvmalloc_tracks {sz newsz : Nat} (ho : pt₀.Ok) (hg : (pt₀.vm k₀).Good sz) (hle : sz ≤ newsz)
    (hT : npages newsz ≤ TRAPFRAME / PGSIZE ∨
      npages sz + Multiset.card pt₀.tablePages + k₀.freelist.length < TRAPFRAME / PGSIZE) :
    (∃ pt k m, pt₀.uvmalloc k₀ sz newsz = .ok (newsz, pt, k) ∧ Alloced pt₀ k₀ pt k (npages sz) (npages newsz) m) ∨
      (∃ pt k, pt₀.uvmalloc k₀ sz newsz = .ok (0, pt, k) ∧ Restored pt₀ k₀ pt k (npages sz)) := by
  rw [uvmalloc, if_neg (Nat.not_lt.2 hle), PGROUNDUP_eq]
  exact uvmallocLoop_tracks hT _ pt₀ k₀ (npages sz) 0 rfl (Nat.div_le_div_right (by omega))
    (Alloced.start_self ho (hg.congr (npages_mul _)))

end Track

/-! ## `growproc` -/

section Resize

variable {pt pt' : Ptab} {k k' : Kmem} {sz sz' : Nat}

/-- What `growproc` leaves of a process of size `sz` with table `pt` over
`k`, now of size `sz'` with table `pt'` over `k'`: the tables hang together
under the same root and keep `Grow`'s invariant at the new size; each new
page is a zeroed page; each page below both sizes keeps its PTE and its
bytes, and no PTE above both sizes changed; the tables, the user pages
and the free list hold the same pages as before; and only bytes of pages
that were free or were the old user pages were written. -/
structure Resized (pt : Ptab) (k : Kmem) (sz : Nat) (pt' : Ptab) (k' : Kmem) (sz' : Nat) : Prop where
  ok : pt'.Ok
  root_eq : pt'.root = pt.root
  kend_eq : k'.kend = k.kend
  good : (pt'.vm k').Good sz'
  zero : ∀ v, npages sz ≤ v → v < npages sz' → ∀ o < PGSIZE, k'.mem ((PTE2PA (pt'.pte v)).toNat + o) = 0
  kept : ∀ v, v < npages sz → v < npages sz' → pt'.pte v = pt.pte v ∧
    ∀ o < PGSIZE, k'.mem ((PTE2PA (pt.pte v)).toNat + o) = k.mem ((PTE2PA (pt.pte v)).toNat + o)
  pte_above : ∀ v, npages sz ≤ v → npages sz' ≤ v → pt'.pte v = pt.pte v
  pages : pt'.tablePages + ↑((pt'.vm k').physPages 0 (npages sz')) + ↑k'.freelist =
    pt.tablePages + ↑((pt.vm k).physPages 0 (npages sz)) + ↑k.freelist
  mem_eq : SameOutside k.mem k'.mem (k.freelist ++ (pt.vm k).physPages 0 (npages sz))

theorem physPages_append (s : VmState) (lo a b : Nat) : s.physPages lo (a + b) = s.physPages lo a ++ s.physPages (lo + a) b := by
  unfold physPages
  rw [← List.range'_append_1, List.map_append]

theorem Resized.refl (ho : pt.Ok) (hg : (pt.vm k).Good sz) : Resized pt k sz pt k sz :=
  ⟨ho, rfl, rfl, hg, fun _ h₁ h₂ => absurd h₂ (by omega), fun _ _ _ => ⟨rfl, fun _ _ => rfl⟩, fun _ _ _ => rfl, rfl,
    SameOutside.refl _ _⟩

/-- A user page below the old size lies on no page of a list of free pages. -/
theorem kept_page {s : VmState} {m' : Nat → UInt8} {pas : List Nat} (hg : s.Good sz) (hm : SameOutside s.mem m' pas)
    (hal : ∀ q ∈ pas, q % PGSIZE = 0) {v : Nat} (hv : v < npages sz) (hnot : (PTE2PA (s.pte v)).toNat ∉ pas) :
    ∀ o < PGSIZE, m' ((PTE2PA (s.pte v)).toNat + o) = s.mem ((PTE2PA (s.pte v)).toNat + o) := fun o ho =>
  hm.page hal (hg.pa_page v hv).1 hnot ⟨by omega, by omega⟩

/-- A growth from page `npages sz` to page `npages sz'` that mapped every page. -/
theorem Resized.of_alloced {m : Nat} (hle : sz ≤ sz') (ha : Alloced pt k pt' k' (npages sz) (npages sz') m) :
    Resized pt k sz pt' k' sz' := by
  have hnp : npages sz ≤ npages sz' := Nat.div_le_div_right (by omega)
  have hfree : k'.freelist = k.freelist.drop m := ha.grown.free_eq
  have hg := ha.grown.start.congr (npages_mul _).symm
  -- the pages below the old size keep their PTEs
  have hlow : (pt'.vm k').physPages 0 (npages sz) = (pt.vm k).physPages 0 (npages sz) :=
    physPages_congr fun v _ hv => ha.grown.pte_out v (by omega)
  refine ⟨ha.ok, ha.root_eq, ha.grown.kend_eq, ha.grown.good.congr (npages_mul _).symm, fun v h₁ h₂ => ?_,
    fun v h₁ _ => ⟨ha.grown.pte_out v (by omega), kept_page hg ha.grown.mem_eq ?_ h₁ ?_⟩,
    fun v hv _ => ha.grown.pte_out v (by omega), ?_,
    ha.grown.mem_eq.mono fun q hq => List.mem_append_left _ (List.mem_of_mem_take hq)⟩
  · intro o ho
    obtain ⟨pa, hpa, hpte, hz⟩ := ha.grown.new_page v h₁ h₂
    have hpage := ha.grown.start.free_page pa (List.mem_of_mem_take hpa)
    rw [show pt'.pte v = leafPte pa from hpte, toNat_PTE2PA_leafPte hpage.1 (lt_of_lt_of_le hpage.2.2 (by decide))]
    exact hz _ (by omega) (by omega)
  · exact fun q hq => (ha.grown.start.free_page q (List.mem_of_mem_take hq)).1
  · exact fun hq => hg.pa_free v h₁ (List.mem_of_mem_take hq)
  rw [show npages sz' = npages sz + (npages sz' - npages sz) by omega, physPages_append, hlow, Nat.zero_add,
    ← Multiset.coe_add, hfree]
  calc pt'.tablePages + (↑((pt.vm k).physPages 0 (npages sz)) + ↑((pt'.vm k').physPages (npages sz) (npages sz' - npages sz)))
        + ↑(k.freelist.drop m)
      = (pt'.tablePages + ↑((pt'.vm k').physPages (npages sz) (npages sz' - npages sz))) +
          ↑((pt.vm k).physPages 0 (npages sz)) + ↑(k.freelist.drop m) := by abel
    _ = pt.tablePages + ↑((pt.vm k).physPages 0 (npages sz)) + (↑(k.freelist.take m) + ↑(k.freelist.drop m)) := by
        rw [ha.pages]
        abel
    _ = _ := by rw [Multiset.coe_add, List.take_append_drop]

/-- A growth that ran out of pages and was undone. -/
theorem Resized.of_restored (hg : (pt.vm k).Good sz) (hr : Restored pt k pt' k' (npages sz)) : Resized pt k sz pt' k' sz := by
  have hphys : (pt'.vm k').physPages 0 (npages sz) = (pt.vm k).physPages 0 (npages sz) :=
    physPages_congr fun v _ _ => congrFun hr.pte_eq v
  refine ⟨hr.ok, hr.root_eq, hr.kend_eq, hr.good.congr (npages_mul _).symm, fun _ h₁ h₂ => absurd h₂ (by omega),
    fun v hv _ => ⟨congrFun hr.pte_eq v, kept_page hg hr.mem_eq (fun q hq => (hg.free_page q hq).1) hv (hg.pa_free v hv)⟩,
    fun v _ _ => congrFun hr.pte_eq v, ?_, hr.mem_eq.mono fun q hq => List.mem_append_left _ hq⟩
  rw [hphys, add_right_comm, hr.pages, add_right_comm]

/-- **`uvmdealloc` to a smaller size**: the pages from `PGROUNDUP(newsz)` on
go back on the free list, and the tables stay. -/
theorem Resized.of_shrink (ho : pt.Ok) (hg : (pt.vm k).Good sz) (hlt : sz' < sz) :
    ∃ pt' k', pt.uvmdealloc k sz sz' = .ok (sz', pt', k') ∧ Resized pt k sz pt' k' sz' := by
  obtain ⟨s', hs', hg', hkend, hl1, hl0, hpte, hfree, hmem⟩ := uvmdealloc_shrink hg hlt
  have hle : npages sz' ≤ npages sz := Nat.div_le_div_right (by omega)
  have hlow : s'.physPages 0 (npages sz') = (pt.vm k).physPages 0 (npages sz') :=
    physPages_congr fun v _ hv => by rw [hpte]; exact if_neg (by omega)
  refine ⟨pt.setVm s', Kmem.ofVm s', by rw [uvmdealloc_eq, hs']; rfl,
    ⟨⟨hg'.l1_of_l0, hg'.l0_of_pte, fun i hi => ho.l1_lt i (by rw [← vm_l1 pt k, ← hl1]; exact hi)⟩, rfl, hkend, hg',
      fun _ h₁ h₂ => absurd h₂ (by omega), fun v h₁ h₂ => ⟨by show s'.pte v = _; rw [hpte]; exact if_neg (by omega),
        kept_page hg hmem ?_ h₁ ?_⟩,
      fun v hv _ => by show s'.pte v = _; rw [hpte]; exact if_neg (by omega), ?_, hmem.mono fun q hq => ?_⟩⟩
  · intro q hq
    obtain ⟨w, -, hw, rfl⟩ := mem_physPages.1 hq
    exact (hg.pa_page w (by omega)).1
  · -- the freed pages are none of the pages kept
    intro hq
    obtain ⟨w, hw₁, hw₂, he⟩ := mem_physPages.1 hq
    have := hg.pa_inj w (by omega) v h₁ (UInt64.toNat_inj.1 he)
    omega
  · show (pt.setVm s').tablePages + ↑(s'.physPages 0 (npages sz')) + ↑s'.freelist = _
    rw [tablePages_setVm hl1 hl0, hlow, hfree, show npages sz = npages sz' + (npages sz - npages sz') by omega,
      physPages_append, Nat.zero_add, Nat.add_sub_cancel_left, ← Multiset.coe_add, ← Multiset.coe_add,
      Multiset.coe_reverse, vm_freelist]
    abel
  · -- the freed pages are user pages of the old size
    obtain ⟨w, hw₁, hw₂, rfl⟩ := mem_physPages.1 hq
    exact List.mem_append_right _ (mem_physPages.2 ⟨w, Nat.zero_le w, by omega, rfl⟩)

/-- **`growproc(n)` loses no page**: for a process whose page table keeps
`Grow`'s invariant, `growproc(n)` returns for every `n`, and what it leaves
is `Resized`. For an `int` `n` it fails only to grow, and otherwise leaves
the size `sz + n`, or `sz` when `sz + n` is negative. -/
theorem growproc_tracks (ho : pt.Ok) (hg : (pt.vm k).Good sz) (n : Int) :
    ∃ r sz' pt' k', pt.growproc k sz n = .ok (r, sz', pt', k') ∧ Resized pt k sz pt' k' sz' ∧
      (-2 ^ 31 ≤ n → n < 2 ^ 31 → r = -1 ∧ sz' = sz ∧ 0 < n ∨ r = 0 ∧ sz' = if 0 ≤ (sz : Int) + n then ((sz : Int) + n).toNat else sz) := by
  have hsz := lt_two_pow_31_of_good hg
  have h32 : sz % 2 ^ 32 = sz := Nat.mod_eq_of_lt (by omega)
  have hnew : ((sz + n) % 2 ^ 32).toNat < 2 ^ 32 := by omega
  unfold growproc
  simp only [h32]
  split
  · -- `uvmalloc` to the `uint` sum
    rename_i hpos
    by_cases hle : sz ≤ ((sz + n) % 2 ^ 32).toNat
    · have hT : npages ((sz + n) % 2 ^ 32).toNat ≤ TRAPFRAME / PGSIZE := by
        unfold npages TRAPFRAME
        rw [toNat_MAXVA]
        unfold PGSIZE
        omega
      rcases uvmalloc_tracks ho hg hle (.inl hT) with ⟨pt', k', m, hu, ha⟩ | ⟨pt', k', hu, hr⟩
      · rw [hu]
        dsimp only
        rw [Nat.mod_eq_of_lt hnew]
        split
        · -- a growth to `0` is no growth
          rename_i h0
          have hs0 : sz = ((sz + n) % 2 ^ 32).toNat := by omega
          have h := Resized.of_alloced hle ha
          rw [← hs0] at h
          exact ⟨-1, sz, pt', k', rfl, h, fun _ _ => absurd h0 (by omega)⟩
        · exact ⟨0, _, pt', k', rfl, Resized.of_alloced hle ha, fun _ _ => .inr ⟨rfl, by rw [if_pos (by omega)]; omega⟩⟩
      · rw [hu]
        exact ⟨-1, sz, pt', k', rfl, Resized.of_restored hg hr, fun _ _ => .inl ⟨rfl, rfl, hpos⟩⟩
    · -- the `uint` sum wrapped below the size: nothing to do
      rw [uvmalloc, if_pos (by omega)]
      dsimp only
      rw [h32]
      split
      · exact ⟨-1, sz, pt, k, rfl, Resized.refl ho hg, fun _ _ => absurd hle (by omega)⟩
      · exact ⟨0, sz, pt, k, rfl, Resized.refl ho hg, fun _ _ => absurd hle (by omega)⟩
  · split
    · rename_i hneg
      by_cases hlt : ((sz + n) % 2 ^ 32).toNat < sz
      · obtain ⟨pt', k', hd, hres⟩ := Resized.of_shrink ho hg hlt
        rw [hd]
        exact ⟨0, _, pt', k', by dsimp only; rw [Nat.mod_eq_of_lt hnew], hres, fun _ _ => .inr ⟨rfl, by split <;> omega⟩⟩
      · -- a sum that wrapped above the size: `uvmdealloc` does nothing
        rw [uvmdealloc, if_pos (by omega)]
        exact ⟨0, sz, pt, k, by dsimp only; rw [h32], Resized.refl ho hg, fun _ _ => .inr ⟨rfl, by split <;> omega⟩⟩
    · exact ⟨0, sz, pt, k, rfl, Resized.refl ho hg, fun _ _ => .inr ⟨rfl, by rw [if_pos (by omega)]; omega⟩⟩

end Resize

end Ptab

end Xv6
