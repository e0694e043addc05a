import Xv6.Vm.Exec
import Xv6.Lib.String

/-!
# Page tables with their pages: `freewalk` and `uvmcopy`

`Grow` sees a page table as `walk` does (`VmState`): which root and middle
entries are valid, and the level-0 PTEs. The pages that hold the tables are
taken from `kalloc` there and then forgotten. `freewalk` gives them back, so
here a page table also records them (`Ptab`): its root page, and the page
each valid entry points to, which is the page `kalloc` returned when `walk`
made the entry. Physical memory and the free list (`Kmem`) are shared by all
page tables.

`walk` and `mappages` are `Grow`'s, with the new tables' pages recorded;
`uvmunmap` makes no table and is `Grow`'s. On top of them: `uvmcreate`,
`freewalk`, `uvmfree` and `uvmcopy` of `kernel/vm.c`.
-/

namespace Xv6

open Framework

/-- `kmem` and physical memory: the free list, the bytes, and `end`. -/
structure Kmem where
  freelist : List Nat
  mem : Nat → UInt8
  kend : Nat

namespace Kmem

/-- `kalloc()`: the first page of the free list, filled with junk. -/
def kalloc (k : Kmem) : Option (Nat × Kmem) :=
  match k.freelist with
  | [] => none
  | pa :: rest => some (pa, { k with freelist := rest, mem := fill k.mem pa 5 })

/-- `kfree(pa)`: a panic unless `pa` is a page of `[end, PHYSTOP)`; else
filled with junk and pushed on the free list. -/
def kfree (k : Kmem) (pa : Nat) : Except String Kmem :=
  if pa % PGSIZE ≠ 0 ∨ pa < k.kend ∨ pa ≥ PHYSTOP then .error "kfree"
  else .ok { k with mem := fill k.mem pa 1, freelist := pa :: k.freelist }

theorem kfree_of_isPage {k : Kmem} {pa : Nat} (h : VmState.IsPage k.kend pa) :
    k.kfree pa = .ok { k with mem := fill k.mem pa 1, freelist := pa :: k.freelist } := by
  rw [kfree, if_neg]
  obtain ⟨h₁, h₂, h₃⟩ := h
  omega

/-- `k'` is `k` after `kfree` of the pages `pushed`, the last one first. -/
structure Freed (k k' : Kmem) (pushed : List Nat) : Prop where
  free_eq : k'.freelist = pushed ++ k.freelist
  mem_eq : VmState.SameOutside k.mem k'.mem pushed
  kend_eq : k'.kend = k.kend

theorem Freed.refl (k : Kmem) : Freed k k [] := ⟨rfl, VmState.SameOutside.refl _ _, rfl⟩

theorem Freed.trans {k k₁ k₂ : Kmem} {p₁ p₂ : List Nat} (h₁ : Freed k k₁ p₁) (h₂ : Freed k₁ k₂ p₂) :
    Freed k k₂ (p₂ ++ p₁) where
  free_eq := by rw [h₂.free_eq, h₁.free_eq, List.append_assoc]
  mem_eq := (h₁.mem_eq.trans h₂.mem_eq).mono fun q hq => by
    rw [List.mem_append] at hq ⊢
    exact hq.symm
  kend_eq := h₂.kend_eq.trans h₁.kend_eq

theorem freed_kfree (k : Kmem) (pa : Nat) :
    Freed k { k with mem := fill k.mem pa 1, freelist := pa :: k.freelist } [pa] :=
  ⟨rfl, VmState.SameOutside.fill _ _ _, rfl⟩

/-- The memory of a `VmState`. -/
def ofVm (s : VmState) : Kmem := ⟨s.freelist, s.mem, s.kend⟩

end Kmem

/-- A page table as `walk` sees it, with the pages of its tables: `root`,
the page of root entry `i`'s level-1 table (`page1 i`, where `l1 i`), and
the page of middle entry `j`'s level-0 table (`page0 j`, where `l0 j`). A
`root` of `0` is the null page table. -/
structure Ptab where
  root : Nat
  l1 : Nat → Bool
  l0 : Nat → Bool
  pte : Nat → UInt64
  page1 : Nat → Nat
  page0 : Nat → Nat

namespace Ptab

/-- The table whose root is the zeroed page `pa`: no entry is valid. -/
def empty (pa : Nat) : Ptab := ⟨pa, fun _ => false, fun _ => false, fun _ => 0, fun _ => 0, fun _ => 0⟩

/-- The table over memory `k`, as `Grow` sees it. -/
def vm (pt : Ptab) (k : Kmem) : VmState := ⟨pt.l1, pt.l0, pt.pte, k.freelist, k.mem, k.kend⟩

/-- The table with the entries of `s`. -/
def setVm (pt : Ptab) (s : VmState) : Ptab := { pt with l1 := s.l1, l0 := s.l0, pte := s.pte }

/-! ## `walk`, `mappages`, `uvmunmap` -/

/-- `walk(pagetable, va, alloc)`, recording the pages of the tables it
makes: each is the page `kalloc` returned, the head of the free list. -/
def walk (pt : Ptab) (k : Kmem) (va : Nat) (alloc : Bool) : Except String (Bool × Ptab × Kmem) :=
  if va ≥ MAXVA.toNat then .error "walk"
  else
    match VmState.table1 (pt.vm k) (va / 2 ^ 30) alloc with
    | none => .ok (false, pt, k)
    | some s₁ =>
      let pt₁ : Ptab := { pt.setVm s₁ with
        page1 := if pt.l1 (va / 2 ^ 30) then pt.page1
          else Function.update pt.page1 (va / 2 ^ 30) (k.freelist.headD 0) }
      match VmState.table0 s₁ (va / 2 ^ 21) alloc with
      | none => .ok (false, pt₁, Kmem.ofVm s₁)
      | some s₂ =>
        .ok (true, { pt₁.setVm s₂ with
          page0 := if s₁.l0 (va / 2 ^ 21) then pt₁.page0
            else Function.update pt₁.page0 (va / 2 ^ 21) (s₁.freelist.headD 0) }, Kmem.ofVm s₂)

/-- The loop of `mappages` over `n` pages from `a`, mapped to `pa` on. -/
def mappagesLoop (pt : Ptab) (k : Kmem) (perm : UInt64) (a pa : Nat) : Nat → Except String (Int × Ptab × Kmem)
  | 0 => .ok (0, pt, k)
  | n + 1 =>
    match pt.walk k a true with
    | .error e => .error e
    | .ok (false, pt, k) => .ok (-1, pt, k)
    | .ok (true, pt, k) =>
      if pt.pte (a / PGSIZE) &&& PTE_V ≠ 0 then .error "remap"
      else
        let pt := { pt with pte := fun v => if v = a / PGSIZE then PA2PTE pa ||| perm ||| PTE_V else pt.pte v }
        if n = 0 then .ok (0, pt, k) else mappagesLoop pt k perm (a + PGSIZE) (pa + PGSIZE) n

/-- `mappages(pagetable, va, size, pa, perm)`. -/
def mappages (pt : Ptab) (k : Kmem) (va size pa : Nat) (perm : UInt64) : Except String (Int × Ptab × Kmem) :=
  let a := va / PGSIZE * PGSIZE
  let last := (va + size - 1) / PGSIZE * PGSIZE
  mappagesLoop pt k perm a pa ((last - a) / PGSIZE + 1)

/-- `uvmunmap(pagetable, va, npages, do_free)`, which makes no table: the
tables' pages stay. -/
def uvmunmap (pt : Ptab) (k : Kmem) (va npages : Nat) (doFree : Bool) : Except String (Ptab × Kmem) :=
  ((pt.vm k).uvmunmap va npages doFree).map fun s => (pt.setVm s, Kmem.ofVm s)

/-- `uvmcreate()`: a zeroed root page, or the null table. -/
def uvmcreate (k : Kmem) : Ptab × Kmem :=
  match k.kalloc with
  | none => (empty 0, k)
  | some (pa, k) => (empty pa, { k with mem := fill k.mem pa 0 })

/-! ## `freewalk`

The source's recursion over the three levels of Sv39, unrolled: the root's
valid entries point to level-1 tables, theirs to level-0 tables, whose valid
entries are leaves, which `freewalk` refuses. -/

/-- The entries `es` of the level-0 table `j`: a valid one is a leaf. -/
def freewalkLeaves (pt : Ptab) (j : Nat) : List Nat → Except String Unit
  | [] => .ok ()
  | e :: es => if pt.pte (j * 512 + e) &&& PTE_V ≠ 0 then .error "freewalk: leaf" else freewalkLeaves pt j es

/-- `freewalk` of the level-0 table `j`: its entries, then its page. -/
def freewalk0 (pt : Ptab) (k : Kmem) (j : Nat) : Except String Kmem :=
  match freewalkLeaves pt j (List.range' 0 512) with
  | .error e => .error e
  | .ok () => k.kfree (pt.page0 j)

/-- The entries `es` of the level-1 table `i`: each valid one's table is
freed and the entry cleared. -/
def freewalk1Loop (i : Nat) (pt : Ptab) (k : Kmem) : List Nat → Except String (Ptab × Kmem)
  | [] => .ok (pt, k)
  | e :: es =>
    if pt.l0 (i * 512 + e) then
      match pt.freewalk0 k (i * 512 + e) with
      | .error err => .error err
      | .ok k => freewalk1Loop i { pt with l0 := Function.update pt.l0 (i * 512 + e) false } k es
    else freewalk1Loop i pt k es

/-- `freewalk` of the level-1 table `i`: its entries, then its page. -/
def freewalk1 (pt : Ptab) (k : Kmem) (i : Nat) : Except String (Ptab × Kmem) :=
  match freewalk1Loop i pt k (List.range' 0 512) with
  | .error e => .error e
  | .ok (pt, k) => (k.kfree (pt.page1 i)).map fun k => (pt, k)

/-- The root's entries `is`: each valid one's table is freed and the entry
cleared. -/
def freewalkLoop (pt : Ptab) (k : Kmem) : List Nat → Except String (Ptab × Kmem)
  | [] => .ok (pt, k)
  | i :: is =>
    if pt.l1 i then
      match pt.freewalk1 k i with
      | .error e => .error e
      | .ok (pt, k) => freewalkLoop { pt with l1 := Function.update pt.l1 i false } k is
    else freewalkLoop pt k is

/-- `freewalk(pagetable)`: every table, then the root page. -/
def freewalk (pt : Ptab) (k : Kmem) : Except String Kmem :=
  match pt.freewalkLoop k (List.range' 0 512) with
  | .error e => .error e
  | .ok (pt, k) => k.kfree pt.root

/-- `uvmfree(pagetable, sz)`. -/
def uvmfree (pt : Ptab) (k : Kmem) (sz : Nat) : Except String Kmem :=
  if sz > 0 then
    match pt.uvmunmap k 0 (PGROUNDUP sz / PGSIZE) true with
    | .error e => .error e
    | .ok (pt, k) => pt.freewalk k
  else pt.freewalk k

/-! ## `uvmcopy` -/

/-- The `err` path of `uvmcopy` at `i`: the pages below `i` unmapped and
freed, and `-1`. -/
def uvmcopyErr (new : Ptab) (k : Kmem) (i : Nat) : Except String (Int × Ptab × Kmem) :=
  (new.uvmunmap k 0 (i / PGSIZE) true).map fun r => (-1, r)

/-- The loop of `uvmcopy(old, new, sz)` from `i` on. -/
def uvmcopyLoop (old : Ptab) (sz : Nat) (new : Ptab) (k : Kmem) (i : Nat) : Except String (Int × Ptab × Kmem) :=
  if i < sz then
    match old.walk k i false with
    | .error e => .error e
    | .ok (false, _) => .error "uvmcopy: pte should exist"
    | .ok (true, _) =>
      if old.pte (i / PGSIZE) &&& PTE_V = 0 then .error "uvmcopy: page not present"
      else
        let pa := PTE2PA (old.pte (i / PGSIZE))
        let flags := PTE_FLAGS (old.pte (i / PGSIZE))
        match k.kalloc with
        | none => uvmcopyErr new k i
        | some (mem, k) =>
          match new.mappages { k with mem := memmove k.mem mem pa.toNat PGSIZE } i PGSIZE mem flags with
          | .error e => .error e
          | .ok (r, new, k) =>
            if r ≠ 0 then
              match k.kfree mem with
              | .error e => .error e
              | .ok k => uvmcopyErr new k i
            else uvmcopyLoop old sz new k (i + PGSIZE)
  else .ok (0, new, k)
termination_by sz - i
decreasing_by
  have : 0 < PGSIZE := by decide
  omega

/-- `uvmcopy(old, new, sz)`: `0`, or `-1` when memory ran out. -/
def uvmcopy (old new : Ptab) (k : Kmem) (sz : Nat) : Except String (Int × Ptab × Kmem) :=
  uvmcopyLoop old sz new k 0

/-! ## The pages of the tables -/

@[simp] theorem vm_l1 (pt : Ptab) (k : Kmem) : (pt.vm k).l1 = pt.l1 := rfl
@[simp] theorem vm_l0 (pt : Ptab) (k : Kmem) : (pt.vm k).l0 = pt.l0 := rfl
@[simp] theorem vm_pte (pt : Ptab) (k : Kmem) : (pt.vm k).pte = pt.pte := rfl
@[simp] theorem vm_freelist (pt : Ptab) (k : Kmem) : (pt.vm k).freelist = k.freelist := rfl
@[simp] theorem vm_mem (pt : Ptab) (k : Kmem) : (pt.vm k).mem = k.mem := rfl
@[simp] theorem vm_kend (pt : Ptab) (k : Kmem) : (pt.vm k).kend = k.kend := rfl

/-- The tables of a page table hang together: a valid middle entry lies
under a valid root entry, a nonzero PTE in a valid level-0 table, and the
valid root entries are among the root page's 512. -/
structure Ok (pt : Ptab) : Prop where
  l1_of_l0 : ∀ j, pt.l0 j = true → pt.l1 (j / 2 ^ 9) = true
  l0_of_pte : ∀ v, pt.pte v ≠ 0 → pt.l0 (v / 2 ^ 9) = true
  l1_lt : ∀ i, pt.l1 i = true → i < 512

theorem Ok.tables {pt : Ptab} (h : pt.Ok) (k : Kmem) : (pt.vm k).TablesOk := ⟨h.l1_of_l0, h.l0_of_pte⟩

/-- The 512 entries of a table page, in the order `freewalk` visits them. -/
def entries : Multiset Nat := ↑(List.range' 0 512)

theorem mem_entries {e : Nat} : e ∈ entries ↔ e < 512 := by
  simp [entries, List.mem_range'_1]

theorem nodup_entries : entries.Nodup := Multiset.coe_nodup.2 (List.nodup_range' ..)

/-- The pages of the level-0 tables under root entry `i`. -/
def pages0 (pt : Ptab) (i : Nat) : Multiset Nat :=
  (entries.filter fun e => pt.l0 (i * 512 + e) = true).map fun e => pt.page0 (i * 512 + e)

/-- The pages of the tables, as `freewalk` visits them: the root, and under
each valid root entry its level-1 table and the level-0 tables that table's
valid entries point to. -/
def tablePages (pt : Ptab) : Multiset Nat :=
  pt.root ::ₘ (entries.filter fun i => pt.l1 i = true).bind fun i => pt.page1 i ::ₘ pt.pages0 i

/-- Making `p` hold at `c` adds `c` to the filter of a set that holds it once. -/
theorem filter_ite_of_nodup {s : Multiset Nat} {p : Nat → Bool} {c : Nat} (hs : s.Nodup) (hc : c ∈ s)
    (hp : p c = false) :
    s.filter (fun x => (if x = c then true else p x) = true) = c ::ₘ s.filter fun x => p x = true := by
  obtain ⟨t, rfl⟩ := Multiset.exists_cons_of_mem hc
  have hct : c ∉ t := (Multiset.nodup_cons.1 hs).1
  rw [Multiset.filter_cons_of_pos _ (by simp), Multiset.filter_cons_of_neg _ (by simp [hp])]
  refine congrArg (c ::ₘ ·) (Multiset.filter_congr fun x hx => ?_)
  rw [if_neg fun (e : x = c) => hct (e ▸ hx)]

/-- A new level-1 table at root entry `i`, with no entry valid yet. -/
theorem tablePages_table1 (pt : Ptab) {i : Nat} (pa : Nat) (hi : i < 512) (h1 : pt.l1 i = false)
    (h0 : ∀ e < 512, pt.l0 (i * 512 + e) = false) :
    ({ pt with l1 := fun i' => if i' = i then true else pt.l1 i', page1 := Function.update pt.page1 i pa } : Ptab).tablePages =
      pt.tablePages + {pa} := by
  have hnot : i ∉ entries.filter fun x => pt.l1 x = true := by simp [h1]
  have hempty : pt.pages0 i = 0 := by
    rw [pages0, Multiset.map_eq_zero, Multiset.filter_eq_nil]
    intro e he
    simp [h0 e (mem_entries.1 he)]
  -- the other entries keep their tables
  have hrest : ∀ x ∈ entries.filter (fun x => pt.l1 x = true),
      Function.update pt.page1 i pa x ::ₘ pt.pages0 x = pt.page1 x ::ₘ pt.pages0 x := fun x hx => by
    rw [Function.update_of_ne fun (e : x = i) => hnot (e ▸ hx)]
  -- the level-0 pages do not read the root entries
  have hp0 : ∀ x, ({ pt with l1 := fun i' => if i' = i then true else pt.l1 i', page1 := Function.update pt.page1 i pa } : Ptab).pages0 x =
      pt.pages0 x := fun _ => rfl
  unfold tablePages
  simp only [hp0]
  rw [filter_ite_of_nodup nodup_entries (mem_entries.2 hi) h1, Multiset.cons_bind, Function.update_self,
    Multiset.bind_congr hrest, hempty, Multiset.cons_add, Multiset.cons_add, zero_add, add_comm,
    Multiset.singleton_add]

/-- A new level-0 table at middle entry `j` is one more page under root
entry `j / 512`. -/
theorem pages0_table0 (pt : Ptab) {j pa : Nat} (h0 : pt.l0 j = false) (i : Nat) :
    ({ pt with l0 := fun j' => if j' = j then true else pt.l0 j', page0 := Function.update pt.page0 j pa } : Ptab).pages0 i =
      if i = j / 512 then pa ::ₘ pt.pages0 i else pt.pages0 i := by
  unfold pages0
  dsimp only
  split
  · rename_i hi
    subst hi
    have hj : j / 512 * 512 + j % 512 = j := by omega
    have hf : entries.filter (fun e => (if j / 512 * 512 + e = j then true else pt.l0 (j / 512 * 512 + e)) = true) =
        entries.filter (fun e => (if e = j % 512 then true else pt.l0 (j / 512 * 512 + e)) = true) :=
      Multiset.filter_congr fun e he => by
        have : j / 512 * 512 + e = j ↔ e = j % 512 := by have := mem_entries.1 he; omega
        simp only [this]
    have hnot : j % 512 ∉ entries.filter fun e => pt.l0 (j / 512 * 512 + e) = true := by simp [hj, h0]
    -- the other entries of the same table keep their pages
    have hrest : ∀ e ∈ entries.filter (fun e => pt.l0 (j / 512 * 512 + e) = true),
        Function.update pt.page0 j pa (j / 512 * 512 + e) = pt.page0 (j / 512 * 512 + e) := by
      intro e he
      have : j / 512 * 512 + e ≠ j := fun h => hnot (by rw [show j % 512 = e by omega]; exact he)
      rw [Function.update_of_ne this]
    rw [hf, filter_ite_of_nodup nodup_entries (mem_entries.2 (Nat.mod_lt j (by decide))) (by rw [hj]; exact h0),
      Multiset.map_cons, hj, Function.update_self, Multiset.map_congr rfl hrest]
  · rename_i hi
    have hne : ∀ e ∈ entries, i * 512 + e ≠ j := fun e he h => hi (by have := mem_entries.1 he; omega)
    have hf : entries.filter (fun e => (if i * 512 + e = j then true else pt.l0 (i * 512 + e)) = true) =
        entries.filter fun e => pt.l0 (i * 512 + e) = true :=
      Multiset.filter_congr fun e he => by rw [if_neg (hne e he)]
    rw [hf]
    exact Multiset.map_congr rfl fun e he => Function.update_of_ne (hne e (Multiset.mem_of_mem_filter he)) ..

/-- Over a set that holds `c` once, the pages added at `c` alone add up to those. -/
theorem bind_ite_of_nodup {s : Multiset Nat} {c : Nat} (hs : s.Nodup) (hc : c ∈ s) (m : Multiset Nat) :
    (s.bind fun i => if i = c then m else 0) = m := by
  obtain ⟨t, rfl⟩ := Multiset.exists_cons_of_mem hc
  have hct : c ∉ t := (Multiset.nodup_cons.1 hs).1
  rw [Multiset.cons_bind, if_pos rfl, Multiset.bind_congr fun x hx => if_neg fun (e : x = c) => hct (e ▸ hx),
    Multiset.bind_zero, add_zero]

/-- A new level-0 table at middle entry `j`, under a valid root entry. -/
theorem tablePages_table0 (pt : Ptab) {j : Nat} (pa : Nat) (h1 : pt.l1 (j / 512) = true) (hlt : j / 512 < 512)
    (h0 : pt.l0 j = false) :
    ({ pt with l0 := fun j' => if j' = j then true else pt.l0 j', page0 := Function.update pt.page0 j pa } : Ptab).tablePages =
      pt.tablePages + {pa} := by
  have hmem : j / 512 ∈ entries.filter fun i => pt.l1 i = true := by simp [mem_entries, h1, hlt]
  unfold tablePages
  simp only [pages0_table0 pt h0]
  have hsplit : ∀ i ∈ entries.filter (fun i => pt.l1 i = true),
      (pt.page1 i ::ₘ if i = j / 512 then pa ::ₘ pt.pages0 i else pt.pages0 i) =
        (pt.page1 i ::ₘ pt.pages0 i) + if i = j / 512 then {pa} else 0 := fun i _ => by
    split
    · rw [Multiset.cons_add, add_comm, Multiset.singleton_add]
    · rw [add_zero]
  rw [Multiset.bind_congr hsplit, Multiset.bind_add,
    bind_ite_of_nodup (Multiset.Nodup.filter _ nodup_entries) hmem, Multiset.cons_add]

section Walk

variable {pt : Ptab} {k : Kmem} {va : Nat}

/-- **A `walk` that allocates** does to the entries, the free list and
memory what `Grow`'s does, and the pages it takes for tables, at most two
off the head of the free list, are the table's. -/
theorem walk_tracks (ho : pt.Ok) (ha : va < MAXVA.toNat) :
    ∃ b pt' k' n, pt.walk k va true = .ok (b, pt', k') ∧ VmState.Grows (pt.vm k) (pt'.vm k') n ∧ n ≤ 2 ∧
      pt'.Ok ∧ pt'.root = pt.root ∧ pt'.tablePages = pt.tablePages + ↑(k.freelist.take n) ∧
      (b = true → pt'.l1 (va / 2 ^ 30) = true ∧ pt'.l0 (va / 2 ^ 21) = true) ∧
      (b = false → k'.freelist = [] ∧ n ≤ 1) := by
  have hi : va / 2 ^ 30 < 512 := by rw [toNat_MAXVA] at ha; omega
  have hji : va / 2 ^ 21 / 2 ^ 9 = va / 2 ^ 30 := VmState.div_two_pow_21_div va
  rw [walk, if_neg (by omega)]
  cases h1 : pt.l1 (va / 2 ^ 30) with
  | true =>
    rw [VmState.table1_of_l1 (s := pt.vm k) h1]
    dsimp only
    simp only [if_true]
    cases h0 : pt.l0 (va / 2 ^ 21) with
    | true =>
      rw [VmState.table0_of_l0 (s := pt.vm k) h0]
      dsimp only
      simp only [vm_l0, h0, if_true]
      exact ⟨true, pt, k, 0, rfl, VmState.Grows.refl (ho.tables k), by omega, ho, rfl, by simp, fun _ => ⟨h1, h0⟩,
        fun h => by cases h⟩
    | false =>
      cases hf : k.freelist with
      | nil =>
        rw [VmState.table0_of_nil (s := pt.vm k) h0 hf]
        exact ⟨false, pt, k, 0, rfl, VmState.Grows.refl (ho.tables k), by omega, ho, rfl, by simp,
          (fun h => by cases h), fun _ => ⟨hf, by omega⟩⟩
      | cons pa rest =>
        obtain ⟨s', e, hg, -, -⟩ := VmState.table0_grows (ho.tables k) h0 (by rw [vm_l1, hji]; exact h1) hf
        rw [VmState.table0_eq (ho.tables k) h0 hf] at e ⊢
        cases e
        dsimp only
        simp only [vm_l0, h0, vm_freelist, hf, Bool.false_eq_true, if_false, List.headD_cons]
        refine ⟨true, { pt with
            l0 := fun j' => if j' = va / 2 ^ 21 then true else pt.l0 j'
            page0 := Function.update pt.page0 (va / 2 ^ 21) pa }, ⟨rest, fill (fill k.mem pa 5) pa 0, k.kend⟩, 1, rfl, hg,
          by omega, ⟨hg.tables.l1_of_l0, hg.tables.l0_of_pte, ho.l1_lt⟩, rfl, ?_, fun _ => ⟨h1, by simp⟩,
          fun h => by cases h⟩
        rw [tablePages_table0 pt _ (by rw [show va / 2 ^ 21 / 512 = va / 2 ^ 30 from hji]; exact h1)
          (by rw [show va / 2 ^ 21 / 512 = va / 2 ^ 30 from hji]; exact hi) h0]
        rfl
  | false =>
    -- a new level-1 table has no valid entry
    have h0 : ∀ e < 512, pt.l0 (va / 2 ^ 30 * 512 + e) = false := fun e he => by
      cases h : pt.l0 (va / 2 ^ 30 * 512 + e)
      · rfl
      · have := ho.l1_of_l0 _ h
        rw [show (va / 2 ^ 30 * 512 + e) / 2 ^ 9 = va / 2 ^ 30 by omega, h1] at this
        cases this
    have h0j : pt.l0 (va / 2 ^ 21) = false := by
      have := h0 (va / 2 ^ 21 % 512) (Nat.mod_lt _ (by decide))
      rwa [show va / 2 ^ 30 * 512 + va / 2 ^ 21 % 512 = va / 2 ^ 21 by omega] at this
    cases hf : k.freelist with
    | nil =>
      rw [VmState.table1_of_nil (s := pt.vm k) h1 hf]
      exact ⟨false, pt, k, 0, rfl, VmState.Grows.refl (ho.tables k), by omega, ho, rfl, by simp,
        (fun h => by cases h), fun _ => ⟨hf, by omega⟩⟩
    | cons pa rest =>
      obtain ⟨s₁, e₁, hg₁, -, -⟩ := VmState.table1_grows (ho.tables k) h1 hf
      rw [VmState.table1_eq (ho.tables k) h1 hf] at e₁ ⊢
      cases e₁
      dsimp only
      simp only [Bool.false_eq_true, if_false, List.headD_cons]
      have htp₁ := tablePages_table1 pt pa hi h1 h0
      have hlt₁ : ∀ i', (if i' = va / 2 ^ 30 then true else pt.l1 i') = true → i' < 512 := fun i' h => by
        by_cases e : i' = va / 2 ^ 30
        · rw [e]
          exact hi
        · rw [if_neg e] at h
          exact ho.l1_lt i' h
      cases hr : rest with
      | nil =>
        subst hr
        rw [VmState.table0_of_nil (by exact h0j) rfl]
        exact ⟨false, { pt with
            l1 := fun i' => if i' = va / 2 ^ 30 then true else pt.l1 i'
            page1 := Function.update pt.page1 (va / 2 ^ 30) pa }, ⟨[], fill (fill k.mem pa 5) pa 0, k.kend⟩, 1, rfl, hg₁,
          by omega, ⟨hg₁.tables.l1_of_l0, hg₁.tables.l0_of_pte, hlt₁⟩, rfl, by rw [htp₁]; rfl, (fun h => by cases h),
          fun _ => ⟨rfl, le_refl _⟩⟩
      | cons pa' rest' =>
        subst hr
        obtain ⟨s₂, e₂, hg₂, -, -⟩ := VmState.table0_grows hg₁.tables (j := va / 2 ^ 21) (by exact h0j)
          (by show (if _ = va / 2 ^ 30 then true else _) = true; rw [hji, if_pos rfl]) rfl
        rw [VmState.table0_eq hg₁.tables (by exact h0j) rfl] at e₂ ⊢
        cases e₂
        dsimp only
        simp only [vm_l0, h0j, Bool.false_eq_true, if_false, List.headD_cons]
        refine ⟨true, { pt with
            l1 := fun i' => if i' = va / 2 ^ 30 then true else pt.l1 i'
            page1 := Function.update pt.page1 (va / 2 ^ 30) pa
            l0 := fun j' => if j' = va / 2 ^ 21 then true else pt.l0 j'
            page0 := Function.update pt.page0 (va / 2 ^ 21) pa' },
          ⟨rest', fill (fill (fill (fill k.mem pa 5) pa 0) pa' 5) pa' 0, k.kend⟩, 2, rfl, hg₁.trans hg₂, le_refl _,
          ⟨hg₂.tables.l1_of_l0, hg₂.tables.l0_of_pte, hlt₁⟩, rfl, ?_, fun _ => ⟨by simp, by simp⟩, fun h => by cases h⟩
        have hj₁ : va / 2 ^ 21 / 512 = va / 2 ^ 30 := hji
        have h₂ := tablePages_table0 { pt with
            l1 := fun i' => if i' = va / 2 ^ 30 then true else pt.l1 i'
            page1 := Function.update pt.page1 (va / 2 ^ 30) pa } pa'
          (by show (if _ = _ then true else _) = true; rw [hj₁, if_pos rfl]) (by rw [hj₁]; exact hi) h0j
        refine h₂.trans ?_
        show _ = pt.tablePages + ↑([pa] ++ [pa'])
        rw [htp₁, add_assoc, ← Multiset.coe_add, Multiset.coe_singleton, Multiset.coe_singleton]

end Walk

section Map

variable {pt : Ptab} {k : Kmem}

/-- Setting the PTE of `a` under a valid middle entry keeps the tables. -/
theorem Ok.set_pte (ho : pt.Ok) {a : Nat} (hl0 : pt.l0 (a / 2 ^ 21) = true) (x : UInt64) :
    ({ pt with pte := fun v => if v = a / PGSIZE then x else pt.pte v } : Ptab).Ok :=
  have ht := (ho.tables ⟨[], fun _ => 0, 0⟩).set_pte hl0 x
  ⟨ht.l1_of_l0, ht.l0_of_pte, ho.l1_lt⟩

/-- `mappages` of one aligned page is one round of its loop. -/
theorem mappages_one {a : Nat} (hal : a % PGSIZE = 0) (pa : Nat) (perm : UInt64) :
    pt.mappages k a PGSIZE pa perm = pt.mappagesLoop k perm a pa 1 := by
  have e₁ : a / PGSIZE * PGSIZE = a := Nat.div_mul_cancel (Nat.dvd_of_mod_eq_zero hal)
  have e₂ : (a + PGSIZE - 1) / PGSIZE * PGSIZE = a := by
    unfold PGSIZE at hal ⊢
    omega
  rw [mappages]
  simp only [e₁, e₂, Nat.sub_self, Nat.zero_div, Nat.zero_add]

/-- **`mappages` of one page** whose PTE is clear: it maps it, or finds no
page for a table; either way its `walk` only added tables, which are now
the table's pages. -/
theorem mappages_page (ho : pt.Ok) {a : Nat} (ha : a < MAXVA.toNat) (hal : a % PGSIZE = 0)
    (hz : pt.pte (a / PGSIZE) = 0) (pa : Nat) (perm : UInt64) :
    ∃ pt' k' n, VmState.Grows (pt.vm k) (pt'.vm k') n ∧ n ≤ 2 ∧ pt'.Ok ∧ pt'.root = pt.root ∧
      pt'.tablePages = pt.tablePages + ↑(k.freelist.take n) ∧
      ((pt.mappages k a PGSIZE pa perm =
          .ok (0, { pt' with pte := fun v => if v = a / PGSIZE then PA2PTE pa ||| perm ||| PTE_V else pt'.pte v }, k') ∧
          pt'.l0 (a / 2 ^ 21) = true) ∨
        (pt.mappages k a PGSIZE pa perm = .ok (-1, pt', k') ∧ k'.freelist = [] ∧ n ≤ 1)) := by
  obtain ⟨b, pt', k', n, hw, hg, hn, ho', hroot, hpages, hb₁, hb₂⟩ := walk_tracks (k := k) ho ha
  refine ⟨pt', k', n, hg, hn, ho', hroot, hpages, ?_⟩
  rw [mappages_one hal, mappagesLoop, hw]
  cases b with
  | false => exact .inr ⟨rfl, hb₂ rfl⟩
  | true =>
    refine .inl ⟨?_, (hb₁ rfl).2⟩
    dsimp only
    rw [if_neg (by rw [show pt'.pte = pt.pte from hg.pte_eq, hz]; decide), if_pos rfl]

/-- The table with the entries of `s` has the same tables when `s` has
the same valid entries. -/
theorem tablePages_setVm {s : VmState} (h1 : s.l1 = pt.l1) (h0 : s.l0 = pt.l0) :
    (pt.setVm s).tablePages = pt.tablePages := by
  have e : pt.setVm s = { pt with pte := s.pte } := by rw [setVm, h1, h0]
  rw [e]
  rfl

end Map

/-! ## `freewalk` -/

section Freewalk

variable {pt : Ptab} {k : Kmem}

/-- No valid PTE is left. -/
def NoLeaf (pt : Ptab) : Prop := ∀ v, pt.pte v &&& PTE_V = 0

theorem freewalkLeaves_ok (h : pt.NoLeaf) (j : Nat) (es : List Nat) : pt.freewalkLeaves j es = .ok () := by
  induction es with
  | nil => rfl
  | cons e es ih =>
    rw [freewalkLeaves, if_neg (by rw [h]; decide), ih]

theorem freewalk0_ok (h : pt.NoLeaf) {j : Nat} (hp : VmState.IsPage k.kend (pt.page0 j)) :
    pt.freewalk0 k j = .ok { k with mem := fill k.mem (pt.page0 j) 1, freelist := pt.page0 j :: k.freelist } := by
  unfold freewalk0
  rw [freewalkLeaves_ok h]
  exact Kmem.kfree_of_isPage hp

/-- **The entries `es` of level-1 table `i`**: each valid one's level-0
table is freed and the entry cleared; nothing else changes. -/
theorem freewalk1Loop_spec (h : pt.NoLeaf) (i : Nat) (es : List Nat) (hnd : es.Nodup)
    (hp : ∀ e ∈ es, pt.l0 (i * 512 + e) = true → VmState.IsPage k.kend (pt.page0 (i * 512 + e))) :
    ∃ pt' k' pushed, freewalk1Loop i pt k es = .ok (pt', k') ∧ k.Freed k' pushed ∧
      (↑pushed : Multiset Nat) =
        ((↑es : Multiset Nat).filter (fun e => pt.l0 (i * 512 + e) = true)).map (fun e => pt.page0 (i * 512 + e)) ∧
      pt'.root = pt.root ∧ pt'.l1 = pt.l1 ∧ pt'.pte = pt.pte ∧ pt'.page1 = pt.page1 ∧
      pt'.page0 = pt.page0 ∧ ∀ j, (∀ e ∈ es, j ≠ i * 512 + e) → pt'.l0 j = pt.l0 j := by
  induction es generalizing pt k with
  | nil => exact ⟨pt, k, [], rfl, Kmem.Freed.refl k, by simp, rfl, rfl, rfl, rfl, rfl, fun _ _ => rfl⟩
  | cons e es ih =>
    obtain ⟨he, hnd⟩ := List.nodup_cons.1 hnd
    -- the entries still to visit are not `e`
    have hne : ∀ e' ∈ es, i * 512 + e' ≠ i * 512 + e := fun e' he' h' => he (by rw [← Nat.add_left_cancel h']; exact he')
    by_cases hl : pt.l0 (i * 512 + e) = true
    · have hq := hp e List.mem_cons_self hl
      obtain ⟨pt', k', pushed, hloop, hfr, hpushed, hroot, hl1, hpte, hp1, hp0, hl0⟩ :=
        @ih { pt with l0 := Function.update pt.l0 (i * 512 + e) false }
          { k with mem := fill k.mem (pt.page0 (i * 512 + e)) 1, freelist := pt.page0 (i * 512 + e) :: k.freelist }
          h hnd fun e' he' hl' => by
            dsimp only at hl'
            rw [Function.update_of_ne (hne e' he')] at hl'
            exact hp e' (List.mem_cons_of_mem _ he') hl'
      have hfilter : (↑es : Multiset Nat).filter (fun e' => Function.update pt.l0 (i * 512 + e) false (i * 512 + e') = true) =
          (↑es : Multiset Nat).filter (fun e' => pt.l0 (i * 512 + e') = true) :=
        Multiset.filter_congr fun e' he' => by rw [Function.update_of_ne (hne e' (Multiset.mem_coe.1 he'))]
      refine ⟨pt', k', pushed ++ [pt.page0 (i * 512 + e)], ?_, (Kmem.freed_kfree k _).trans hfr, ?_, hroot, hl1, hpte, hp1,
        hp0, fun j hj => ?_⟩
      · rw [freewalk1Loop, if_pos hl, freewalk0_ok h hq]
        exact hloop
      · rw [← Multiset.coe_add, hpushed, hfilter, ← Multiset.cons_coe e es, Multiset.filter_cons, if_pos hl,
          Multiset.singleton_add, Multiset.map_cons]
        dsimp only
        rw [Multiset.coe_singleton, add_comm, Multiset.singleton_add]
      · rw [hl0 j fun e' he' => hj e' (List.mem_cons_of_mem _ he')]
        exact Function.update_of_ne (hj e List.mem_cons_self) _ _
    · obtain ⟨pt', k', pushed, hloop, hfr, hpushed, hroot, hl1, hpte, hp1, hp0, hl0⟩ :=
        ih h hnd fun e' he' => hp e' (List.mem_cons_of_mem _ he')
      refine ⟨pt', k', pushed, ?_, hfr, ?_, hroot, hl1, hpte, hp1, hp0,
        fun j hj => hl0 j fun e' he' => hj e' (List.mem_cons_of_mem _ he')⟩
      · rw [freewalk1Loop, if_neg hl]
        exact hloop
      · rw [hpushed, ← Multiset.cons_coe e es, Multiset.filter_cons, if_neg hl, zero_add]

/-- **Level-1 table `i`**: its level-0 tables, then its own page; only the
entries under `i` change. -/
theorem freewalk1_spec (h : pt.NoLeaf) (i : Nat) (hp1 : VmState.IsPage k.kend (pt.page1 i))
    (hp0 : ∀ e < 512, pt.l0 (i * 512 + e) = true → VmState.IsPage k.kend (pt.page0 (i * 512 + e))) :
    ∃ pt' k' pushed, pt.freewalk1 k i = .ok (pt', k') ∧ k.Freed k' pushed ∧
      (↑pushed : Multiset Nat) = pt.page1 i ::ₘ pt.pages0 i ∧
      pt'.root = pt.root ∧ pt'.l1 = pt.l1 ∧ pt'.pte = pt.pte ∧ pt'.page1 = pt.page1 ∧
      pt'.page0 = pt.page0 ∧ ∀ j, j / 512 ≠ i → pt'.l0 j = pt.l0 j := by
  obtain ⟨pt₁, k₁, pushed, hloop, hfr, hpushed, hroot, hl1, hpte, hp1', hp0', hl0⟩ :=
    freewalk1Loop_spec (k := k) h i (List.range' 0 512) List.nodup_range' fun e he =>
      hp0 e (by simpa [List.mem_range'_1] using he)
  have hp : VmState.IsPage k₁.kend (pt₁.page1 i) := by rw [hfr.kend_eq, hp1']; exact hp1
  refine ⟨pt₁, _, [pt₁.page1 i] ++ pushed, ?_, hfr.trans (Kmem.freed_kfree k₁ _), ?_, hroot, hl1, hpte, hp1', hp0',
    fun j hj => hl0 j fun e he h' => hj ?_⟩
  · unfold freewalk1
    rw [hloop]
    exact congrArg (Except.map _) (Kmem.kfree_of_isPage hp)
  · rw [← Multiset.coe_add, hpushed, hp1', Multiset.coe_singleton, Multiset.singleton_add]
    rfl
  · rw [List.mem_range'_1] at he
    omega

/-- **The root entries `is`**: each valid one's tables are freed and the
entry cleared. -/
theorem freewalkLoop_spec (h : pt.NoLeaf) (is : List Nat) (hnd : is.Nodup)
    (hp : ∀ i ∈ is, pt.l1 i = true → VmState.IsPage k.kend (pt.page1 i) ∧
      ∀ e < 512, pt.l0 (i * 512 + e) = true → VmState.IsPage k.kend (pt.page0 (i * 512 + e))) :
    ∃ pt' k' pushed, pt.freewalkLoop k is = .ok (pt', k') ∧ k.Freed k' pushed ∧
      (↑pushed : Multiset Nat) =
        ((↑is : Multiset Nat).filter (fun i => pt.l1 i = true)).bind (fun i => pt.page1 i ::ₘ pt.pages0 i) ∧
      pt'.root = pt.root := by
  induction is generalizing pt k with
  | nil => exact ⟨pt, k, [], rfl, Kmem.Freed.refl k, by simp, rfl⟩
  | cons i is ih =>
    obtain ⟨hi, hnd⟩ := List.nodup_cons.1 hnd
    by_cases hl : pt.l1 i = true
    · obtain ⟨hp1, hp0⟩ := hp i List.mem_cons_self hl
      obtain ⟨pt₁, k₁, pushed₁, hw, hfr₁, hpushed₁, hroot₁, hl1, hpte, hpg1, hpg0, hl0⟩ := freewalk1_spec h i hp1 hp0
      -- the root entries still to visit keep their tables
      have hl0' : ∀ i' ∈ is, ∀ e < 512, pt₁.l0 (i' * 512 + e) = pt.l0 (i' * 512 + e) := fun i' hi' e he =>
        hl0 _ fun h' => hi (by rw [show i = i' by omega]; exact hi')
      obtain ⟨pt', k', pushed, hloop, hfr, hpushed, hroot⟩ :=
        @ih { pt₁ with l1 := Function.update pt₁.l1 i false } k₁ (fun v => hpte ▸ h v) hnd
          fun i' hi' hl' => by
            have hne : i' ≠ i := fun e => hi (e ▸ hi')
            dsimp only at hl' ⊢
            rw [Function.update_of_ne hne, hl1] at hl'
            obtain ⟨hq1, hq0⟩ := hp i' (List.mem_cons_of_mem _ hi') hl'
            refine ⟨by rw [hfr₁.kend_eq, hpg1]; exact hq1, fun e he hl'' => ?_⟩
            rw [hl0' i' hi' e he] at hl''
            rw [hfr₁.kend_eq, hpg0]
            exact hq0 e he hl''
      have hsum : ((↑is : Multiset Nat).filter (fun i' => Function.update pt₁.l1 i false i' = true)).bind
            (fun i' => pt₁.page1 i' ::ₘ ({ pt₁ with l1 := Function.update pt₁.l1 i false } : Ptab).pages0 i') =
          ((↑is : Multiset Nat).filter (fun i' => pt.l1 i' = true)).bind (fun i' => pt.page1 i' ::ₘ pt.pages0 i') := by
        have hf : (↑is : Multiset Nat).filter (fun i' => Function.update pt₁.l1 i false i' = true) =
            (↑is : Multiset Nat).filter (fun i' => pt.l1 i' = true) :=
          Multiset.filter_congr fun i' hi' => by
            rw [Function.update_of_ne fun (e : i' = i) => hi (e ▸ Multiset.mem_coe.1 hi'), hl1]
        rw [hf]
        refine Multiset.bind_congr fun i' hi' => ?_
        have hi'' := Multiset.mem_coe.1 (Multiset.mem_of_mem_filter hi')
        rw [hpg1]
        refine congrArg (Multiset.cons (pt.page1 i')) (Multiset.map_congr (Multiset.filter_congr fun e he => ?_) fun e _ => ?_)
        · show pt₁.l0 (i' * 512 + e) = true ↔ _
          rw [hl0' i' hi'' e (mem_entries.1 he)]
        · show pt₁.page0 (i' * 512 + e) = _
          rw [hpg0]
      refine ⟨pt', k', pushed ++ pushed₁, ?_, hfr₁.trans hfr, ?_, hroot.trans hroot₁⟩
      · rw [freewalkLoop, if_pos hl, hw]
        exact hloop
      · rw [← Multiset.coe_add, hpushed, hsum, hpushed₁, ← Multiset.cons_coe i is, Multiset.filter_cons, if_pos hl,
          Multiset.singleton_add, Multiset.cons_bind, add_comm]
    · obtain ⟨pt', k', pushed, hloop, hfr, hpushed, hroot⟩ :=
        ih h hnd fun i' hi' => hp i' (List.mem_cons_of_mem _ hi')
      refine ⟨pt', k', pushed, ?_, hfr, ?_, hroot⟩
      · rw [freewalkLoop, if_neg hl]
        exact hloop
      · rw [hpushed, ← Multiset.cons_coe i is, Multiset.filter_cons, if_neg hl, zero_add]

theorem mem_tablePages_root (pt : Ptab) : pt.root ∈ pt.tablePages := by
  rw [tablePages, Multiset.mem_cons]
  exact Or.inl rfl

theorem mem_tablePages_page1 {i : Nat} (hi : i < 512) (h1 : pt.l1 i = true) : pt.page1 i ∈ pt.tablePages := by
  rw [tablePages, Multiset.mem_cons, Multiset.mem_bind]
  refine Or.inr ⟨i, Multiset.mem_filter.2 ⟨mem_entries.2 hi, h1⟩, ?_⟩
  rw [Multiset.mem_cons]
  exact Or.inl rfl

theorem mem_tablePages_page0 {i e : Nat} (hi : i < 512) (h1 : pt.l1 i = true) (he : e < 512)
    (h0 : pt.l0 (i * 512 + e) = true) : pt.page0 (i * 512 + e) ∈ pt.tablePages := by
  rw [tablePages, Multiset.mem_cons, Multiset.mem_bind]
  refine Or.inr ⟨i, Multiset.mem_filter.2 ⟨mem_entries.2 hi, h1⟩, ?_⟩
  rw [Multiset.mem_cons, pages0, Multiset.mem_map]
  exact Or.inr ⟨e, Multiset.mem_filter.2 ⟨mem_entries.2 he, h0⟩, rfl⟩

/-- **`freewalk`** of a table with no leaf left, whose tables are pages of
`[end, PHYSTOP)`: it frees exactly the tables' pages. -/
theorem freewalk_spec (h : pt.NoLeaf) (hp : ∀ q ∈ pt.tablePages, VmState.IsPage k.kend q) :
    ∃ k' pushed, pt.freewalk k = .ok k' ∧ k.Freed k' pushed ∧ (↑pushed : Multiset Nat) = pt.tablePages := by
  obtain ⟨pt', k₁, pushed, hloop, hfr, hpushed, hroot⟩ :=
    freewalkLoop_spec (k := k) h (List.range' 0 512) List.nodup_range' fun i hi hl => by
      have hi' : i < 512 := by simpa [List.mem_range'_1] using hi
      exact ⟨hp (pt.page1 i) (mem_tablePages_page1 hi' hl),
        fun e he h0 => hp (pt.page0 (i * 512 + e)) (mem_tablePages_page0 hi' hl he h0)⟩
  have hr : VmState.IsPage k₁.kend pt'.root := by
    rw [hfr.kend_eq, hroot]
    exact hp pt.root (mem_tablePages_root pt)
  refine ⟨_, [pt'.root] ++ pushed, ?_, hfr.trans (Kmem.freed_kfree k₁ _), ?_⟩
  · unfold freewalk
    rw [hloop]
    exact Kmem.kfree_of_isPage hr
  · rw [← Multiset.coe_add, hpushed, hroot, Multiset.coe_singleton, Multiset.singleton_add]
    rfl

end Freewalk

end Ptab

end Xv6
