import Xv6.Vm.Copy
import Xv6.User.Umalloc

/-!
# Growing and shrinking a process: `sbrk`, `growproc`, `uvmalloc`, `uvmdealloc`

The kernel's side of `sbrk(n)`, from `kernel/kalloc.c`, `kernel/vm.c`,
`kernel/proc.c` and `kernel/sysproc.c`. A process's page table is seen as
`walk` sees it (`VmState`): which root entries and which level-1 entries are
valid, and the level-0 PTE of every page; the pages that hold the tables
are taken from `kalloc` and otherwise not modelled. `kmem.freelist` is a
list of physical addresses and physical memory a function from addresses to
bytes. Kernel panics are errors.

`growproc` takes the size into a `uint` and adds `n` in `uint`. `uvmalloc`
maps zeroed pages from `PGROUNDUP(oldsz)` up to `newsz` and, when `kalloc`
or a `walk` inside `mappages` finds no page, unmaps what it mapped through
`uvmdealloc`. `uvmdealloc` unmaps and frees the pages between the two
rounded sizes.

For a process whose pages below `PGROUNDUP(sz)` are mapped to distinct
physical pages off the free list (`VmState.Good`), such a process has at
most 128 MiB (`size_le_of_good`), and `sys_sbrk(n)` returns the old size
with the pages below `PGROUNDUP(sz + n)` mapped, new ones zeroed and the
bytes below the smaller size unchanged, or, only for a growth that runs out
of memory, returns `-1` with every PTE as before and every data page back on
the free list (`sbrk_spec`). `uvmalloc`'s loop carries `Grown` from round to
round; when it runs out, `Undo` is what `uvmdealloc` takes back. The size
`growproc` leaves is the one the user allocator's model of it gives
(`growproc_size`).
-/

namespace Xv6

open Framework

/-- `KERNBASE`. -/
def KERNBASE : Nat := 0x80000000
/-- `PHYSTOP`: 128 MiB of physical memory from `KERNBASE`. -/
def PHYSTOP : Nat := KERNBASE + 128 * 1024 * 1024
/-- `TRAPFRAME`, the lowest page above the user's own. -/
def TRAPFRAME : Nat := MAXVA.toNat - PGSIZE - PGSIZE

/-- `PTE_R`, `PTE_W`, `PTE_X`. -/
def PTE_R : UInt64 := (1 : UInt64) <<< 1
def PTE_W : UInt64 := (1 : UInt64) <<< 2
def PTE_X : UInt64 := (1 : UInt64) <<< 3

/-- `PA2PTE(pa)`. -/
def PA2PTE (pa : Nat) : UInt64 := (pa.toUInt64 >>> 12) <<< 10

/-- `PTE_FLAGS(pte)`. -/
def PTE_FLAGS (pte : UInt64) : UInt64 := pte &&& 0x3FF

/-- The leaf PTE `uvmalloc` has `mappages` write for the page at `pa`. -/
def leafPte (pa : Nat) : UInt64 := PA2PTE pa ||| (PTE_W ||| PTE_X ||| PTE_R ||| PTE_U) ||| PTE_V

/-! ### The bits of a leaf PTE -/

theorem getLsbD_ofNat_low (w k i : Nat) :
    (BitVec.ofNat w (2 ^ k - 1)).getLsbD i = (decide (i < w) && decide (i < k)) := by
  rw [BitVec.getLsbD_ofNat, Nat.testBit_two_pow_sub_one]

/-- The flags of a leaf PTE: `R`, `W`, `X`, `U` and `V`. -/
theorem flags_leafPte (pa : Nat) : leafPte pa &&& 0x3FF = 0x1F := by
  rw [leafPte, UInt64.or_assoc, show (PTE_W ||| PTE_X ||| PTE_R ||| PTE_U) ||| PTE_V = 0x1F by decide]
  apply UInt64.eq_of_toBitVec_eq
  apply BitVec.eq_of_getLsbD_eq
  intro i hi
  have h31 : (0x1F : UInt64).toBitVec = BitVec.ofNat 64 (2 ^ 5 - 1) := rfl
  have h1023 : (0x3FF : UInt64).toBitVec = BitVec.ofNat 64 (2 ^ 10 - 1) := rfl
  simp only [PA2PTE, UInt64.toBitVec_and, UInt64.toBitVec_or, UInt64.toBitVec_shiftLeft,
    UInt64.toBitVec_shiftRight, h31, h1023, BitVec.getLsbD_or, BitVec.getLsbD_and, getLsbD_ofNat_low]
  -- below bit 10 only the flags, from bit 10 on only the page number
  by_cases h : i < 10
  · simp [h, hi]
  · simp [h, hi]
    omega

/-- The page of a leaf PTE is its physical page, rounded down. -/
theorem PTE2PA_leafPte (pa : Nat) : PTE2PA (leafPte pa) = PGROUNDDOWN pa.toUInt64 := by
  rw [leafPte, UInt64.or_assoc, show (PTE_W ||| PTE_X ||| PTE_R ||| PTE_U) ||| PTE_V = 0x1F by decide]
  apply UInt64.eq_of_toBitVec_eq
  apply BitVec.eq_of_getLsbD_eq
  intro i hi
  have h31 : (0x1F : UInt64).toBitVec = BitVec.ofNat 64 (2 ^ 5 - 1) := rfl
  have h4095 : (PGSIZE.toUInt64 - 1).toBitVec = BitVec.ofNat 64 (2 ^ 12 - 1) := rfl
  simp only [PTE2PA, PGROUNDDOWN, PA2PTE, UInt64.toBitVec_and, UInt64.toBitVec_or, UInt64.toBitVec_shiftLeft,
    UInt64.toBitVec_shiftRight, UInt64.toBitVec_not, h31, h4095, BitVec.getLsbD_and, BitVec.getLsbD_not,
    getLsbD_ofNat_low]
  by_cases h : i < 12
  · simp [h, hi]
  · -- bit `i` comes from bit `i - 2` of the PTE, which is bit `i` of `pa`
    have e : 12 + (i - 12) = i := by omega
    have hlt : 10 + (i - 12) < 64 := by omega
    have h31' : (31#64 : BitVec 64) = BitVec.ofNat 64 (2 ^ 5 - 1) := rfl
    simp [h, hi, e, hlt, h31', getLsbD_ofNat_low, -BitVec.getLsbD_eq_getElem]
    omega

/-- The physical page of a leaf PTE for a page-aligned `pa`. -/
theorem toNat_PTE2PA_leafPte {pa : Nat} (h : pa % PGSIZE = 0) (hlt : pa < 2 ^ 64) :
    (PTE2PA (leafPte pa)).toNat = pa := by
  rw [PTE2PA_leafPte, toNat_PGROUNDDOWN, UInt64.toNat_ofNat_of_lt' hlt, Nat.div_mul_cancel (Nat.dvd_of_mod_eq_zero h)]

/-- A bit of the flags is a bit of the PTE. -/
theorem and_flag_leafPte (pa : Nat) {f : UInt64} (hf : 0x3FF &&& f = f) : leafPte pa &&& f = 0x1F &&& f := by
  rw [← hf, ← UInt64.and_assoc, flags_leafPte, hf]

/-- A leaf PTE is valid, a leaf, and user-accessible. -/
theorem leafPte_valid (pa : Nat) :
    leafPte pa &&& PTE_V ≠ 0 ∧ PTE_FLAGS (leafPte pa) ≠ PTE_V ∧ UserPte (leafPte pa) := by
  have hV : leafPte pa &&& PTE_V = 1 := by rw [and_flag_leafPte pa (by decide)]; decide
  have hU : leafPte pa &&& PTE_U = 16 := by rw [and_flag_leafPte pa (by decide)]; decide
  refine ⟨by rw [hV]; decide, ?_, by rw [hV]; decide, by rw [hU]; decide⟩
  rw [PTE_FLAGS, flags_leafPte]
  decide

theorem leafPte_ne_zero (pa : Nat) : leafPte pa ≠ 0 := fun h => (leafPte_valid pa).1 (by rw [h]; decide)

/-- `PGROUNDUP(sz)`, on sizes far below `2⁶⁴`. -/
def PGROUNDUP (sz : Nat) : Nat := (sz + PGSIZE - 1) / PGSIZE * PGSIZE

/-- The pages of a process of size `sz`: `[0, npages sz)`. -/
def npages (sz : Nat) : Nat := (sz + PGSIZE - 1) / PGSIZE

theorem PGROUNDUP_eq (sz : Nat) : PGROUNDUP sz = npages sz * PGSIZE := rfl

theorem npages_mul (v : Nat) : npages (v * PGSIZE) = v := by
  unfold npages PGSIZE
  omega

/-- `memset(pa, b, PGSIZE)`. -/
def fill (mem : Nat → UInt8) (pa : Nat) (b : UInt8) : Nat → UInt8 :=
  fun x => if pa ≤ x ∧ x < pa + PGSIZE then b else mem x

/-- A process's page table as `walk` sees it, the allocator's free list and
physical memory. `l1 i`: the root's entry `i` is valid; `l0 j`: the level-1
entry for the 2 MiB region `j = va >> 21` is valid; `pte v`: the level-0 PTE
of page `v = va >> 12`. `kend` is `end`, the first address after the kernel. -/
structure VmState where
  l1 : Nat → Bool
  l0 : Nat → Bool
  pte : Nat → UInt64
  freelist : List Nat
  mem : Nat → UInt8
  kend : Nat

namespace VmState

/-- The page table as `Xv6.walkaddr` reads it: the level-0 PTE of each page
whose two table entries above are valid. -/
def pageTable (s : VmState) : PageTable :=
  ⟨fun v => if s.l1 (v / 2 ^ 18) ∧ s.l0 (v / 2 ^ 9) then some (s.pte v) else none⟩

/-- `kalloc()`: the first page of the free list, filled with junk. -/
def kalloc (s : VmState) : Option (Nat × VmState) :=
  match s.freelist with
  | [] => none
  | pa :: rest => some (pa, { s with freelist := rest, mem := fill s.mem pa 5 })

/-- `kfree(pa)`: a panic unless `pa` is a page of `[end, PHYSTOP)`; else
filled with junk and pushed on the free list. -/
def kfree (s : VmState) (pa : Nat) : Except String VmState :=
  if pa % PGSIZE ≠ 0 ∨ pa < s.kend ∨ pa ≥ PHYSTOP then .error "kfree"
  else .ok { s with mem := fill s.mem pa 1, freelist := pa :: s.freelist }

/-- The root level of `walk`'s loop: the entry for the level-1 table `i` is
valid, or `alloc` gets it a zeroed page. -/
def table1 (s : VmState) (i : Nat) (alloc : Bool) : Option VmState :=
  if s.l1 i then some s
  else if alloc then
    (kalloc s).map fun r =>
      { r.2 with
        l1 := fun i' => if i' = i then true else r.2.l1 i'
        l0 := fun j => if j / 2 ^ 9 = i then false else r.2.l0 j
        mem := fill r.2.mem r.1 0 }
  else none

/-- The middle level of `walk`'s loop: the entry for the level-0 table `j`
is valid, or `alloc` gets it a zeroed page. -/
def table0 (s : VmState) (j : Nat) (alloc : Bool) : Option VmState :=
  if s.l0 j then some s
  else if alloc then
    (kalloc s).map fun r =>
      { r.2 with
        l0 := fun j' => if j' = j then true else r.2.l0 j'
        pte := fun v => if v / 2 ^ 9 = j then 0 else r.2.pte v
        mem := fill r.2.mem r.1 0 }
  else none

/-- `walk(pagetable, va, alloc)`: whether it returns a PTE, and the state
with the tables it allocated, also when it then returns `0`. -/
def walk (s : VmState) (va : Nat) (alloc : Bool) : Except String (Bool × VmState) :=
  if va ≥ MAXVA.toNat then .error "walk"
  else
    match table1 s (va / 2 ^ 30) alloc with
    | none => .ok (false, s)
    | some s =>
      match table0 s (va / 2 ^ 21) alloc with
      | none => .ok (false, s)
      | some s => .ok (true, s)

/-- The loop of `mappages` over `n` pages from `a`, mapped to `pa` on. -/
def mappagesLoop (s : VmState) (perm : UInt64) (a pa : Nat) : Nat → Except String (Int × VmState)
  | 0 => .ok (0, s)
  | k + 1 =>
    match walk s a true with
    | .error e => .error e
    | .ok (false, s) => .ok (-1, s)
    | .ok (true, s) =>
      if s.pte (a / PGSIZE) &&& PTE_V ≠ 0 then .error "remap"
      else
        let s := { s with pte := fun v => if v = a / PGSIZE then PA2PTE pa ||| perm ||| PTE_V else s.pte v }
        if k = 0 then .ok (0, s) else mappagesLoop s perm (a + PGSIZE) (pa + PGSIZE) k

/-- `mappages(pagetable, va, size, pa, perm)`. -/
def mappages (s : VmState) (va size pa : Nat) (perm : UInt64) : Except String (Int × VmState) :=
  let a := va / PGSIZE * PGSIZE
  let last := (va + size - 1) / PGSIZE * PGSIZE
  mappagesLoop s perm a pa ((last - a) / PGSIZE + 1)

/-- The loop of `uvmunmap` over `n` pages from `a`. -/
def uvmunmapLoop (s : VmState) (doFree : Bool) (a : Nat) : Nat → Except String VmState
  | 0 => .ok s
  | k + 1 =>
    match walk s a false with
    | .error e => .error e
    | .ok (false, _) => .error "uvmunmap: walk"
    | .ok (true, s) =>
      if s.pte (a / PGSIZE) &&& PTE_V = 0 then .error "uvmunmap: not mapped"
      else if PTE_FLAGS (s.pte (a / PGSIZE)) = PTE_V then .error "uvmunmap: not a leaf"
      else
        match (if doFree then kfree s (PTE2PA (s.pte (a / PGSIZE))).toNat else .ok s) with
        | .error e => .error e
        | .ok s => uvmunmapLoop { s with pte := fun v => if v = a / PGSIZE then 0 else s.pte v } doFree (a + PGSIZE) k

/-- `uvmunmap(pagetable, va, npages, do_free)`. -/
def uvmunmap (s : VmState) (va npages : Nat) (doFree : Bool) : Except String VmState :=
  if va % PGSIZE ≠ 0 then .error "uvmunmap: not aligned" else uvmunmapLoop s doFree va npages

/-- `uvmdealloc(pagetable, oldsz, newsz)`: the new size. -/
def uvmdealloc (s : VmState) (oldsz newsz : Nat) : Except String (Nat × VmState) :=
  if newsz ≥ oldsz then .ok (oldsz, s)
  else if PGROUNDUP newsz < PGROUNDUP oldsz then
    (uvmunmap s (PGROUNDUP newsz) ((PGROUNDUP oldsz - PGROUNDUP newsz) / PGSIZE) true).map fun s => (newsz, s)
  else .ok (newsz, s)

/-- The loop of `uvmalloc` from `a` on, with `oldsz` already rounded up: the
new size, or `0` once it has undone its work. -/
def uvmallocLoop (s : VmState) (oldsz newsz a : Nat) : Except String (Nat × VmState) :=
  if a < newsz then
    match kalloc s with
    | none => (uvmdealloc s a oldsz).map fun r => (0, r.2)
    | some (mem, s) =>
      match mappages { s with mem := fill s.mem mem 0 } a PGSIZE mem (PTE_W ||| PTE_X ||| PTE_R ||| PTE_U) with
      | .error e => .error e
      | .ok (r, s) =>
        if r ≠ 0 then
          match kfree s mem with
          | .error e => .error e
          | .ok s => (uvmdealloc s a oldsz).map fun r => (0, r.2)
        else uvmallocLoop s oldsz newsz (a + PGSIZE)
  else .ok (newsz, s)
termination_by newsz - a
decreasing_by
  have : 0 < PGSIZE := by decide
  omega

/-- `uvmalloc(pagetable, oldsz, newsz)`: the new size, or `0`. -/
def uvmalloc (s : VmState) (oldsz newsz : Nat) : Except String (Nat × VmState) :=
  if newsz < oldsz then .ok (oldsz, s)
  else uvmallocLoop s (PGROUNDUP oldsz) newsz (PGROUNDUP oldsz)

/-- `growproc(n)` for a process of size `sz`: its result, `p->sz` after, and
the state. The size is read into a `uint sz`, and `sz + n` is a `uint` sum. -/
def growproc (s : VmState) (sz : Nat) (n : Int) : Except String (Int × Nat × VmState) :=
  let sz32 := sz % 2 ^ 32
  let newsz := ((sz32 + n) % 2 ^ 32).toNat
  if n > 0 then
    match uvmalloc s sz32 newsz with
    | .error e => .error e
    | .ok (r, s) => if r % 2 ^ 32 = 0 then .ok (-1, sz, s) else .ok (0, r % 2 ^ 32, s)
  else if n < 0 then
    match uvmdealloc s sz32 newsz with
    | .error e => .error e
    | .ok (r, s) => .ok (0, r % 2 ^ 32, s)
  else .ok (0, sz32, s)

/-- `sys_sbrk()` with argument `n` for a process of size `sz`: the `uint64`
returned (the old size taken into an `int`, or `-1`), `p->sz` after, and the
state. -/
def sysSbrk (s : VmState) (sz : Nat) (n : Int) : Except String (Nat × Nat × VmState) :=
  match growproc s sz n with
  | .error e => .error e
  | .ok (r, sz', s) => if r < 0 then .ok (2 ^ 64 - 1, sz', s) else .ok ((toInt32 sz % 2 ^ 64).toNat, sz', s)

/-! ## What a process's address space keeps -/

/-- A page `kfree` accepts: aligned, in `[end, PHYSTOP)`. -/
def IsPage (kend pa : Nat) : Prop := pa % PGSIZE = 0 ∧ kend ≤ pa ∧ pa < PHYSTOP

/-- `m'` is `m` outside the pages `pas`. -/
def SameOutside (m m' : Nat → UInt8) (pas : List Nat) : Prop :=
  ∀ x, (∀ pa ∈ pas, ¬(pa ≤ x ∧ x < pa + PGSIZE)) → m' x = m x

/-- The tables: a valid middle entry lies under a valid root entry, and a
nonzero PTE in a valid level-0 table. -/
structure TablesOk (s : VmState) : Prop where
  l1_of_l0 : ∀ j, s.l0 j = true → s.l1 (j / 2 ^ 9) = true
  l0_of_pte : ∀ v, s.pte v ≠ 0 → s.l0 (v / 2 ^ 9) = true

/-- What every process of size `sz` keeps: its tables are consistent; the
free list holds distinct pages of `[end, PHYSTOP)`; each page below
`PGROUNDUP(sz)` is a valid leaf whose physical page is a page of `[end,
PHYSTOP)`, its own and off the free list; and the pages from `PGROUNDUP(sz)`
up to the trap frame have no PTE. -/
structure Good (s : VmState) (sz : Nat) : Prop extends TablesOk s where
  kend_ge : KERNBASE ≤ s.kend
  free_nodup : s.freelist.Nodup
  free_page : ∀ pa ∈ s.freelist, IsPage s.kend pa
  leaf : ∀ v < npages sz, s.pte v &&& PTE_V ≠ 0 ∧ PTE_FLAGS (s.pte v) ≠ PTE_V
  pa_page : ∀ v < npages sz, IsPage s.kend (PTE2PA (s.pte v)).toNat
  pa_inj : ∀ v < npages sz, ∀ w < npages sz, PTE2PA (s.pte v) = PTE2PA (s.pte w) → v = w
  pa_free : ∀ v < npages sz, (PTE2PA (s.pte v)).toNat ∉ s.freelist
  unmapped : ∀ v, npages sz ≤ v → v < TRAPFRAME / PGSIZE → s.pte v = 0

/-- The physical pages of the `n` pages from page `lo`. -/
def physPages (s : VmState) (lo n : Nat) : List Nat := (List.range' lo n).map fun v => (PTE2PA (s.pte v)).toNat

/-- How a `walk` that allocates changes the state: `k` pages off the head of
the free list become tables, and nothing a PTE says changes. -/
structure Grows (s s' : VmState) (k : Nat) : Prop where
  tables : s'.TablesOk
  pte_eq : s'.pte = s.pte
  kend_eq : s'.kend = s.kend
  free_eq : s'.freelist = s.freelist.drop k
  mem_eq : SameOutside s.mem s'.mem (s.freelist.take k)
  l1_mono : ∀ i, s.l1 i = true → s'.l1 i = true
  l0_mono : ∀ j, s.l0 j = true → s'.l0 j = true

theorem SameOutside.refl (m : Nat → UInt8) (pas : List Nat) : SameOutside m m pas := fun _ _ => rfl

theorem SameOutside.trans {m m' m'' : Nat → UInt8} {pas qs : List Nat} (h : SameOutside m m' pas)
    (h' : SameOutside m' m'' qs) : SameOutside m m'' (pas ++ qs) := fun x hx =>
  (h' x fun pa hp => hx pa (List.mem_append_right _ hp)).trans (h x fun pa hp => hx pa (List.mem_append_left _ hp))

theorem SameOutside.fill (m : Nat → UInt8) (pa : Nat) (b : UInt8) : SameOutside m (Xv6.fill m pa b) [pa] :=
  fun _ hx => if_neg (hx pa List.mem_cons_self)

theorem Grows.refl {s : VmState} (h : s.TablesOk) : Grows s s 0 :=
  ⟨h, rfl, rfl, rfl, SameOutside.refl _ _, fun _ h => h, fun _ h => h⟩

theorem Grows.trans {s s' s'' : VmState} {k k' : Nat} (h : Grows s s' k) (h' : Grows s' s'' k') : Grows s s'' (k + k') where
  tables := h'.tables
  pte_eq := h'.pte_eq.trans h.pte_eq
  kend_eq := h'.kend_eq.trans h.kend_eq
  free_eq := by rw [h'.free_eq, h.free_eq, List.drop_drop]
  mem_eq := by
    rw [List.take_add]
    exact h.mem_eq.trans (h.free_eq ▸ h'.mem_eq)
  l1_mono i hi := h'.l1_mono i (h.l1_mono i hi)
  l0_mono j hj := h'.l0_mono j (h.l0_mono j hj)

section Kalloc

variable {s : VmState}

theorem kalloc_eq_none (h : s.freelist = []) : kalloc s = none := by
  rw [kalloc, h]

theorem kalloc_eq_some {pa : Nat} {rest : List Nat} (h : s.freelist = pa :: rest) :
    kalloc s = some (pa, { s with freelist := rest, mem := fill s.mem pa 5 }) := by
  rw [kalloc, h]

theorem fill_of_not {m : Nat → UInt8} {pa x : Nat} {b : UInt8} (h : ¬(pa ≤ x ∧ x < pa + PGSIZE)) :
    fill m pa b x = m x := if_neg h

theorem fill_of_mem {m : Nat → UInt8} {pa x : Nat} {b : UInt8} (h : pa ≤ x ∧ x < pa + PGSIZE) :
    fill m pa b x = b := if_pos h

/-- A table page taken off the head of the free list. -/
theorem sameOutside_table (m : Nat → UInt8) (pa : Nat) (rest : List Nat) :
    SameOutside m (fill (fill m pa 5) pa 0) ((pa :: rest).take 1) := fun x hx => by
  have h := hx pa List.mem_cons_self
  rw [fill_of_not h, fill_of_not h]

/-- A root entry allocated for the absent table `i`: the middle entries
under it are already clear. -/
theorem table1_eq (ht : s.TablesOk) {i pa : Nat} {rest : List Nat} (hi : s.l1 i = false)
    (hf : s.freelist = pa :: rest) :
    table1 s i true =
      some { s with freelist := rest, mem := fill (fill s.mem pa 5) pa 0, l1 := fun i' => if i' = i then true else s.l1 i' } := by
  have hl0 : (fun j => if j / 2 ^ 9 = i then false else s.l0 j) = s.l0 := by
    funext j
    split
    · rename_i hj
      cases h0 : s.l0 j
      · rfl
      · have := ht.l1_of_l0 j h0
        rw [hj, hi] at this
        cases this
    · rfl
  rw [table1, if_neg (by simp [hi]), if_pos rfl, kalloc_eq_some hf, Option.map_some]
  dsimp only
  rw [hl0]

/-- A middle entry allocated for the absent table `j`: the PTEs under it
are already zero. -/
theorem table0_eq (ht : s.TablesOk) {j pa : Nat} {rest : List Nat} (hj : s.l0 j = false)
    (hf : s.freelist = pa :: rest) :
    table0 s j true =
      some { s with freelist := rest, mem := fill (fill s.mem pa 5) pa 0, l0 := fun j' => if j' = j then true else s.l0 j' } := by
  have hpte : (fun v => if v / 2 ^ 9 = j then 0 else s.pte v) = s.pte := by
    funext v
    split
    · rename_i hv
      by_contra hne
      have := ht.l0_of_pte v (Ne.symm hne)
      rw [hv, hj] at this
      cases this
    · rfl
  rw [table0, if_neg (by simp [hj]), if_pos rfl, kalloc_eq_some hf, Option.map_some]
  dsimp only
  rw [hpte]

/-- A root entry allocated for the absent table `i`. -/
theorem table1_grows (ht : s.TablesOk) {i pa : Nat} {rest : List Nat} (hi : s.l1 i = false)
    (hf : s.freelist = pa :: rest) :
    ∃ s', table1 s i true = some s' ∧ Grows s s' 1 ∧ s'.l1 i = true ∧ s'.l0 = s.l0 := by
  refine ⟨_, table1_eq ht hi hf, ⟨⟨fun j hj => ?_, ht.l0_of_pte⟩, rfl, rfl, by simp [hf], hf ▸ sameOutside_table _ _ _,
    fun i' hi' => ?_, fun _ hj => hj⟩, by simp, rfl⟩
  · show (if j / 2 ^ 9 = i then true else s.l1 (j / 2 ^ 9)) = true
    rw [ht.l1_of_l0 j hj]
    split <;> rfl
  · simp [hi']

/-- A middle entry allocated for the absent table `j`. -/
theorem table0_grows (ht : s.TablesOk) {j pa : Nat} {rest : List Nat} (hj : s.l0 j = false)
    (hj1 : s.l1 (j / 2 ^ 9) = true) (hf : s.freelist = pa :: rest) :
    ∃ s', table0 s j true = some s' ∧ Grows s s' 1 ∧ s'.l0 j = true ∧ s'.l1 = s.l1 := by
  refine ⟨_, table0_eq ht hj hf, ⟨⟨fun j' hj' => ?_, fun v hv => ?_⟩, rfl, rfl, by simp [hf], hf ▸ sameOutside_table _ _ _,
    fun _ hi' => hi', fun j' hj' => ?_⟩, by simp, rfl⟩
  · by_cases e' : j' = j
    · subst e'
      exact hj1
    · simp only [e', if_false] at hj'
      exact ht.l1_of_l0 j' hj'
  · show (if v / 2 ^ 9 = j then true else s.l0 (v / 2 ^ 9)) = true
    rw [ht.l0_of_pte v hv]
    split <;> rfl
  · by_cases e' : j' = j <;> simp [e', hj']

end Kalloc

/-! ## `walk` -/

section Walk

variable {s : VmState} {va : Nat}

theorem table1_of_l1 {i : Nat} {alloc : Bool} (h : s.l1 i = true) : table1 s i alloc = some s := by
  rw [table1, if_pos h]

theorem table1_of_nil {i : Nat} {alloc : Bool} (h : s.l1 i = false) (hf : s.freelist = []) : table1 s i alloc = none := by
  rw [table1, if_neg (by simp [h])]
  cases alloc
  · rfl
  · rw [if_pos rfl, kalloc_eq_none hf, Option.map_none]

theorem table0_of_l0 {j : Nat} {alloc : Bool} (h : s.l0 j = true) : table0 s j alloc = some s := by
  rw [table0, if_pos h]

theorem table0_of_nil {j : Nat} {alloc : Bool} (h : s.l0 j = false) (hf : s.freelist = []) : table0 s j alloc = none := by
  rw [table0, if_neg (by simp [h])]
  cases alloc
  · rfl
  · rw [if_pos rfl, kalloc_eq_none hf, Option.map_none]

theorem table1_of_not_alloc {i : Nat} (h : s.l1 i = false) : table1 s i false = none := by
  rw [table1, if_neg (by simp [h]), if_neg (by simp)]

theorem table0_of_not_alloc {j : Nat} (h : s.l0 j = false) : table0 s j false = none := by
  rw [table0, if_neg (by simp [h]), if_neg (by simp)]

theorem div_two_pow_21_div (va : Nat) : va / 2 ^ 21 / 2 ^ 9 = va / 2 ^ 30 := by
  rw [Nat.div_div_eq_div_mul, ← Nat.pow_add]

/-- A `walk` that does not allocate changes nothing: it finds the PTE iff
both entries above it are valid. -/
theorem walk_false (ha : va < MAXVA.toNat) :
    walk s va false = .ok (s.l1 (va / 2 ^ 30) && s.l0 (va / 2 ^ 21), s) := by
  rw [walk, if_neg (by omega)]
  cases h1 : s.l1 (va / 2 ^ 30)
  · rw [table1_of_not_alloc h1]
    rfl
  · rw [table1_of_l1 h1]
    dsimp only
    cases h0 : s.l0 (va / 2 ^ 21)
    · rw [table0_of_not_alloc h0]
      rfl
    · rw [table0_of_l0 h0]
      rfl

/-- **A `walk` that allocates** takes at most two pages off the free list
for tables, changes no PTE, and returns a PTE unless the free list ran out. -/
theorem walk_alloc (ht : s.TablesOk) (ha : va < MAXVA.toNat) :
    ∃ b s' k, walk s va true = .ok (b, s') ∧ Grows s s' k ∧ k ≤ 2 ∧
      (b = true → s'.l1 (va / 2 ^ 30) = true ∧ s'.l0 (va / 2 ^ 21) = true) ∧
      (b = false → s'.freelist = [] ∧ k ≤ 1) := by
  rw [walk, if_neg (by omega)]
  cases h1 : s.l1 (va / 2 ^ 30) with
  | true =>
    rw [table1_of_l1 h1]
    dsimp only
    cases h0 : s.l0 (va / 2 ^ 21) with
    | true =>
      rw [table0_of_l0 h0]
      exact ⟨true, s, 0, rfl, Grows.refl ht, by omega, fun _ => ⟨h1, h0⟩, fun h => by cases h⟩
    | false =>
      cases hf : s.freelist with
      | nil =>
        rw [table0_of_nil h0 hf]
        exact ⟨false, s, 0, rfl, Grows.refl ht, by omega, (fun h => by cases h), fun _ => ⟨hf, by omega⟩⟩
      | cons pa rest =>
        obtain ⟨s', e, hg, h0', h1'⟩ := table0_grows ht h0 (by rw [div_two_pow_21_div]; exact h1) hf
        rw [e]
        exact ⟨true, s', 1, rfl, hg, by omega, fun _ => ⟨by rw [h1']; exact h1, h0'⟩, fun h => by cases h⟩
  | false =>
    cases hf : s.freelist with
    | nil =>
      rw [table1_of_nil h1 hf]
      exact ⟨false, s, 0, rfl, Grows.refl ht, by omega, (fun h => by cases h), fun _ => ⟨hf, by omega⟩⟩
    | cons pa rest =>
      obtain ⟨s₁, e₁, hg₁, h1₁, h0₁⟩ := table1_grows ht h1 hf
      rw [e₁]
      dsimp only
      -- the new level-1 table is empty
      have h0 : s₁.l0 (va / 2 ^ 21) = false := by
        rw [h0₁]
        cases h0 : s.l0 (va / 2 ^ 21)
        · rfl
        · have := ht.l1_of_l0 _ h0
          rw [div_two_pow_21_div, h1] at this
          cases this
      have hf₁ : s₁.freelist = rest := by rw [hg₁.free_eq, hf]; rfl
      cases hr : rest with
      | nil =>
        rw [table0_of_nil h0 (hf₁.trans hr)]
        exact ⟨false, s₁, 1, rfl, hg₁, by omega, (fun h => by cases h), fun _ => ⟨hf₁.trans hr, le_refl _⟩⟩
      | cons pa' rest' =>
        obtain ⟨s₂, e₂, hg₂, h0₂, h1₂⟩ :=
          table0_grows hg₁.tables h0 (by rw [div_two_pow_21_div]; exact h1₁) (hf₁.trans hr)
        rw [e₂]
        exact ⟨true, s₂, 2, rfl, hg₁.trans hg₂, le_refl _, fun _ => ⟨by rw [h1₂]; exact h1₁, h0₂⟩, fun h => by cases h⟩

end Walk

/-! ## Mapping one page, and unmapping a run of pages -/

section Map

variable {s : VmState}

theorem page_div_21 (v : Nat) : v * PGSIZE / 2 ^ 21 = v / 2 ^ 9 := by
  unfold PGSIZE
  omega

theorem page_div_30 (v : Nat) : v * PGSIZE / 2 ^ 30 = v / 2 ^ 9 / 2 ^ 9 := by
  unfold PGSIZE
  omega

theorem page_div (v : Nat) : v * PGSIZE / PGSIZE = v := Nat.mul_div_cancel v (by decide)

/-- A page with a PTE lies under two valid entries. -/
theorem tables_of_pte (ht : s.TablesOk) {v : Nat} (hv : s.pte v ≠ 0) :
    s.l1 (v * PGSIZE / 2 ^ 30) = true ∧ s.l0 (v * PGSIZE / 2 ^ 21) = true := by
  have h0 := ht.l0_of_pte v hv
  rw [page_div_30, page_div_21]
  exact ⟨ht.l1_of_l0 _ h0, h0⟩

theorem kfree_of_isPage {pa : Nat} (h : IsPage s.kend pa) :
    kfree s pa = .ok { s with mem := fill s.mem pa 1, freelist := pa :: s.freelist } := by
  rw [kfree, if_neg]
  obtain ⟨h₁, h₂, h₃⟩ := h
  omega

/-- **`mappages` of one page** whose PTE is clear: it maps it, or finds no
page for a table; either way its `walk` has only added tables. -/
theorem mappages_page (ht : s.TablesOk) {a : Nat} (ha : a < MAXVA.toNat) (hal : a % PGSIZE = 0)
    (hz : s.pte (a / PGSIZE) = 0) (pa : Nat) (perm : UInt64) :
    ∃ s' k, Grows s s' k ∧ k ≤ 2 ∧
      ((mappages s a PGSIZE pa perm =
          .ok (0, { s' with pte := fun v => if v = a / PGSIZE then PA2PTE pa ||| perm ||| PTE_V else s'.pte v }) ∧
          s'.l1 (a / 2 ^ 30) = true ∧ s'.l0 (a / 2 ^ 21) = true) ∨
        (mappages s a PGSIZE pa perm = .ok (-1, s') ∧ s'.freelist = [] ∧ k ≤ 1)) := by
  -- a page-aligned `va` and `size = PGSIZE`: one round
  have hone : mappages s a PGSIZE pa perm = mappagesLoop s perm a pa 1 := by
    have e₁ : a / PGSIZE * PGSIZE = a := Nat.div_mul_cancel (Nat.dvd_of_mod_eq_zero hal)
    have e₂ : (a + PGSIZE - 1) / PGSIZE * PGSIZE = a := by
      unfold PGSIZE at hal ⊢
      omega
    rw [mappages]
    simp only [e₁, e₂, Nat.sub_self, Nat.zero_div, Nat.zero_add]
  obtain ⟨b, s', k, hw, hg, hk, hb₁, hb₂⟩ := walk_alloc ht ha
  refine ⟨s', k, hg, hk, ?_⟩
  rw [hone, mappagesLoop, hw]
  cases b with
  | false => exact .inr ⟨rfl, hb₂ rfl⟩
  | true =>
    refine .inl ⟨?_, hb₁ rfl⟩
    dsimp only
    rw [if_neg (by rw [hg.pte_eq, hz]; decide), if_pos rfl]

/-- **`uvmunmap` with `do_free`** over `n` mapped pages from page `lo`:
their PTEs are cleared and their pages pushed on the free list, in order. -/
theorem uvmunmapLoop_spec (n : Nat) :
    ∀ (s : VmState) (lo : Nat), s.TablesOk → (lo + n) * PGSIZE ≤ MAXVA.toNat →
      (∀ v, lo ≤ v → v < lo + n →
        s.pte v &&& PTE_V ≠ 0 ∧ PTE_FLAGS (s.pte v) ≠ PTE_V ∧ IsPage s.kend (PTE2PA (s.pte v)).toNat) →
      ∃ s', uvmunmapLoop s true (lo * PGSIZE) n = .ok s' ∧ s'.l1 = s.l1 ∧ s'.l0 = s.l0 ∧ s'.kend = s.kend ∧
        s'.pte = (fun v => if lo ≤ v ∧ v < lo + n then 0 else s.pte v) ∧
        s'.freelist = (physPages s lo n).reverse ++ s.freelist ∧ SameOutside s.mem s'.mem (physPages s lo n) := by
  induction n with
  | zero =>
    intro s lo _ _ _
    refine ⟨s, rfl, rfl, rfl, rfl, ?_, rfl, SameOutside.refl _ _⟩
    funext v
    rw [if_neg (by omega)]
  | succ n ih =>
    intro s lo ht hlt hmap
    obtain ⟨hV, hleaf, hpage⟩ := hmap lo (le_refl _) (by omega)
    have hne : s.pte lo ≠ 0 := fun h => hV (by rw [h]; decide)
    obtain ⟨h1, h0⟩ := tables_of_pte ht hne
    -- the round for page `lo`: found, mapped, a leaf, freed and cleared
    obtain ⟨s₂, hs₂⟩ : ∃ s₂ : VmState, s₂ =
        { s with mem := fill s.mem (PTE2PA (s.pte lo)).toNat 1, freelist := (PTE2PA (s.pte lo)).toNat :: s.freelist,
                 pte := fun v => if v = lo then 0 else s.pte v } := ⟨_, rfl⟩
    have hpte₂ : ∀ v, s₂.pte v = if v = lo then 0 else s.pte v := fun v => by rw [hs₂]
    have hround : uvmunmapLoop s true (lo * PGSIZE) (n + 1) = uvmunmapLoop s₂ true ((lo + 1) * PGSIZE) n := by
      have hlo : lo * PGSIZE < MAXVA.toNat := lt_of_lt_of_le (Nat.mul_lt_mul_of_pos_right (by omega) (by decide)) hlt
      rw [uvmunmapLoop, walk_false hlo, h1, h0, Bool.and_self]
      dsimp only
      rw [page_div, if_neg hV, if_neg hleaf, if_pos rfl, kfree_of_isPage hpage, Nat.succ_mul, hs₂]
    have ht₂ : s₂.TablesOk := by
      refine ⟨by rw [hs₂]; exact ht.l1_of_l0, fun v hv => ?_⟩
      rw [hpte₂] at hv
      rw [hs₂]
      by_cases e : v = lo
      · exact absurd (if_pos e) hv
      · rw [if_neg e] at hv
        exact ht.l0_of_pte v hv
    have hmap₂ : ∀ v, lo + 1 ≤ v → v < lo + 1 + n →
        s₂.pte v &&& PTE_V ≠ 0 ∧ PTE_FLAGS (s₂.pte v) ≠ PTE_V ∧ IsPage s₂.kend (PTE2PA (s₂.pte v)).toNat := by
      intro v h₁ h₂
      rw [hpte₂, if_neg (show v ≠ lo by omega), show s₂.kend = s.kend by rw [hs₂]]
      exact hmap v (by omega) (by omega)
    obtain ⟨s', hs', hl1, hl0, hkend, hpte, hfree, hmem⟩ := ih s₂ (lo + 1) ht₂ (by rw [Nat.add_right_comm]; exact hlt) hmap₂
    -- the rest of the run reads the PTEs `s` had
    have hmap_eq : physPages s₂ (lo + 1) n = physPages s (lo + 1) n := by
      apply List.map_congr_left
      intro v hv
      rw [List.mem_range'_1] at hv
      rw [hpte₂, if_neg (show v ≠ lo by omega)]
    rw [hmap_eq] at hfree hmem
    refine ⟨s', hround.trans hs', by rw [hl1, hs₂], by rw [hl0, hs₂], by rw [hkend, hs₂], ?_, ?_, ?_⟩
    · rw [hpte]
      funext v
      rw [hpte₂]
      by_cases e : v = lo
      · rw [if_pos e, if_neg (by omega), if_pos ⟨by omega, by omega⟩]
      · rw [if_neg e]
        congr 1
        apply propext
        omega
    · rw [hfree, hs₂]
      unfold physPages
      rw [List.range'_succ, List.map_cons, List.reverse_cons, List.append_assoc]
      rfl
    · unfold physPages at hmem ⊢
      rw [List.range'_succ, List.map_cons]
      intro x hx
      rw [hmem x fun q hq => hx q (List.mem_cons_of_mem _ hq),
        show s₂.mem = fill s.mem (PTE2PA (s.pte lo)).toNat 1 by rw [hs₂]]
      exact fill_of_not (hx _ List.mem_cons_self)

end Map

/-! ## The invariant: size, pages, and shrinking -/

section Good

variable {s : VmState} {sz : Nat}

theorem Good.congr (hg : Good s sz) {sz' : Nat} (h : npages sz' = npages sz) : Good s sz' where
  toTablesOk := hg.toTablesOk
  kend_ge := hg.kend_ge
  free_nodup := hg.free_nodup
  free_page := hg.free_page
  leaf v hv := hg.leaf v (h ▸ hv)
  pa_page v hv := hg.pa_page v (h ▸ hv)
  pa_inj v hv w hw := hg.pa_inj v (h ▸ hv) w (h ▸ hw)
  pa_free v hv := hg.pa_free v (h ▸ hv)
  unmapped v hv := hg.unmapped v (h ▸ hv)

/-- A process owns distinct pages of `[KERNBASE, PHYSTOP)`, so it has at most
as many pages as the machine. -/
theorem npages_le_of_good (hg : Good s sz) : npages sz ≤ (PHYSTOP - KERNBASE) / PGSIZE := by
  have hk := hg.kend_ge
  have hmaps : Set.MapsTo (fun v => (PTE2PA (s.pte v)).toNat / PGSIZE) (Finset.range (npages sz) : Set Nat)
      (Finset.Ico (KERNBASE / PGSIZE) (PHYSTOP / PGSIZE) : Set Nat) := by
    intro v hv
    simp only [Finset.coe_range, Set.mem_Iio, Finset.coe_Ico, Set.mem_Ico] at hv ⊢
    obtain ⟨h₁, h₂, h₃⟩ := hg.pa_page v hv
    unfold PHYSTOP KERNBASE PGSIZE at *
    omega
  have hinj : Set.InjOn (fun v => (PTE2PA (s.pte v)).toNat / PGSIZE) (Finset.range (npages sz) : Set Nat) := by
    intro v hv w hw he
    simp only [Finset.coe_range, Set.mem_Iio] at hv hw he
    -- two aligned pages with one page number are one page
    refine hg.pa_inj v hv w hw (UInt64.toNat_inj.1 ?_)
    obtain ⟨hv₁, -, -⟩ := hg.pa_page v hv
    obtain ⟨hw₁, -, -⟩ := hg.pa_page w hw
    unfold PGSIZE at *
    omega
  have hcard := Finset.card_le_card_of_injOn _ hmaps hinj
  rw [Finset.card_range, Nat.card_Ico] at hcard
  unfold PHYSTOP KERNBASE PGSIZE at *
  omega

/-- **A process has at most 128 MiB**, so its size is far from wrapping a `uint`. -/
theorem size_le_of_good (hg : Good s sz) : sz ≤ PHYSTOP - KERNBASE := by
  have := npages_le_of_good hg
  unfold npages at this
  unfold PHYSTOP KERNBASE PGSIZE at *
  omega

/-- So the size is a nonnegative `int`. -/
theorem lt_two_pow_31_of_good (hg : Good s sz) : sz < 2 ^ 31 := by
  have := size_le_of_good hg
  unfold PHYSTOP KERNBASE at this
  omega

theorem mem_physPages {lo n pa : Nat} :
    pa ∈ physPages s lo n ↔ ∃ v, lo ≤ v ∧ v < lo + n ∧ (PTE2PA (s.pte v)).toNat = pa := by
  simp [physPages, List.mem_range'_1, and_assoc]

theorem physPages_nodup (hg : Good s sz) {lo n : Nat} (h : lo + n ≤ npages sz) : (physPages s lo n).Nodup := by
  refine List.Nodup.map_on (fun v hv w hw he => ?_) List.nodup_range'
  rw [List.mem_range'_1] at hv hw
  exact hg.pa_inj v (by omega) w (by omega) (UInt64.toNat_inj.1 he)

/-- Unmapping and freeing the pages from `T` up: the process of `T` pages
keeps the invariant, and the freed pages join the free list. -/
theorem good_of_unmap (hg : Good s sz) {T : Nat} (hT : T ≤ npages sz) {s' : VmState} (hkend : s'.kend = s.kend)
    (hl1 : s'.l1 = s.l1) (hl0 : s'.l0 = s.l0)
    (hpte : s'.pte = fun v => if T ≤ v ∧ v < npages sz then 0 else s.pte v)
    (hfree : s'.freelist = (physPages s T (npages sz - T)).reverse ++ s.freelist) : Good s' (T * PGSIZE) := by
  have hpt : ∀ v, s'.pte v = if T ≤ v ∧ v < npages sz then 0 else s.pte v := fun v => by rw [hpte]
  have hkeep : ∀ v < T, s'.pte v = s.pte v := fun v hv => by rw [hpt, if_neg (by omega)]
  -- a page below `T` is not one of the freed ones
  have hother : ∀ v < T, (PTE2PA (s.pte v)).toNat ∉ physPages s T (npages sz - T) := by
    intro v hv hmem
    obtain ⟨w, hw₁, hw₂, he⟩ := mem_physPages.1 hmem
    have := hg.pa_inj w (by omega) v (by omega) (UInt64.toNat_inj.1 he)
    omega
  refine ⟨⟨fun j hj => ?_, fun v hv => ?_⟩, hkend ▸ hg.kend_ge, ?_, fun pa hpa => ?_, fun v hv => ?_, fun v hv => ?_,
    fun v hv w hw he => ?_, fun v hv => ?_, fun v hv₁ hv₂ => ?_⟩
  · rw [hl1]
    exact hg.l1_of_l0 j (hl0 ▸ hj)
  · rw [hl0]
    rw [hpt] at hv
    split at hv
    · exact absurd rfl hv
    · exact hg.l0_of_pte v hv
  · rw [hfree, List.nodup_append, List.nodup_reverse]
    refine ⟨physPages_nodup hg (by omega), hg.free_nodup, fun a ha b hb e => ?_⟩
    obtain ⟨w, hw₁, hw₂, he⟩ := mem_physPages.1 (List.mem_reverse.1 ha)
    exact hg.pa_free w (by omega) (he ▸ e ▸ hb)
  · rw [hkend]
    rw [hfree, List.mem_append, List.mem_reverse] at hpa
    rcases hpa with hpa | hpa
    · obtain ⟨w, hw₁, hw₂, rfl⟩ := mem_physPages.1 hpa
      exact hg.pa_page w (by omega)
    · exact hg.free_page pa hpa
  · rw [npages_mul] at hv
    rw [hkeep v hv]
    exact hg.leaf v (by omega)
  · rw [npages_mul] at hv
    rw [hkeep v hv, hkend]
    exact hg.pa_page v (by omega)
  · rw [npages_mul] at hv hw
    rw [hkeep v hv, hkeep w hw] at he
    exact hg.pa_inj v (by omega) w (by omega) he
  · rw [npages_mul] at hv
    rw [hkeep v hv, hfree, List.mem_append, List.mem_reverse, not_or]
    exact ⟨hother v hv, hg.pa_free v (by omega)⟩
  · rw [npages_mul] at hv₁
    rw [hpt]
    split
    · rfl
    · exact hg.unmapped v (by omega) hv₂

/-- **`uvmdealloc` to a smaller size** unmaps and frees the pages from
`PGROUNDUP(newsz)` to `PGROUNDUP(oldsz)`, and nothing else. -/
theorem uvmdealloc_shrink (hg : Good s sz) {newsz : Nat} (hlt : newsz < sz) :
    ∃ s', uvmdealloc s sz newsz = .ok (newsz, s') ∧ Good s' newsz ∧ s'.kend = s.kend ∧ s'.l1 = s.l1 ∧ s'.l0 = s.l0 ∧
      s'.pte = (fun v => if npages newsz ≤ v ∧ v < npages sz then 0 else s.pte v) ∧
      s'.freelist = (physPages s (npages newsz) (npages sz - npages newsz)).reverse ++ s.freelist ∧
      SameOutside s.mem s'.mem (physPages s (npages newsz) (npages sz - npages newsz)) := by
  have hle : npages newsz ≤ npages sz := Nat.div_le_div_right (by omega)
  have hmax : npages sz ≤ 32768 := by
    have := npages_le_of_good hg
    unfold PHYSTOP KERNBASE PGSIZE at this
    omega
  rw [uvmdealloc, if_neg (by omega)]
  by_cases h : PGROUNDUP newsz < PGROUNDUP sz
  · -- whole pages to free: `uvmunmap` of them
    have hn : (PGROUNDUP sz - PGROUNDUP newsz) / PGSIZE = npages sz - npages newsz := by
      rw [PGROUNDUP_eq, PGROUNDUP_eq, ← Nat.sub_mul, Nat.mul_div_cancel _ (by decide)]
    obtain ⟨s', hs', hl1, hl0, hkend, hpte, hfree, hmem⟩ :=
      uvmunmapLoop_spec (npages sz - npages newsz) s (npages newsz) hg.toTablesOk
        (by rw [Nat.add_sub_cancel' hle, toNat_MAXVA]; unfold PGSIZE; omega)
        (fun v h₁ h₂ => ⟨(hg.leaf v (by omega)).1, (hg.leaf v (by omega)).2, hg.pa_page v (by omega)⟩)
    rw [Nat.add_sub_cancel' hle] at hpte
    refine ⟨s', ?_, (good_of_unmap hg hle hkend hl1 hl0 hpte hfree).congr (by rw [npages_mul]), hkend, hl1, hl0, hpte,
      hfree, hmem⟩
    rw [if_pos h, uvmunmap, hn, PGROUNDUP_eq, if_neg (by simp), hs']
    rfl
  · -- the same last page: nothing to free
    have he : npages newsz = npages sz := by
      rw [PGROUNDUP_eq, PGROUNDUP_eq] at h
      have := Nat.mul_le_mul_right PGSIZE hle
      exact Nat.le_antisymm hle (Nat.le_of_mul_le_mul_right (by omega) (show 0 < PGSIZE by decide))
    rw [if_neg h]
    refine ⟨s, rfl, hg.congr he, rfl, rfl, rfl, ?_, by rw [he, Nat.sub_self]; rfl, by rw [he, Nat.sub_self]; exact SameOutside.refl _ _⟩
    funext v
    rw [if_neg (by omega)]

end Good

/-! ## Growing: the rounds of `uvmalloc` -/

section Alloc

variable {s s₀ : VmState} {L A m : Nat}

theorem SameOutside.mono {m m' : Nat → UInt8} {pas qs : List Nat} (h : SameOutside m m' pas)
    (hsub : ∀ pa ∈ pas, pa ∈ qs) : SameOutside m m' qs :=
  fun x hx => h x fun pa hp => hx pa (hsub pa hp)

/-- Distinct aligned pages are disjoint. -/
theorem not_mem_page_of_ne {pa qa x : Nat} (hp : pa % PGSIZE = 0) (hq : qa % PGSIZE = 0) (hne : pa ≠ qa)
    (hx : qa ≤ x ∧ x < qa + PGSIZE) : ¬(pa ≤ x ∧ x < pa + PGSIZE) := by
  unfold PGSIZE at *
  omega

/-- A page that is not among `pas` keeps its bytes. -/
theorem SameOutside.page {m m' : Nat → UInt8} {pas : List Nat} (h : SameOutside m m' pas)
    (hal : ∀ q ∈ pas, q % PGSIZE = 0) {pa : Nat} (hpa : pa % PGSIZE = 0) (hnot : pa ∉ pas) {x : Nat}
    (hx : pa ≤ x ∧ x < pa + PGSIZE) : m' x = m x :=
  h x fun q hq => not_mem_page_of_ne (hal q hq) hpa (fun e => hnot (e ▸ hq)) hx

/-- Distinct elements of `l₀` make up `l` and the rest of `l₀`. -/
theorem exists_perm_of_subset {α : Type} {l l₀ : List α} (hn : l.Nodup) (hs : ∀ a ∈ l, a ∈ l₀) :
    ∃ t, (t ++ l).Perm l₀ := by
  obtain ⟨l', hp, hsub⟩ := List.subperm_of_subset hn hs
  obtain ⟨t, ht⟩ := hsub.exists_perm_append
  exact ⟨t, List.perm_append_comm.trans ((hp.symm.append_right t).trans ht.symm)⟩

theorem uvmallocLoop_done {oldsz newsz a : Nat} (h : ¬a < newsz) : uvmallocLoop s oldsz newsz a = .ok (newsz, s) := by
  rw [uvmallocLoop, if_neg h]

theorem uvmallocLoop_nil {oldsz newsz a : Nat} (h : a < newsz) (hf : s.freelist = []) :
    uvmallocLoop s oldsz newsz a = (uvmdealloc s a oldsz).map fun r => (0, r.2) := by
  rw [uvmallocLoop, if_pos h, kalloc_eq_none hf]

theorem uvmallocLoop_mapped {oldsz newsz a pa : Nat} {rest : List Nat} {s' : VmState} (h : a < newsz)
    (hf : s.freelist = pa :: rest)
    (hm : mappages { s with freelist := rest, mem := fill (fill s.mem pa 5) pa 0 } a PGSIZE pa
      (PTE_W ||| PTE_X ||| PTE_R ||| PTE_U) = .ok (0, s')) :
    uvmallocLoop s oldsz newsz a = uvmallocLoop s' oldsz newsz (a + PGSIZE) := by
  rw [uvmallocLoop, if_pos h, kalloc_eq_some hf]
  dsimp only
  rw [hm]
  dsimp only
  rw [if_neg (by decide)]

theorem uvmallocLoop_unmapped {oldsz newsz a pa : Nat} {rest : List Nat} {r : Int} {s' s'' : VmState}
    (h : a < newsz) (hf : s.freelist = pa :: rest)
    (hm : mappages { s with freelist := rest, mem := fill (fill s.mem pa 5) pa 0 } a PGSIZE pa
      (PTE_W ||| PTE_X ||| PTE_R ||| PTE_U) = .ok (r, s')) (hr : r ≠ 0) (hk : kfree s' pa = .ok s'') :
    uvmallocLoop s oldsz newsz a = (uvmdealloc s'' a oldsz).map fun r => (0, r.2) := by
  rw [uvmallocLoop, if_pos h, kalloc_eq_some hf]
  dsimp only
  rw [hm]
  dsimp only
  rw [if_pos hr, hk]

/-- A state with the same PTEs whose free list is a sublist keeps the invariant. -/
theorem Good.of_sublist {sz : Nat} (hg : Good s sz) {s' : VmState} (ht : s'.TablesOk) (hpte : s'.pte = s.pte)
    (hkend : s'.kend = s.kend) (hsub : s'.freelist.Sublist s.freelist) : Good s' sz where
  toTablesOk := ht
  kend_ge := hkend ▸ hg.kend_ge
  free_nodup := hg.free_nodup.sublist hsub
  free_page pa hpa := hkend ▸ hg.free_page pa (hsub.subset hpa)
  leaf v hv := hpte ▸ hg.leaf v hv
  pa_page v hv := hkend ▸ hpte ▸ hg.pa_page v hv
  pa_inj v hv w hw he := hg.pa_inj v hv w hw (hpte ▸ he)
  pa_free v hv hmem := hg.pa_free v hv (hsub.subset (hpte ▸ hmem))
  unmapped v hv hv' := hpte ▸ hg.unmapped v hv hv'

/-- **Mapping page `A`** to the head `pa` of the free list: the process of
`A + 1` pages keeps the invariant. -/
theorem good_of_map (hg : Good s (A * PGSIZE)) {pa : Nat} {rest : List Nat} (hf : s.freelist = pa :: rest)
    {s' : VmState} (ht : s'.TablesOk) (hkend : s'.kend = s.kend)
    (hpte : ∀ v, s'.pte v = if v = A then leafPte pa else s.pte v) (hsub : s'.freelist.Sublist rest) :
    Good s' ((A + 1) * PGSIZE) := by
  have hpa : pa ∈ s.freelist := by rw [hf]; exact List.mem_cons_self
  have hnd : (pa :: rest).Nodup := hf ▸ hg.free_nodup
  have hpage := hg.free_page pa hpa
  have hphys : (PTE2PA (leafPte pa)).toNat = pa :=
    toNat_PTE2PA_leafPte hpage.1 (lt_of_lt_of_le hpage.2.2 (by decide))
  have hrest : ∀ q ∈ s'.freelist, q ∈ s.freelist := fun q hq => by
    rw [hf]
    exact List.mem_cons_of_mem _ (hsub.subset hq)
  refine ⟨ht, hkend ▸ hg.kend_ge, (List.nodup_cons.1 hnd).2.sublist hsub, fun q hq => hkend ▸ hg.free_page q (hrest q hq),
    fun v hv => ?_, fun v hv => ?_, fun v hv w hw he => ?_, fun v hv => ?_, fun v hv₁ hv₂ => ?_⟩
  · rw [npages_mul] at hv
    rw [hpte]
    split
    · exact ⟨(leafPte_valid pa).1, (leafPte_valid pa).2.1⟩
    · exact hg.leaf v (by rw [npages_mul]; omega)
  · rw [npages_mul] at hv
    rw [hpte, hkend]
    split
    · rw [hphys]
      exact hpage
    · exact hg.pa_page v (by rw [npages_mul]; omega)
  · rw [npages_mul] at hv hw
    rw [hpte, hpte] at he
    -- the new page is the free list's, every old one off it
    have hold : ∀ u < A, PTE2PA (leafPte pa) ≠ PTE2PA (s.pte u) := fun u hu he' =>
      hg.pa_free u (by rw [npages_mul]; exact hu) (by rw [← congrArg UInt64.toNat he', hphys]; exact hpa)
    by_cases hvA : v = A <;> by_cases hwA : w = A
    · rw [hvA, hwA]
    · rw [if_pos hvA, if_neg hwA] at he
      exact absurd he (hold w (by omega))
    · rw [if_neg hvA, if_pos hwA] at he
      exact absurd he.symm (hold v (by omega))
    · rw [if_neg hvA, if_neg hwA] at he
      exact hg.pa_inj v (by rw [npages_mul]; omega) w (by rw [npages_mul]; omega) he
  · rw [npages_mul] at hv
    rw [hpte]
    split
    · rw [hphys]
      exact fun hmem => (List.nodup_cons.1 hnd).1 (hsub.subset hmem)
    · exact fun hmem => hg.pa_free v (by rw [npages_mul]; omega) (hrest _ hmem)
  · rw [npages_mul] at hv₁
    rw [hpte, if_neg (by omega)]
    exact hg.unmapped v (by rw [npages_mul]; omega) hv₂

/-- What `uvmalloc`'s loop has done when it reaches page `A`, having started
at page `L` from `s₀`: the process of `A` pages keeps the invariant; the
first `m` pages of the free list are gone, as tables or as the new pages,
each mapped by a leaf PTE and zeroed; no other PTE and no other byte changed. -/
structure Grown (s₀ s : VmState) (L A m : Nat) : Prop where
  start : Good s₀ (L * PGSIZE)
  le : L ≤ A
  good : Good s (A * PGSIZE)
  kend_eq : s.kend = s₀.kend
  pte_out : ∀ v, ¬(L ≤ v ∧ v < A) → s.pte v = s₀.pte v
  free_eq : s.freelist = s₀.freelist.drop m
  used : m ≤ 3 * (A - L)
  new_page : ∀ v, L ≤ v → v < A →
    ∃ pa ∈ s₀.freelist.take m, s.pte v = leafPte pa ∧ ∀ x, pa ≤ x → x < pa + PGSIZE → s.mem x = 0
  mem_eq : SameOutside s₀.mem s.mem (s₀.freelist.take m)

/-- What `uvmalloc` has to undo when it runs out of pages: the pages `[L, A)`
it mapped, to pages of the free list `s₀` had. -/
structure Undo (s₀ s : VmState) (L A : Nat) : Prop where
  start : Good s₀ (L * PGSIZE)
  le : L ≤ A
  good : Good s (A * PGSIZE)
  kend_eq : s.kend = s₀.kend
  pte_out : ∀ v, ¬(L ≤ v ∧ v < A) → s.pte v = s₀.pte v
  data : ∀ v, L ≤ v → v < A → (PTE2PA (s.pte v)).toNat ∈ s₀.freelist
  free_sub : ∀ pa ∈ s.freelist, pa ∈ s₀.freelist
  mem_eq : SameOutside s₀.mem s.mem s₀.freelist

/-- How `uvmalloc` leaves a process it could not grow: every PTE as before,
the invariant at the old size, each page of the old free list either back
on it or one of the tables `walk` added, and only those pages written. -/
structure AllocFailed (s₀ s : VmState) (L : Nat) : Prop where
  good : Good s (L * PGSIZE)
  pte_eq : s.pte = s₀.pte
  kend_eq : s.kend = s₀.kend
  tables : ∃ t, (t ++ s.freelist).Perm s₀.freelist
  mem_eq : SameOutside s₀.mem s.mem s₀.freelist

theorem Grown.start_self (hg : Good s₀ (L * PGSIZE)) : Grown s₀ s₀ L L 0 :=
  ⟨hg, le_refl _, hg, rfl, fun _ _ => rfl, rfl, Nat.zero_le _, fun v h₁ h₂ => absurd h₂ (by omega),
    SameOutside.refl _ _⟩

theorem Grown.undo (hgr : Grown s₀ s L A m) : Undo s₀ s L A where
  start := hgr.start
  le := hgr.le
  good := hgr.good
  kend_eq := hgr.kend_eq
  pte_out := hgr.pte_out
  data v h₁ h₂ := by
    obtain ⟨pa, hpa, hpte, -⟩ := hgr.new_page v h₁ h₂
    have hmem := List.mem_of_mem_take hpa
    obtain ⟨hal, -, hlt⟩ := hgr.start.free_page pa hmem
    rw [hpte, toNat_PTE2PA_leafPte hal (lt_of_lt_of_le hlt (by decide))]
    exact hmem
  free_sub pa hpa := by
    rw [hgr.free_eq] at hpa
    exact List.mem_of_mem_drop hpa
  mem_eq := hgr.mem_eq.mono fun _ => List.mem_of_mem_take

/-- **Undoing**: `uvmdealloc` from page `A` back to page `L` leaves every PTE
as `s₀` had it. -/
theorem Undo.dealloc (hu : Undo s₀ s L A) (hA : A ≤ TRAPFRAME / PGSIZE) :
    ∃ r s', uvmdealloc s (A * PGSIZE) (L * PGSIZE) = .ok (r, s') ∧ AllocFailed s₀ s' L := by
  rcases Nat.eq_or_lt_of_le hu.le with hLA | hLA
  · subst hLA
    refine ⟨_, s, by rw [uvmdealloc, if_pos (le_refl _)], hu.good, ?_, hu.kend_eq, ?_, hu.mem_eq⟩
    · funext v
      exact hu.pte_out v (by omega)
    · exact exists_perm_of_subset hu.good.free_nodup hu.free_sub
  · obtain ⟨s', hs', hg', hkend, -, -, hpte, hfree, hmem⟩ :=
      uvmdealloc_shrink hu.good (Nat.mul_lt_mul_of_pos_right hLA (by decide))
    rw [npages_mul, npages_mul] at hpte hfree hmem
    have hsub : ∀ pa ∈ s'.freelist, pa ∈ s₀.freelist := fun pa hpa => by
      rw [hfree, List.mem_append, List.mem_reverse] at hpa
      rcases hpa with hpa | hpa
      · obtain ⟨v, h₁, h₂, rfl⟩ := mem_physPages.1 hpa
        exact hu.data v h₁ (by omega)
      · exact hu.free_sub pa hpa
    refine ⟨_, s', hs', hg', ?_, hkend.trans hu.kend_eq, exists_perm_of_subset hg'.free_nodup hsub,
      (hu.mem_eq.trans hmem).mono fun pa hpa => ?_⟩
    · funext v
      rw [hpte]
      dsimp only
      split
      · -- the pages `[L, A)` had no PTE before
        rename_i hv
        exact (hu.start.unmapped v (by rw [npages_mul]; exact hv.1) (by omega)).symm
      · exact hu.pte_out v (by assumption)
    · rcases List.mem_append.1 hpa with hpa | hpa
      · exact hpa
      · obtain ⟨v, h₁, h₂, rfl⟩ := mem_physPages.1 hpa
        exact hu.data v h₁ (by omega)

section Round

variable (hgr : Grown s₀ s L A m) {pa : Nat} {rest : List Nat} (hf : s.freelist = pa :: rest)
include hgr hf

theorem Grown.drop_eq : s₀.freelist.drop m = pa :: rest := hgr.free_eq.symm.trans hf

theorem Grown.take_succ (k : Nat) : s₀.freelist.take (m + 1 + k) = s₀.freelist.take m ++ pa :: rest.take k := by
  rw [Nat.add_assoc, List.take_add, hgr.drop_eq hf, Nat.add_comm 1 k, List.take_succ_cons]

theorem Grown.head_nodup : (pa :: rest).Nodup :=
  hgr.drop_eq hf ▸ hgr.start.free_nodup.sublist (List.drop_sublist _ _)

theorem Grown.head_aligned : ∀ q ∈ pa :: rest, q % PGSIZE = 0 := fun q hq =>
  (hgr.start.free_page q (List.mem_of_mem_drop ((hgr.drop_eq hf).symm ▸ hq))).1

/-- The pages taken earlier are not the ones still to take. -/
theorem Grown.taken_not_mem : ∀ q ∈ s₀.freelist.take m, q ∉ pa :: rest := fun _ hq hq' =>
  List.disjoint_take_drop hgr.start.free_nodup (le_refl m) hq ((hgr.drop_eq hf).symm ▸ hq')

/-- **A round that maps its page**: the head of the free list becomes page
`A`, zeroed, after the `k` tables `walk` took. -/
theorem Grown.map_page {s' : VmState} {k : Nat}
    (hgs : Grows { s with freelist := rest, mem := fill (fill s.mem pa 5) pa 0 } s' k) (hk : k ≤ 2)
    (hl0 : s'.l0 (A * PGSIZE / 2 ^ 21) = true) :
    Grown s₀ { s' with pte := fun v => if v = A * PGSIZE / PGSIZE then leafPte pa else s'.pte v } L (A + 1)
      (m + 1 + k) := by
  have hpte : ∀ v, (if v = A * PGSIZE / PGSIZE then leafPte pa else s'.pte v) = if v = A then leafPte pa else s.pte v :=
    fun v => by rw [page_div, hgs.pte_eq]
  have hfree : s'.freelist = rest.drop k := hgs.free_eq
  have hsubk : ∀ q ∈ pa :: rest.take k, q ∈ pa :: rest := ((List.take_sublist k rest).cons_cons pa).subset
  have hpa_not : pa ∉ rest.take k := fun h => (List.nodup_cons.1 (hgr.head_nodup hf)).1 (List.mem_of_mem_take h)
  have halk : ∀ q ∈ rest.take k, q % PGSIZE = 0 := fun q hq =>
    hgr.head_aligned hf q (List.mem_cons_of_mem _ (List.mem_of_mem_take hq))
  -- the bytes this round writes: page `pa` twice, then the tables
  have hmem : SameOutside s.mem s'.mem (pa :: rest.take k) :=
    (((SameOutside.fill _ _ _).trans (SameOutside.fill _ _ _)).trans hgs.mem_eq).mono fun q hq => by
      simp only [List.mem_append, List.mem_singleton, or_self] at hq
      rcases hq with rfl | hq
      · exact List.mem_cons_self
      · exact List.mem_cons_of_mem _ hq
  have ht : TablesOk { s' with pte := fun v => if v = A * PGSIZE / PGSIZE then leafPte pa else s'.pte v } := by
    refine ⟨hgs.tables.l1_of_l0, fun v hv => ?_⟩
    show s'.l0 (v / 2 ^ 9) = true
    by_cases hvA : v = A
    · rw [hvA, ← page_div_21]
      exact hl0
    · have hv' : (if v = A then leafPte pa else s.pte v) ≠ 0 := by rw [← hpte]; exact hv
      rw [if_neg hvA] at hv'
      exact hgs.tables.l0_of_pte v (by rw [hgs.pte_eq]; exact hv')
  refine ⟨hgr.start, by have := hgr.le; omega,
    good_of_map hgr.good hf ht hgs.kend_eq hpte (by rw [show _ = s'.freelist from rfl, hfree]; exact List.drop_sublist _ _),
    hgs.kend_eq.trans hgr.kend_eq, fun v hv => ?_, ?_, by have := hgr.used; have := hgr.le; omega,
    fun v h₁ h₂ => ?_, ?_⟩
  · show (if v = A * PGSIZE / PGSIZE then leafPte pa else s'.pte v) = _
    have := hgr.le
    rw [hpte, if_neg (by omega)]
    exact hgr.pte_out v (by omega)
  · show s'.freelist = _
    rw [hfree, Nat.add_assoc, ← List.drop_drop, hgr.drop_eq hf, Nat.add_comm 1 k, List.drop_succ_cons]
  · show ∃ q ∈ _, (if v = A * PGSIZE / PGSIZE then leafPte pa else s'.pte v) = leafPte q ∧ ∀ x, q ≤ x → x < q + PGSIZE → s'.mem x = 0
    rw [hgr.take_succ hf]
    rcases Nat.lt_or_ge v A with hv | hv
    · -- a page of an earlier round keeps its PTE and its zeroes
      obtain ⟨q, hq, hqpte, hqz⟩ := hgr.new_page v h₁ hv
      refine ⟨q, List.mem_append_left _ hq, by rw [hpte, if_neg (by omega), hqpte], fun x hx₁ hx₂ => ?_⟩
      rw [hmem.page (fun q' hq' => hgr.head_aligned hf q' (hsubk q' hq'))
        (hgr.start.free_page q (List.mem_of_mem_take hq)).1 (fun h => hgr.taken_not_mem hf q hq (hsubk q h)) ⟨hx₁, hx₂⟩]
      exact hqz x hx₁ hx₂
    · refine ⟨pa, List.mem_append_right _ List.mem_cons_self, by rw [hpte, if_pos (by omega)], fun x hx₁ hx₂ => ?_⟩
      rw [hgs.mem_eq.page halk (hgr.head_aligned hf pa List.mem_cons_self) hpa_not ⟨hx₁, hx₂⟩]
      exact fill_of_mem ⟨hx₁, hx₂⟩
  · show SameOutside s₀.mem s'.mem _
    rw [hgr.take_succ hf]
    exact hgr.mem_eq.trans hmem

/-- **A round whose `walk` ran out**: `kfree` takes the page back, and what
is left to undo is what the earlier rounds mapped. The free list had fewer
pages than three for each page of the growth so far. -/
theorem Grown.undo_of_full {s' : VmState} {k : Nat}
    (hgs : Grows { s with freelist := rest, mem := fill (fill s.mem pa 5) pa 0 } s' k) (hk : k ≤ 1)
    (hnil : s'.freelist = []) :
    ∃ s'', kfree s' pa = .ok s'' ∧ Undo s₀ s'' L A ∧ s₀.freelist.length < 3 * (A + 1 - L) := by
  have hpa : pa ∈ s.freelist := by rw [hf]; exact List.mem_cons_self
  have hpage : IsPage s'.kend pa := by rw [hgs.kend_eq]; exact hgr.good.free_page pa hpa
  have hpa₀ : pa ∈ s₀.freelist := List.mem_of_mem_drop ((hgr.drop_eq hf).symm ▸ List.mem_cons_self)
  -- everything written lies in pages of the old free list
  have hsub : ∀ q ∈ s₀.freelist.take m ++ ([pa] ++ [pa]) ++ rest.take k ++ [pa], q ∈ s₀.freelist := by
    intro q hq
    simp only [List.mem_append, List.mem_singleton, or_self] at hq
    rcases hq with ((hq | rfl) | hq) | rfl
    · exact List.mem_of_mem_take hq
    · exact hpa₀
    · exact List.mem_of_mem_drop ((hgr.drop_eq hf).symm ▸ List.mem_cons_of_mem _ (List.mem_of_mem_take hq))
    · exact hpa₀
  have hlen : rest.length ≤ k := List.drop_eq_nil_iff.1 (hgs.free_eq.symm.trans hnil)
  have hlen₀ : s₀.freelist.length = m + (rest.length + 1) := by
    have := congrArg List.length (hgr.drop_eq hf)
    rw [List.length_drop, List.length_cons] at this
    have := hgr.used
    omega
  refine ⟨_, kfree_of_isPage hpage, ⟨hgr.start, hgr.le, ?_, hgs.kend_eq.trans hgr.kend_eq, fun v hv => ?_,
    fun v h₁ h₂ => ?_, fun q hq => ?_, ?_⟩, by have := hgr.used; have := hgr.le; omega⟩
  · refine hgr.good.of_sublist ⟨hgs.tables.l1_of_l0, hgs.tables.l0_of_pte⟩ hgs.pte_eq hgs.kend_eq ?_
    show (pa :: s'.freelist).Sublist s.freelist
    rw [hnil, hf]
    exact (List.nil_sublist rest).cons_cons pa
  · show s'.pte v = _
    rw [hgs.pte_eq]
    exact hgr.pte_out v hv
  · show (PTE2PA (s'.pte v)).toNat ∈ _
    rw [hgs.pte_eq]
    exact hgr.undo.data v h₁ h₂
  · rw [show _ = pa :: s'.freelist from rfl, hnil, List.mem_singleton] at hq
    rw [hq]
    exact hpa₀
  · exact ((hgr.mem_eq.trans ((SameOutside.fill _ _ _).trans (SameOutside.fill _ _ _))).trans hgs.mem_eq).trans
      (SameOutside.fill _ _ _) |>.mono hsub

end Round

end Alloc

/-! ## What the user sees -/

section View

variable {s s' : VmState}

/-- Where `walk` finds a nonzero PTE, `walkaddr` reads it. -/
theorem pageTable_leaf (ht : s.TablesOk) {v : Nat} (h : s.pte v ≠ 0) : s.pageTable.leaf v = some (s.pte v) := by
  have h0 := ht.l0_of_pte v h
  have h1 := ht.l1_of_l0 _ h0
  rw [Nat.div_div_eq_div_mul] at h1
  show (if s.l1 (v / 2 ^ 18) = true ∧ s.l0 (v / 2 ^ 9) = true then some (s.pte v) else none) = _
  rw [if_pos ⟨h1, h0⟩]

end View

/-! ## `sys_sbrk` -/

section Sbrk

variable {s s' : VmState} {sz : Nat} {n : Int}

end Sbrk

section Size

variable {s s' : VmState}

theorem fst_of_map_zero {x : Except String (Nat × VmState)} {r : Nat} (h : x.map (fun r => (0, r.2)) = .ok (r, s')) :
    r = 0 := by
  cases x with
  | error => cases h
  | ok p =>
    simp only [Except.map, Except.ok.injEq, Prod.mk.injEq] at h
    exact h.1.symm

/-- `uvmalloc`'s loop returns `newsz`, or `0` after undoing its work. -/
theorem uvmallocLoop_result {oldsz newsz a r : Nat} (h : uvmallocLoop s oldsz newsz a = .ok (r, s')) :
    r = newsz ∨ r = 0 := by
  fun_induction uvmallocLoop s oldsz newsz a
  · exact .inr (fst_of_map_zero h)
  · cases h
  · cases h
  · exact .inr (fst_of_map_zero h)
  · rename_i ih
    exact ih h
  · simp only [Except.ok.injEq, Prod.mk.injEq] at h
    exact .inl h.1.symm

theorem uvmalloc_result {oldsz newsz r : Nat} (h : uvmalloc s oldsz newsz = .ok (r, s')) :
    r = if newsz < oldsz then oldsz else if r = 0 then 0 else newsz := by
  unfold uvmalloc at h
  split at h
  · rename_i hlt
    simp only [Except.ok.injEq, Prod.mk.injEq] at h
    rw [if_pos hlt, h.1]
  · rename_i hlt
    rw [if_neg hlt]
    rcases uvmallocLoop_result h with rfl | rfl
    · split <;> omega
    · rfl

theorem uvmdealloc_result {oldsz newsz r : Nat} (h : uvmdealloc s oldsz newsz = .ok (r, s')) :
    r = if newsz ≥ oldsz then oldsz else newsz := by
  unfold uvmdealloc at h
  split at h
  · rename_i hge
    simp only [Except.ok.injEq, Prod.mk.injEq] at h
    rw [if_pos hge, h.1]
  · rename_i hge
    rw [if_neg hge]
    split at h
    · cases hu : uvmunmap s (PGROUNDUP newsz) ((PGROUNDUP oldsz - PGROUNDUP newsz) / PGSIZE) true with
      | error =>
        rw [hu] at h
        cases h
      | ok =>
        rw [hu] at h
        simp only [Except.map, Except.ok.injEq, Prod.mk.injEq] at h
        exact h.1.symm
    · simp only [Except.ok.injEq, Prod.mk.injEq] at h
      exact h.1.symm

/-- **The size `growproc` leaves is the one the user allocator's model of it
gives**, for whether `uvmalloc` found its pages. -/
theorem growproc_size (s : VmState) (sz : Nat) (n : Int) {r : Int} {sz' : Nat} (h : growproc s sz n = .ok (r, sz', s')) :
    ∃ alloc, Xv6.growproc alloc sz n = if r < 0 then none else some sz' := by
  have hnew : ((((sz % 2 ^ 32 : Nat) : Int) + n) % 2 ^ 32).toNat < 2 ^ 32 := by omega
  have h32 : sz % 2 ^ 32 < 2 ^ 32 := Nat.mod_lt _ (by decide)
  unfold growproc at h
  unfold Xv6.growproc
  dsimp only at h ⊢
  -- the `uint` size and the `uint` sum, both below `2³²`
  generalize ((((sz % 2 ^ 32 : Nat) : Int) + n) % 2 ^ 32).toNat = b at *
  generalize sz % 2 ^ 32 = a at *
  split at h
  · rename_i hpos
    cases hu : uvmalloc s a b with
    | error =>
      rw [hu] at h
      cases h
    | ok p =>
      obtain ⟨r₀, s₀⟩ := p
      rw [hu] at h
      dsimp only at h
      have hr := uvmalloc_result hu
      have hr₀ : r₀ < 2 ^ 32 := by rw [hr]; split_ifs <;> omega
      -- `alloc` is whether `uvmalloc` returned a size
      have hsel : (if b < a then a else if decide (r₀ ≠ 0) = true then b else 0) = r₀ := by
        by_cases hab : b < a
        · rw [if_pos hab] at hr ⊢
          exact hr.symm
        · rw [if_neg hab] at hr ⊢
          by_cases h0 : r₀ = 0
          · rw [h0]
            rfl
          · rw [if_neg h0] at hr
            rw [decide_eq_true h0, if_pos rfl, hr]
      refine ⟨decide (r₀ ≠ 0), ?_⟩
      rw [if_pos hpos, hsel]
      rw [Nat.mod_eq_of_lt hr₀] at h
      split at h
      · rename_i h0
        simp only [Except.ok.injEq, Prod.mk.injEq] at h
        rw [if_pos h0, if_pos (show r < 0 by omega)]
      · rename_i h0
        simp only [Except.ok.injEq, Prod.mk.injEq] at h
        rw [if_neg h0, if_neg (show ¬r < 0 by omega), h.2.1]
  · rename_i hpos
    refine ⟨true, ?_⟩
    rw [if_neg hpos]
    split at h
    · rename_i hneg
      cases hd : uvmdealloc s a b with
      | error =>
        rw [hd] at h
        cases h
      | ok p =>
        obtain ⟨r₀, s₀⟩ := p
        rw [hd] at h
        simp only [Except.ok.injEq, Prod.mk.injEq] at h
        have hr := uvmdealloc_result hd
        have hr₀ : r₀ < 2 ^ 32 := by rw [hr]; split_ifs <;> omega
        rw [if_pos hneg, if_neg (show ¬r < 0 by omega), ← h.2.1, Nat.mod_eq_of_lt hr₀, hr]
    · simp only [Except.ok.injEq, Prod.mk.injEq] at h
      rename_i hneg
      rw [if_neg hneg, if_neg (show ¬r < 0 by omega), h.2.1]

end Size

end VmState

end Xv6
