import Mathlib

/-!
# The user allocator of `user/umalloc.c`

Kernighan and Ritchie's allocator: a circular free list of blocks, each
headed by a `Header` of `sizeof(Header) = 16` bytes that holds the next
block and the block's size in units of 16 bytes. `malloc` walks the list
from `freep` for the first block large enough, takes it whole or its tail,
and calls `morecore` when it has gone round once. `morecore` asks `sbrk`
for at least 4096 units and hands them to `free`, which inserts a block in
address order and joins it to its neighbours.

Memory is modelled by its headers, by byte address (`Heap.hdr`), with the
process's break `p->sz`. `sbrk` is `sys_sbrk` over `growproc`, with the
kernel's own arithmetic: the size is taken into a `uint`, `sz + n` is a
`uint` sum, and the value returned is the old size taken into an `int`.
Whether `uvmalloc` finds its pages is a parameter, `alloc`. Both list walks
are unbounded loops; they are written with fuel.

On a fresh heap the first `malloc` returns the tail of the block `morecore`
obtained (`malloc_fresh`). `nunits` never wraps (`toNat_nunitsOf`), and a
block of `nunits` units has room for the request (`le_nunitsOf`); so below
`2³¹ - 32` bytes the block lies below the new break (`malloc_fresh_fits`).
Above that, `nu * sizeof(Header)` no longer fits `sbrk`'s `int` argument:
`sbrk` is asked for at most 16 bytes, or for a negative amount, and the
block `malloc` returns runs past the break (`malloc_fresh_short`,
`malloc_past_break`).
-/

namespace Xv6

/-- `sizeof(Header)`: a pointer and a `uint`, aligned to `long`. -/
def sizeofHeader : Nat := 16

/-- A block header, `s.ptr` and `s.size`, the size in units of `Header`. -/
structure Header where
  ptr : Nat
  size : UInt32
deriving DecidableEq, Repr

/-- The allocator's memory: the header at each byte address, `freep` (`0`
until the first `malloc`), and the process's break `p->sz`. -/
structure Heap where
  hdr : Nat → Header
  freep : Nat
  sz : Nat

/-- A store of the header at `a`. -/
def Heap.set (h : Heap) (a : Nat) (x : Header) : Heap :=
  { h with hdr := fun b => if b = a then x else h.hdr b }

@[simp] theorem Heap.set_hdr_self (h : Heap) (a : Nat) (x : Header) : (h.set a x).hdr a = x := by
  simp [Heap.set]

theorem Heap.set_hdr_of_ne (h : Heap) {a b : Nat} (x : Header) (hb : b ≠ a) : (h.set a x).hdr b = h.hdr b := by
  simp [Heap.set, hb]

@[simp] theorem Heap.set_freep (h : Heap) (a : Nat) (x : Header) : (h.set a x).freep = h.freep := rfl
@[simp] theorem Heap.set_sz (h : Heap) (a : Nat) (x : Header) : (h.set a x).sz = h.sz := rfl

/-! ## `sbrk` -/

/-- A value converted to `int`: its low 32 bits, read as a signed number. -/
def toInt32 (x : Nat) : Int :=
  if x % 2 ^ 32 < 2 ^ 31 then (x % 2 ^ 32 : Nat) else (x % 2 ^ 32 : Nat) - 2 ^ 32

/-- `growproc(n)` on a process of size `sz`: `p->sz` after, or `none` for
`-1`. `alloc` says whether `uvmalloc` finds every page it needs. The size
is read into a `uint sz`, and `sz + n` is a `uint` sum. -/
def growproc (alloc : Bool) (sz : Nat) (n : Int) : Option Nat :=
  let sz32 := sz % 2 ^ 32
  let newsz := ((sz32 + n) % 2 ^ 32).toNat
  if n > 0 then
    -- `uvmalloc` returns the old size for a smaller new one, and `0` on failure
    let r := if newsz < sz32 then sz32 else if alloc then newsz else 0
    if r = 0 then none else some r
  else if n < 0 then
    -- `uvmdealloc` returns the old size for a new one not below it
    some (if newsz ≥ sz32 then sz32 else newsz)
  else some sz32

/-- `sys_sbrk(n)` as the user's `sbrk` sees it: the `uint64` returned (the
old size taken into an `int`, or `-1`), and `p->sz` after. -/
def sbrk (alloc : Bool) (sz : Nat) (n : Int) : Nat × Nat :=
  match growproc alloc sz n with
  | none => (2 ^ 64 - 1, sz)
  | some sz' => ((toInt32 sz % 2 ^ 64).toNat, sz')

/-! ## `free`, `morecore` and `malloc` -/

/-- The search loop of `free`: from `p` on, the block after which `bp`
belongs, between two blocks or at the wrap point of the list. -/
def freeScan (h : Heap) (bp : Nat) : Nat → Nat → Option Nat
  | 0, _ => none
  | fuel + 1, p =>
    if bp > p ∧ bp < (h.hdr p).ptr then some p
    else if p ≥ (h.hdr p).ptr ∧ (bp > p ∨ bp < (h.hdr p).ptr) then some p
    else freeScan h bp fuel (h.hdr p).ptr

/-- `free(ap)`: insert the block headed just below `ap` after the block `p`
that `freeScan` finds, joined to the next block and to `p` where it touches
them, and set `freep` to `p`. -/
def free (fuel : Nat) (h : Heap) (ap : Nat) : Option Heap := do
  let bp := ap - sizeofHeader
  let p ← freeScan h bp fuel h.freep
  let h :=
    if bp + sizeofHeader * (h.hdr bp).size.toNat = (h.hdr p).ptr then
      let h := h.set bp { h.hdr bp with size := (h.hdr bp).size + (h.hdr (h.hdr p).ptr).size }
      h.set bp { h.hdr bp with ptr := (h.hdr (h.hdr p).ptr).ptr }
    else h.set bp { h.hdr bp with ptr := (h.hdr p).ptr }
  let h :=
    if p + sizeofHeader * (h.hdr p).size.toNat = bp then
      let h := h.set p { h.hdr p with size := (h.hdr p).size + (h.hdr bp).size }
      h.set p { h.hdr p with ptr := (h.hdr bp).ptr }
    else h.set p { h.hdr p with ptr := bp }
  some { h with freep := p }

/-- `morecore(nu)`: `sbrk` at least 4096 units and `free` them; `freep`
after, or `0` where `sbrk` fails. The request `nu * sizeof(Header)` is
computed in `unsigned long` and passed to `sbrk` as an `int`. -/
def morecore (alloc : Bool) (fuel : Nat) (h : Heap) (nu : UInt32) : Option (Nat × Heap) :=
  let nu := if nu < 4096 then 4096 else nu
  let r := sbrk alloc h.sz (toInt32 (nu.toNat * sizeofHeader))
  let h := { h with sz := r.2 }
  if r.1 = 2 ^ 64 - 1 then some (0, h)
  else
    let h := h.set r.1 { h.hdr r.1 with size := nu }
    (free fuel h (r.1 + sizeofHeader)).map fun h => (h.freep, h)

/-- `nunits` for a request of `nbytes`, computed in `unsigned long` (as
`sizeof` is) and stored in a `uint`. -/
def nunitsOf (nbytes : UInt32) : UInt32 :=
  UInt32.ofNat ((nbytes.toNat + sizeofHeader - 1) / sizeofHeader + 1)

/-- The loop of `malloc` from `prevp` and `p = prevp->s.ptr`: the pointer
returned (`0` where `morecore` fails) and the heap after. -/
def mallocLoop (alloc : Bool) (nunits : UInt32) : Nat → Heap → Nat → Nat → Option (Nat × Heap)
  | 0, _, _, _ => none
  | fuel + 1, h, prevp, p =>
    if (h.hdr p).size ≥ nunits then
      if (h.hdr p).size = nunits then
        -- the whole block
        some (p + sizeofHeader, { h.set prevp { h.hdr prevp with ptr := (h.hdr p).ptr } with freep := prevp })
      else
        -- its tail
        let h := h.set p { h.hdr p with size := (h.hdr p).size - nunits }
        let p := p + sizeofHeader * (h.hdr p).size.toNat
        let h := h.set p { h.hdr p with size := nunits }
        some (p + sizeofHeader, { h with freep := prevp })
    else if p = h.freep then
      match morecore alloc fuel h nunits with
      | none => none
      | some (0, h) => some (0, h)
      | some (p, h) => mallocLoop alloc nunits fuel h p (h.hdr p).ptr
    else mallocLoop alloc nunits fuel h p (h.hdr p).ptr

/-- `malloc(nbytes)`, with `base` the address of the static `base`: the
pointer returned (`0` for none) and the heap after. -/
def malloc (alloc : Bool) (fuel base : Nat) (h : Heap) (nbytes : UInt32) : Option (Nat × Heap) :=
  let h := if h.freep = 0 then { h.set base ⟨base, 0⟩ with freep := base } else h
  mallocLoop alloc (nunitsOf nbytes) fuel h h.freep (h.hdr h.freep).ptr

/-! ## The arithmetic of a request -/

/-- `nunits` never wraps: a `uint` request is below `2³²` bytes. -/
theorem toNat_nunitsOf (nbytes : UInt32) : (nunitsOf nbytes).toNat = (nbytes.toNat + 15) / 16 + 1 := by
  have : nbytes.toNat < 2 ^ 32 := nbytes.toNat_lt
  have hsize : UInt32.size = 2 ^ 32 := rfl
  rw [nunitsOf, UInt32.toNat_ofNat_of_lt' (by unfold sizeofHeader; omega)]
  rfl

/-- A block of `nunits` units holds its header and the request. -/
theorem le_nunitsOf (nbytes : UInt32) : nbytes.toNat + sizeofHeader ≤ sizeofHeader * (nunitsOf nbytes).toNat := by
  rw [toNat_nunitsOf]
  unfold sizeofHeader
  omega

/-- What `morecore` asks for, in units: at least 4096. -/
theorem toNat_units (nu : UInt32) : (if nu < 4096 then 4096 else nu).toNat = max 4096 nu.toNat := by
  have h4 : (4096 : UInt32).toNat = 4096 := rfl
  have hiff : nu < 4096 ↔ nu.toNat < 4096 := by rw [UInt32.lt_iff_toNat_lt, h4]
  by_cases h : nu < 4096
  · rw [if_pos h, h4]
    have := hiff.1 h
    omega
  · rw [if_neg h]
    have := mt hiff.2 h
    omega

theorem toInt32_of_lt {x : Nat} (h : x < 2 ^ 31) : toInt32 x = x := by
  rw [toInt32, if_pos (by omega), Nat.mod_eq_of_lt (by omega)]

/-- From `2³¹` to `2³² + 16`, a value taken into an `int` is at most `16`. -/
theorem toInt32_le {x : Nat} (h₁ : 2 ^ 31 ≤ x) (h₂ : x ≤ 2 ^ 32 + 16) : toInt32 x ≤ 16 := by
  unfold toInt32
  split <;> omega

/-- `growproc` by `0 < n` bytes that fit below `2³²`, with pages to spare. -/
theorem growproc_pos {sz : Nat} {n : Int} (hn : 0 < n) (h : sz + n < 2 ^ 32) : growproc true sz n = some (sz + n.toNat) := by
  have hsz : sz % 2 ^ 32 = sz := Nat.mod_eq_of_lt (by omega)
  have hnew : ((sz + n) % 2 ^ 32).toNat = sz + n.toNat := by omega
  unfold growproc
  simp only [hsz, hnew, gt_iff_lt, hn, if_true]
  rw [if_neg (Nat.not_lt.2 (Nat.le_add_right _ _)), if_neg (show ¬sz + n.toNat = 0 by omega)]

/-- `growproc` by at most 16 bytes leaves the break at most 16 bytes higher. -/
theorem growproc_le {alloc : Bool} {sz sz' : Nat} {n : Int} (hsz : sz < 2 ^ 32) (hn : n ≤ 16)
    (h : growproc alloc sz n = some sz') : sz' ≤ sz + 16 := by
  have hmod : sz % 2 ^ 32 = sz := Nat.mod_eq_of_lt hsz
  simp only [growproc, hmod] at h
  -- each branch: the old size, or the `uint` sum of at most 16 more bytes
  split_ifs at h <;> simp only [Option.some.injEq] at h <;> omega

theorem sbrk_of_growproc {alloc : Bool} {sz sz' : Nat} {n : Int} (hsz : sz < 2 ^ 31) (h : growproc alloc sz n = some sz') :
    sbrk alloc sz n = (sz, sz') := by
  rw [sbrk, h, toInt32_of_lt hsz]
  simp only [Prod.mk.injEq, and_true]
  omega

theorem sbrk_of_growproc_none {alloc : Bool} {sz : Nat} {n : Int} (h : growproc alloc sz n = none) :
    sbrk alloc sz n = (2 ^ 64 - 1, sz) := by
  rw [sbrk, h]

/-! ## One round of each loop -/

section Rounds

variable {alloc : Bool} {nunits : UInt32} {fuel : Nat} {h : Heap} {prevp p : Nat}

/-- `malloc` takes a block of exactly `nunits` units whole. -/
theorem mallocLoop_exact (hs : (h.hdr p).size = nunits) :
    mallocLoop alloc nunits (fuel + 1) h prevp p =
      some (p + sizeofHeader, { h.set prevp { h.hdr prevp with ptr := (h.hdr p).ptr } with freep := prevp }) := by
  simp [mallocLoop, hs]

/-- `malloc` takes the tail of a larger block. -/
theorem mallocLoop_tail (hs : nunits < (h.hdr p).size) :
    mallocLoop alloc nunits (fuel + 1) h prevp p =
      let h₁ := h.set p { h.hdr p with size := (h.hdr p).size - nunits }
      let q := p + sizeofHeader * ((h.hdr p).size - nunits).toNat
      some (q + sizeofHeader, { h₁.set q { h₁.hdr q with size := nunits } with freep := prevp }) := by
  rw [mallocLoop, if_pos (UInt32.le_of_lt hs), if_neg (UInt32.ne_of_lt hs).symm]
  simp only [Heap.set_hdr_self]

/-- Back at `freep`, `malloc` calls `morecore` and goes on from the block it returns. -/
theorem mallocLoop_more {q : Nat} {h' : Heap} (hs : (h.hdr p).size < nunits) (hp : p = h.freep)
    (hm : morecore alloc fuel h nunits = some (q, h')) (hq : q ≠ 0) :
    mallocLoop alloc nunits (fuel + 1) h prevp p = mallocLoop alloc nunits fuel h' q (h'.hdr q).ptr := by
  obtain ⟨k, rfl⟩ := Nat.exists_eq_succ_of_ne_zero hq
  rw [mallocLoop, if_neg (UInt32.not_le.2 hs), if_pos hp, hm]
  rfl

/-- Back at `freep`, `malloc` returns `0` where `morecore` does. -/
theorem mallocLoop_more_zero {h' : Heap} (hs : (h.hdr p).size < nunits) (hp : p = h.freep)
    (hm : morecore alloc fuel h nunits = some (0, h')) :
    mallocLoop alloc nunits (fuel + 1) h prevp p = some (0, h') := by
  rw [mallocLoop, if_neg (UInt32.not_le.2 hs), if_pos hp, hm]
  rfl

/-- A block too small, before `freep`: `malloc` goes on to the next. -/
theorem mallocLoop_next (hs : (h.hdr p).size < nunits) (hp : p ≠ h.freep) :
    mallocLoop alloc nunits (fuel + 1) h prevp p = mallocLoop alloc nunits fuel h p (h.hdr p).ptr := by
  rw [mallocLoop, if_neg (UInt32.not_le.2 hs), if_neg hp]

end Rounds

/-! ## The first `malloc` -/

section Fresh

variable {base : Nat}

/-- `free` into the list of `base` alone: the block goes after `base`, and
neither touches the other. -/
theorem free_after_base (fuel : Nat) (h : Heap) {bp : Nat} (hf : h.freep = base) (hb : h.hdr base = ⟨base, 0⟩)
    (hlt : base < bp) :
    free (fuel + 1) h (bp + sizeofHeader) =
      some { (h.set bp { h.hdr bp with ptr := base }).set base ⟨bp, 0⟩ with freep := base } := by
  have hscan : freeScan h bp (fuel + 1) base = some base := by
    simp [freeScan, hb, hlt, Nat.lt_asymm hlt]
  have hne : base ≠ bp := Nat.ne_of_lt hlt
  -- the block does not reach `base`, nor `base`'s empty block the block
  have hup : ¬bp + sizeofHeader * (h.hdr bp).size.toNat = base := by omega
  have hlow : ¬base + sizeofHeader * ((h.set bp { h.hdr bp with ptr := base }).hdr base).size.toNat = bp := by
    rw [Heap.set_hdr_of_ne _ _ hne, hb]
    simpa using hne
  simp only [free, Nat.add_sub_cancel, hf, hscan, Option.bind_eq_bind, Option.bind_some, hb, if_neg hup, if_neg hlow]
  rw [Heap.set_hdr_of_ne _ _ hne, hb]

/-- `morecore` on the list of `base` alone, where `growproc` succeeds: the
new block, at the old break, goes after `base`. -/
theorem morecore_after_base (alloc : Bool) (fuel : Nat) (h : Heap) (nu : UInt32) (hf : h.freep = base)
    (hb : h.hdr base = ⟨base, 0⟩) (hlt : base < h.sz) (hsz : h.sz < 2 ^ 31) {sz' : Nat}
    (hg : growproc alloc h.sz (toInt32 ((if nu < 4096 then 4096 else nu).toNat * sizeofHeader)) = some sz') :
    ∃ h', morecore alloc (fuel + 1) h nu = some (base, h') ∧ h'.sz = sz' ∧ h'.hdr base = ⟨h.sz, 0⟩ ∧
      h'.hdr h.sz = ⟨base, if nu < 4096 then 4096 else nu⟩ := by
  have hne : h.sz ≠ base := Nat.ne_of_gt hlt
  -- `sbrk` returns the old break, and the block there goes to `free`
  have hm : morecore alloc (fuel + 1) h nu =
      (free (fuel + 1) ({ h with sz := sz' }.set h.sz { h.hdr h.sz with size := if nu < 4096 then 4096 else nu })
        (h.sz + sizeofHeader)).map fun h => (h.freep, h) := by
    rw [morecore]
    simp only [sbrk_of_growproc hsz hg]
    rw [if_neg (show ¬h.sz = 2 ^ 64 - 1 by omega)]
  have hfr := free_after_base fuel ({ h with sz := sz' }.set h.sz { h.hdr h.sz with size := if nu < 4096 then 4096 else nu })
    hf (by rw [Heap.set_hdr_of_ne _ _ hne.symm]; exact hb) hlt
  rw [hfr, Option.map_some] at hm
  refine ⟨_, hm, rfl, Heap.set_hdr_self _ _ _, ?_⟩
  rw [Heap.set_hdr_of_ne _ _ hne, Heap.set_hdr_self, Heap.set_hdr_self]

/-- `morecore` where `growproc` fails: `0`, and nothing changed. -/
theorem morecore_of_growproc_none (alloc : Bool) (fuel : Nat) (h : Heap) (nu : UInt32)
    (hg : growproc alloc h.sz (toInt32 ((if nu < 4096 then 4096 else nu).toNat * sizeofHeader)) = none) :
    morecore alloc fuel h nu = some (0, { h with sz := h.sz }) := by
  rw [morecore]
  simp only [sbrk_of_growproc_none hg, if_true]

/-- The first `malloc` sets up the list of `base` alone and starts at `base`. -/
theorem malloc_of_freep_zero (alloc : Bool) (fuel : Nat) (h : Heap) (nbytes : UInt32) (hf : h.freep = 0) :
    malloc alloc fuel base h nbytes =
      mallocLoop alloc (nunitsOf nbytes) fuel { h.set base ⟨base, 0⟩ with freep := base } base base := by
  simp [malloc, hf]

theorem nunitsOf_pos (nbytes : UInt32) : 0 < nunitsOf nbytes := by
  rw [UInt32.lt_iff_toNat_lt, toNat_nunitsOf]
  exact Nat.succ_pos _

/-- `base`'s block, as the first `malloc` sets it up, is too small for any request. -/
theorem fresh_size_lt (h : Heap) (nbytes : UInt32) :
    (({ h.set base ⟨base, 0⟩ with freep := base } : Heap).hdr base).size < nunitsOf nbytes := by
  simpa using nunitsOf_pos nbytes

/-- **The first `malloc`**, on a heap whose `base` lies below the break,
where `growproc` succeeds: it returns the tail of `nunits` units of the
block `morecore` put at the old break, and the break is `growproc`'s. -/
theorem malloc_fresh (alloc : Bool) (fuel : Nat) (h : Heap) (nbytes : UInt32) (hf : h.freep = 0) (hb0 : 0 < base)
    (hb : base < h.sz) (hsz : h.sz < 2 ^ 31) {sz' : Nat}
    (hg : growproc alloc h.sz (toInt32 ((if nunitsOf nbytes < 4096 then 4096 else nunitsOf nbytes).toNat * sizeofHeader)) =
      some sz') :
    (malloc alloc (fuel + 2) base h nbytes).map (fun r => (r.1, r.2.sz)) =
      some (h.sz + sizeofHeader * ((if nunitsOf nbytes < 4096 then 4096 else nunitsOf nbytes) - nunitsOf nbytes).toNat +
        sizeofHeader, sz') := by
  -- round one: `base`'s empty block is too small, and `morecore` adds one after it
  obtain ⟨h', hm, hsz', hbase', hblock⟩ :=
    morecore_after_base alloc fuel { h.set base ⟨base, 0⟩ with freep := base } (nunitsOf nbytes) rfl
      (Heap.set_hdr_self h base _) hb hsz hg
  simp only [Heap.set_sz] at hbase' hblock
  rw [malloc_of_freep_zero alloc _ h nbytes hf, mallocLoop_more (fresh_size_lt h nbytes) rfl hm (Nat.pos_iff_ne_zero.1 hb0),
    hbase']
  -- round two: the new block, whole or its tail
  by_cases hsmall : nunitsOf nbytes < 4096
  · rw [if_pos hsmall] at hblock ⊢
    rw [mallocLoop_tail (by rw [hblock]; exact hsmall)]
    simp [hsz', hblock]
  · rw [if_neg hsmall] at hblock ⊢
    rw [mallocLoop_exact (by rw [hblock])]
    simp [hsz']

/-- Below `2³¹ - 32` bytes, where the pages are found, the first `malloc`
returns a block that lies between the old break and the new one. -/
theorem malloc_fresh_fits (fuel : Nat) (h : Heap) (nbytes : UInt32) (hf : h.freep = 0) (hb0 : 0 < base)
    (hb : base < h.sz) (hsz : h.sz < 2 ^ 31) (hn : nbytes.toNat ≤ 2 ^ 31 - 32) :
    ∃ r sz', (malloc true (fuel + 2) base h nbytes).map (fun r => (r.1, r.2.sz)) = some (r, sz') ∧
      h.sz + sizeofHeader ≤ r ∧ r + nbytes.toNat ≤ sz' := by
  have hnu := toNat_units (nunitsOf nbytes)
  have hunits := toNat_nunitsOf nbytes
  have hroom := le_nunitsOf nbytes
  -- the request fits `sbrk`'s `int`, and the new break fits a `uint`
  have hreq : (if nunitsOf nbytes < 4096 then 4096 else nunitsOf nbytes).toNat * sizeofHeader < 2 ^ 31 := by
    unfold sizeofHeader
    omega
  have hv := toInt32_of_lt hreq
  have hg : growproc true h.sz (toInt32 ((if nunitsOf nbytes < 4096 then 4096 else nunitsOf nbytes).toNat * sizeofHeader)) =
      some (h.sz + (toInt32 ((if nunitsOf nbytes < 4096 then 4096 else nunitsOf nbytes).toNat * sizeofHeader)).toNat) :=
    growproc_pos (by rw [hv]; unfold sizeofHeader at hreq ⊢; omega) (by rw [hv]; omega)
  refine ⟨_, _, malloc_fresh true fuel h nbytes hf hb0 hb hsz hg, by omega, ?_⟩
  have hle : nunitsOf nbytes ≤ if nunitsOf nbytes < 4096 then 4096 else nunitsOf nbytes := by
    rw [UInt32.le_iff_toNat_le, hnu]
    exact Nat.le_max_right _ _
  rw [UInt32.toNat_sub_of_le _ _ hle, toInt32_of_lt hreq]
  unfold sizeofHeader at hroom ⊢
  omega

/-- Above `2³¹ - 32` bytes the first `malloc` returns `0`, or a block that
runs past the break: `sbrk` was asked for `nu * sizeof(Header)` taken into
an `int`, which is at most 16. -/
theorem malloc_fresh_short (alloc : Bool) (fuel : Nat) (h : Heap) (nbytes : UInt32) (hf : h.freep = 0) (hb0 : 0 < base)
    (hb : base < h.sz) (hsz : h.sz < 2 ^ 31) (hn : 2 ^ 31 - 32 < nbytes.toNat) {r : Nat} {h' : Heap}
    (hr : malloc alloc (fuel + 2) base h nbytes = some (r, h')) (hr0 : r ≠ 0) : h'.sz < r + nbytes.toNat := by
  have hnu := toNat_units (nunitsOf nbytes)
  have hunits := toNat_nunitsOf nbytes
  have hbig := nbytes.toNat_lt
  have hreq : toInt32 ((if nunitsOf nbytes < 4096 then 4096 else nunitsOf nbytes).toNat * sizeofHeader) ≤ 16 :=
    toInt32_le (by unfold sizeofHeader; omega) (by unfold sizeofHeader; omega)
  cases hg : growproc alloc h.sz (toInt32 ((if nunitsOf nbytes < 4096 then 4096 else nunitsOf nbytes).toNat * sizeofHeader)) with
  | none =>
    -- `sbrk` fails, and so does `malloc`
    rw [malloc_of_freep_zero alloc _ h nbytes hf, mallocLoop_more_zero (fresh_size_lt h nbytes)
      rfl (morecore_of_growproc_none alloc _ _ _ hg)] at hr
    cases hr
    exact absurd rfl hr0
  | some sz' =>
    have hfresh := malloc_fresh alloc fuel h nbytes hf hb0 hb hsz hg
    rw [hr, Option.map_some, Option.some.injEq, Prod.mk.injEq] at hfresh
    obtain ⟨hr₁, hr₂⟩ := hfresh
    dsimp only at hr₁ hr₂
    have hle := growproc_le (Nat.lt_trans hsz (by decide)) hreq hg
    rw [hr₁, hr₂]
    unfold sizeofHeader at hle ⊢
    omega

end Fresh

/-- `malloc(0xFFFFFFFF)` as the first call, with `base` at `0x1000` and the
break at `0x4000`: `nu * sizeof(Header)` is `2³² + 16`, `sbrk` is asked for
16 bytes, and the pointer returned, `0x4010`, is the new break. None of the
requested bytes lie in memory obtained from `sbrk`. -/
theorem malloc_past_break :
    let h : Heap := ⟨fun _ => ⟨0, 0⟩, 0, 0x4000⟩
    (malloc true 2 0x1000 h 0xFFFFFFFF).map (fun r => (r.1, r.2.sz)) = some (0x4010, 0x4010) := by
  intro h
  have hg : growproc true 0x4000
      (toInt32 ((if nunitsOf 0xFFFFFFFF < 4096 then 4096 else nunitsOf 0xFFFFFFFF).toNat * sizeofHeader)) = some 0x4010 := by
    decide
  refine (malloc_fresh true 0 h 0xFFFFFFFF rfl (by decide) (by decide) (by decide) hg).trans ?_
  decide

end Xv6
