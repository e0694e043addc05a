import Xv6.Param
import Xv6.Framework.CopyStr

/-!
# `walkaddr` and the user copy routines

`walkaddr`, `copyout`, `copyin` and `copyinstr` of `kernel/vm.c`. A page table
is seen as `walk(pagetable, va, 0)` sees it (`PageTable`): for the page
number of a `va` below `MAXVA`, the level-0 PTE the walk reaches, or nothing
where an interior entry is not valid. Virtual addresses are `uint64` as in
the source; lengths are the `uint64` counts as numbers, since they only ever
shrink. Physical memory is a function from addresses to bytes.

The user address space a page table gives (`userSpace`) is a
`Framework.Space`: a page is accessible where `walkaddr` finds it, and a
byte is the physical byte it maps to. Where user pages map distinct physical
pages other than page 0 (`PageTable.Inv`), each routine is the `Space`
routine of the same name on that view (`copyout_refines`, `copyin_refines`,
`copyinstr_refines`). Page rounds never wrap round 2⁶⁴: `walkaddr` rejects
every page at or above `MAXVA` before the address is advanced
(`walkaddr_ne_zero_iff`). `user_copy_spec` states what the three routines
do.
-/

namespace Xv6

open Framework

/-- `PTE_V`. -/
def PTE_V : UInt64 := (1 : UInt64) <<< 0
/-- `PTE_U`. -/
def PTE_U : UInt64 := (1 : UInt64) <<< 4
/-- `MAXVA`: one bit less than the largest Sv39 address. -/
def MAXVA : UInt64 := (1 : UInt64) <<< (9 + 9 + 9 + 12 - 1)

/-- `PTE2PA(pte)`. -/
def PTE2PA (pte : UInt64) : UInt64 := (pte >>> 10) <<< 12

/-- `PGROUNDDOWN(a)`. -/
def PGROUNDDOWN (a : UInt64) : UInt64 := a &&& ~~~(PGSIZE.toUInt64 - 1)

theorem toNat_MAXVA : MAXVA.toNat = 2 ^ 38 := by decide

theorem toNat_PGROUNDDOWN (a : UInt64) : (PGROUNDDOWN a).toNat = a.toNat / PGSIZE * PGSIZE := by
  rw [PGROUNDDOWN, UInt64.toNat_and, UInt64.toNat_not,
    show UInt64.size - 1 - (PGSIZE.toUInt64 - 1).toNat = (2 ^ 52 - 1) * 2 ^ 12 from rfl,
    show PGSIZE = 2 ^ 12 from rfl]
  apply Nat.eq_of_testBit_eq
  intro i
  rw [Nat.testBit_and, Nat.testBit_mul_two_pow, Nat.testBit_mul_two_pow, Nat.testBit_div_two_pow,
    Nat.testBit_two_pow_sub_one]
  by_cases h₁ : 12 ≤ i
  · by_cases h₂ : i < 64
    · simp [h₁, show i - 12 < 52 by omega, Nat.sub_add_cancel h₁]
    · -- bits from 64 on are clear in a 64-bit word
      have hz : a.toNat.testBit i = false := Nat.testBit_lt_two_pow (lt_of_lt_of_le a.toNat_lt
        (Nat.pow_le_pow_right (by decide) (by omega)))
      simp [h₁, Nat.sub_add_cancel h₁, hz]
  · simp [h₁]

/-- The offset of `va` in its page. -/
theorem toNat_sub_PGROUNDDOWN (va : UInt64) : (va - PGROUNDDOWN va).toNat = va.toNat % PGSIZE := by
  have hle : (PGROUNDDOWN va).toNat ≤ va.toNat := by
    rw [toNat_PGROUNDDOWN]
    exact Nat.div_mul_le_self _ _
  rw [UInt64.toNat_sub_of_le _ _ (UInt64.le_iff_toNat_le.2 hle), toNat_PGROUNDDOWN, ← Nat.mod_eq_sub_div_mul]

theorem offset_lt (va : UInt64) : (va - PGROUNDDOWN va).toNat < PGSIZE := by
  rw [toNat_sub_PGROUNDDOWN]
  exact Nat.mod_lt _ (by decide)

/-- A page table as `walk(pagetable, va, 0)` finds it: for the page number of
a `va` below `MAXVA`, the level-0 PTE reached through valid interior
entries, or `none` where `walk` returns `0`. -/
structure PageTable where
  leaf : Nat → Option UInt64

/-- `walkaddr(pagetable, va)`: the physical page of a valid user leaf, else `0`. -/
def walkaddr (pt : PageTable) (va : UInt64) : UInt64 :=
  if va ≥ MAXVA then 0
  else
    match pt.leaf (va.toNat / PGSIZE) with
    | none => 0
    | some pte =>
      if pte &&& PTE_V = 0 then 0
      else if pte &&& PTE_U = 0 then 0
      else PTE2PA pte

/-- `memmove(pa, bs, bs.length)` into physical memory. -/
def store (mem : Nat → UInt8) (pa : Nat) (bs : List UInt8) : Nat → UInt8 :=
  fun x => if pa ≤ x then bs.getD (x - pa) (mem x) else mem x

/-- `copyout(pagetable, dstva, src, len)` with `len = src.length`: the
result, and physical memory after it. `pa0 + (dstva - va0)` does not wrap,
since `pa0` is page-aligned. -/
def copyout (pt : PageTable) (mem : Nat → UInt8) (dstva : UInt64) (src : List UInt8) : Int × (Nat → UInt8) :=
  if h : src.length = 0 then (0, mem)
  else
    let va0 := PGROUNDDOWN dstva
    let pa0 := walkaddr pt va0
    if pa0 = 0 then (-1, mem)
    else
      let n := min (PGSIZE - (dstva - va0).toNat) src.length
      copyout pt (store mem (pa0.toNat + (dstva - va0).toNat) (src.take n)) (va0 + PGSIZE.toUInt64) (src.drop n)
termination_by src.length
decreasing_by
  have := offset_lt dstva
  simp only [List.length_drop]
  omega

/-- `copyin(pagetable, dst, srcva, len)`: the result, and the bytes it moved
into `dst`. -/
def copyin (pt : PageTable) (mem : Nat → UInt8) (srcva : UInt64) (len : Nat) : Int × List UInt8 :=
  if h : len = 0 then (0, [])
  else
    let va0 := PGROUNDDOWN srcva
    let pa0 := walkaddr pt va0
    if pa0 = 0 then (-1, [])
    else
      let n := min (PGSIZE - (srcva - va0).toNat) len
      let r := copyin pt mem (va0 + PGSIZE.toUInt64) (len - n)
      (r.1, (List.range n).map (fun i => mem (pa0.toNat + (srcva - va0).toNat + i)) ++ r.2)
termination_by len
decreasing_by
  have := offset_lt srcva
  omega

/-- The inner loop of `copyinstr` over the `n` bytes from physical address
`p`: the bytes it moves into `dst`, up to and including a NUL, and whether it
met one (`got_null`). -/
def strCopy (mem : Nat → UInt8) (p : Nat) : Nat → List UInt8 × Bool
  | 0 => ([], false)
  | n + 1 =>
    if mem p = 0 then ([0], true)
    else
      let r := strCopy mem (p + 1) n
      (mem p :: r.1, r.2)

/-- `copyinstr(pagetable, dst, srcva, max)`: the result, and the bytes it
moved into `dst`. -/
def copyinstr (pt : PageTable) (mem : Nat → UInt8) (srcva : UInt64) (max : Nat) : Int × List UInt8 :=
  if h : max = 0 then (-1, [])
  else
    let va0 := PGROUNDDOWN srcva
    let pa0 := walkaddr pt va0
    if pa0 = 0 then (-1, [])
    else
      let n := min (PGSIZE - (srcva - va0).toNat) max
      let r := strCopy mem (pa0.toNat + (srcva - va0).toNat) n
      if r.2 then (0, r.1)
      else
        let r' := copyinstr pt mem (va0 + PGSIZE.toUInt64) (max - n)
        (r'.1, r.1 ++ r'.2)
termination_by max
decreasing_by
  have := offset_lt srcva
  omega

/-! ## The user address space of a page table -/

/-- A PTE that `walkaddr` accepts: valid and user-accessible. -/
def UserPte (pte : UInt64) : Prop := pte &&& PTE_V ≠ 0 ∧ pte &&& PTE_U ≠ 0

/-- `va` lies below `MAXVA` on a page whose leaf is a valid user PTE. -/
def UserLeaf (pt : PageTable) (va : Nat) : Prop :=
  va < MAXVA.toNat ∧ ∃ pte, pt.leaf (va / PGSIZE) = some pte ∧ UserPte pte

/-- What the address-space invariant gives the copy routines: every user
leaf below `MAXVA` maps a physical page other than page 0, and no two of
them map the same page. -/
structure PageTable.Inv (pt : PageTable) : Prop where
  pa_ne_zero : ∀ v pte, v < MAXVA.toNat / PGSIZE → pt.leaf v = some pte → UserPte pte → PTE2PA pte ≠ 0
  inj : ∀ v v' pte pte', v < MAXVA.toNat / PGSIZE → v' < MAXVA.toNat / PGSIZE → pt.leaf v = some pte →
    UserPte pte → pt.leaf v' = some pte' → UserPte pte' → PTE2PA pte = PTE2PA pte' → v = v'

section Walk

variable {pt : PageTable}

theorem not_ge_MAXVA {va : UInt64} (h : va.toNat < MAXVA.toNat) : ¬va ≥ MAXVA := by
  rw [ge_iff_le, UInt64.le_iff_toNat_le]
  omega

theorem page_lt_MAXVA {va : Nat} (h : va < MAXVA.toNat) : va / PGSIZE < MAXVA.toNat / PGSIZE := by
  rw [toNat_MAXVA] at h ⊢
  exact Nat.div_lt_div_of_lt_of_dvd (by decide) h

theorem walkaddr_of_userLeaf {va : UInt64} (h : UserLeaf pt va.toNat) :
    ∃ pte, pt.leaf (va.toNat / PGSIZE) = some pte ∧ UserPte pte ∧ walkaddr pt va = PTE2PA pte := by
  obtain ⟨hlt, pte, hl, hv, hu⟩ := h
  refine ⟨pte, hl, ⟨hv, hu⟩, ?_⟩
  simp [walkaddr, not_ge_MAXVA hlt, hl, hv, hu]

theorem walkaddr_of_not {va : UInt64} (h : ¬UserLeaf pt va.toNat) : walkaddr pt va = 0 := by
  unfold walkaddr
  split
  · rfl
  · rename_i hm
    cases hl : pt.leaf (va.toNat / PGSIZE) with
    | none => rfl
    | some pte =>
      simp only
      split
      · rfl
      · split
        · rfl
        · rename_i hv hu
          rw [ge_iff_le, UInt64.le_iff_toNat_le] at hm
          exact absurd ⟨by omega, pte, hl, hv, hu⟩ h

/-- **`walkaddr` finds exactly the valid user leaves below `MAXVA`**: it
rejects every address at or above `MAXVA`, every page whose walk meets an
invalid entry, and every leaf without `PTE_U` (the guard page, the
trampoline and the trap frame). -/
theorem walkaddr_ne_zero_iff (hpt : pt.Inv) (va : UInt64) : walkaddr pt va ≠ 0 ↔ UserLeaf pt va.toNat := by
  constructor
  · intro h
    by_contra hn
    exact h (walkaddr_of_not hn)
  · intro h
    obtain ⟨pte, hl, hu, he⟩ := walkaddr_of_userLeaf h
    rw [he]
    exact hpt.pa_ne_zero _ pte (page_lt_MAXVA h.1) hl hu

/-- Two user pages with the same physical page are the same page. -/
theorem page_eq_of_walkaddr_eq (hpt : pt.Inv) {va va' : UInt64} (h : walkaddr pt va ≠ 0)
    (he : walkaddr pt va = walkaddr pt va') : va.toNat / PGSIZE = va'.toNat / PGSIZE := by
  have hl := (walkaddr_ne_zero_iff hpt va).1 h
  have hl' := (walkaddr_ne_zero_iff hpt va').1 (he ▸ h)
  obtain ⟨pte, h₁, h₂, h₃⟩ := walkaddr_of_userLeaf hl
  obtain ⟨pte', h₁', h₂', h₃'⟩ := walkaddr_of_userLeaf hl'
  exact hpt.inj _ _ pte pte' (page_lt_MAXVA hl.1) (page_lt_MAXVA hl'.1) h₁ h₂ h₁' h₂' (by rw [← h₃, ← h₃', he])

end Walk

theorem toNat_PTE2PA (pte : UInt64) : (PTE2PA pte).toNat = (pte >>> 10).toNat % 2 ^ 52 * PGSIZE := by
  rw [PTE2PA, UInt64.toNat_shiftLeft, show (12 : UInt64).toNat % 64 = 12 from rfl, Nat.shiftLeft_eq,
    show (2 : Nat) ^ 64 = 2 ^ 52 * 2 ^ 12 by norm_num, Nat.mul_mod_mul_right]
  rfl

/-- A physical page from `PTE2PA` is page-aligned and ends by `2⁶⁴`. -/
theorem PTE2PA_aligned (pte : UInt64) :
    (PTE2PA pte).toNat % PGSIZE = 0 ∧ (PTE2PA pte).toNat + PGSIZE ≤ 2 ^ 64 := by
  rw [toNat_PTE2PA]
  have := Nat.mod_lt (pte >>> 10).toNat (show 0 < 2 ^ 52 by norm_num)
  refine ⟨Nat.mul_mod_left _ _, ?_⟩
  unfold PGSIZE
  omega

theorem walkaddr_aligned (pt : PageTable) (va : UInt64) :
    (walkaddr pt va).toNat % PGSIZE = 0 ∧ (walkaddr pt va).toNat + PGSIZE ≤ 2 ^ 64 := by
  unfold walkaddr
  split
  · exact ⟨rfl, by decide⟩
  · split
    · exact ⟨rfl, by decide⟩
    · split
      · exact ⟨rfl, by decide⟩
      · split
        · exact ⟨rfl, by decide⟩
        · exact PTE2PA_aligned _

/-- Whether the user page whose first byte is at `a` is accessible: below
`MAXVA` and found by `walkaddr`. -/
def userOk (pt : PageTable) (a : Nat) : Bool := decide (a < MAXVA.toNat) && walkaddr pt (UInt64.ofNat a) != 0

/-- The physical address of user byte `x`: its page's physical page and its
offset in the page. -/
def userPa (pt : PageTable) (x : Nat) : Nat := (walkaddr pt (UInt64.ofNat (x / PGSIZE * PGSIZE))).toNat + x % PGSIZE

/-- The user address space of a page table over physical memory `mem`. -/
def userSpace (pt : PageTable) (mem : Nat → UInt8) : Space UInt8 where
  ok := userOk pt
  byte x := if userOk pt (x / PGSIZE * PGSIZE) then mem (userPa pt x) else 0

@[simp] theorem userSpace_ok (pt : PageTable) (mem : Nat → UInt8) : (userSpace pt mem).ok = userOk pt := rfl

theorem userSpace_byte_eq (pt : PageTable) (mem : Nat → UInt8) (x : Nat) :
    (userSpace pt mem).byte x = if userOk pt (x / PGSIZE * PGSIZE) then mem (userPa pt x) else 0 := rfl

/-- An address of `[a, a + n)`, a range within one page, is on `a`'s page. -/
theorem page_eq_of_mem {a x n : Nat} (h₁ : a ≤ x) (h₂ : x < a + n) (hn : a % PGSIZE + n ≤ PGSIZE) :
    x / PGSIZE * PGSIZE = a / PGSIZE * PGSIZE := by
  have hd := Nat.div_add_mod' a PGSIZE
  have hx : x / PGSIZE = a / PGSIZE := by
    apply Nat.div_eq_of_lt_le
    · omega
    · rw [Nat.succ_mul]
      omega
  rw [hx]

section View

variable {pt : PageTable}

theorem ofNat_page (va : UInt64) : UInt64.ofNat (va.toNat / PGSIZE * PGSIZE) = PGROUNDDOWN va := by
  rw [← toNat_PGROUNDDOWN, UInt64.ofNat_toNat]

/-- The page of a `uint64` address is accessible iff `walkaddr` finds it. -/
theorem userOk_page (va : UInt64) :
    userOk pt (va.toNat / PGSIZE * PGSIZE) = (walkaddr pt (PGROUNDDOWN va) != 0) := by
  unfold userOk
  rw [ofNat_page]
  by_cases h : va.toNat / PGSIZE * PGSIZE < MAXVA.toNat
  · simp [h]
  · have hz : walkaddr pt (PGROUNDDOWN va) = 0 := by
      unfold walkaddr
      rw [if_pos (by rw [ge_iff_le, UInt64.le_iff_toNat_le, toNat_PGROUNDDOWN]; omega)]
    simp [h, hz]

theorem userOk_iff (hpt : pt.Inv) (a : Nat) : userOk pt a = true ↔ UserLeaf pt a := by
  unfold userOk
  by_cases ha : a < MAXVA.toNat
  · have hofn : (UInt64.ofNat a).toNat = a := UInt64.toNat_ofNat_of_lt' (lt_trans ha (by decide))
    have hw := walkaddr_ne_zero_iff hpt (UInt64.ofNat a)
    rw [hofn] at hw
    simp [ha, hw]
  · simp only [ha, decide_false, Bool.false_and, Bool.false_eq_true, false_iff]
    exact fun h => ha h.1

/-- The physical address of a byte on an accessible page `va`'s page. -/
theorem userPa_of_page {va : UInt64} {x : Nat} (hx : x / PGSIZE * PGSIZE = va.toNat / PGSIZE * PGSIZE) :
    userPa pt x = (walkaddr pt (PGROUNDDOWN va)).toNat + x % PGSIZE := by
  rw [userPa, hx, ofNat_page]

/-- Bytes on two different accessible pages have physical addresses on
different physical pages. -/
theorem userPa_out (hpt : pt.Inv) {va : UInt64} (hok : walkaddr pt (PGROUNDDOWN va) ≠ 0) {x : Nat}
    (hx : userOk pt (x / PGSIZE * PGSIZE) = true) (hne : x / PGSIZE * PGSIZE ≠ va.toNat / PGSIZE * PGSIZE) :
    userPa pt x < (walkaddr pt (PGROUNDDOWN va)).toNat ∨
      (walkaddr pt (PGROUNDDOWN va)).toNat + PGSIZE ≤ userPa pt x := by
  have hlt : x / PGSIZE * PGSIZE < MAXVA.toNat := by
    unfold userOk at hx
    simp only [Bool.and_eq_true, decide_eq_true_eq] at hx
    exact hx.1
  have hofn : (UInt64.ofNat (x / PGSIZE * PGSIZE)).toNat = x / PGSIZE * PGSIZE :=
    UInt64.toNat_ofNat_of_lt' (lt_trans hlt (by decide))
  -- the two physical pages differ, or the two pages would be one
  have hpne : walkaddr pt (PGROUNDDOWN va) ≠ walkaddr pt (UInt64.ofNat (x / PGSIZE * PGSIZE)) := by
    intro he
    have := page_eq_of_walkaddr_eq hpt hok he
    rw [hofn, toNat_PGROUNDDOWN, Nat.mul_div_cancel _ (by decide), Nat.mul_div_cancel _ (by decide)] at this
    exact hne (by rw [this])
  have hpne' : (walkaddr pt (PGROUNDDOWN va)).toNat ≠ (walkaddr pt (UInt64.ofNat (x / PGSIZE * PGSIZE))).toNat :=
    fun h => hpne (UInt64.toNat_inj.1 h)
  have ha₁ := (walkaddr_aligned pt (PGROUNDDOWN va)).1
  have ha₂ := (walkaddr_aligned pt (UInt64.ofNat (x / PGSIZE * PGSIZE))).1
  have hm := Nat.mod_lt x (show 0 < PGSIZE by decide)
  unfold userPa
  generalize (walkaddr pt (PGROUNDDOWN va)).toNat = p₁ at *
  generalize (walkaddr pt (UInt64.ofNat (x / PGSIZE * PGSIZE))).toNat = p₂ at *
  unfold PGSIZE at *
  omega

/-- **Storing into one accessible page through its physical page** is
writing into the user address space at the virtual addresses. -/
theorem userSpace_store (hpt : pt.Inv) (mem : Nat → UInt8) {va : UInt64} (hok : walkaddr pt (PGROUNDDOWN va) ≠ 0)
    {bs : List UInt8} (hbs : va.toNat % PGSIZE + bs.length ≤ PGSIZE) :
    userSpace pt (store mem ((walkaddr pt (PGROUNDDOWN va)).toNat + va.toNat % PGSIZE) bs) =
      (userSpace pt mem).write va.toNat bs := by
  have hvok : userOk pt (va.toNat / PGSIZE * PGSIZE) = true := by simp [userOk_page, hok]
  simp only [userSpace, Space.write, Space.mk.injEq, true_and]
  funext x
  by_cases hrange : va.toNat ≤ x ∧ x < va.toNat + bs.length
  · -- `x` is written: it lies on `va`'s page
    have hsame := page_eq_of_mem hrange.1 hrange.2 hbs
    have hd := Nat.div_add_mod' va.toNat PGSIZE
    have hd' := Nat.div_add_mod' x PGSIZE
    have hoff : x % PGSIZE = va.toNat % PGSIZE + (x - va.toNat) := by omega
    rw [hsame, hvok, if_pos rfl, if_pos rfl, if_pos hrange.1, userPa_of_page hsame, store,
      if_pos (by omega), show (walkaddr pt (PGROUNDDOWN va)).toNat + x % PGSIZE -
        ((walkaddr pt (PGROUNDDOWN va)).toNat + va.toNat % PGSIZE) = x - va.toNat by omega]
  · -- `x` is not written, in either memory
    have hout : ∀ d : UInt8, (if va.toNat ≤ x then bs.getD (x - va.toNat) d else d) = d := by
      intro d
      split
      · exact List.getD_eq_default _ _ (by omega)
      · rfl
    rw [hout]
    split
    · rename_i hx
      by_cases hsame : x / PGSIZE * PGSIZE = va.toNat / PGSIZE * PGSIZE
      · -- on `va`'s page, below or above the range
        rw [userPa_of_page hsame, store]
        split
        · rw [List.getD_eq_default]
          have hd := Nat.div_add_mod' va.toNat PGSIZE
          have hd' := Nat.div_add_mod' x PGSIZE
          omega
        · rfl
      · -- on another page, whose physical page is another one
        rw [store]
        split
        · rw [List.getD_eq_default]
          have := userPa_out hpt hok hx hsame
          omega
        · rfl
    · rfl

end View

/-! ## The copy routines, page round by page round -/

section Rounds

variable {pt : PageTable} {mem : Nat → UInt8}

theorem lt_MAXVA_of_walkaddr {va : UInt64} (h : walkaddr pt va ≠ 0) : va.toNat < MAXVA.toNat := by
  by_contra hge
  exact h (by rw [walkaddr, if_pos (by rw [ge_iff_le, UInt64.le_iff_toNat_le]; omega)])

/-- The page after an accessible one: `va0 + PGSIZE` does not wrap, since
`va0` is below `MAXVA`. -/
theorem toNat_next_page {va : UInt64} (h : walkaddr pt (PGROUNDDOWN va) ≠ 0) :
    (PGROUNDDOWN va + PGSIZE.toUInt64).toNat = va.toNat / PGSIZE * PGSIZE + PGSIZE := by
  have hlt := lt_MAXVA_of_walkaddr h
  rw [toNat_PGROUNDDOWN, toNat_MAXVA] at hlt
  rw [UInt64.toNat_add, toNat_PGROUNDDOWN, show PGSIZE.toUInt64.toNat = PGSIZE from rfl, Nat.mod_eq_of_lt]
  exact lt_of_lt_of_le (Nat.add_lt_add_right hlt PGSIZE) (by decide)

/-- The byte `i` places after `va`, on `va`'s accessible page, is the
physical byte as many places after `va`'s. -/
theorem userSpace_byte {va : UInt64} (hp : walkaddr pt (PGROUNDDOWN va) ≠ 0) {i : Nat}
    (hi : va.toNat % PGSIZE + i < PGSIZE) :
    (userSpace pt mem).byte (va.toNat + i) = mem ((walkaddr pt (PGROUNDDOWN va)).toNat + va.toNat % PGSIZE + i) := by
  have hsame : (va.toNat + i) / PGSIZE * PGSIZE = va.toNat / PGSIZE * PGSIZE :=
    page_eq_of_mem (n := i + 1) (by omega) (by omega) (by omega)
  have hmod : (va.toNat + i) % PGSIZE = va.toNat % PGSIZE + i := by
    have := Nat.div_add_mod' (va.toNat + i) PGSIZE
    have := Nat.div_add_mod' va.toNat PGSIZE
    omega
  rw [userSpace_byte_eq, hsame, userOk_page, if_pos (by simpa using hp), userPa_of_page hsame, hmod, Nat.add_assoc]

/-- What `copyin` reads of one page. -/
theorem read_userSpace {va : UInt64} (hp : walkaddr pt (PGROUNDDOWN va) ≠ 0) {n : Nat}
    (hn : va.toNat % PGSIZE + n ≤ PGSIZE) :
    (userSpace pt mem).read va.toNat n =
      (List.range n).map (fun i => mem ((walkaddr pt (PGROUNDDOWN va)).toNat + va.toNat % PGSIZE + i)) := by
  have h := Space.read_eq_of_bytes (userSpace pt mem) (a := va.toNat)
    (l := (List.range n).map (fun i => mem ((walkaddr pt (PGROUNDDOWN va)).toNat + va.toNat % PGSIZE + i)))
    (fun i hi => by
      rw [List.length_map, List.length_range] at hi
      rw [List.getElem_map, List.getElem_range, userSpace_byte hp (by omega)])
  rwa [List.length_map, List.length_range] at h

/-- `copyinstr`'s inner loop over physical bytes is `Space.strRun` over any
space whose bytes from `a` on are those from `p` on. -/
theorem strRun_eq_strCopy {m : Space UInt8} {a p n : Nat} (h : ∀ i < n, m.byte (a + i) = mem (p + i)) :
    Space.strRun 0 m a n = strCopy mem p n := by
  induction n generalizing a p with
  | zero => rfl
  | succ n ih =>
    have h0 : m.byte a = mem p := h 0 (by omega)
    have hrest : Space.strRun 0 m (a + 1) n = strCopy mem (p + 1) n :=
      ih fun i hi => by simpa [Nat.add_assoc, Nat.add_comm 1 i] using h (i + 1) (by omega)
    simp only [Space.strRun, strCopy, h0, hrest]

theorem copyout_nil (dstva : UInt64) : copyout pt mem dstva [] = (0, mem) := by
  rw [copyout, dif_pos List.length_nil]

theorem copyout_of_bad {dstva : UInt64} {src : List UInt8} (h : src ≠ []) (hp : walkaddr pt (PGROUNDDOWN dstva) = 0) :
    copyout pt mem dstva src = (-1, mem) := by
  rw [copyout, dif_neg (by simpa using h)]
  simp [hp]

/-- One page round of `copyout`, on an accessible page. -/
theorem copyout_round {dstva : UInt64} {src : List UInt8} (h : src ≠ []) (hp : walkaddr pt (PGROUNDDOWN dstva) ≠ 0) :
    copyout pt mem dstva src =
      copyout pt
        (store mem ((walkaddr pt (PGROUNDDOWN dstva)).toNat + dstva.toNat % PGSIZE)
          (src.take (min (PGSIZE - dstva.toNat % PGSIZE) src.length)))
        (PGROUNDDOWN dstva + PGSIZE.toUInt64) (src.drop (min (PGSIZE - dstva.toNat % PGSIZE) src.length)) := by
  rw [copyout, dif_neg (by simpa using h)]
  simp only [hp, ↓reduceIte, toNat_sub_PGROUNDDOWN]

theorem copyin_zero (srcva : UInt64) : copyin pt mem srcva 0 = (0, []) := by
  rw [copyin, dif_pos rfl]

theorem copyin_of_bad {srcva : UInt64} {len : Nat} (h : len ≠ 0) (hp : walkaddr pt (PGROUNDDOWN srcva) = 0) :
    copyin pt mem srcva len = (-1, []) := by
  rw [copyin, dif_neg h]
  simp [hp]

/-- One page round of `copyin`, on an accessible page. -/
theorem copyin_round {srcva : UInt64} {len : Nat} (h : len ≠ 0) (hp : walkaddr pt (PGROUNDDOWN srcva) ≠ 0) :
    copyin pt mem srcva len =
      ((copyin pt mem (PGROUNDDOWN srcva + PGSIZE.toUInt64) (len - min (PGSIZE - srcva.toNat % PGSIZE) len)).1,
        (List.range (min (PGSIZE - srcva.toNat % PGSIZE) len)).map
            (fun i => mem ((walkaddr pt (PGROUNDDOWN srcva)).toNat + srcva.toNat % PGSIZE + i)) ++
          (copyin pt mem (PGROUNDDOWN srcva + PGSIZE.toUInt64) (len - min (PGSIZE - srcva.toNat % PGSIZE) len)).2) := by
  rw [copyin, dif_neg h]
  simp only [hp, ↓reduceIte, toNat_sub_PGROUNDDOWN]

theorem copyinstr_zero (srcva : UInt64) : copyinstr pt mem srcva 0 = (-1, []) := by
  rw [copyinstr, dif_pos rfl]

theorem copyinstr_of_bad {srcva : UInt64} {max : Nat} (h : max ≠ 0) (hp : walkaddr pt (PGROUNDDOWN srcva) = 0) :
    copyinstr pt mem srcva max = (-1, []) := by
  rw [copyinstr, dif_neg h]
  simp [hp]

/-- One page round of `copyinstr`, on an accessible page. -/
theorem copyinstr_round {srcva : UInt64} {max : Nat} (h : max ≠ 0) (hp : walkaddr pt (PGROUNDDOWN srcva) ≠ 0) :
    copyinstr pt mem srcva max =
      let r := strCopy mem ((walkaddr pt (PGROUNDDOWN srcva)).toNat + srcva.toNat % PGSIZE)
        (min (PGSIZE - srcva.toNat % PGSIZE) max)
      if r.2 then (0, r.1)
      else
        ((copyinstr pt mem (PGROUNDDOWN srcva + PGSIZE.toUInt64) (max - min (PGSIZE - srcva.toNat % PGSIZE) max)).1,
          r.1 ++ (copyinstr pt mem (PGROUNDDOWN srcva + PGSIZE.toUInt64)
            (max - min (PGSIZE - srcva.toNat % PGSIZE) max)).2) := by
  rw [copyinstr, dif_neg h]
  simp only [hp, ↓reduceIte, toNat_sub_PGROUNDDOWN]

end Rounds

/-! ## Each routine is the `Space` routine on the user address space -/

section Refines

variable {pt : PageTable} {mem : Nat → UInt8}

theorem userOk_page_of_ne {va : UInt64} (hp : walkaddr pt (PGROUNDDOWN va) ≠ 0) :
    (userSpace pt mem).ok (va.toNat / PGSIZE * PGSIZE) = true := by
  simp [userOk_page, hp]

theorem userOk_page_of_eq {va : UInt64} (hp : walkaddr pt (PGROUNDDOWN va) = 0) :
    (userSpace pt mem).ok (va.toNat / PGSIZE * PGSIZE) = false := by
  simp [userOk_page, hp]

/-- **`copyout` refines `Space.copyout`**: its result, and the user address
space of the physical memory it leaves. -/
theorem copyout_refines (hpt : pt.Inv) (mem : Nat → UInt8) (dstva : UInt64) (src : List UInt8) :
    Prod.map id (userSpace pt) (copyout pt mem dstva src) = Space.copyout PGSIZE (userSpace pt mem) dstva.toNat src := by
  obtain ⟨len, hl⟩ : ∃ len, src.length = len := ⟨_, rfl⟩
  -- on the length left to copy, over every memory and destination
  induction len using Nat.strong_induction_on generalizing mem dstva src with
  | _ len ih =>
  by_cases hs : src = []
  · subst hs
    rw [copyout_nil, Space.copyout_nil]
    rfl
  by_cases hp : walkaddr pt (PGROUNDDOWN dstva) = 0
  · rw [copyout_of_bad hs hp, Space.copyout_of_bad _ hs (userOk_page_of_eq hp)]
    rfl
  · have hmod := Nat.mod_lt dstva.toNat (show 0 < PGSIZE by decide)
    have hpos : 0 < src.length := List.length_pos_iff.2 hs
    rw [copyout_round hs hp, Space.copyout_round _ hs (userOk_page_of_ne hp), ← toNat_next_page hp,
      ← userSpace_store hpt mem hp (by rw [List.length_take]; omega)]
    exact ih _ (by rw [← hl, List.length_drop]; omega) _ _ _ rfl

/-- **`copyin` refines `Space.copyin`.** -/
theorem copyin_refines (mem : Nat → UInt8) (srcva : UInt64) (len : Nat) :
    copyin pt mem srcva len = Space.copyin PGSIZE (userSpace pt mem) srcva.toNat len := by
  induction len using Nat.strong_induction_on generalizing srcva with
  | _ len ih =>
  by_cases h : len = 0
  · subst h
    rw [copyin_zero, Space.copyin_zero]
  by_cases hp : walkaddr pt (PGROUNDDOWN srcva) = 0
  · rw [copyin_of_bad h hp, Space.copyin_of_bad _ h (userOk_page_of_eq hp)]
  · have hmod := Nat.mod_lt srcva.toNat (show 0 < PGSIZE by decide)
    rw [copyin_round h hp, Space.copyin_round _ h (userOk_page_of_ne hp), ← toNat_next_page hp,
      ih (len - min (PGSIZE - srcva.toNat % PGSIZE) len) (by omega), read_userSpace hp (by omega)]

/-- **`copyinstr` refines `Space.copyinstr`** with terminator `0`. -/
theorem copyinstr_refines (mem : Nat → UInt8) (srcva : UInt64) (max : Nat) :
    copyinstr pt mem srcva max = Space.copyinstr 0 PGSIZE (userSpace pt mem) srcva.toNat max := by
  induction max using Nat.strong_induction_on generalizing srcva with
  | _ max ih =>
  by_cases h : max = 0
  · subst h
    rw [copyinstr_zero, Space.copyinstr_zero]
  by_cases hp : walkaddr pt (PGROUNDDOWN srcva) = 0
  · rw [copyinstr_of_bad h hp, Space.copyinstr_of_bad _ _ h (userOk_page_of_eq hp)]
  · have hmod := Nat.mod_lt srcva.toNat (show 0 < PGSIZE by decide)
    have hrun : Space.strRun 0 (userSpace pt mem) srcva.toNat (min (PGSIZE - srcva.toNat % PGSIZE) max) =
        strCopy mem ((walkaddr pt (PGROUNDDOWN srcva)).toNat + srcva.toNat % PGSIZE)
          (min (PGSIZE - srcva.toNat % PGSIZE) max) :=
      strRun_eq_strCopy fun i hi => by rw [userSpace_byte hp (by omega), Nat.add_assoc]
    rw [copyinstr_round h hp, Space.copyinstr_of_ok _ _ h (userOk_page_of_ne hp), ← toNat_next_page hp,
      ih (max - min (PGSIZE - srcva.toNat % PGSIZE) max) (by omega), hrun]

end Refines

/-! ## What the copy routines do -/

section Spec

variable {pt : PageTable} {mem : Nat → UInt8}

/-- A page of the user address space is accessible iff it is a valid user
leaf below `MAXVA`. -/
theorem userSpace_ok_iff (hpt : pt.Inv) (mem : Nat → UInt8) (a : Nat) :
    (userSpace pt mem).ok a = true ↔ UserLeaf pt a := by
  rw [userSpace_ok, userOk_iff hpt]

theorem copyout_fst_eq_zero (hpt : pt.Inv) (va : UInt64) (src : List UInt8) :
    (copyout pt mem va src).1 = 0 ↔ ∀ i < src.length, UserLeaf pt ((va.toNat + i) / PGSIZE * PGSIZE) := by
  have h := congrArg Prod.fst (copyout_refines hpt mem va src)
  rw [Prod.map_fst, id] at h
  rw [h, Space.copyout_fst_eq_zero]
  simp only [userSpace_ok_iff hpt]

/-- A successful `copyout` has written `src` at `va` in the user address
space, and nothing else. -/
theorem userSpace_copyout (hpt : pt.Inv) {va : UInt64} {src : List UInt8} (h : (copyout pt mem va src).1 = 0) :
    userSpace pt (copyout pt mem va src).2 = (userSpace pt mem).write va.toNat src := by
  have hall := (Space.copyout_fst_eq_zero (P := PGSIZE) (userSpace pt mem) va.toNat src).1 (by
    rw [← copyout_refines hpt mem va src, Prod.map_fst, id, h])
  have e := copyout_refines hpt mem va src
  rw [Space.copyout_of_ok _ hall] at e
  exact congrArg Prod.snd e

theorem copyin_fst_eq_zero (hpt : pt.Inv) (va : UInt64) (len : Nat) :
    (copyin pt mem va len).1 = 0 ↔ ∀ i < len, UserLeaf pt ((va.toNat + i) / PGSIZE * PGSIZE) := by
  rw [copyin_refines, Space.copyin_fst_eq_zero]
  simp only [userSpace_ok_iff hpt]

/-- A successful `copyin` has read the `len` user bytes from `va`. -/
theorem copyin_snd_of_ok {va : UInt64} {len : Nat} (h : (copyin pt mem va len).1 = 0) :
    (copyin pt mem va len).2 = (userSpace pt mem).read va.toNat len := by
  rw [copyin_refines] at h ⊢
  rw [Space.copyin_of_ok _ ((Space.copyin_fst_eq_zero _ _ _).1 h)]

theorem copyinstr_fst_eq_zero (hpt : pt.Inv) (va : UInt64) (max : Nat) :
    (copyinstr pt mem va max).1 = 0 ↔
      ∃ k < max, (userSpace pt mem).byte (va.toNat + k) = 0 ∧ (∀ j < k, (userSpace pt mem).byte (va.toNat + j) ≠ 0) ∧
        ∀ j ≤ k, UserLeaf pt ((va.toNat + j) / PGSIZE * PGSIZE) := by
  rw [copyinstr_refines, Space.copyinstr_fst_eq_zero, Space.strOk_iff]
  simp only [userSpace_ok_iff hpt]

/-- Where the first `0` from `va` on is at `k < max`, on accessible pages,
`copyinstr` succeeds with the `k + 1` bytes up to and including it. -/
theorem copyinstr_of_nul {va : UInt64} {max k : Nat} (hk : k < max) (hz : (userSpace pt mem).byte (va.toNat + k) = 0)
    (hne : ∀ j < k, (userSpace pt mem).byte (va.toNat + j) ≠ 0)
    (hok : ∀ j ≤ k, (userSpace pt mem).ok ((va.toNat + j) / PGSIZE * PGSIZE) = true) :
    copyinstr pt mem va max = (0, (userSpace pt mem).read va.toNat (k + 1)) := by
  have hs : Space.StrOk PGSIZE 0 (userSpace pt mem) va.toNat max := (Space.strOk_iff _ _ _ _).2 ⟨k, hk, hz, hne, hok⟩
  have he : Space.zLen 0 (userSpace pt mem) va.toNat max = k := Space.zLen_eq_of hk hz hne
  rw [copyinstr_refines, (Space.copyinstr_spec PGSIZE _ _ _).1 hs, he, Space.read_add]
  simp [Space.read, hz]

/-- What a successful `copyout` wrote, a `copyin` of the same range reads back. -/
theorem copyin_copyout (hpt : pt.Inv) {va : UInt64} {src : List UInt8} (h : (copyout pt mem va src).1 = 0) :
    copyin pt (copyout pt mem va src).2 va src.length = (0, src) := by
  have e := copyout_refines hpt mem va src
  rw [copyin_refines]
  exact Space.copyin_of_copyout (m := userSpace pt mem) (Prod.ext (by rw [← e, Prod.map_fst, id, h]) (by rw [← e]; rfl))
    rfl fun _ _ => rfl

end Spec

/-- The user copy routines, for a page table whose user leaves map distinct
physical pages other than page 0: `walkaddr` finds exactly the valid user
leaves below `MAXVA`; `copyout` and `copyin` succeed iff every page of the
range is one, and then write `src` at `va` and nothing else, or read the user
bytes; `copyinstr` succeeds iff a first `0` at some `k < max` lies on such
pages, and then returns the bytes up to it; and a successful `copyout` is read
back by `copyin`. -/
theorem user_copy_spec (pt : PageTable) (hpt : pt.Inv) (mem : Nat → UInt8) :
    (∀ va : UInt64, walkaddr pt va ≠ 0 ↔ UserLeaf pt va.toNat) ∧
    (∀ (va : UInt64) (src : List UInt8),
      ((copyout pt mem va src).1 = 0 ↔ ∀ i < src.length, UserLeaf pt ((va.toNat + i) / PGSIZE * PGSIZE)) ∧
      ((copyout pt mem va src).1 = 0 → userSpace pt (copyout pt mem va src).2 = (userSpace pt mem).write va.toNat src)) ∧
    (∀ (va : UInt64) (len : Nat),
      ((copyin pt mem va len).1 = 0 ↔ ∀ i < len, UserLeaf pt ((va.toNat + i) / PGSIZE * PGSIZE)) ∧
      ((copyin pt mem va len).1 = 0 → (copyin pt mem va len).2 = (userSpace pt mem).read va.toNat len)) ∧
    (∀ (va : UInt64) (max : Nat),
      ((copyinstr pt mem va max).1 = 0 ↔
        ∃ k < max, (userSpace pt mem).byte (va.toNat + k) = 0 ∧ (∀ j < k, (userSpace pt mem).byte (va.toNat + j) ≠ 0) ∧
          ∀ j ≤ k, UserLeaf pt ((va.toNat + j) / PGSIZE * PGSIZE)) ∧
      ∀ k < max, (userSpace pt mem).byte (va.toNat + k) = 0 → (∀ j < k, (userSpace pt mem).byte (va.toNat + j) ≠ 0) →
        (∀ j ≤ k, UserLeaf pt ((va.toNat + j) / PGSIZE * PGSIZE)) →
        copyinstr pt mem va max = (0, (userSpace pt mem).read va.toNat (k + 1))) ∧
    (∀ (va : UInt64) (src : List UInt8),
      (copyout pt mem va src).1 = 0 → copyin pt (copyout pt mem va src).2 va src.length = (0, src)) := by
  refine ⟨walkaddr_ne_zero_iff hpt, fun va src => ⟨copyout_fst_eq_zero hpt va src, userSpace_copyout hpt⟩,
    fun va len => ⟨copyin_fst_eq_zero hpt va len, copyin_snd_of_ok⟩,
    fun va max => ⟨copyinstr_fst_eq_zero hpt va max, fun k hk hz hne hok => ?_⟩, fun va src => copyin_copyout hpt⟩
  exact copyinstr_of_nul hk hz hne fun j hj => (userSpace_ok_iff hpt mem _).2 (hok j hj)

/-- A page table with one user page, page 1 at physical address
`0x80000000`: it keeps the invariant, and three bytes copied out to `0x1ff0`
are read back by `copyin`. -/
theorem user_copy_spec_one_page :
    let pt : PageTable := ⟨fun v => if v = 1 then some 0x20000011 else none⟩
    pt.Inv ∧ copyin pt (copyout pt (fun _ => 0) 0x1ff0 [1, 2, 3]).2 0x1ff0 3 = (0, [1, 2, 3]) := by
  intro pt
  have hpt : pt.Inv := by
    constructor
    · intro v pte _ hl _
      simp only [pt] at hl
      split at hl
      · cases hl
        decide
      · cases hl
    · intro v v' pte pte' _ _ hl _ hl' _ _
      simp only [pt] at hl hl'
      split at hl <;> split at hl' <;> simp_all
  have hleaf : ∀ i < [1, 2, 3].length, UserLeaf pt (((0x1ff0 : UInt64).toNat + i) / PGSIZE * PGSIZE) := by
    intro i hi
    have hpage : ((0x1ff0 : UInt64).toNat + i) / PGSIZE * PGSIZE = 4096 := by
      simp only [List.length_cons, List.length_nil] at hi
      interval_cases i <;> rfl
    rw [hpage]
    exact ⟨by decide, 0x20000011, rfl, by decide, by decide⟩
  have hspec := user_copy_spec pt hpt (fun _ => 0)
  exact ⟨hpt, hspec.2.2.2.2 0x1ff0 [1, 2, 3] (((hspec.2.1 0x1ff0 [1, 2, 3]).1).2 hleaf)⟩

end Xv6
