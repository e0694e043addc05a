import Xv6.Vm.Tables

/-!
# `uvmcopy`: the child's copy of the parent's memory

`uvmcopy(old, new, sz)` copies the process `old` of size `sz`, which keeps
`Grow`'s invariant (`VmState.Good`), into `new`, which maps nothing below
`sz`. Its loop is carried by `Copied`: the pages copied so far are fresh
pages of the free list, each with the parent's flags and bytes, and the
pages taken are those and the new tables (`tablePages`). A round either
copies its page (`Copied.map_page`) or finds no page and leaves `Uncopied`,
which `uvmunmap` turns into `CopyFailed`: every PTE of `new` back as it was,
and every page taken either on the free list again or a table of `new`
(`uvmcopy_spec`).

The PTE `uvmcopy` writes keeps the parent's flags (`flags_copiedPte`) and
points at the copy (`toNat_PTE2PA_mappedPte`).
-/

namespace Xv6

open Framework

/-! ### The bits of a copied PTE -/

/-- `PA2PTE` leaves the flag bits clear. -/
theorem PA2PTE_and_flags (pa : Nat) : PA2PTE pa &&& 0x3FF = 0 := by
  apply UInt64.eq_of_toBitVec_eq
  apply BitVec.eq_of_getLsbD_eq
  intro i hi
  have h1023 : (0x3FF : UInt64).toBitVec = BitVec.ofNat 64 (2 ^ 10 - 1) := rfl
  simp only [PA2PTE, UInt64.toBitVec_and, UInt64.toBitVec_shiftLeft, UInt64.toBitVec_shiftRight, h1023,
    BitVec.getLsbD_and, getLsbD_ofNat_low]
  by_cases h : i < 10 <;> simp [h]

/-- Flag bits or-ed into a PTE do not change its page. -/
theorem PTE2PA_or_flags (x : UInt64) {f : UInt64} (hf : f &&& 0x3FF = f) : PTE2PA (x ||| f) = PTE2PA x := by
  have hlt : f.toNat < 2 ^ 10 := by
    rw [← hf, UInt64.toNat_and]
    exact lt_of_le_of_lt Nat.and_le_right (by decide)
  have h0 : f >>> 10 = 0 := by
    apply UInt64.toNat_inj.1
    rw [UInt64.toNat_shiftRight, Nat.shiftRight_eq_div_pow]
    exact Nat.div_eq_of_lt hlt
  rw [PTE2PA, PTE2PA, UInt64.shiftRight_or, h0, UInt64.or_zero]

/-- Flags or-ed together are flags. -/
theorem flags_or {f g : UInt64} (hf : f &&& 0x3FF = f) (hg : g &&& 0x3FF = g) : (f ||| g) &&& 0x3FF = f ||| g := by
  apply UInt64.eq_of_toBitVec_eq
  have hf' : f.toBitVec &&& (0x3FF : UInt64).toBitVec = f.toBitVec := by rw [← UInt64.toBitVec_and, hf]
  have hg' : g.toBitVec &&& (0x3FF : UInt64).toBitVec = g.toBitVec := by rw [← UInt64.toBitVec_and, hg]
  simp only [UInt64.toBitVec_and, UInt64.toBitVec_or, BitVec.and_or_distrib_right, hf', hg']

theorem PTE_FLAGS_flags (x : UInt64) : PTE_FLAGS x &&& 0x3FF = PTE_FLAGS x := by
  rw [PTE_FLAGS, UInt64.and_assoc, UInt64.and_self]

/-- The flags of the PTE `mappages` writes: those it was given, and `V`. -/
theorem flags_mappedPte (pa : Nat) {f : UInt64} (hf : f &&& 0x3FF = f) :
    PTE_FLAGS (PA2PTE pa ||| f ||| PTE_V) = f ||| PTE_V := by
  apply UInt64.eq_of_toBitVec_eq
  have hf' : f.toBitVec &&& (0x3FF : UInt64).toBitVec = f.toBitVec := by rw [← UInt64.toBitVec_and, hf]
  have hp : (PA2PTE pa).toBitVec &&& (0x3FF : UInt64).toBitVec = 0 := by
    rw [← UInt64.toBitVec_and, PA2PTE_and_flags]; rfl
  have hv : PTE_V.toBitVec &&& (0x3FF : UInt64).toBitVec = PTE_V.toBitVec := by decide
  simp only [PTE_FLAGS, UInt64.toBitVec_and, UInt64.toBitVec_or, BitVec.and_or_distrib_right, hf', hp, hv]
  exact congrArg (· ||| PTE_V.toBitVec) (BitVec.zero_or)

/-- The page of the PTE `mappages` writes for an aligned `pa`. -/
theorem toNat_PTE2PA_mappedPte {pa : Nat} (h : pa % PGSIZE = 0) (hlt : pa < 2 ^ 64) {f : UInt64}
    (hf : f &&& 0x3FF = f) : (PTE2PA (PA2PTE pa ||| f ||| PTE_V)).toNat = pa := by
  have hV : PTE_V &&& 0x3FF = PTE_V := by decide
  have hl : PTE2PA (leafPte pa) = PTE2PA (PA2PTE pa) := by
    rw [leafPte, UInt64.or_assoc, PTE2PA_or_flags _ (flags_or (by decide) hV)]
  rw [UInt64.or_assoc, PTE2PA_or_flags _ (flags_or hf hV), ← hl, toNat_PTE2PA_leafPte h hlt]

/-- A valid PTE has `V` among its flags. -/
theorem flags_or_V {x : UInt64} (h : x &&& PTE_V ≠ 0) : PTE_FLAGS x ||| PTE_V = PTE_FLAGS x := by
  have hV : x &&& PTE_V = PTE_V := by
    apply UInt64.toNat_inj.1
    have h' : (x &&& PTE_V).toNat ≠ 0 := fun e => h (UInt64.toNat_inj.1 e)
    rw [UInt64.toNat_and, show PTE_V.toNat = 1 from rfl, Nat.and_one_is_mod] at h' ⊢
    omega
  apply UInt64.eq_of_toBitVec_eq
  have hM : (0x3FF : UInt64).toBitVec ||| PTE_V.toBitVec = (0x3FF : UInt64).toBitVec := by decide
  rw [PTE_FLAGS, ← hV]
  simp only [UInt64.toBitVec_and, UInt64.toBitVec_or, ← BitVec.and_or_distrib_left, hM]

/-- The PTE `uvmcopy` writes for a valid PTE `x` of the parent: the same flags. -/
theorem flags_copiedPte (pa : Nat) {x : UInt64} (h : x &&& PTE_V ≠ 0) :
    PTE_FLAGS (PA2PTE pa ||| PTE_FLAGS x ||| PTE_V) = PTE_FLAGS x := by
  rw [flags_mappedPte pa (PTE_FLAGS_flags x), flags_or_V h]

/-- A PTE is valid iff its flags say so. -/
theorem and_V_eq_flags (y : UInt64) : y &&& PTE_V = PTE_FLAGS y &&& PTE_V := by
  rw [PTE_FLAGS, UInt64.and_assoc, show (0x3FF : UInt64) &&& PTE_V = PTE_V by decide]

theorem or_V_and_V (f : UInt64) : (f ||| PTE_V) &&& PTE_V = PTE_V := by
  apply UInt64.eq_of_toBitVec_eq
  apply BitVec.eq_of_getLsbD_eq
  intro i _
  simp only [UInt64.toBitVec_and, UInt64.toBitVec_or, BitVec.getLsbD_and, BitVec.getLsbD_or]
  cases f.toBitVec.getLsbD i <;> cases PTE_V.toBitVec.getLsbD i <;> rfl

/-- The PTE `mappages` writes is valid. -/
theorem mappedPte_valid (pa : Nat) {f : UInt64} (hf : f &&& 0x3FF = f) : (PA2PTE pa ||| f ||| PTE_V) &&& PTE_V ≠ 0 := by
  rw [and_V_eq_flags, flags_mappedPte pa hf, or_V_and_V]
  decide

/-- `memmove` of a page onto another, distinct page. -/
theorem memmove_page (m : Nat → UInt8) {d s : Nat} (hd : d % PGSIZE = 0) (hs : s % PGSIZE = 0) (hne : d ≠ s) :
    memmove m d s PGSIZE = overwrite m d (bytesAt m s PGSIZE) := by
  have h : d + PGSIZE ≤ s ∨ s + PGSIZE ≤ d := by
    unfold PGSIZE at *
    omega
  rw [memmove, if_neg (by omega), copyUp_eq PGSIZE (by omega)]

theorem overwrite_bytesAt {m : Nat → UInt8} {d s n o : Nat} (ho : o < n) :
    overwrite m d (bytesAt m s n) (d + o) = m (s + o) := by
  rw [overwrite_add (by rw [length_bytesAt]; exact ho)]
  simp [bytesAt]

/-- Bytes written within page `pa` leave the rest of memory alone. -/
theorem sameOutside_overwrite (m : Nat → UInt8) (pa : Nat) {bs : List UInt8} (h : bs.length ≤ PGSIZE) :
    VmState.SameOutside m (overwrite m pa bs) [pa] := fun _ hx =>
  overwrite_out (by have := hx pa List.mem_cons_self; omega)

namespace Ptab

section Copy

open VmState

variable {old new₀ new : Ptab} {k₀ k : Kmem} {sz A m : Nat}

/-- A `walk` through two valid entries allocates nothing. -/
theorem walk_of_valid {pt : Ptab} {k : Kmem} {va : Nat} (ha : va < MAXVA.toNat) (h1 : pt.l1 (va / 2 ^ 30) = true)
    (h0 : pt.l0 (va / 2 ^ 21) = true) (alloc : Bool) : pt.walk k va alloc = .ok (true, pt, k) := by
  rw [walk, if_neg (by omega), table1_of_l1 (s := pt.vm k) h1]
  dsimp only
  rw [table0_of_l0 (s := pt.vm k) h0]
  simp only [vm_l0, h0, h1, if_true]
  rfl

theorem uvmcopyLoop_done {i : Nat} (h : ¬i < sz) : uvmcopyLoop old sz new k i = .ok (0, new, k) := by
  rw [uvmcopyLoop, if_neg h]

section Round

variable {i : Nat} (h : i < sz) (hw : old.walk k i false = .ok (true, old, k)) (hv : old.pte (i / PGSIZE) &&& PTE_V ≠ 0)
include h hw hv

theorem uvmcopyLoop_nil (hf : k.freelist = []) : uvmcopyLoop old sz new k i = uvmcopyErr new k i := by
  rw [uvmcopyLoop, if_pos h, hw]
  dsimp only
  rw [if_neg hv, Kmem.kalloc, hf]

theorem uvmcopyLoop_mapped {pa : Nat} {rest : List Nat} (hf : k.freelist = pa :: rest) {new' : Ptab} {k' : Kmem}
    (hm : new.mappages { k with freelist := rest, mem := memmove (fill k.mem pa 5) pa (PTE2PA (old.pte (i / PGSIZE))).toNat PGSIZE }
      i PGSIZE pa (PTE_FLAGS (old.pte (i / PGSIZE))) = .ok (0, new', k')) :
    uvmcopyLoop old sz new k i = uvmcopyLoop old sz new' k' (i + PGSIZE) := by
  rw [uvmcopyLoop, if_pos h, hw]
  dsimp only
  rw [if_neg hv, Kmem.kalloc, hf]
  dsimp only
  rw [hm]
  dsimp only
  rw [if_neg (by decide)]

theorem uvmcopyLoop_unmapped {pa : Nat} {rest : List Nat} (hf : k.freelist = pa :: rest) {new' : Ptab} {k' k'' : Kmem}
    {r : Int} (hm : new.mappages { k with freelist := rest, mem := memmove (fill k.mem pa 5) pa (PTE2PA (old.pte (i / PGSIZE))).toNat PGSIZE }
      i PGSIZE pa (PTE_FLAGS (old.pte (i / PGSIZE))) = .ok (r, new', k')) (hr : r ≠ 0) (hk : k'.kfree pa = .ok k'') :
    uvmcopyLoop old sz new k i = uvmcopyErr new' k'' i := by
  rw [uvmcopyLoop, if_pos h, hw]
  dsimp only
  rw [if_neg hv, Kmem.kalloc, hf]
  dsimp only
  rw [hm]
  dsimp only
  rw [if_pos hr, hk]

end Round

/-- What `uvmcopy`'s loop has done when it reaches page `A`, copying the
process `old` of size `sz` into `new₀` over memory `k₀`: each page below `A`
maps a page of the first `m` of the free list, with `old`'s flags and a copy
of `old`'s bytes; every other PTE is `new₀`'s; the first `m` pages of the
free list are those pages and the tables `new` added, and no other byte
changed. -/
structure Copied (old : Ptab) (sz : Nat) (new₀ : Ptab) (k₀ : Kmem) (new : Ptab) (k : Kmem) (A m : Nat) : Prop where
  start : (old.vm k₀).Good sz
  fresh : ∀ v < npages sz, new₀.pte v = 0
  le : A ≤ npages sz
  ok : new.Ok
  root_eq : new.root = new₀.root
  kend_eq : k.kend = k₀.kend
  pte_out : ∀ v, A ≤ v → new.pte v = new₀.pte v
  copy : ∀ v < A, ∃ q ∈ k₀.freelist.take m, new.pte v = PA2PTE q ||| PTE_FLAGS (old.pte v) ||| PTE_V ∧
    ∀ o < PGSIZE, k.mem (q + o) = k₀.mem ((PTE2PA (old.pte v)).toNat + o)
  free_eq : k.freelist = k₀.freelist.drop m
  mem_eq : SameOutside k₀.mem k.mem (k₀.freelist.take m)
  pages : new.tablePages + ↑((new.vm k).physPages 0 A) = new₀.tablePages + ↑(k₀.freelist.take m)

/-- What `uvmcopy` has to undo when it gives up at page `A`: the pages below
`A`, each a leaf on a page of the free list it started from, which with the
tables and the free list make up what `new₀` and `k₀` had. -/
structure Uncopied (new₀ : Ptab) (k₀ : Kmem) (new : Ptab) (k : Kmem) (A : Nat) : Prop where
  lt : A * PGSIZE ≤ MAXVA.toNat
  fresh : ∀ v < A, new₀.pte v = 0
  ok : new.Ok
  root_eq : new.root = new₀.root
  kend_eq : k.kend = k₀.kend
  pte_out : ∀ v, A ≤ v → new.pte v = new₀.pte v
  leaf : ∀ v < A, new.pte v &&& PTE_V ≠ 0 ∧ PTE_FLAGS (new.pte v) ≠ PTE_V ∧ IsPage k.kend (PTE2PA (new.pte v)).toNat
  data : ∀ v < A, (PTE2PA (new.pte v)).toNat ∈ k₀.freelist
  pages : new.tablePages + ↑((new.vm k).physPages 0 A) + ↑k.freelist = new₀.tablePages + ↑k₀.freelist
  mem_eq : SameOutside k₀.mem k.mem k₀.freelist

/-- How `uvmcopy` leaves the child's table when it fails: every PTE as
`new₀` had it, and each page it took either back on the free list or a
table of `new`. -/
structure CopyFailed (new₀ : Ptab) (k₀ : Kmem) (new : Ptab) (k : Kmem) : Prop where
  ok : new.Ok
  root_eq : new.root = new₀.root
  kend_eq : k.kend = k₀.kend
  pte_eq : new.pte = new₀.pte
  pages : new.tablePages + ↑k.freelist = new₀.tablePages + ↑k₀.freelist
  mem_eq : SameOutside k₀.mem k.mem k₀.freelist

theorem Copied.start_self (hg : (old.vm k₀).Good sz) (hfresh : ∀ v < npages sz, new₀.pte v = 0) (ho : new₀.Ok) :
    Copied old sz new₀ k₀ new₀ k₀ 0 0 :=
  ⟨hg, hfresh, Nat.zero_le _, ho, rfl, rfl, fun _ _ => rfl, fun v hv => absurd hv (Nat.not_lt_zero v), rfl,
    SameOutside.refl _ _, rfl⟩

theorem Copied.undo (hc : Copied old sz new₀ k₀ new k A m) : Uncopied new₀ k₀ new k A where
  lt := by
    have := npages_le_of_good hc.start
    have := hc.le
    rw [toNat_MAXVA]
    unfold PHYSTOP KERNBASE PGSIZE at *
    omega
  fresh v hv := hc.fresh v (lt_of_lt_of_le hv hc.le)
  ok := hc.ok
  root_eq := hc.root_eq
  kend_eq := hc.kend_eq
  pte_out := hc.pte_out
  leaf v hv := by
    obtain ⟨q, hq, hpte, -⟩ := hc.copy v hv
    obtain ⟨hV, hflags⟩ : old.pte v &&& PTE_V ≠ 0 ∧ PTE_FLAGS (old.pte v) ≠ PTE_V :=
      hc.start.leaf v (lt_of_lt_of_le hv hc.le)
    have hpage : IsPage k₀.kend q := hc.start.free_page q (List.mem_of_mem_take hq)
    rw [hpte, toNat_PTE2PA_mappedPte hpage.1 (lt_of_lt_of_le hpage.2.2 (by decide)) (PTE_FLAGS_flags _),
      flags_copiedPte q hV, hc.kend_eq]
    exact ⟨mappedPte_valid q (PTE_FLAGS_flags _), hflags, hpage⟩
  data v hv := by
    obtain ⟨q, hq, hpte, -⟩ := hc.copy v hv
    have hpage : IsPage k₀.kend q := hc.start.free_page q (List.mem_of_mem_take hq)
    rw [hpte, toNat_PTE2PA_mappedPte hpage.1 (lt_of_lt_of_le hpage.2.2 (by decide)) (PTE_FLAGS_flags _)]
    exact List.mem_of_mem_take hq
  pages := by
    rw [hc.pages, hc.free_eq, add_assoc, Multiset.coe_add, List.take_append_drop]
  mem_eq := hc.mem_eq.mono fun _ => List.mem_of_mem_take

/-- **Undoing**: `uvmunmap` of the pages below `A` frees them and leaves
every PTE as `new₀` had it. -/
theorem Uncopied.err (hu : Uncopied new₀ k₀ new k A) :
    ∃ new' k', uvmcopyErr new k (A * PGSIZE) = .ok (-1, new', k') ∧ CopyFailed new₀ k₀ new' k' := by
  obtain ⟨s', hs', hl1, hl0, hkend, hpte, hfree, hmem⟩ :=
    uvmunmapLoop_spec A (new.vm k) 0 (hu.ok.tables k) (by rw [Nat.zero_add]; exact hu.lt) fun v _ hv =>
      hu.leaf v (by omega)
  have hun : new.uvmunmap k 0 (A * PGSIZE / PGSIZE) true = .ok (new.setVm s', Kmem.ofVm s') := by
    rw [uvmunmap, VmState.uvmunmap, page_div, if_neg (by decide), ← Nat.zero_mul PGSIZE, hs']
    rfl
  have hpt : ∀ v, s'.pte v = if v < A then 0 else new.pte v := fun v => by
    rw [hpte]
    exact if_congr (by omega) rfl rfl
  refine ⟨new.setVm s', Kmem.ofVm s', by rw [uvmcopyErr, hun]; rfl, ⟨?_, hu.root_eq, hkend.trans hu.kend_eq, ?_, ?_, ?_⟩⟩
  · have hl1' : ∀ i, (new.setVm s').l1 i = new.l1 i := fun i => congrFun hl1 i
    refine ⟨fun j hj => ?_, fun v hv => ?_, fun i hi => hu.ok.l1_lt i (by rw [← hl1' i]; exact hi)⟩
    · show s'.l1 _ = true
      rw [hl1]
      exact hu.ok.l1_of_l0 j (by rw [← show s'.l0 = new.l0 from hl0]; exact hj)
    · show s'.l0 _ = true
      have hv' : s'.pte v ≠ 0 := hv
      rw [hpt] at hv'
      rw [hl0]
      split at hv'
      · exact absurd rfl hv'
      · exact hu.ok.l0_of_pte v hv'
  · funext v
    show s'.pte v = _
    rw [hpt]
    split
    · exact (hu.fresh v (by assumption)).symm
    · exact hu.pte_out v (by omega)
  · show (new.setVm s').tablePages + ↑s'.freelist = _
    rw [tablePages_setVm hl1 hl0, hfree, ← Multiset.coe_add, Multiset.coe_reverse, ← hu.pages, add_assoc]
    rfl
  · exact (hu.mem_eq.trans hmem).mono fun q hq => by
      rcases List.mem_append.1 hq with hq | hq
      · exact hq
      · obtain ⟨v, -, hv, rfl⟩ := mem_physPages.1 hq
        exact hu.data v (by omega)

section Step

variable (hc : Copied old sz new₀ k₀ new k A m) {pa : Nat} {rest : List Nat} (hf : k.freelist = pa :: rest)
include hc hf

theorem Copied.drop_eq : k₀.freelist.drop m = pa :: rest := hc.free_eq.symm.trans hf

theorem Copied.take_succ (n : Nat) : k₀.freelist.take (m + 1 + n) = k₀.freelist.take m ++ pa :: rest.take n := by
  rw [Nat.add_assoc, List.take_add, hc.drop_eq hf, Nat.add_comm 1 n, List.take_succ_cons]

theorem Copied.head_nodup : (pa :: rest).Nodup :=
  hc.drop_eq hf ▸ (show k₀.freelist.Nodup from hc.start.free_nodup).sublist (List.drop_sublist _ _)

theorem Copied.head_page : ∀ q ∈ pa :: rest, IsPage k₀.kend q := fun q hq =>
  hc.start.free_page q (List.mem_of_mem_drop ((hc.drop_eq hf).symm ▸ hq))

/-- The pages taken earlier are not the ones still to take. -/
theorem Copied.taken_not_mem : ∀ q ∈ k₀.freelist.take m, q ∉ pa :: rest := fun _ hq hq' =>
  List.disjoint_take_drop (show k₀.freelist.Nodup from hc.start.free_nodup) (le_refl m) hq ((hc.drop_eq hf).symm ▸ hq')

/-- The bytes a round writes: the new page, then the tables its `walk` takes. -/
theorem Copied.round_mem (hA : A < npages sz) {pt' : Ptab} {k' : Kmem} {n : Nat}
    (hgs : Grows (new.vm { k with freelist := rest, mem := memmove (fill k.mem pa 5) pa (PTE2PA (old.pte A)).toNat PGSIZE })
      (pt'.vm k') n) :
    SameOutside k.mem k'.mem (pa :: rest.take n) ∧
      ∀ o < PGSIZE, k'.mem (pa + o) = k₀.mem ((PTE2PA (old.pte A)).toNat + o) := by
  have hpo : IsPage k₀.kend (PTE2PA (old.pte A)).toNat := hc.start.pa_page A hA
  have hpo_free : (PTE2PA (old.pte A)).toNat ∉ k₀.freelist := hc.start.pa_free A hA
  have hpa := hc.head_page hf pa List.mem_cons_self
  have hne : pa ≠ (PTE2PA (old.pte A)).toNat := fun e =>
    hpo_free (e ▸ List.mem_of_mem_drop ((hc.drop_eq hf).symm ▸ List.mem_cons_self))
  have hmove := memmove_page (fill k.mem pa 5) hpa.1 hpo.1 hne
  have hmem₂ : SameOutside (memmove (fill k.mem pa 5) pa (PTE2PA (old.pte A)).toNat PGSIZE) k'.mem (rest.take n) :=
    hgs.mem_eq
  have halk : ∀ q ∈ rest.take n, q % PGSIZE = 0 := fun q hq =>
    (hc.head_page hf q (List.mem_cons_of_mem _ (List.mem_of_mem_take hq))).1
  have hpa_not : pa ∉ rest.take n := fun h => (List.nodup_cons.1 (hc.head_nodup hf)).1 (List.mem_of_mem_take h)
  refine ⟨(((SameOutside.fill _ _ _).trans (hmove ▸ sameOutside_overwrite _ _ (by simp))).trans hmem₂).mono fun q hq => ?_,
    fun o ho => ?_⟩
  · simp only [List.mem_append, List.mem_singleton, or_self] at hq
    rcases hq with rfl | hq
    · exact List.mem_cons_self
    · exact List.mem_cons_of_mem _ hq
  · -- the copy is read from the parent's page, which no round has written
    have hx : ¬(pa ≤ (PTE2PA (old.pte A)).toNat + o ∧ (PTE2PA (old.pte A)).toNat + o < pa + PGSIZE) :=
      not_mem_page_of_ne hpa.1 hpo.1 hne ⟨by omega, by omega⟩
    rw [hmem₂.page halk hpa.1 hpa_not ⟨by omega, by omega⟩, hmove, overwrite_bytesAt ho, fill_of_not hx,
      hc.mem_eq.page (fun q hq => (hc.start.free_page q (List.mem_of_mem_take hq)).1) hpo.1
        (fun h => hpo_free (List.mem_of_mem_take h)) ⟨by omega, by omega⟩]

/-- **A round that maps its page**: the head of the free list becomes page
`A`, a copy of the parent's, after the `n` tables `walk` took. -/
theorem Copied.map_page (hA : A < npages sz) {pt' : Ptab} {k' : Kmem} {n : Nat}
    (hgs : Grows (new.vm { k with freelist := rest, mem := memmove (fill k.mem pa 5) pa (PTE2PA (old.pte A)).toNat PGSIZE })
      (pt'.vm k') n)
    (ho' : pt'.Ok) (hroot : pt'.root = new.root) (hpages : pt'.tablePages = new.tablePages + ↑(rest.take n))
    (hl0 : pt'.l0 (A * PGSIZE / 2 ^ 21) = true) :
    Copied old sz new₀ k₀
      { pt' with pte := fun v => if v = A * PGSIZE / PGSIZE then PA2PTE pa ||| PTE_FLAGS (old.pte A) ||| PTE_V else pt'.pte v }
      k' (A + 1) (m + 1 + n) := by
  obtain ⟨hmem, hcopy⟩ := hc.round_mem hf hA hgs
  have hpa := hc.head_page hf pa List.mem_cons_self
  have hpte : ∀ v, (if v = A * PGSIZE / PGSIZE then PA2PTE pa ||| PTE_FLAGS (old.pte A) ||| PTE_V else pt'.pte v) =
      if v = A then PA2PTE pa ||| PTE_FLAGS (old.pte A) ||| PTE_V else new.pte v := fun v => by
    rw [page_div, show pt'.pte = new.pte from hgs.pte_eq]
  have hpaX : (PTE2PA (PA2PTE pa ||| PTE_FLAGS (old.pte A) ||| PTE_V)).toNat = pa :=
    toNat_PTE2PA_mappedPte hpa.1 (lt_of_lt_of_le hpa.2.2 (by decide)) (PTE_FLAGS_flags _)
  have hal : ∀ q ∈ pa :: rest.take n, q % PGSIZE = 0 := fun q hq =>
    (hc.head_page hf q (((List.take_sublist n rest).cons_cons pa).subset hq)).1
  refine ⟨hc.start, hc.fresh, by omega, ho'.set_pte hl0 _, hroot.trans hc.root_eq,
    (show k'.kend = k.kend from hgs.kend_eq).trans hc.kend_eq, fun v hv => ?_, fun v hv => ?_, ?_, ?_, ?_⟩
  · show (if v = A * PGSIZE / PGSIZE then _ else pt'.pte v) = _
    rw [hpte, if_neg (by omega)]
    exact hc.pte_out v (by omega)
  · show ∃ q ∈ _, (if v = A * PGSIZE / PGSIZE then _ else pt'.pte v) = _ ∧ _
    rw [hc.take_succ hf, hpte]
    rcases Nat.lt_or_ge v A with hv' | hv'
    · -- a page of an earlier round keeps its PTE and its bytes
      obtain ⟨q, hq, hqpte, hqb⟩ := hc.copy v hv'
      have hqal := (hc.start.free_page q (List.mem_of_mem_take hq)).1
      refine ⟨q, List.mem_append_left _ hq, by rw [if_neg (by omega), hqpte], fun o ho => ?_⟩
      rw [hmem.page hal hqal (fun h => hc.taken_not_mem hf q hq (((List.take_sublist n rest).cons_cons pa).subset h))
        ⟨by omega, by omega⟩]
      exact hqb o ho
    · have hvA : v = A := by omega
      subst hvA
      exact ⟨pa, List.mem_append_right _ List.mem_cons_self, if_pos rfl, hcopy⟩
  · show k'.freelist = _
    rw [show k'.freelist = rest.drop n from hgs.free_eq, Nat.add_assoc, ← List.drop_drop, hc.drop_eq hf, Nat.add_comm 1 n,
      List.drop_succ_cons]
  · rw [hc.take_succ hf]
    exact hc.mem_eq.trans hmem
  · have hphys : physPages ({ pt' with pte := fun v => if v = A * PGSIZE / PGSIZE then PA2PTE pa ||| PTE_FLAGS (old.pte A) ||| PTE_V else pt'.pte v }.vm k') 0 (A + 1) =
        (new.vm k).physPages 0 A ++ [pa] := by
      unfold physPages
      rw [List.range'_1_concat, List.map_append, List.map_singleton, Nat.zero_add]
      refine congrArg₂ (· ++ ·) (List.map_congr_left fun v hv => ?_) ?_
      · rw [List.mem_range'_1] at hv
        show (PTE2PA (if v = A * PGSIZE / PGSIZE then _ else pt'.pte v)).toNat = _
        rw [hpte, if_neg (by omega)]
        rfl
      · show [(PTE2PA (if A = A * PGSIZE / PGSIZE then _ else pt'.pte A)).toNat] = _
        rw [hpte, if_pos rfl, hpaX]
    show pt'.tablePages + _ = _
    rw [hphys, hc.take_succ hf, hpages, ← Multiset.coe_add, ← Multiset.coe_add, Multiset.coe_singleton,
      ← Multiset.cons_coe pa (rest.take n)]
    calc new.tablePages + ↑(rest.take n) + (↑((new.vm k).physPages 0 A) + {pa})
        = (new.tablePages + ↑((new.vm k).physPages 0 A)) + (pa ::ₘ ↑(rest.take n)) := by
          rw [← Multiset.singleton_add]
          abel
      _ = new₀.tablePages + (↑(k₀.freelist.take m) + pa ::ₘ ↑(rest.take n)) := by rw [hc.pages, add_assoc]

/-- **A round whose `walk` ran out**: `kfree` takes the page back, and what
is left to undo is what the earlier rounds mapped. -/
theorem Copied.undo_of_full (hA : A < npages sz) {pt' : Ptab} {k' : Kmem} {n : Nat}
    (hgs : Grows (new.vm { k with freelist := rest, mem := memmove (fill k.mem pa 5) pa (PTE2PA (old.pte A)).toNat PGSIZE })
      (pt'.vm k') n)
    (ho' : pt'.Ok) (hroot : pt'.root = new.root) (hpages : pt'.tablePages = new.tablePages + ↑(rest.take n))
    (hnil : k'.freelist = []) :
    ∃ k'', k'.kfree pa = .ok k'' ∧ Uncopied new₀ k₀ pt' k'' A := by
  have hu := hc.undo
  obtain ⟨hmem, -⟩ := hc.round_mem hf hA hgs
  have hkend : k'.kend = k.kend := hgs.kend_eq
  have hpa := hc.head_page hf pa List.mem_cons_self
  have hpte : pt'.pte = new.pte := hgs.pte_eq
  have hrest : rest.take n = rest := List.take_of_length_le (List.drop_eq_nil_iff.1 (hgs.free_eq.symm.trans hnil))
  have hphys : (pt'.vm k').physPages 0 A = (new.vm k).physPages 0 A := by
    unfold physPages
    rw [vm_pte, vm_pte, hpte]
  refine ⟨_, Kmem.kfree_of_isPage (hkend.trans hc.kend_eq ▸ hpa), ⟨hu.lt, hu.fresh, ho', hroot.trans hc.root_eq,
    hkend.trans hc.kend_eq, fun v hv => hpte ▸ hu.pte_out v hv, fun v hv => ?_, fun v hv => hpte ▸ hu.data v hv, ?_, ?_⟩⟩
  · rw [hpte, show k'.kend = k.kend from hkend]
    exact hu.leaf v hv
  · show pt'.tablePages + ↑((pt'.vm k').physPages 0 A) + ↑(pa :: k'.freelist) = _
    rw [hphys, hnil, hpages, hrest, ← hu.pages, hf, ← Multiset.cons_coe, ← Multiset.cons_coe, Multiset.coe_nil]
    rw [← Multiset.singleton_add, ← Multiset.singleton_add pa ↑rest]
    abel
  · -- every byte written lies in a page of the free list `k₀` had
    have hsub : ∀ q ∈ pa :: rest, q ∈ k₀.freelist := fun q hq => List.mem_of_mem_drop ((hc.drop_eq hf).symm ▸ hq)
    refine ((hu.mem_eq.trans hmem).trans (SameOutside.fill _ _ _)).mono fun q hq => ?_
    simp only [List.mem_append, List.mem_cons, List.not_mem_nil, or_false] at hq
    rcases hq with (hq | rfl | hq) | rfl
    · exact hq
    · exact hsub _ List.mem_cons_self
    · exact hsub q (List.mem_cons_of_mem _ (List.mem_of_mem_take hq))
    · exact hsub _ List.mem_cons_self

end Step

/-- **One round of `uvmcopy`** at page `A`: it copies the page and goes on,
or it ran out of pages and goes to undo what it copied. -/
theorem uvmcopyLoop_round (hc : Copied old sz new₀ k₀ new k A m) (hA : A < npages sz) :
    (∃ new' k' n, uvmcopyLoop old sz new k (A * PGSIZE) = uvmcopyLoop old sz new' k' ((A + 1) * PGSIZE) ∧
        Copied old sz new₀ k₀ new' k' (A + 1) (m + 1 + n)) ∨
      (∃ new' k', uvmcopyLoop old sz new k (A * PGSIZE) = uvmcopyErr new' k' (A * PGSIZE) ∧ Uncopied new₀ k₀ new' k' A) := by
  have hlt : A * PGSIZE < sz := by
    unfold npages at hA
    unfold PGSIZE at hA ⊢
    omega
  have ha : A * PGSIZE < MAXVA.toNat := by
    have := npages_le_of_good hc.start
    rw [toNat_MAXVA]
    unfold PHYSTOP KERNBASE PGSIZE at *
    omega
  obtain ⟨hV, -⟩ : old.pte A &&& PTE_V ≠ 0 ∧ PTE_FLAGS (old.pte A) ≠ PTE_V := hc.start.leaf A hA
  -- the parent's page is found without allocating
  obtain ⟨h1, h0⟩ := tables_of_pte (s := old.vm k₀) hc.start.toTablesOk (v := A) fun h => hV (by rw [show old.pte A = 0 from h]; decide)
  have hw := walk_of_valid (k := k) ha h1 h0 false
  have hv : old.pte (A * PGSIZE / PGSIZE) &&& PTE_V ≠ 0 := by rw [page_div]; exact hV
  cases hf : k.freelist with
  | nil => exact .inr ⟨new, k, uvmcopyLoop_nil hlt hw hv hf, hc.undo⟩
  | cons pa rest =>
    have hz : new.pte (A * PGSIZE / PGSIZE) = 0 := by
      rw [page_div, hc.pte_out A le_rfl]
      exact hc.fresh A hA
    obtain ⟨pt', k', n, hg, -, ho', hroot, hpages, ⟨hm, hl0⟩ | ⟨hm, hnil, -⟩⟩ :=
      mappages_page (k := { k with freelist := rest, mem := memmove (fill k.mem pa 5) pa (PTE2PA (old.pte A)).toNat PGSIZE })
        hc.ok ha (Nat.mul_mod_left A PGSIZE) hz pa (PTE_FLAGS (old.pte A))
    · refine .inl ⟨_, k', n, ?_, hc.map_page hf hA hg ho' hroot hpages hl0⟩
      rw [uvmcopyLoop_mapped hlt hw hv hf (by rw [page_div]; exact hm), Nat.succ_mul]
    · obtain ⟨k'', hkf, hu⟩ := hc.undo_of_full hf hA hg ho' hroot hpages hnil
      exact .inr ⟨pt', k'', uvmcopyLoop_unmapped hlt hw hv hf (by rw [page_div]; exact hm) (by decide) hkf, hu⟩

/-- **`uvmcopy`'s loop** from page `A` on: it copies every page, or it ran
out of pages, undid its work and returns `-1`. -/
theorem uvmcopyLoop_spec (r : Nat) :
    ∀ (new : Ptab) (k : Kmem) (A m : Nat), npages sz - A = r → Copied old sz new₀ k₀ new k A m →
      (∃ new' k' m', uvmcopyLoop old sz new k (A * PGSIZE) = .ok (0, new', k') ∧
          Copied old sz new₀ k₀ new' k' (npages sz) m') ∨
        (∃ new' k', uvmcopyLoop old sz new k (A * PGSIZE) = .ok (-1, new', k') ∧ CopyFailed new₀ k₀ new' k') := by
  induction r with
  | zero =>
    intro new k A m hr hc
    have hA : A = npages sz := by
      have := hc.le
      omega
    subst hA
    refine .inl ⟨new, k, m, uvmcopyLoop_done ?_, hc⟩
    unfold npages PGSIZE
    omega
  | succ r ih =>
    intro new k A m hr hc
    rcases uvmcopyLoop_round hc (by omega) with ⟨new', k', n, he, hc'⟩ | ⟨new', k', he, hu⟩
    · rw [he]
      exact ih new' k' (A + 1) (m + 1 + n) (by omega) hc'
    · obtain ⟨new'', k'', hr', hfail⟩ := hu.err
      exact .inr ⟨new'', k'', he.trans hr', hfail⟩

/-- **`uvmcopy(old, new, sz)`** into a table with no page below `sz`. -/
theorem uvmcopy_spec (hg : (old.vm k₀).Good sz) (hfresh : ∀ v < npages sz, new₀.pte v = 0) (ho : new₀.Ok) :
    (∃ new k m, uvmcopy old new₀ k₀ sz = .ok (0, new, k) ∧ Copied old sz new₀ k₀ new k (npages sz) m) ∨
      (∃ new k, uvmcopy old new₀ k₀ sz = .ok (-1, new, k) ∧ CopyFailed new₀ k₀ new k) := by
  have h := uvmcopyLoop_spec (npages sz) new₀ k₀ 0 0 (Nat.sub_zero _) (Copied.start_self hg hfresh ho)
  rw [Nat.zero_mul] at h
  exact h

end Copy

end Ptab

end Xv6
