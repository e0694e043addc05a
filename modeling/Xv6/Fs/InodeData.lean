import Xv6.Fs.Inode

/-!
# What an inode holds, and what `bmap` keeps of it

An inode holds `NSLOT` block addresses (`Disk.slot`): its `addrs`, then the
entries of its indirect block. File block `bn` is in the slot `slotOf bn`
(`Disk.blockOf`), and the file is the byte string of `ip.size` bytes read
through it (`Disk.content`).

What every allocation relies on is split in two: the layout of the disk
(`Layout`: the blocks before `nmeta` are marked in use, and the free map lies
among them) and the slots of an inode (`Slots`: the blocks it holds are
distinct, in use, and past `nmeta`). From these `bmap` keeps every block the
inode holds and the data in it, fills at most two empty slots with blocks that
were free, and logs every block it changes (`bmap_spec`).
-/

namespace Xv6

open Framework

/-- Slots of an inode: `NDIRECT` direct blocks, the indirect block, and the
`NINDIRECT` entries of the indirect block. -/
def NSLOT : Nat := NDIRECT + 1 + NINDIRECT

/-- The slot that holds file block `bn`. -/
def slotOf (bn : Nat) : Nat := if bn < NDIRECT then bn else bn + 1

namespace Disk

/-- The block address in slot `i` of an inode: `addrs[i]` for `i ≤ NDIRECT`,
then entry `i - NDIRECT - 1` of the indirect block, 0 without one. -/
def slot (d : Disk) (ip : Dinode) (i : Nat) : Nat :=
  if i ≤ NDIRECT then ip.addrs i
  else if ip.addrs NDIRECT = 0 then 0
  else wordAt 4 (d.data (ip.addrs NDIRECT)) (i - (NDIRECT + 1))

/-- The block holding file block `bn`, as `bmap` finds it without allocating;
0 for none. -/
def blockOf (d : Disk) (ip : Dinode) (bn : Nat) : Nat := d.slot ip (slotOf bn)

/-- Byte `x` of the file. -/
def byteAt (d : Disk) (ip : Dinode) (x : Nat) : UInt8 := d.data (d.blockOf ip (x / BSIZE)) (x % BSIZE)

/-- The file: its `ip.size` bytes. -/
def content (d : Disk) (ip : Dinode) : List UInt8 := (List.range ip.size).map (d.byteAt ip)

/-- The blocks an inode holds. -/
def refs (d : Disk) (ip : Dinode) : List Nat := ((List.range NSLOT).map (d.slot ip)).filter (· ≠ 0)

end Disk

/-- Every block written to since `d` is logged, and so is every block logged
before. -/
def Logs (d d' : Disk) : Prop := (∀ b ∈ d.lh, b ∈ d'.lh) ∧ ∀ b, d'.data b ≠ d.data b → b ∈ d'.lh

/-- The layout of the file system: blocks before `nmeta` (the boot block, the
superblock, the log, the inode blocks and the free map) are marked in use,
and the free-map block of every block is among them. -/
structure Layout (sb : Superblock) (nmeta : Nat) (d : Disk) : Prop where
  nmeta_pos : 0 < nmeta
  nmeta_le : nmeta ≤ sb.size
  size_le : sb.size ≤ 2 ^ 32
  bblock_lt : ∀ x < sb.size, BBLOCK x sb < nmeta
  meta_used : ∀ x < nmeta, d.isFree sb x = false

/-- The blocks an inode holds are distinct, in use, and data blocks. -/
structure Slots (sb : Superblock) (nmeta : Nat) (d : Disk) (ip : Dinode) : Prop where
  inj : ∀ i < NSLOT, ∀ j < NSLOT, d.slot ip i = d.slot ip j → d.slot ip i ≠ 0 → i = j
  used : ∀ i < NSLOT, d.slot ip i ≠ 0 →
    nmeta ≤ d.slot ip i ∧ d.slot ip i < sb.size ∧ d.isFree sb (d.slot ip i) = false

/-- Every file block that starts below `L` has a block. -/
def Mapped (d : Disk) (ip : Dinode) (L : Nat) : Prop := ∀ bn, bn * BSIZE < L → d.blockOf ip bn ≠ 0

/-- A well-formed inode: its slots, its size within `MAXFILE` blocks, and a
block for every file block of its content. -/
structure InodeOK (sb : Superblock) (nmeta : Nat) (d : Disk) (ip : Dinode) : Prop extends Slots sb nmeta d ip where
  size_le : ip.size ≤ MAXFILE * BSIZE
  mapped : Mapped d ip ip.size

/-! ## Logging -/

section Logging

variable {d d₁ d₂ : Disk}

theorem Logs.refl (d : Disk) : Logs d d := ⟨fun _ h => h, fun _ h => absurd rfl h⟩

theorem Logs.trans (h₁ : Logs d d₁) (h₂ : Logs d₁ d₂) : Logs d d₂ := by
  refine ⟨fun b hb => h₂.1 b (h₁.1 b hb), fun b hb => ?_⟩
  by_cases h : d₁.data b = d.data b
  · exact h₂.2 b (h ▸ hb)
  · exact h₂.1 b (h₁.2 b h)

/-- A change to one block that logs it. -/
theorem logs_of_one {b : Nat} (hlh : ∀ x ∈ d.lh, x ∈ d₁.lh) (hb : b ∈ d₁.lh)
    (hdata : ∀ x, x ≠ b → d₁.data x = d.data x) : Logs d d₁ :=
  ⟨hlh, fun x hx => by
    by_cases h : x = b
    · exact h ▸ hb
    · exact absurd (hdata x h) hx⟩

theorem logs_logWrite (d : Disk) (b : Nat) : Logs d (d.logWrite b) :=
  logs_of_one (fun _ hx => Disk.mem_logWrite_lh.mpr (.inl hx)) (Disk.mem_logWrite_lh.mpr (.inr rfl))
    fun _ _ => rfl

theorem logs_bzero (d : Disk) (b : Nat) : Logs d (d.bzero b) :=
  logs_of_one (fun _ hx => Disk.mem_bzero_lh.mpr (.inl hx)) (Disk.mem_bzero_lh.mpr (.inr rfl))
    fun _ h => Disk.bzero_data_of_ne h

theorem logs_setWord (d : Disk) (b j v : Nat) : Logs d ((d.setWord b j v).logWrite b) :=
  logs_of_one (fun _ hx => Disk.mem_logWrite_lh.mpr (.inl hx)) (Disk.mem_logWrite_lh.mpr (.inr rfl))
    fun _ h => Disk.setWord_data_of_ne h

theorem logs_writeBytes (d : Disk) (b o : Nat) (bs : List UInt8) : Logs d ((d.writeBytes b o bs).logWrite b) :=
  logs_of_one (fun _ hx => Disk.mem_logWrite_lh.mpr (.inl hx)) (Disk.mem_logWrite_lh.mpr (.inr rfl))
    fun _ h => Disk.writeBytes_data_of_ne h

theorem logs_iupdate (sb : Superblock) (d : Disk) (ip : Inode) : Logs d (iupdate sb d ip) :=
  logs_of_one (fun _ hx => Disk.mem_logWrite_lh.mpr (.inl hx)) (Disk.mem_logWrite_lh.mpr (.inr rfl))
    fun _ _ => rfl

theorem logs_markInUse (sb : Superblock) (d : Disk) (b : Nat) :
    Logs d ((d.markInUse sb b).logWrite (BBLOCK b sb)) :=
  logs_of_one (fun _ hx => Disk.mem_logWrite_lh.mpr (.inl hx)) (Disk.mem_logWrite_lh.mpr (.inr rfl))
    fun _ h => Disk.markInUse_data_of_ne h

end Logging

/-! ## The free map -/

section FreeMap

variable {sb : Superblock} {nmeta : Nat} {d d' : Disk}

/-- A block that is in use is not before `nmeta` only if it is past it. -/
theorem Layout.le_of_isFree (hL : Layout sb nmeta d) {x : Nat} (hx : d.isFree sb x = true) : nmeta ≤ x :=
  Nat.le_of_not_lt fun h => by simp [hL.meta_used x h] at hx

/-- Changes past the metadata keep the free map. -/
theorem Layout.isFree_of_data (hL : Layout sb nmeta d) (h : ∀ z < nmeta, d'.data z = d.data z) {y : Nat}
    (hy : y < sb.size) : d'.isFree sb y = d.isFree sb y :=
  Disk.isFree_congr (h _ (hL.bblock_lt y hy))

theorem Layout.of_data (hL : Layout sb nmeta d) (h : ∀ z < nmeta, d'.data z = d.data z) : Layout sb nmeta d' := by
  refine { hL with meta_used := fun x hx => ?_ }
  rw [hL.isFree_of_data h (by have := hL.nmeta_le; omega), hL.meta_used x hx]

/-- What `balloc` changes: the free-map block of the block it returns, and
that block. -/
theorem balloc_data_of_ne {a x : Nat} (h : balloc sb d = .ok (a, d')) (hx : x ≠ a) (hb : x ≠ BBLOCK a sb) :
    d'.data x = d.data x := by
  obtain ⟨-, -, rfl⟩ := balloc_ok h
  rw [Disk.bzero_data_of_ne hx, Disk.logWrite_data, Disk.markInUse_data_of_ne hb]

theorem balloc_data_self {a : Nat} (h : balloc sb d = .ok (a, d')) : d'.data a = fun _ => 0 := by
  obtain ⟨-, -, rfl⟩ := balloc_ok h
  exact Disk.bzero_data_self

theorem balloc_dinodes {a : Nat} (h : balloc sb d = .ok (a, d')) : d'.dinodes = d.dinodes := by
  obtain ⟨-, -, rfl⟩ := balloc_ok h
  rfl

theorem balloc_logs {a : Nat} (h : balloc sb d = .ok (a, d')) : Logs d d' := by
  obtain ⟨-, -, rfl⟩ := balloc_ok h
  exact (logs_markInUse sb d a).trans (logs_bzero _ a)

/-- `balloc` returns a free block past the metadata, and marks it in use and
no other. -/
theorem Layout.balloc_fresh (hL : Layout sb nmeta d) {a : Nat} (h : balloc sb d = .ok (a, d')) :
    nmeta ≤ a ∧ a < sb.size ∧ d.isFree sb a = true ∧ Layout sb nmeta d' ∧
      ∀ y < sb.size, d'.isFree sb y = (d.isFree sb y && y != a) := by
  obtain ⟨ha, hfree, -⟩ := balloc_ok h
  have hmeta := hL.le_of_isFree hfree
  have hbit : ∀ y < sb.size, d'.isFree sb y = (d.isFree sb y && y != a) := fun y hy => by
    have hne : BBLOCK y sb ≠ a := by have := hL.bblock_lt y hy; omega
    obtain ⟨-, -, rfl⟩ := balloc_ok h
    rw [Disk.isFree_congr (Disk.bzero_data_of_ne hne), Disk.isFree_logWrite, Disk.isFree_markInUse]
  refine ⟨hmeta, ha, hfree, { hL with meta_used := fun x hx => ?_ }, hbit⟩
  rw [hbit x (by have := hL.nmeta_le; omega), hL.meta_used x hx, Bool.false_and]

/-- `balloc` keeps the data of every block in use past the metadata. -/
theorem Layout.balloc_data (hL : Layout sb nmeta d) {a x : Nat} (h : balloc sb d = .ok (a, d'))
    (hx : d.isFree sb x = false) (hmeta : nmeta ≤ x) : d'.data x = d.data x := by
  obtain ⟨ha, hfree, -⟩ := balloc_ok h
  refine balloc_data_of_ne h (fun e => by simp [e, hfree] at hx) fun e => ?_
  have := hL.bblock_lt a ha
  omega

end FreeMap

/-! ## Slots -/

section SlotLemmas

variable {d d' : Disk} {ip : Dinode}

@[simp] theorem slotOf_lt_NSLOT {bn : Nat} (h : bn < MAXFILE) : slotOf bn < NSLOT := by
  simp only [slotOf, NSLOT, MAXFILE] at h ⊢
  split <;> omega

theorem slotOf_ne_NDIRECT (bn : Nat) : slotOf bn ≠ NDIRECT := by
  simp only [slotOf]
  split <;> omega

@[simp] theorem Inode.setAddr_toDinode (ip : Inode) (i a : Nat) :
    (ip.setAddr i a).toDinode = { ip.toDinode with addrs := Function.update ip.addrs i a } := rfl

theorem Disk.slot_of_le {i : Nat} (hi : i ≤ NDIRECT) : d.slot ip i = ip.addrs i := if_pos hi

@[simp] theorem Disk.slot_logWrite (b : Nat) : (d.logWrite b).slot ip = d.slot ip := rfl

/-- The slots read the addresses and the data only. -/
theorem Disk.slot_eq {ip' : Dinode} (hdata : d'.data = d.data) (haddrs : ip'.addrs = ip.addrs) :
    d'.slot ip' = d.slot ip := by
  funext i
  simp only [Disk.slot, hdata, haddrs]

theorem Disk.byteAt_eq {ip' : Dinode} (hdata : d'.data = d.data) (haddrs : ip'.addrs = ip.addrs) :
    d'.byteAt ip' = d.byteAt ip := by
  funext x
  simp only [Disk.byteAt, Disk.blockOf, Disk.slot_eq hdata haddrs, hdata]

/-- The slots read the data of the indirect block only. -/
theorem Disk.slot_congr (h : ip.addrs NDIRECT ≠ 0 → d'.data (ip.addrs NDIRECT) = d.data (ip.addrs NDIRECT)) :
    d'.slot ip = d.slot ip := by
  funext i
  simp only [Disk.slot]
  split_ifs with h₁ h₂
  · rfl
  · rfl
  · rw [h h₂]

/-- Setting a direct address sets its slot. -/
theorem Disk.slot_setAddr_direct {k : Nat} (hk : k < NDIRECT) (a i : Nat) :
    d.slot { ip with addrs := Function.update ip.addrs k a } i = if i = k then a else d.slot ip i := by
  have hN : NDIRECT ≠ k := by omega
  simp only [Disk.slot, Function.update_of_ne hN]
  by_cases hi : i = k
  · subst hi; simp [Nat.le_of_lt hk]
  · simp [hi]

/-- A zeroed block made the indirect block of an inode without one fills its
slot and no entry. -/
theorem Disk.slot_setAddr_indirect (h₀ : ip.addrs NDIRECT = 0) {a : Nat} (hz : d.data a = fun _ => 0) (i : Nat) :
    d.slot { ip with addrs := Function.update ip.addrs NDIRECT a } i = if i = NDIRECT then a else d.slot ip i := by
  simp only [Disk.slot, Function.update_self, h₀, hz, wordAt_zero]
  by_cases hi : i = NDIRECT
  · simp [hi]
  · rw [if_neg hi]
    split_ifs <;> simp_all

/-- Storing an entry of the indirect block sets its slot. -/
theorem Disk.slot_setWord {ind : Nat} (hind : ip.addrs NDIRECT = ind) (h₀ : ind ≠ 0) (j v i : Nat) :
    (d.setWord ind j v).slot ip i = if i = NDIRECT + 1 + j then v % 2 ^ 32 else d.slot ip i := by
  simp only [Disk.slot, hind, h₀, if_false, Disk.setWord_data_self]
  by_cases hi : i = NDIRECT + 1 + j
  · subst hi
    rw [if_neg (by omega), if_pos rfl, show NDIRECT + 1 + j - (NDIRECT + 1) = j by omega, wordAt_setWord_self]
    norm_num
  · rw [if_neg hi]
    split_ifs with h₁
    · rfl
    · exact wordAt_setWord_of_ne _ _ (by omega)

end SlotLemmas

section Fill

variable {sb : Superblock} {nmeta : Nat} {d d' : Disk} {ip ip' : Dinode}

/-- Filling a slot with a block that was free, and is now the only one newly
in use, keeps the slots distinct and in use. -/
theorem Slots.fill (hS : Slots sb nmeta d ip) {k a : Nat}
    (hslot : ∀ i < NSLOT, d'.slot ip' i = if i = k then a else d.slot ip i)
    (ha : nmeta ≤ a ∧ a < sb.size ∧ d.isFree sb a = true) (ha₀ : a ≠ 0)
    (hfree : ∀ y < sb.size, d'.isFree sb y = (d.isFree sb y && y != a)) : Slots sb nmeta d' ip' := by
  -- an old block is in use, so it is not the new one
  have hold : ∀ i < NSLOT, d.slot ip i ≠ 0 → d.slot ip i ≠ a := fun i hi h e => by
    have := (hS.used i hi h).2.2
    rw [e, ha.2.2] at this
    cases this
  constructor
  · intro i hi j hj e h
    rw [hslot i hi, hslot j hj] at e
    rw [hslot i hi] at h
    by_cases hik : i = k <;> by_cases hjk : j = k
    · exact hik.trans hjk.symm
    · simp only [hik, hjk, if_true, if_false] at e
      exact absurd e.symm (hold j hj (e ▸ ha₀))
    · simp only [hik, hjk, if_true, if_false] at e h
      exact absurd e (hold i hi h)
    · simp only [hik, hjk, if_false] at e h
      exact hS.inj i hi j hj e h
  · intro i hi h
    rw [hslot i hi] at h ⊢
    by_cases hik : i = k
    · simp only [hik, if_true]
      refine ⟨ha.1, ha.2.1, ?_⟩
      simp [hfree a ha.2.1]
    · simp only [hik, if_false] at h ⊢
      obtain ⟨h₁, h₂, h₃⟩ := hS.used i hi h
      exact ⟨h₁, h₂, by simp [hfree _ h₂, h₃]⟩

/-- What a step on an inode keeps from `(d, ip)` to `(d', ip')`: the inode's
other fields, the disk inodes, the layout and well-formed slots; and it logs
every block it changes. -/
structure Preserves (sb : Superblock) (nmeta : Nat) (d : Disk) (ip : Inode) (d' : Disk) (ip' : Inode) : Prop where
  type_eq : ip'.type = ip.type
  size_eq : ip'.size = ip.size
  inum_eq : ip'.inum = ip.inum
  dinodes : d'.dinodes = d.dinodes
  layout : Layout sb nmeta d'
  slots : Slots sb nmeta d' ip'.toDinode
  logs : Logs d d'

/-- What `bmap` keeps besides: every block the inode held stays in its slot
and, but for the indirect block, keeps its data. -/
structure Keeps (sb : Superblock) (nmeta : Nat) (d : Disk) (ip : Inode) (d' : Disk) (ip' : Inode) : Prop
    extends Preserves sb nmeta d ip d' ip' where
  slot_keep : ∀ i < NSLOT, d.slot ip.toDinode i ≠ 0 → d'.slot ip'.toDinode i = d.slot ip.toDinode i
  data_keep : ∀ i < NSLOT, i ≠ NDIRECT → d.slot ip.toDinode i ≠ 0 →
    d'.data (d.slot ip.toDinode i) = d.data (d.slot ip.toDinode i)

variable {ip ip' ip₁ ip₂ : Inode} {d₁ d₂ : Disk}

theorem Preserves.trans (h₁ : Preserves sb nmeta d ip d₁ ip₁) (h₂ : Preserves sb nmeta d₁ ip₁ d₂ ip₂) :
    Preserves sb nmeta d ip d₂ ip₂ :=
  ⟨h₂.type_eq.trans h₁.type_eq, h₂.size_eq.trans h₁.size_eq, h₂.inum_eq.trans h₁.inum_eq,
    h₂.dinodes.trans h₁.dinodes, h₂.layout, h₂.slots, h₁.logs.trans h₂.logs⟩

theorem Preserves.refl (hL : Layout sb nmeta d) (hS : Slots sb nmeta d ip.toDinode) : Preserves sb nmeta d ip d ip :=
  ⟨rfl, rfl, rfl, rfl, hL, hS, Logs.refl d⟩

theorem Keeps.refl (hL : Layout sb nmeta d) (hS : Slots sb nmeta d ip.toDinode) : Keeps sb nmeta d ip d ip :=
  ⟨Preserves.refl hL hS, fun _ _ _ => rfl, fun _ _ _ _ => rfl⟩

theorem Keeps.trans (h₁ : Keeps sb nmeta d ip d₁ ip₁) (h₂ : Keeps sb nmeta d₁ ip₁ d₂ ip₂) :
    Keeps sb nmeta d ip d₂ ip₂ where
  toPreserves := h₁.toPreserves.trans h₂.toPreserves
  slot_keep i hi h := by
    have e := h₁.slot_keep i hi h
    rw [h₂.slot_keep i hi (e ▸ h), e]
  data_keep i hi hN h := by
    have e := h₁.slot_keep i hi h
    rw [← e, h₂.data_keep i hi hN (e ▸ h), e, h₁.data_keep i hi hN h]

/-- One allocation: `balloc` returns `a` for the empty slot `k`, and what
follows changes no block in use but the indirect block. -/
theorem Keeps.fill (hL : Layout sb nmeta d) (hS : Slots sb nmeta d ip.toDinode) {a k : Nat}
    (hb : balloc sb d = .ok (a, d₁)) (hk : d.slot ip.toDinode k = 0)
    (hip : ip'.type = ip.type ∧ ip'.size = ip.size ∧ ip'.inum = ip.inum)
    (hslot : ∀ i < NSLOT, d'.slot ip'.toDinode i = if i = k then a else d.slot ip.toDinode i)
    (hmeta : ∀ z < nmeta, d'.data z = d₁.data z)
    (hdata : ∀ i < NSLOT, i ≠ NDIRECT → d.slot ip.toDinode i ≠ 0 →
      d'.data (d.slot ip.toDinode i) = d₁.data (d.slot ip.toDinode i))
    (hlogs : Logs d₁ d') (hdin : d'.dinodes = d₁.dinodes) : Keeps sb nmeta d ip d' ip' := by
  obtain ⟨ha₁, ha₂, ha₃, hL₁, hbit⟩ := hL.balloc_fresh hb
  have ha₀ : a ≠ 0 := by have := hL.nmeta_pos; omega
  refine ⟨⟨hip.1, hip.2.1, hip.2.2, hdin.trans (balloc_dinodes hb), hL₁.of_data hmeta,
    hS.fill hslot ⟨ha₁, ha₂, ha₃⟩ ha₀ fun y hy => by rw [hL₁.isFree_of_data hmeta hy, hbit y hy],
    (balloc_logs hb).trans hlogs⟩, fun i hi h => ?_, fun i hi hN h => ?_⟩
  · have hik : i ≠ k := fun e => h (e ▸ hk)
    rw [hslot i hi, if_neg hik]
  · obtain ⟨hm, -, hu⟩ := hS.used i hi h
    rw [hdata i hi hN h, hL.balloc_data hb hu hm]

/-- `balloc` keeps the slots of an inode whose slots are well formed. -/
theorem Slots.balloc_slot {ip : Dinode} (hL : Layout sb nmeta d) (hS : Slots sb nmeta d ip) {a : Nat}
    (hb : balloc sb d = .ok (a, d₁)) : d₁.slot ip = d.slot ip :=
  Disk.slot_congr fun h => by
    have hN : NDIRECT < NSLOT := by decide
    rw [← Disk.slot_of_le (d := d) le_rfl] at h ⊢
    obtain ⟨hm, -, hu⟩ := hS.used NDIRECT hN h
    exact hL.balloc_data hb hu hm

/-- Allocating entry `j` of an existing indirect block: the new block fills
its slot. -/
theorem Keeps.entry (hL : Layout sb nmeta d) (hS : Slots sb nmeta d ip.toDinode) {j a : Nat} (hj : j < NINDIRECT)
    (h₀ : ip.addrs NDIRECT ≠ 0) (he : wordAt 4 (d.data (ip.addrs NDIRECT)) j = 0) (hb : balloc sb d = .ok (a, d₁)) :
    Keeps sb nmeta d ip ((d₁.setWord (ip.addrs NDIRECT) j a).logWrite (ip.addrs NDIRECT)) ip ∧
      ((d₁.setWord (ip.addrs NDIRECT) j a).logWrite (ip.addrs NDIRECT)).slot ip.toDinode (NDIRECT + 1 + j) = a := by
  have hN : NDIRECT < NSLOT := by decide
  have hind : d.slot ip.toDinode NDIRECT = ip.addrs NDIRECT := Disk.slot_of_le le_rfl
  obtain ⟨hm, -, -⟩ := hS.used NDIRECT hN (hind ▸ h₀)
  obtain ⟨-, ha, -⟩ := hL.balloc_fresh hb
  have ha' : a % 2 ^ 32 = a := Nat.mod_eq_of_lt (by have := hL.size_le; omega)
  have hslot : ∀ i < NSLOT, ((d₁.setWord (ip.addrs NDIRECT) j a).logWrite (ip.addrs NDIRECT)).slot ip.toDinode i =
      if i = NDIRECT + 1 + j then a else d.slot ip.toDinode i := fun i _ => by
    rw [Disk.slot_logWrite, Disk.slot_setWord rfl h₀, hS.balloc_slot hL hb, ha']
  have hk : d.slot ip.toDinode (NDIRECT + 1 + j) = 0 := by
    simp only [Disk.slot, if_neg (show ¬NDIRECT + 1 + j ≤ NDIRECT by omega), if_neg h₀,
      show NDIRECT + 1 + j - (NDIRECT + 1) = j by omega, he]
  refine ⟨Keeps.fill hL hS hb hk ⟨rfl, rfl, rfl⟩ hslot (fun z hz => Disk.setWord_data_of_ne (by omega))
    (fun i hi hiN h => Disk.setWord_data_of_ne fun e => hiN (hS.inj i hi NDIRECT hN (e.trans hind.symm) h))
    (logs_setWord _ _ _ _) rfl, ?_⟩
  rw [hslot _ (by simp only [NSLOT]; omega), if_pos rfl]

/-- **What `bmap` does** to an inode whose slots are well formed: it returns
the block in the slot of `bn`, none of them 0, having filled that slot (and,
past `NDIRECT`, the indirect block's) with a block that was free if it was
empty, and keeping the rest. -/
theorem bmap_spec (hL : Layout sb nmeta d) (hS : Slots sb nmeta d ip.toDinode) {bn b : Nat} (hbn : bn < MAXFILE)
    (h : bmap sb d ip bn = .ok (b, ip', d')) : Keeps sb nmeta d ip d' ip' ∧ d'.blockOf ip'.toDinode bn = b ∧ b ≠ 0 := by
  have hpos := hL.nmeta_pos
  unfold bmap at h
  by_cases hd : bn < NDIRECT
  · have hs : slotOf bn = bn := if_pos hd
    rw [if_pos hd] at h
    by_cases h0 : ip.addrs bn = 0
    · -- a direct block is allocated
      rw [if_pos h0] at h
      cases hb : balloc sb d with
      | error e => simp [hb, bind, Except.bind] at h
      | ok r =>
        obtain ⟨a, d₁⟩ := r
        simp only [hb, bind, Except.bind, Except.ok.injEq, Prod.mk.injEq] at h
        obtain ⟨rfl, rfl, rfl⟩ := h
        have hslot : ∀ i < NSLOT, d₁.slot (ip.setAddr bn a).toDinode i = if i = bn then a else d.slot ip.toDinode i :=
          fun i _ => by rw [Inode.setAddr_toDinode, Disk.slot_setAddr_direct hd, hS.balloc_slot hL hb]
        have hk : d.slot ip.toDinode bn = 0 := by rw [Disk.slot_of_le (by omega)]; exact h0
        refine ⟨Keeps.fill hL hS hb hk ⟨rfl, rfl, rfl⟩ hslot (fun _ _ => rfl) (fun _ _ _ _ => rfl) (Logs.refl _) rfl,
          ?_, ?_⟩
        · rw [Disk.blockOf, hs, hslot bn (by simp [NSLOT]; omega), if_pos rfl]
        · have := (hL.balloc_fresh hb).1; omega
    · rw [if_neg h0] at h
      cases h
      refine ⟨Keeps.refl hL hS, ?_, h0⟩
      rw [Disk.blockOf, hs, Disk.slot_of_le (by omega)]
  · have hj : bn - NDIRECT < NINDIRECT := by simp only [MAXFILE] at hbn; omega
    have hs : slotOf bn = NDIRECT + 1 + (bn - NDIRECT) := by simp only [slotOf, if_neg hd]; omega
    have hsN : NDIRECT + 1 + (bn - NDIRECT) < NSLOT := by simp only [NSLOT]; omega
    rw [if_neg hd, if_pos hj] at h
    by_cases h0 : ip.addrs NDIRECT = 0
    · rw [if_pos h0] at h
      cases hb : balloc sb d with
      | error e => simp [hb, bind, Except.bind] at h
      | ok r =>
        obtain ⟨a, d₁⟩ := r
        simp only [hb, bind, Except.bind, pure, Except.pure] at h
        -- the new indirect block is zeroed, so the entry is allocated too
        have hz := balloc_data_self hb
        rw [hz, wordAt_zero, if_pos rfl] at h
        cases hb₂ : balloc sb d₁ with
        | error e => simp [hb₂] at h
        | ok r =>
          obtain ⟨a₂, d₂⟩ := r
          simp only [hb₂, Except.ok.injEq, Prod.mk.injEq] at h
          obtain ⟨rfl, rfl, rfl⟩ := h
          have hslot : ∀ i < NSLOT, d₁.slot (ip.setAddr NDIRECT a).toDinode i =
              if i = NDIRECT then a else d.slot ip.toDinode i := fun i _ => by
            rw [Inode.setAddr_toDinode, Disk.slot_setAddr_indirect h0 hz, hS.balloc_slot hL hb]
          have hk : d.slot ip.toDinode NDIRECT = 0 := by rw [Disk.slot_of_le le_rfl]; exact h0
          have K₁ : Keeps sb nmeta d ip d₁ (ip.setAddr NDIRECT a) :=
            Keeps.fill hL hS hb hk ⟨rfl, rfl, rfl⟩ hslot (fun _ _ => rfl) (fun _ _ _ _ => rfl) (Logs.refl _) rfl
          have hind : (ip.setAddr NDIRECT a).addrs NDIRECT = a := by simp [Inode.setAddr]
          have ha₀ : a ≠ 0 := by have := (hL.balloc_fresh hb).1; omega
          obtain ⟨K₂, hsl⟩ := Keeps.entry K₁.layout K₁.slots hj (hind ▸ ha₀) (by rw [hind, hz, wordAt_zero]) hb₂
          rw [hind] at K₂ hsl
          exact ⟨K₁.trans K₂, by rw [Disk.blockOf, hs, hsl], by have := (K₁.layout.balloc_fresh hb₂).1; omega⟩
    · rw [if_neg h0] at h
      simp only [bind, Except.bind, pure, Except.pure] at h
      by_cases he : wordAt 4 (d.data (ip.addrs NDIRECT)) (bn - NDIRECT) = 0
      · -- an entry of the indirect block is allocated
        rw [if_pos he] at h
        cases hb : balloc sb d with
        | error e => simp [hb] at h
        | ok r =>
          obtain ⟨a, d₁⟩ := r
          simp only [hb, Except.ok.injEq, Prod.mk.injEq] at h
          obtain ⟨rfl, rfl, rfl⟩ := h
          obtain ⟨K, hsl⟩ := Keeps.entry hL hS hj h0 he hb
          exact ⟨K, by rw [Disk.blockOf, hs, hsl], by have := (hL.balloc_fresh hb).1; omega⟩
      · rw [if_neg he] at h
        simp only [Except.ok.injEq, Prod.mk.injEq] at h
        obtain ⟨rfl, rfl, rfl⟩ := h
        refine ⟨Keeps.refl hL hS, ?_, he⟩
        simp only [Disk.blockOf, hs, Disk.slot, if_neg (show ¬NDIRECT + 1 + (bn - NDIRECT) ≤ NDIRECT by omega),
          if_neg h0, show NDIRECT + 1 + (bn - NDIRECT) - (NDIRECT + 1) = bn - NDIRECT by omega]

theorem Slots.congr {ip ip' : Dinode} (hS : Slots sb nmeta d ip) (hdata : d'.data = d.data)
    (haddrs : ip'.addrs = ip.addrs) : Slots sb nmeta d' ip' := by
  have hfree : d'.isFree sb = d.isFree sb := by funext y; exact Disk.isFree_congr (by rw [hdata])
  have hs : d'.slot ip' = d.slot ip := Disk.slot_eq hdata haddrs
  refine ⟨fun i hi j hj e h0 => hS.inj i hi j hj (by rwa [hs] at e) (by rwa [hs] at h0), fun i hi h0 => ?_⟩
  rw [hs] at h0 ⊢
  rw [hfree]
  exact hS.used i hi h0

theorem Slots.of_data {ip : Dinode} (hL : Layout sb nmeta d) (hS : Slots sb nmeta d ip) (hslot : d'.slot ip = d.slot ip)
    (hmeta : ∀ z < nmeta, d'.data z = d.data z) : Slots sb nmeta d' ip := by
  refine ⟨fun i hi j hj => hslot ▸ hS.inj i hi j hj, fun i hi h => ?_⟩
  rw [hslot] at h ⊢
  obtain ⟨h₁, h₂, h₃⟩ := hS.used i hi h
  exact ⟨h₁, h₂, by rw [hL.isFree_of_data hmeta h₂, h₃]⟩

end Fill

/-- `bmap` of a file block that has a block returns it and changes nothing. -/
theorem bmap_of_blockOf {sb : Superblock} {d : Disk} {ip : Inode} {bn : Nat} (hbn : bn < MAXFILE)
    (h : d.blockOf ip.toDinode bn ≠ 0) : bmap sb d ip bn = .ok (d.blockOf ip.toDinode bn, ip, d) := by
  unfold bmap
  by_cases hd : bn < NDIRECT
  · have hs : d.blockOf ip.toDinode bn = ip.addrs bn := by
      rw [Disk.blockOf, show slotOf bn = bn from if_pos hd, Disk.slot_of_le (by omega)]
    rw [hs] at h ⊢
    rw [if_pos hd, if_neg h]
  · have hj : bn - NDIRECT < NINDIRECT := by simp only [MAXFILE] at hbn; omega
    have hs : slotOf bn = NDIRECT + 1 + (bn - NDIRECT) := by simp only [slotOf, if_neg hd]; omega
    have hle : ¬NDIRECT + 1 + (bn - NDIRECT) ≤ NDIRECT := by omega
    have h0 : ip.addrs NDIRECT ≠ 0 := fun h0 => h (by rw [Disk.blockOf, hs, Disk.slot, if_neg hle, if_pos h0])
    have he : d.blockOf ip.toDinode bn = wordAt 4 (d.data (ip.addrs NDIRECT)) (bn - NDIRECT) := by
      rw [Disk.blockOf, hs, Disk.slot, if_neg hle, if_neg h0, show NDIRECT + 1 + (bn - NDIRECT) - (NDIRECT + 1) =
        bn - NDIRECT by omega]
    rw [he] at h ⊢
    rw [if_neg hd, if_pos hj]
    simp only [if_neg h0, bind, Except.bind, pure, Except.pure, if_neg h]

/-! ## The bytes of a file -/

section Content

variable {sb : Superblock} {nmeta : Nat} {d d' d₁ : Disk} {ip ip' ip₁ : Inode}

theorem slotOf_inj {a b : Nat} (h : slotOf a = slotOf b) : a = b := by
  simp only [slotOf] at h
  split at h <;> split at h <;> omega

/-- A byte at `x` of a run of `c` bytes from `off` that stays in one block is
in the block of `off`, as many bytes on. -/
theorem block_of_mem {off c x : Nat} (hc : c ≤ BSIZE - off % BSIZE) (h₁ : off ≤ x) (h₂ : x < off + c) :
    x / BSIZE = off / BSIZE ∧ x % BSIZE = off % BSIZE + (x - off) := by
  simp only [BSIZE] at *
  omega

/-- In the block of `off`, the bytes of a run from `off` are those at its offsets. -/
theorem mem_iff_of_block {off c x : Nat} (hx : x / BSIZE = off / BSIZE) :
    (off ≤ x ∧ x < off + c) ↔ (off % BSIZE ≤ x % BSIZE ∧ x % BSIZE < off % BSIZE + c) := by
  simp only [BSIZE] at *
  omega

theorem lt_MAXFILE_of_mapped {bn L : Nat} (h : bn * BSIZE < L) (hL : L ≤ MAXFILE * BSIZE) : bn < MAXFILE := by
  simp only [BSIZE, MAXFILE, NDIRECT, NINDIRECT] at *
  omega

/-- A block of the file that `bmap` found stays where it was. -/
theorem Keeps.blockOf (K : Keeps sb nmeta d ip d' ip') {bn : Nat} (hbn : bn < MAXFILE)
    (h : d.blockOf ip.toDinode bn ≠ 0) : d'.blockOf ip'.toDinode bn = d.blockOf ip.toDinode bn :=
  K.slot_keep _ (slotOf_lt_NSLOT hbn) h

theorem Keeps.mapped (K : Keeps sb nmeta d ip d' ip') {L : Nat} (hM : Mapped d ip.toDinode L)
    (hL : L ≤ MAXFILE * BSIZE) : Mapped d' ip'.toDinode L := fun bn hbn => by
  rw [K.blockOf (lt_MAXFILE_of_mapped hbn hL) (hM bn hbn)]
  exact hM bn hbn

/-- `bmap` keeps every byte of the file that has a block. -/
theorem Keeps.byteAt (K : Keeps sb nmeta d ip d' ip') {L x : Nat} (hM : Mapped d ip.toDinode L) (hx : x < L)
    (hL : L ≤ MAXFILE * BSIZE) : d'.byteAt ip'.toDinode x = d.byteAt ip.toDinode x := by
  have hbn : x / BSIZE * BSIZE < L := lt_of_le_of_lt (Nat.div_mul_le_self x BSIZE) hx
  have hlt := lt_MAXFILE_of_mapped hbn hL
  have h0 := hM _ hbn
  simp only [Disk.byteAt]
  rw [K.blockOf hlt h0]
  exact congrFun (K.data_keep _ (slotOf_lt_NSLOT hlt) (slotOf_ne_NDIRECT _) h0) _

/-- **One round of `writei`'s loop** whose copy succeeds: `bmap` for the block
of `off`, `bs` stored into it from `off % BSIZE`, and `log_write`. The file
has `bs` at `off`, and a block for every byte up to its end. -/
theorem write_round (hL : Layout sb nmeta d) (hS : Slots sb nmeta d ip.toDinode) {L off b : Nat} {bs : List UInt8}
    (hM : Mapped d ip.toDinode L) (hoff : off ≤ L) (hLmax : L ≤ MAXFILE * BSIZE) (hom : off < MAXFILE * BSIZE)
    (hcB : bs.length ≤ BSIZE - off % BSIZE) (hb : bmap sb d ip (off / BSIZE) = .ok (b, ip₁, d₁)) :
    Preserves sb nmeta d ip ((d₁.writeBytes b (off % BSIZE) bs).logWrite b) ip₁ ∧
      Mapped ((d₁.writeBytes b (off % BSIZE) bs).logWrite b) ip₁.toDinode (max L (off + bs.length)) ∧
      ∀ x < max L (off + bs.length),
        ((d₁.writeBytes b (off % BSIZE) bs).logWrite b).byteAt ip₁.toDinode x = overwrite (d.byteAt ip.toDinode) off bs x := by
  have hbn : off / BSIZE < MAXFILE := by simp only [BSIZE, MAXFILE, NDIRECT, NINDIRECT] at *; omega
  obtain ⟨K, hblk, hb0⟩ := bmap_spec hL hS hbn hb
  have hsN := slotOf_lt_NSLOT hbn
  have hN : NDIRECT < NSLOT := by decide
  have hbs : d₁.slot ip₁.toDinode (slotOf (off / BSIZE)) = b := hblk
  obtain ⟨hbm, -, -⟩ := K.slots.used _ hsN (by rw [hbs]; exact hb0)
  rw [hbs] at hbm
  -- the block written holds file data, so it is not the indirect block
  have hind : ip₁.addrs NDIRECT ≠ 0 → ip₁.addrs NDIRECT ≠ b := fun _ e =>
    slotOf_ne_NDIRECT (off / BSIZE) (K.slots.inj _ hsN NDIRECT hN
      (by rw [hbs, Disk.slot_of_le le_rfl, e]) (by rw [hbs]; exact hb0))
  have hslot : ((d₁.writeBytes b (off % BSIZE) bs).logWrite b).slot ip₁.toDinode = d₁.slot ip₁.toDinode :=
    Disk.slot_congr fun h0 => by rw [Disk.logWrite_data, Disk.writeBytes_data_of_ne (hind h0)]
  have hmeta : ∀ z < nmeta, ((d₁.writeBytes b (off % BSIZE) bs).logWrite b).data z = d₁.data z :=
    fun z hz => Disk.writeBytes_data_of_ne (by omega)
  have hblock : ∀ bn, ((d₁.writeBytes b (off % BSIZE) bs).logWrite b).blockOf ip₁.toDinode bn =
      d₁.blockOf ip₁.toDinode bn := fun bn => congrFun hslot _
  refine ⟨K.toPreserves.trans ⟨rfl, rfl, rfl, rfl, K.layout.of_data hmeta, K.slots.of_data K.layout hslot hmeta,
    logs_writeBytes _ _ _ _⟩, fun bn hbn' => ?_, fun x hx => ?_⟩
  · rw [hblock]
    by_cases h : bn * BSIZE < L
    · exact K.mapped hM hLmax bn h
    · -- a block past `L` holds bytes of the run, so it is the block of `off`
      have : bn = off / BSIZE := by simp only [BSIZE] at *; omega
      rw [this, hblk]
      exact hb0
  · simp only [Disk.byteAt]
    rw [hblock]
    by_cases hxb : x / BSIZE = off / BSIZE
    · rw [hxb, hblk, Disk.logWrite_data, Disk.writeBytes_data_self]
      by_cases hin : off ≤ x ∧ x < off + bs.length
      · obtain ⟨h₁, h₂⟩ := block_of_mem hcB hin.1 hin.2
        obtain ⟨i, rfl⟩ : ∃ i, x = off + i := ⟨x - off, by omega⟩
        rw [h₂, Nat.add_sub_cancel_left, overwrite_add (by omega), overwrite_add (by omega)]
      · have hxL : x < L := by omega
        have hout := (not_congr (mem_iff_of_block hxb)).mp hin
        rw [overwrite_out (by omega), overwrite_out (by omega), ← hblk, ← hxb]
        exact K.byteAt hM hxL hLmax
    · have hxL : x < L := by
        by_contra hxL
        exact hxb (block_of_mem hcB (by omega) (by omega)).1
      have hx0 := K.mapped hM hLmax _ (lt_of_le_of_lt (Nat.div_mul_le_self x BSIZE) hxL)
      have hxN := lt_MAXFILE_of_mapped (lt_of_le_of_lt (Nat.div_mul_le_self x BSIZE) hxL) hLmax
      -- another block of the file is another block of the disk
      have hne : d₁.blockOf ip₁.toDinode (x / BSIZE) ≠ b := fun e =>
        hxb (slotOf_inj (K.slots.inj _ (slotOf_lt_NSLOT hxN) _ hsN (e.trans hblk.symm) hx0))
      rw [Disk.logWrite_data, Disk.writeBytes_data_of_ne hne,
        overwrite_out (by by_contra h; exact hxb (block_of_mem hcB (by omega) (by omega)).1)]
      exact K.byteAt hM hxL hLmax

/-- **`writei`'s loop** when every page of the source is accessible and no
allocation fails: it writes all `n - tot` bytes from `off`. The file has them
there, and a block for every byte up to their end. -/
theorem writeiLoop_spec {m : Space UInt8} {n : Nat} (fuel : Nat) :
    ∀ {d : Disk} {ip : Inode} {tot off src L : Nat} {d' : Disk} {ip' : Inode} {tot' off' : Nat},
      Layout sb nmeta d → Slots sb nmeta d ip.toDinode → Mapped d ip.toDinode L → off ≤ L →
      L ≤ MAXFILE * BSIZE → off + (n - tot) ≤ MAXFILE * BSIZE → n - tot ≤ fuel →
      (∀ i < n - tot, m.ok ((src + i) / PGSIZE * PGSIZE) = true) →
      writeiLoop sb m n fuel d ip tot off src = .ok (d', ip', tot', off') →
      tot' = max tot n ∧ off' = off + (n - tot) ∧ Preserves sb nmeta d ip d' ip' ∧
        Mapped d' ip'.toDinode (max L off') ∧
        ∀ x < max L off', d'.byteAt ip'.toDinode x = overwrite (d.byteAt ip.toDinode) off (m.read src (n - tot)) x := by
  induction fuel with
  | zero =>
    intro d ip tot off src L d' ip' tot' off' hL hS hM hoff _ _ hfuel _ h
    cases h
    have hn : n - tot = 0 := by omega
    refine ⟨by omega, by omega, Preserves.refl hL hS, by rwa [max_eq_left (by omega)], fun x _ => ?_⟩
    rw [hn, Space.read, overwrite_nil]
  | succ fuel ih =>
    intro d ip tot off src L d' ip' tot' off' hL hS hM hoff hLmax hend hfuel hok h
    rw [writeiLoop] at h
    by_cases ht : tot < n
    · rw [if_pos ht] at h
      cases hb : bmap sb d ip (off / BSIZE) with
      | error e => simp [hb, bind, Except.bind] at h
      | ok r =>
        obtain ⟨b, ip₁, d₁⟩ := r
        simp only [hb, bind, Except.bind] at h
        -- the round copies `c` bytes, the rest of the run or of the block
        have hcopy := Space.copyin_of_ok (P := PGSIZE) m (a := src) (n := min (n - tot) (BSIZE - off % BSIZE))
          fun i hi => hok i (by omega)
        rw [hcopy] at h
        rw [if_neg (show ((0 : Int) ≠ -1) by decide)] at h
        generalize hc : min (n - tot) (BSIZE - off % BSIZE) = c at h
        have hc₀ : 0 < c := by rw [← hc]; simp only [BSIZE]; omega
        have hlen : (m.read src c).length = c := Space.length_read m src c
        obtain ⟨P₁, hM₁, hB₁⟩ := write_round hL hS hM hoff hLmax (by omega) (by rw [hlen]; omega) hb
        rw [hlen] at hM₁ hB₁
        obtain ⟨e₁, e₂, P₂, hM₂, hB₂⟩ := ih P₁.layout P₁.slots hM₁ (le_max_right _ _)
          (max_le hLmax (by omega)) (by omega) (by omega) (fun i hi => by
            rw [show src + c + i = src + (c + i) by omega]; exact hok _ (by omega)) h
        have hoff' : off' = off + (n - tot) := by omega
        have hmax : max (max L (off + c)) off' = max L off' := by omega
        refine ⟨by omega, hoff', P₁.trans P₂, hmax ▸ hM₂, fun x hx => ?_⟩
        rw [hB₂ x (hmax ▸ hx), show n - tot = c + (n - (tot + c)) by omega, Space.read_add, ← overwrite_append, hlen]
        -- outside the rest of the run, the first round's bytes are the file's
        refine overwrite_congr fun hx' => hB₁ x ?_
        rw [Space.length_read] at hx'
        omega
    · rw [if_neg ht] at h
      cases h
      have hn : n - tot = 0 := by omega
      refine ⟨by omega, by omega, Preserves.refl hL hS, by rwa [max_eq_left (by omega)], fun x _ => ?_⟩
      rw [hn, Space.read, overwrite_nil]

theorem not_add_lt_of_lt {off n : UInt32} (h : off.toNat + n.toNat < 2 ^ 32) : ¬off + n < off := by
  rw [UInt32.lt_iff_toNat_lt, UInt32.toNat_add, Nat.mod_eq_of_lt h]
  omega

/-- **What `writei` does** to a well-formed inode, when every page of the
source is accessible and no allocation fails: for `off ≤ size` and
`off + n ≤ MAXFILE * BSIZE` it writes and returns all `n` bytes, the size
becomes `max size (off + n)`, the inode stays well formed, every block it
changes is logged, the inode's block among them, and the disk inode is the
new one. -/
theorem writei_ok (hL : Layout sb nmeta d) (hI : InodeOK sb nmeta d ip.toDinode) {m : Space UInt8} {src : Nat}
    {off n : UInt32} {r : Int} (hoff : off.toNat ≤ ip.size) (hend : off.toNat + n.toNat ≤ MAXFILE * BSIZE)
    (hok : ∀ i < n.toNat, m.ok ((src + i) / PGSIZE * PGSIZE) = true)
    (h : writei sb d ip m src off n = .ok (d', ip', r)) :
    r = n.toNat ∧ ip'.size = max ip.size (off.toNat + n.toNat) ∧ ip'.type = ip.type ∧ ip'.inum = ip.inum ∧
      Layout sb nmeta d' ∧ InodeOK sb nmeta d' ip'.toDinode ∧ Logs d d' ∧ IBLOCK ip.inum sb ∈ d'.lh ∧
      d'.dinodes = Function.update d.dinodes ip.inum ip'.toDinode ∧
      ∀ x < ip'.size, d'.byteAt ip'.toDinode x = overwrite (d.byteAt ip.toDinode) off.toNat (m.read src n.toNat) x := by
  have hlt : off.toNat + n.toNat < 2 ^ 32 := by
    simp only [MAXFILE, NDIRECT, NINDIRECT, BSIZE] at hend
    omega
  unfold writei at h
  rw [if_neg (not_or.mpr ⟨by omega, not_add_lt_of_lt hlt⟩), if_neg (by omega)] at h
  cases hw : writeiLoop sb m n.toNat n.toNat d ip 0 off.toNat src with
  | error e => simp [hw, bind, Except.bind] at h
  | ok res =>
    obtain ⟨d₁, ip₁, tot, off₁⟩ := res
    obtain ⟨e₁, e₂, P, hM, hB⟩ := writeiLoop_spec n.toNat hL hI.toSlots hI.mapped hoff hI.size_le (by omega)
      le_rfl (by simpa using hok) hw
    simp only [hw, bind, Except.bind, Except.ok.injEq, Prod.mk.injEq] at h
    obtain ⟨rfl, rfl, rfl⟩ := h
    -- the size written back is the larger of the two
    obtain ⟨S, hS, hSmax⟩ : ∃ S, (if off₁ > ip₁.size then { ip₁ with size := off₁ } else ip₁) =
        { ip₁ with size := S } ∧ S = max ip.size off₁ := by
      split
      · exact ⟨off₁, rfl, by have := P.size_eq; omega⟩
      · exact ⟨ip₁.size, rfl, by have := P.size_eq; omega⟩
    rw [hS]
    have hdata : (iupdate sb d₁ { ip₁ with size := S }).data = d₁.data := rfl
    have hbyte : (iupdate sb d₁ { ip₁ with size := S }).byteAt { ip₁ with size := S }.toDinode =
        d₁.byteAt ip₁.toDinode := Disk.byteAt_eq hdata rfl
    have hslot : (iupdate sb d₁ { ip₁ with size := S }).slot { ip₁ with size := S }.toDinode =
        d₁.slot ip₁.toDinode := Disk.slot_eq hdata rfl
    refine ⟨by simp [e₁], by simp [hSmax, e₂], P.type_eq, P.inum_eq, P.layout.of_data fun _ _ => rfl,
      ⟨P.slots.congr hdata rfl, by dsimp only; rw [hSmax, e₂]; have := hI.size_le; omega, fun bn hbn => ?_⟩,
      P.logs.trans (logs_iupdate _ _ _), Disk.mem_logWrite_lh.mpr (.inr (by rw [P.inum_eq])), ?_, fun x hx => ?_⟩
    · rw [Disk.blockOf, hslot]
      exact hM bn (by simpa [hSmax, e₂] using hbn)
    · simp only [iupdate, Disk.logWrite_dinodes, P.dinodes, P.inum_eq]
    · rw [hbyte]
      exact hB x (by simpa [hSmax, e₂] using hx)

/-- A file whose bytes are those of another with `bs` stored at `off`, and
whose size is as far as both reach, holds the other's content with
`[off, off + |bs|)` replaced by `bs`. -/
theorem content_of_byteAt {ip ip' : Dinode} {off : Nat} {bs : List UInt8} (hoff : off ≤ ip.size)
    (hsize : ip'.size = max ip.size (off + bs.length))
    (hB : ∀ x < ip'.size, d'.byteAt ip' x = overwrite (d.byteAt ip) off bs x) :
    d'.content ip' = (d.content ip).take off ++ bs ++ (d.content ip).drop (off + bs.length) := by
  rw [Disk.content, Disk.content, ← map_range_overwrite _ _ hoff, ← hsize]
  exact List.map_congr_left fun x hx => hB x (List.mem_range.mp hx)

/-- **`writei` refines overwriting a byte string**: with its pages accessible
and no allocation failing, the content after `writei` is the old content with
`[off, off + n)` replaced by the source bytes. -/
theorem writei_content (hL : Layout sb nmeta d) (hI : InodeOK sb nmeta d ip.toDinode) {m : Space UInt8} {src : Nat}
    {off n : UInt32} {r : Int} (hoff : off.toNat ≤ ip.size) (hend : off.toNat + n.toNat ≤ MAXFILE * BSIZE)
    (hok : ∀ i < n.toNat, m.ok ((src + i) / PGSIZE * PGSIZE) = true)
    (h : writei sb d ip m src off n = .ok (d', ip', r)) :
    d'.content ip'.toDinode = (d.content ip.toDinode).take off.toNat ++ m.read src n.toNat ++
      (d.content ip.toDinode).drop (off.toNat + n.toNat) := by
  obtain ⟨-, hsize, -, -, -, -, -, -, -, hB⟩ := writei_ok hL hI hoff hend hok h
  have e := content_of_byteAt hoff (by rw [Space.length_read]; exact hsize) hB
  rwa [Space.length_read] at e

/-! ## A small image

The image the examples of writes run on: the free map has every bit set, so
that `Layout` holds for any `nmeta`, and inode 1 is a 10-byte file of zeros
in block 100. -/

/-- 1000 blocks, inodes from block 32, the free map in block 45. -/
def fullMapSb : Superblock := ⟨1000, 32, 45⟩

/-- Every bit of the free map (block 45) set, every other block zero. -/
def fullMapDisk : Disk := ⟨fun b _ => if b = 45 then 0xFF else 0, fun _ => ⟨0, 0, fun _ => 0⟩, []⟩

/-- Inode 1: a file of 10 bytes whose only block is 100. -/
def tenByteFile : Inode := ⟨⟨2, 10, fun i => if i = 0 then 100 else 0⟩, 1⟩

theorem tenByteFile_slot (i : Nat) : fullMapDisk.slot tenByteFile.toDinode i = if i = 0 then 100 else 0 := by
  by_cases hi : i ≤ NDIRECT
  · rw [Disk.slot_of_le hi]
    rfl
  · have hi0 : i ≠ 0 := by omega
    simp only [Disk.slot, if_neg hi, if_neg hi0]
    rw [if_pos (by simp [tenByteFile, NDIRECT])]

theorem tenByteFile_blockOf : fullMapDisk.blockOf tenByteFile.toDinode 0 = 100 := tenByteFile_slot 0

/-- The free map marks every block. -/
theorem fullMapDisk_isFree (x : Nat) (hx : x < fullMapSb.size) : fullMapDisk.isFree fullMapSb x = false := by
  have hbb : BBLOCK x fullMapSb = 45 := by simp only [BBLOCK, BPB, BSIZE, fullMapSb] at hx ⊢; omega
  have h255 : ∀ k < 8, byteBit 255 k = true := by decide
  rw [Disk.isFree_eq_byteBit, hbb]
  simp only [fullMapDisk, ↓reduceIte]
  rw [h255 _ (Nat.mod_lt _ (by decide))]
  rfl

theorem fullMapDisk_layout : Layout fullMapSb 46 fullMapDisk :=
  ⟨by decide, by decide, by decide,
    fun x hx => by simp only [BBLOCK, BPB, BSIZE, fullMapSb] at hx ⊢; omega,
    fun x hx => fullMapDisk_isFree x (by simp only [fullMapSb]; omega)⟩

theorem tenByteFile_inodeOK : InodeOK fullMapSb 46 fullMapDisk tenByteFile.toDinode := by
  refine ⟨⟨fun i _ j _ e h => ?_, fun i _ h => ?_⟩, by decide, fun bn hbn => ?_⟩
  · rw [tenByteFile_slot, tenByteFile_slot] at e; rw [tenByteFile_slot] at h
    split_ifs at e h <;> omega
  · rw [tenByteFile_slot] at h ⊢
    split_ifs at h ⊢
    · exact ⟨by decide, by decide, fullMapDisk_isFree 100 (by decide)⟩
    · exact absurd rfl h
  · have : bn = 0 := by simp only [BSIZE, tenByteFile] at hbn; omega
    rw [this, tenByteFile_blockOf]
    decide

/-- **A copy that fails part-way writes unlogged bytes.** `writei` of 10
bytes at offset 0 of a well-formed 10-byte file, from a source whose first 5
bytes lie on an accessible page and the rest on one that is not: `copyin`
moves the 5 bytes into the cached block before it fails, the loop breaks
before `log_write`, and `writei` returns 0. The file as `readi` sees it has
changed in those 5 bytes, and its block is not in the transaction. -/
theorem writei_torn_copy :
    let sb : Superblock := ⟨1000, 32, 45⟩
    let d : Disk := ⟨fun b _ => if b = 45 then 0xFF else 0, fun _ => ⟨0, 0, fun _ => 0⟩, []⟩
    let ip : Inode := ⟨⟨2, 10, fun i => if i = 0 then 100 else 0⟩, 1⟩
    let m : Space UInt8 := ⟨fun a => a == 0, fun _ => 7⟩
    Layout sb 46 d ∧ InodeOK sb 46 d ip.toDinode ∧
      ∃ d' ip', writei sb d ip m (PGSIZE - 5) 0 10 = .ok (d', ip', 0) ∧
        d.content ip.toDinode = List.replicate 10 0 ∧
        d'.content ip'.toDinode = [7, 7, 7, 7, 7, 0, 0, 0, 0, 0] ∧ 100 ∉ d'.lh := by
  intro sb d ip m
  have hblk : d.blockOf ip.toDinode 0 = 100 := tenByteFile_blockOf
  have hcopy : m.copyin PGSIZE (PGSIZE - 5) 10 = (-1, [7, 7, 7, 7, 7]) := by
    rw [Space.copyin_eq]
    simp only [m]
    decide
  have hloop : writeiLoop sb m 10 10 d ip 0 0 (PGSIZE - 5) = .ok (d.writeBytes 100 0 [7, 7, 7, 7, 7], ip, 0, 0) := by
    rw [writeiLoop, if_pos (by decide), Nat.zero_div, bmap_of_blockOf (by decide) (by rw [hblk]; decide), hblk]
    simp only [bind, Except.bind, Nat.zero_mod, show min (10 - 0) (BSIZE - 0) = 10 by decide, hcopy, if_true]
  refine ⟨fullMapDisk_layout, tenByteFile_inodeOK, iupdate sb (d.writeBytes 100 0 [7, 7, 7, 7, 7]) ip, ip, ?_,
    by decide, ?_, ?_⟩
  · unfold writei
    rw [if_neg (by decide), if_neg (by decide), show (10 : UInt32).toNat = 10 from rfl,
      show (0 : UInt32).toNat = 0 from rfl, hloop]
    simp only [bind, Except.bind, show ¬(0 > ip.size) by decide, if_false]
    rfl
  · decide
  · decide

/-- The bytes of a run in one block, as the file's bytes. -/
theorem bytes_eq_byteAt {d : Disk} {ip : Dinode} {off c : Nat} (hc : c ≤ BSIZE - off % BSIZE) :
    d.bytes (d.blockOf ip (off / BSIZE)) (off % BSIZE) c = (List.range c).map fun i => d.byteAt ip (off + i) :=
  List.map_congr_left fun i hi => by
    obtain ⟨h₁, h₂⟩ := block_of_mem hc (Nat.le_add_right off i) (by simp at hi; omega)
    rw [Disk.byteAt, h₁, h₂, Nat.add_sub_cancel_left]

/-- **`readi`'s loop** over bytes that all have blocks, when every page of
the destination is accessible: it copies the file's `n - tot` bytes from
`off` to `dst` and changes nothing else. -/
theorem readiLoop_spec {d : Disk} {ip : Inode} (hI : InodeOK sb nmeta d ip.toDinode) {n : Nat} (fuel : Nat) :
    ∀ {m : Space UInt8} {tot off dst : Nat}, off + (n - tot) ≤ ip.size → n - tot ≤ fuel →
      (∀ i < n - tot, m.ok ((dst + i) / PGSIZE * PGSIZE) = true) →
      readiLoop sb n fuel d ip m tot off dst =
        .ok (d, ip, m.write dst ((List.range (n - tot)).map fun i => d.byteAt ip.toDinode (off + i)), (max tot n : Nat)) := by
  induction fuel with
  | zero =>
    intro m tot off dst _ hfuel _
    rw [show n - tot = 0 by omega, readiLoop, List.range_zero, List.map_nil, Space.write_nil,
      show max tot n = tot by omega]
  | succ fuel ih =>
    intro m tot off dst hend hfuel hok
    rw [readiLoop]
    by_cases ht : tot < n
    · rw [if_pos ht]
      -- the block of `off` holds file data, so `bmap` finds it
      have hlt := lt_MAXFILE_of_mapped (L := ip.size) (lt_of_le_of_lt (Nat.div_mul_le_self off BSIZE) (by omega))
        hI.size_le
      have h0 := hI.mapped _ (lt_of_le_of_lt (Nat.div_mul_le_self off BSIZE) (show off < ip.size by omega))
      simp only [bmap_of_blockOf hlt h0, bind, Except.bind]
      generalize hc : min (n - tot) (BSIZE - off % BSIZE) = c
      have hcB : c ≤ BSIZE - off % BSIZE := by omega
      have hc₀ : 0 < c := by rw [← hc]; simp only [BSIZE]; omega
      rw [bytes_eq_byteAt hcB, Space.copyout_of_ok (P := PGSIZE) m (by simpa using fun i hi => hok i (by omega)),
        if_neg (show ((0 : Int) ≠ -1) by decide), ih (by omega) (by omega) (fun i hi => by
          rw [Space.write_ok, show dst + c + i = dst + (c + i) by omega]; exact hok _ (by omega))]
      rw [show n - tot = c + (n - (tot + c)) by omega, List.range_add, List.map_append, Space.write_append,
        List.map_map, List.length_map, List.length_range, show max (tot + c) n = max tot n by omega]
      simp only [Function.comp_def, Nat.add_assoc]
    · rw [if_neg ht, show n - tot = 0 by omega, List.range_zero, List.map_nil, Space.write_nil,
        show max tot n = tot by omega]

/-- **What `readi` does** to a well-formed inode, when the read does not
overflow and every page of the destination is accessible: from `off ≤ size`
it copies the file's bytes `[off, min (off + n) size)` to `dst`, returns
their count, and changes nothing else. -/
theorem readi_ok {d : Disk} {ip : Inode} (hI : InodeOK sb nmeta d ip.toDinode) {m : Space UInt8} {dst : Nat}
    {off n : UInt32} (hoff : off.toNat ≤ ip.size) (hlt : off.toNat + n.toNat < 2 ^ 32)
    (hok : ∀ i < min n.toNat (ip.size - off.toNat), m.ok ((dst + i) / PGSIZE * PGSIZE) = true) :
    readi sb d ip m dst off n =
      .ok (d, ip, m.write dst (((d.content ip.toDinode).drop off.toNat).take n.toNat), (min n.toNat (ip.size - off.toNat) : Nat)) := by
  have hn : (if off.toNat + n.toNat > ip.size then ip.size - off.toNat else n.toNat) = min n.toNat (ip.size - off.toNat) := by
    split <;> omega
  -- the bytes read are the content's from `off`
  have hbytes : (List.range (min n.toNat (ip.size - off.toNat) - 0)).map (fun i => d.byteAt ip.toDinode (off.toNat + i)) =
      ((d.content ip.toDinode).drop off.toNat).take n.toNat := by
    refine List.ext_getElem (by simp [Disk.content]) fun i h₁ h₂ => ?_
    simp [Disk.content]
  unfold readi
  rw [if_neg (not_or.mpr ⟨by omega, not_add_lt_of_lt hlt⟩), hn,
    readiLoop_spec hI _ (by omega) (by omega) (fun i hi => hok i (by omega)), show max 0 (min n.toNat (ip.size - off.toNat)) =
      min n.toNat (ip.size - off.toNat) by omega, hbytes]

end Content

end Xv6
