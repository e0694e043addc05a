import Xv6.Param
import Xv6.Framework.Paged
import Xv6.Framework.LittleEndian
import Xv6.Framework.Bits
import Xv6.Framework.Writes

/-!
# Inodes: the free map, `bmap`, `itrunc`, `readi` and `writei`

The block layer of `fs.c` over the blocks as `bread` returns them (`Disk`):
`balloc` and `bfree` on the free map, `bmap` from a file block to a disk
block (allocating on demand, through the indirect block past `NDIRECT`),
`itrunc`, `iupdate`, and the chunk loops of `readi` and `writei` with user
addresses, whose copies go through `Framework.Space` page by page.

A `log_write` is recorded in `Disk.lh` once per block (absorption); its space
checks are modelled with the log in `Fs.LogTxn`. The on-disk inodes are kept
as records (`Disk.dinodes`), which `iupdate` writes. Panics are
`Except.error` with their text.
-/

namespace Xv6

open Framework

/-- The superblock fields the block and inode code reads. -/
structure Superblock where
  /-- Size of file system image (blocks). -/
  size : Nat
  /-- Block number of first inode block. -/
  inodestart : Nat
  /-- Block number of first free map block. -/
  bmapstart : Nat
  deriving DecidableEq, Repr

/-- Block of free map containing bit for block `b`. -/
def BBLOCK (b : Nat) (sb : Superblock) : Nat := b / BPB + sb.bmapstart

/-- Block containing inode `i`. -/
def IBLOCK (i : Nat) (sb : Superblock) : Nat := i / IPB + sb.inodestart

/-- `struct dinode`, without the device numbers and the link count. -/
structure Dinode where
  /-- File type; 0 for a free inode. -/
  type : Nat
  /-- Size of file (bytes). -/
  size : Nat
  /-- Data block addresses: `NDIRECT` direct ones, then the indirect block. -/
  addrs : Nat → Nat

/-- The in-memory `struct inode`: its number and its copy of the disk inode. -/
structure Inode extends Dinode where
  inum : Nat

/-- `ip->addrs[i] = a`. -/
def Inode.setAddr (ip : Inode) (i a : Nat) : Inode :=
  { ip with addrs := Function.update ip.addrs i a }

/-- The disk as the file-system code reads and writes it, through the buffer
cache, inside one transaction. -/
structure Disk where
  /-- `bread(dev, b)->data`. -/
  data : Nat → Nat → UInt8
  /-- The inode blocks, as the `struct dinode` records they hold. -/
  dinodes : Nat → Dinode
  /-- The blocks passed to `log_write` in the running transaction. -/
  lh : List Nat

namespace Disk

/-- `log_write(b)`: the block joins the transaction once. -/
def logWrite (d : Disk) (b : Nat) : Disk :=
  { d with lh := if b ∈ d.lh then d.lh else d.lh ++ [b] }

/-- Byte `i` of block `b` set to `v`. -/
def setByte (d : Disk) (b i : Nat) (v : UInt8) : Disk :=
  { d with data := Function.update d.data b (Function.update (d.data b) i v) }

/-- `memmove(bp->data + o, bs, len(bs))` into block `b`. -/
def writeBytes (d : Disk) (b o : Nat) (bs : List UInt8) : Disk :=
  { d with data := Function.update d.data b (overwrite (d.data b) o bs) }

/-- `((uint*)bp->data)[j] = v` in block `b`. -/
def setWord (d : Disk) (b j v : Nat) : Disk :=
  { d with data := Function.update d.data b (Framework.setWord 4 (d.data b) j v) }

/-- The `c` bytes of block `b` from byte `o` on. -/
def bytes (d : Disk) (b o c : Nat) : List UInt8 := (List.range c).map fun i => d.data b (o + i)

/-- `bzero`: zero a block, and log it. -/
def bzero (d : Disk) (bno : Nat) : Disk :=
  ({ d with data := Function.update d.data bno fun _ => 0 } : Disk).logWrite bno

/-- Whether block `b` is free: `(bp->data[bi/8] & m) == 0` with `bi = b % BPB`
and `m = 1 << (bi % 8)`, in the free-map block `BBLOCK(b, sb)`. -/
def isFree (sb : Superblock) (d : Disk) (b : Nat) : Bool :=
  d.data (BBLOCK b sb) (b % BPB / 8) &&& byteMask (b % BPB % 8) == 0

/-- Mark block `b` in use: `bp->data[bi/8] |= m`. -/
def markInUse (sb : Superblock) (d : Disk) (b : Nat) : Disk :=
  let bb := BBLOCK b sb
  let bi := b % BPB
  d.setByte bb (bi / 8) (d.data bb (bi / 8) ||| byteMask (bi % 8))

/-- Mark block `b` free: `bp->data[bi/8] &= ~m`. -/
def markFree (sb : Superblock) (d : Disk) (b : Nat) : Disk :=
  let bb := BBLOCK b sb
  let bi := b % BPB
  d.setByte bb (bi / 8) (d.data bb (bi / 8) &&& ~~~byteMask (bi % 8))

variable {d : Disk} {b x : Nat}

@[simp] theorem logWrite_data : (d.logWrite b).data = d.data := rfl
@[simp] theorem logWrite_dinodes : (d.logWrite b).dinodes = d.dinodes := rfl

theorem mem_logWrite_lh : x ∈ (d.logWrite b).lh ↔ x ∈ d.lh ∨ x = b := by
  unfold logWrite
  split <;> simp_all [or_iff_left_of_imp]

@[simp] theorem setByte_lh (i : Nat) (v : UInt8) : (d.setByte b i v).lh = d.lh := rfl
@[simp] theorem setByte_dinodes (i : Nat) (v : UInt8) : (d.setByte b i v).dinodes = d.dinodes := rfl
@[simp] theorem writeBytes_lh (o : Nat) (bs : List UInt8) : (d.writeBytes b o bs).lh = d.lh := rfl
@[simp] theorem writeBytes_dinodes (o : Nat) (bs : List UInt8) : (d.writeBytes b o bs).dinodes = d.dinodes := rfl
@[simp] theorem setWord_lh (j v : Nat) : (d.setWord b j v).lh = d.lh := rfl
@[simp] theorem setWord_dinodes (j v : Nat) : (d.setWord b j v).dinodes = d.dinodes := rfl
@[simp] theorem bzero_dinodes : (d.bzero b).dinodes = d.dinodes := rfl

theorem setByte_data_of_ne {i : Nat} {v : UInt8} (h : x ≠ b) : (d.setByte b i v).data x = d.data x :=
  Function.update_of_ne h _ _

theorem writeBytes_data_of_ne {o : Nat} {bs : List UInt8} (h : x ≠ b) : (d.writeBytes b o bs).data x = d.data x :=
  Function.update_of_ne h _ _

@[simp] theorem writeBytes_data_self (o : Nat) (bs : List UInt8) :
    (d.writeBytes b o bs).data b = overwrite (d.data b) o bs :=
  Function.update_self _ _ _

theorem setWord_data_of_ne {j v : Nat} (h : x ≠ b) : (d.setWord b j v).data x = d.data x :=
  Function.update_of_ne h _ _

@[simp] theorem setWord_data_self (j v : Nat) : (d.setWord b j v).data b = Framework.setWord 4 (d.data b) j v :=
  Function.update_self _ _ _

theorem bzero_data_of_ne (h : x ≠ b) : (d.bzero b).data x = d.data x :=
  Function.update_of_ne h _ _

@[simp] theorem bzero_data_self : (d.bzero b).data b = fun _ => 0 :=
  Function.update_self _ _ _

theorem mem_bzero_lh : x ∈ (d.bzero b).lh ↔ x ∈ d.lh ∨ x = b :=
  mem_logWrite_lh

@[simp] theorem isFree_logWrite (sb : Superblock) (y : Nat) : (d.logWrite b).isFree sb y = d.isFree sb y := rfl

theorem isFree_eq_byteBit (sb : Superblock) (d : Disk) (b : Nat) :
    d.isFree sb b = !byteBit (d.data (BBLOCK b sb) (b % BPB / 8)) (b % BPB % 8) :=
  and_byteMask_eq_zero _ (Nat.mod_lt _ (by decide))

/-- Whether a block is free is read from its free-map block only. -/
theorem isFree_congr {sb : Superblock} {d' : Disk} (h : d'.data (BBLOCK b sb) = d.data (BBLOCK b sb)) :
    d'.isFree sb b = d.isFree sb b := by
  simp only [isFree, h]

/-- Two blocks with the same free-map block and byte, and the same bit in
it, are one block. -/
theorem eq_of_bit_eq {sb : Superblock} {y : Nat} (h₁ : BBLOCK y sb = BBLOCK b sb) (h₂ : y % BPB / 8 = b % BPB / 8)
    (h₃ : y % BPB % 8 = b % BPB % 8) : y = b := by
  simp only [BBLOCK, BPB, BSIZE] at h₁ h₂ h₃
  omega

/-- Storing into block `b`'s byte of the free map a value that keeps the
byte's other bits changes whether `b` is free, and no other block's. -/
theorem isFree_setByte {sb : Superblock} {v : UInt8}
    (hv : ∀ j < 8, j ≠ b % BPB % 8 → byteBit v j = byteBit (d.data (BBLOCK b sb) (b % BPB / 8)) j) (y : Nat) :
    (d.setByte (BBLOCK b sb) (b % BPB / 8) v).isFree sb y =
      if y = b then !byteBit v (b % BPB % 8) else d.isFree sb y := by
  simp only [isFree_eq_byteBit, setByte]
  by_cases h₁ : BBLOCK y sb = BBLOCK b sb
  · by_cases h₂ : y % BPB / 8 = b % BPB / 8
    · rw [h₁, h₂, Function.update_self, Function.update_self]
      by_cases h₃ : y % BPB % 8 = b % BPB % 8
      · rw [if_pos (eq_of_bit_eq h₁ h₂ h₃), h₃]
      · have : y ≠ b := fun e => h₃ (e ▸ rfl)
        rw [if_neg this, hv _ (Nat.mod_lt _ (by decide)) h₃]
    · have : y ≠ b := fun e => h₂ (e ▸ rfl)
      rw [h₁, Function.update_self, Function.update_of_ne h₂, if_neg this]
  · have : y ≠ b := fun e => h₁ (e ▸ rfl)
    rw [Function.update_of_ne h₁, if_neg this]

theorem isFree_markInUse (sb : Superblock) (d : Disk) (b y : Nat) :
    (d.markInUse sb b).isFree sb y = (d.isFree sb y && y != b) := by
  have hi : b % BPB % 8 < 8 := Nat.mod_lt _ (by decide)
  rw [markInUse, isFree_setByte fun j _ hj => by simp [byteBit_byteMask hi, hj]]
  by_cases hy : y = b <;> simp [hy, byteBit_byteMask hi]

theorem isFree_markFree (sb : Superblock) (d : Disk) (b y : Nat) :
    (d.markFree sb b).isFree sb y = (d.isFree sb y || y == b) := by
  have hi : b % BPB % 8 < 8 := Nat.mod_lt _ (by decide)
  rw [markFree, isFree_setByte fun j hj8 hj => by simp [byteBit_not _ hj8, byteBit_byteMask hi, hj]]
  by_cases hy : y = b <;> simp [hy, byteBit_not _ hi, byteBit_byteMask hi]

theorem markInUse_data_of_ne {sb : Superblock} (h : x ≠ BBLOCK b sb) : (d.markInUse sb b).data x = d.data x :=
  setByte_data_of_ne h

theorem markFree_data_of_ne {sb : Superblock} (h : x ≠ BBLOCK b sb) : (d.markFree sb b).data x = d.data x :=
  setByte_data_of_ne h

@[simp] theorem markInUse_lh (sb : Superblock) : (d.markInUse sb b).lh = d.lh := rfl
@[simp] theorem markFree_lh (sb : Superblock) : (d.markFree sb b).lh = d.lh := rfl
@[simp] theorem markInUse_dinodes (sb : Superblock) : (d.markInUse sb b).dinodes = d.dinodes := rfl
@[simp] theorem markFree_dinodes (sb : Superblock) : (d.markFree sb b).dinodes = d.dinodes := rfl

end Disk

/-- `balloc`: allocate a zeroed disk block. Its two loops visit the blocks
`b + bi < sb.size` in increasing order, each in the free-map block of its
group of `BPB`, and take the first whose bit is clear. -/
def balloc (sb : Superblock) (d : Disk) : Except String (Nat × Disk) :=
  match (List.range sb.size).find? (d.isFree sb) with
  | none => .error "balloc: out of blocks"
  | some b => .ok (b, ((d.markInUse sb b).logWrite (BBLOCK b sb)).bzero b)

/-- `bfree`: free a disk block. -/
def bfree (sb : Superblock) (d : Disk) (b : Nat) : Except String Disk :=
  if d.isFree sb b then .error "freeing free block"
  else .ok ((d.markFree sb b).logWrite (BBLOCK b sb))

/-- **What `balloc` returns**: the first free block, with its bit set and its
data zeroed, both logged. -/
theorem balloc_ok {sb : Superblock} {d d' : Disk} {b : Nat} (h : balloc sb d = .ok (b, d')) :
    b < sb.size ∧ d.isFree sb b = true ∧ d' = ((d.markInUse sb b).logWrite (BBLOCK b sb)).bzero b := by
  unfold balloc at h
  split at h
  · cases h
  · rename_i b' hb
    cases h
    exact ⟨List.mem_range.mp (List.mem_of_find?_eq_some hb), List.find?_some hb, rfl⟩

/-- `balloc` panics only when no block is free. -/
theorem balloc_error {sb : Superblock} {d : Disk} {e : String} (h : balloc sb d = .error e) :
    e = "balloc: out of blocks" ∧ ∀ b < sb.size, d.isFree sb b = false := by
  unfold balloc at h
  split at h
  · rename_i hn
    cases h
    exact ⟨rfl, fun b hb => by simpa using List.find?_eq_none.mp hn b (List.mem_range.mpr hb)⟩
  · cases h

/-- `bmap`: the disk block address of the `bn`th block of the inode,
allocating one if there is none. -/
def bmap (sb : Superblock) (d : Disk) (ip : Inode) (bn : Nat) : Except String (Nat × Inode × Disk) :=
  if bn < NDIRECT then
    if ip.addrs bn = 0 then do
      let (addr, d) ← balloc sb d
      .ok (addr, ip.setAddr bn addr, d)
    else .ok (ip.addrs bn, ip, d)
  else if bn - NDIRECT < NINDIRECT then do
    let bn := bn - NDIRECT
    -- Load indirect block, allocating if necessary.
    let (ind, ip, d) ← if ip.addrs NDIRECT = 0 then do
        let (addr, d) ← balloc sb d
        pure (addr, ip.setAddr NDIRECT addr, d)
      else pure (ip.addrs NDIRECT, ip, d)
    let addr := wordAt 4 (d.data ind) bn
    if addr = 0 then do
      let (addr, d) ← balloc sb d
      .ok (addr, ip, (d.setWord ind bn addr).logWrite ind)
    else .ok (addr, ip, d)
  else .error "bmap: out of range"

/-- `iupdate`: copy the in-memory inode to its disk inode, and log the inode
block. -/
def iupdate (sb : Superblock) (d : Disk) (ip : Inode) : Disk :=
  ({ d with dinodes := Function.update d.dinodes ip.inum ip.toDinode } : Disk).logWrite (IBLOCK ip.inum sb)

/-- The loop of `itrunc` over the direct blocks, from `i` on. -/
def itruncDirect (sb : Superblock) : Nat → Disk → Inode → Except String (Disk × Inode)
  | 0, d, ip => .ok (d, ip)
  | k + 1, d, ip => do
    let i := NDIRECT - (k + 1)
    if ip.addrs i ≠ 0 then
      let d ← bfree sb d (ip.addrs i)
      itruncDirect sb k d (ip.setAddr i 0)
    else itruncDirect sb k d ip

/-- The loop of `itrunc` over the entries of the indirect block `ind`: each
non-zero `a[j]` is freed, read from the block as it is then. -/
def itruncIndirect (sb : Superblock) (ind : Nat) : Nat → Disk → Except String Disk
  | 0, d => .ok d
  | k + 1, d => do
    let j := NINDIRECT - (k + 1)
    let a := wordAt 4 (d.data ind) j
    if a ≠ 0 then
      let d ← bfree sb d a
      itruncIndirect sb ind k d
    else itruncIndirect sb ind k d

/-- `itrunc`: discard the contents of an inode. -/
def itrunc (sb : Superblock) (d : Disk) (ip : Inode) : Except String (Disk × Inode) := do
  let (d, ip) ← itruncDirect sb NDIRECT d ip
  let (d, ip) ← if ip.addrs NDIRECT ≠ 0 then do
      let d ← itruncIndirect sb (ip.addrs NDIRECT) NINDIRECT d
      let d ← bfree sb d (ip.addrs NDIRECT)
      pure (d, ip.setAddr NDIRECT 0)
    else pure (d, ip)
  let ip := { ip with size := 0 }
  .ok (iupdate sb d ip, ip)

/-- The loop of `readi` from `tot` bytes read, with `n` to read; `fuel`
bounds its rounds. A failed `copyout` makes `tot = -1`. -/
def readiLoop (sb : Superblock) (n : Nat) :
    Nat → Disk → Inode → Space UInt8 → (tot off dst : Nat) → Except String (Disk × Inode × Space UInt8 × Int)
  | 0, d, ip, m, tot, _, _ => .ok (d, ip, m, tot)
  | fuel + 1, d, ip, m, tot, off, dst =>
    if tot < n then do
      let (b, ip, d) ← bmap sb d ip (off / BSIZE)
      let c := min (n - tot) (BSIZE - off % BSIZE)
      let r := m.copyout PGSIZE dst (d.bytes b (off % BSIZE) c)
      if r.1 = -1 then .ok (d, ip, r.2, -1)
      else readiLoop sb n fuel d ip r.2 (tot + c) (off + c) (dst + c)
    else .ok (d, ip, m, tot)

/-- `readi` to the user address `dst`: the disk, the inode (which `bmap` may
change), the user memory, and the result. -/
def readi (sb : Superblock) (d : Disk) (ip : Inode) (m : Space UInt8) (dst : Nat) (off n : UInt32) :
    Except String (Disk × Inode × Space UInt8 × Int) :=
  if off.toNat > ip.size ∨ off + n < off then .ok (d, ip, m, 0)
  else
    let n := if off.toNat + n.toNat > ip.size then ip.size - off.toNat else n.toNat
    readiLoop sb n n d ip m 0 off.toNat dst

/-- The loop of `writei` from `tot` bytes written, with `n` to write; `fuel`
bounds its rounds. `either_copyin` moves the bytes before a failing page into
the buffer before the loop breaks, without `log_write`. Returns the disk, the
inode, `tot` and `off`. -/
def writeiLoop (sb : Superblock) (m : Space UInt8) (n : Nat) :
    Nat → Disk → Inode → (tot off src : Nat) → Except String (Disk × Inode × Nat × Nat)
  | 0, d, ip, tot, off, _ => .ok (d, ip, tot, off)
  | fuel + 1, d, ip, tot, off, src =>
    if tot < n then do
      let (b, ip, d) ← bmap sb d ip (off / BSIZE)
      let c := min (n - tot) (BSIZE - off % BSIZE)
      let r := m.copyin PGSIZE src c
      let d := d.writeBytes b (off % BSIZE) r.2
      if r.1 = -1 then .ok (d, ip, tot, off)
      else writeiLoop sb m n fuel (d.logWrite b) ip (tot + c) (off + c) (src + c)
    else .ok (d, ip, tot, off)

/-- `writei` from the user address `src`: the disk, the inode and the result. -/
def writei (sb : Superblock) (d : Disk) (ip : Inode) (m : Space UInt8) (src : Nat) (off n : UInt32) :
    Except String (Disk × Inode × Int) :=
  if off.toNat > ip.size ∨ off + n < off then .ok (d, ip, -1)
  else if off.toNat + n.toNat > MAXFILE * BSIZE then .ok (d, ip, -1)
  else do
    let (d, ip, tot, off) ← writeiLoop sb m n.toNat n.toNat d ip 0 off.toNat src
    let ip := if off > ip.size then { ip with size := off } else ip
    -- write the i-node back to disk even if the size didn't change
    .ok (iupdate sb d ip, ip, tot)

end Xv6
