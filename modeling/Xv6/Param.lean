import Mathlib

/-!
# Kernel parameters

The constants of `kernel/param.h`, `kernel/fs.h` and `kernel/riscv.h` that the
modelled code reads, under the macros' names. `nlog` is the number of log
blocks that `mkfs/mkfs.c` writes into the superblock (`int nlog = LOGSIZE`),
which is what `initlog` copies into `log.size`.
-/

namespace Xv6

/-- Maximum number of processes. -/
def NPROC : Nat := 64

instance : NeZero NPROC := ⟨by decide⟩
/-- Maximum number of blocks any file-system operation writes. -/
def MAXOPBLOCKS : Nat := 10
/-- Maximum number of data blocks in the on-disk log. -/
def LOGSIZE : Nat := MAXOPBLOCKS * 3
/-- Size of the disk block cache. -/
def NBUF : Nat := MAXOPBLOCKS * 3
/-- Size of the file system in blocks. -/
def FSSIZE : Nat := 1000

/-- Block size. -/
def BSIZE : Nat := 1024
/-- Direct block addresses in an inode. -/
def NDIRECT : Nat := 12
/-- Block addresses in an indirect block (`BSIZE / sizeof(uint)`). -/
def NINDIRECT : Nat := BSIZE / 4
/-- Largest file, in blocks. -/
def MAXFILE : Nat := NDIRECT + NINDIRECT
/-- Inodes per block (`BSIZE / sizeof(struct dinode)`, of 64 bytes). -/
def IPB : Nat := BSIZE / 64
/-- Bitmap bits per block. -/
def BPB : Nat := BSIZE * 8

/-- Bytes per page. -/
def PGSIZE : Nat := 4096

instance : NeZero PGSIZE := ⟨by decide⟩

/-- The log size `mkfs` writes: `nlog = LOGSIZE` blocks, header included. -/
def nlog : Nat := LOGSIZE

theorem LOGSIZE_eq : LOGSIZE = 30 := rfl
theorem MAXFILE_eq : MAXFILE = 268 := rfl

end Xv6
