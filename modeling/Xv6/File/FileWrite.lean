import Xv6.Fs.InodeData
import Xv6.Framework.Reach

/-!
# `fileread` and `filewrite` on an inode, and writers sharing one offset

`filewrite` on an `FD_INODE` file writes in rounds of at most
`filewriteMax` bytes, each its own transaction; in each round `writei` runs
at `f->off` under the inode's sleep-lock, and `f->off` is advanced by what
was written before the lock is released (`filewriteRound`). A whole
successful `filewrite` overwrites its `n` bytes at `f->off`
(`filewrite_ok`).

Processes that share one `struct file` (after `fork` or `dup`) interleave
their rounds (`Shared.round`, one round whole under the lock). Over every
such run the file holds, from the first offset on, the rounds' bytes in the
order they held the lock, each process's rounds are its buffer in order, and
the size is the larger of the old size and the end of the last round
(`Shared.Reachable.inv`, `shared_writes_contiguous`).
-/

namespace Xv6

open Framework

/-- `struct file` of type `FD_INODE`: the fields `fileread` and `filewrite`
read. -/
structure File where
  readable : Bool
  writable : Bool
  /-- `f->off`. -/
  off : UInt32

/-- Bytes per round of `filewrite`: `((MAXOPBLOCKS-1-1-2) / 2) * BSIZE`, so
that a round's transaction holds the inode, the indirect block, the
allocation blocks and 2 blocks of slop for non-aligned writes. -/
def filewriteMax : Nat := (MAXOPBLOCKS - 1 - 1 - 2) / 2 * BSIZE

/-- `fileread` of an inode: under `ilock`, `readi` at `f->off`, and `f->off`
advanced by what was read. -/
def fileread (sb : Superblock) (d : Disk) (ip : Inode) (f : File) (m : Space UInt8) (addr : Nat) (n : Int) :
    Except String (Disk × Inode × File × Space UInt8 × Int) :=
  if !f.readable then .ok (d, ip, f, m, -1)
  else do
    let (d, ip, m, r) ← readi sb d ip m addr f.off (UInt32.ofInt n)
    let f := if r > 0 then { f with off := f.off + UInt32.ofInt r } else f
    .ok (d, ip, f, m, r)

/-- One round of `filewrite`'s loop, between `begin_op` and `end_op`: under
`ilock`, `writei` of `n1` bytes from `addr` at `f->off`, and `f->off`
advanced by what was written before `iunlock`. -/
def filewriteRound (sb : Superblock) (d : Disk) (ip : Inode) (f : File) (m : Space UInt8) (addr n1 : Nat) :
    Except String (Disk × Inode × File × Int) := do
  let (d, ip, r) ← writei sb d ip m addr f.off (UInt32.ofNat n1)
  let f := if r > 0 then { f with off := f.off + UInt32.ofInt r } else f
  .ok (d, ip, f, r)

/-- The loop of `filewrite` from `i` bytes written, with `n` to write; `fuel`
bounds its rounds. -/
def filewriteLoop (sb : Superblock) (m : Space UInt8) (addr n : Nat) :
    Nat → Disk → Inode → File → Nat → Except String (Disk × Inode × File × Nat)
  | 0, d, ip, f, i => .ok (d, ip, f, i)
  | fuel + 1, d, ip, f, i =>
    if i < n then do
      let n1 := min (n - i) filewriteMax
      let (d, ip, f, r) ← filewriteRound sb d ip f m (addr + i) n1
      -- error from writei
      if r ≠ n1 then .ok (d, ip, f, i)
      else filewriteLoop sb m addr n fuel d ip f (i + n1)
    else .ok (d, ip, f, i)

/-- `filewrite` to an inode: `n` if every round wrote all of its bytes,
otherwise `-1`. -/
def filewrite (sb : Superblock) (d : Disk) (ip : Inode) (f : File) (m : Space UInt8) (addr : Nat) (n : Int) :
    Except String (Disk × Inode × File × Int) :=
  if !f.writable then .ok (d, ip, f, -1)
  else do
    let (d, ip, f, i) ← filewriteLoop sb m addr n.toNat n.toNat d ip f 0
    .ok (d, ip, f, if (i : Int) = n then n else -1)

/-! ## One writer -/

section Rounds

variable {sb : Superblock} {nmeta : Nat} {d d' : Disk} {ip ip' : Inode}

theorem toNat_ofInt_natCast {n : Nat} (h : n < 2 ^ 32) : (UInt32.ofInt n).toNat = n := by
  rw [UInt32.ofInt, Int.emod_eq_of_lt (by omega) (by omega), Int.toNat_natCast]
  exact UInt32.toNat_ofNat_of_lt' h

/-- **A round of `filewrite`** whose pages are accessible is `writei` of all
its `n1` bytes at `f->off`, and `f->off` advanced by `n1`. -/
theorem filewriteRound_ok (hL : Layout sb nmeta d) (hI : InodeOK sb nmeta d ip.toDinode) {f f' : File}
    {m : Space UInt8} {addr n1 : Nat} {r : Int} (hoff : f.off.toNat ≤ ip.size)
    (hend : f.off.toNat + n1 ≤ MAXFILE * BSIZE) (hok : ∀ j < n1, m.ok ((addr + j) / PGSIZE * PGSIZE) = true)
    (h : filewriteRound sb d ip f m addr n1 = .ok (d', ip', f', r)) :
    r = n1 ∧ f'.readable = f.readable ∧ f'.writable = f.writable ∧ f'.off.toNat = f.off.toNat + n1 ∧
      writei sb d ip m addr f.off (UInt32.ofNat n1) = .ok (d', ip', n1) := by
  have hmax : f.off.toNat + n1 < 2 ^ 32 := by
    simp only [MAXFILE, NDIRECT, NINDIRECT, BSIZE] at hend
    omega
  have hn1 : (UInt32.ofNat n1).toNat = n1 := UInt32.toNat_ofNat_of_lt' (by unfold UInt32.size; omega)
  unfold filewriteRound at h
  cases hw : writei sb d ip m addr f.off (UInt32.ofNat n1) with
  | error e => simp [hw, bind, Except.bind] at h
  | ok res =>
    obtain ⟨d₁, ip₁, r₁⟩ := res
    have hr : r₁ = n1 := by
      rw [(writei_ok hL hI hoff (by rw [hn1]; omega) (by rw [hn1]; exact hok) hw).1, hn1]
    simp only [hw, bind, Except.bind, Except.ok.injEq, Prod.mk.injEq] at h
    obtain ⟨rfl, rfl, rfl, rfl⟩ := h
    subst hr
    refine ⟨rfl, ?_, ?_, ?_, rfl⟩
    · split <;> rfl
    · split <;> rfl
    · split
      · rw [UInt32.toNat_add, toNat_ofInt_natCast (by omega), Nat.mod_eq_of_lt hmax]
      · omega

/-- **`filewrite`'s loop** when every page of the buffer is accessible and no
allocation fails: it writes all of `[i, n)` of the buffer in rounds, at
`f->off` on. -/
theorem filewriteLoop_spec {m : Space UInt8} {addr n : Nat} (fuel : Nat) :
    ∀ {d : Disk} {ip : Inode} {f : File} {i : Nat} {d' : Disk} {ip' : Inode} {f' : File} {i' : Nat},
      Layout sb nmeta d → InodeOK sb nmeta d ip.toDinode → f.off.toNat ≤ ip.size →
      f.off.toNat + (n - i) ≤ MAXFILE * BSIZE → n - i ≤ fuel →
      (∀ j < n - i, m.ok ((addr + i + j) / PGSIZE * PGSIZE) = true) →
      filewriteLoop sb m addr n fuel d ip f i = .ok (d', ip', f', i') →
      i' = max i n ∧ f'.writable = f.writable ∧ f'.off.toNat = f.off.toNat + (n - i) ∧
        ip'.size = max ip.size (f.off.toNat + (n - i)) ∧ Layout sb nmeta d' ∧ InodeOK sb nmeta d' ip'.toDinode ∧
        ∀ x < ip'.size, d'.byteAt ip'.toDinode x = overwrite (d.byteAt ip.toDinode) f.off.toNat (m.read (addr + i) (n - i)) x := by
  induction fuel with
  | zero =>
    intro d ip f i d' ip' f' i' hL hI hoff _ hfuel _ h
    cases h
    have hn : n - i = 0 := by omega
    refine ⟨by omega, rfl, by omega, by omega, hL, hI, fun x _ => ?_⟩
    rw [hn, Space.read, overwrite_nil]
  | succ fuel ih =>
    intro d ip f i d' ip' f' i' hL hI hoff hend hfuel hok h
    rw [filewriteLoop] at h
    by_cases hi : i < n
    · rw [if_pos hi] at h
      generalize hn1 : min (n - i) filewriteMax = n1 at h
      have hn1₀ : 0 < n1 := by rw [← hn1]; simp only [filewriteMax, MAXOPBLOCKS, BSIZE]; omega
      cases hr : filewriteRound sb d ip f m (addr + i) n1 with
      | error e => simp [hr, bind, Except.bind] at h
      | ok res =>
        obtain ⟨d₁, ip₁, f₁, r⟩ := res
        obtain ⟨rfl, -, hw₁, hoff₁, hwi⟩ := filewriteRound_ok hL hI hoff (by omega) (fun j hj => hok j (by omega)) hr
        have hn1u : (UInt32.ofNat n1).toNat = n1 := UInt32.toNat_ofNat_of_lt' (by
          unfold UInt32.size; simp only [MAXFILE, NDIRECT, NINDIRECT, BSIZE] at hend; omega)
        obtain ⟨-, hsize₁, -, -, hL₁, hI₁, -, -, -, hB₁⟩ :=
          writei_ok hL hI hoff (by rw [hn1u]; omega) (by rw [hn1u]; exact fun j hj => hok j (by omega)) hwi
        rw [hn1u] at hsize₁ hB₁
        simp only [hr, bind, Except.bind, ne_eq, not_true_eq_false, if_false] at h
        obtain ⟨e₁, hw₂, hoff₂, hsize₂, hL₂, hI₂, hB₂⟩ := ih hL₁ hI₁ (by omega) (by omega) (by omega)
          (fun j hj => by rw [show addr + (i + n1) + j = addr + i + (n1 + j) by omega]; exact hok _ (by omega)) h
        refine ⟨by omega, hw₂.trans hw₁, by omega, by omega, hL₂, hI₂, fun x hx => ?_⟩
        rw [hB₂ x hx, show n - i = n1 + (n - (i + n1)) by omega, Space.read_add, ← overwrite_append,
          Space.length_read, hoff₁, show addr + i + n1 = addr + (i + n1) by omega]
        -- outside the later rounds, the first round's bytes are the file's
        refine overwrite_congr fun hx' => hB₁ x ?_
        rw [Space.length_read] at hx'
        omega
    · rw [if_neg hi] at h
      cases h
      have hn : n - i = 0 := by omega
      refine ⟨by omega, rfl, by omega, by omega, hL, hI, fun x _ => ?_⟩
      rw [hn, Space.read, overwrite_nil]

/-- **What a successful `filewrite` does**: with its buffer's pages
accessible and no allocation failing, `write(fd, buf, n)` on a writable
inode file returns `n`, overwrites exactly `n` bytes at `f->off` and
advances `f->off` by `n`. -/
theorem filewrite_ok (hL : Layout sb nmeta d) (hI : InodeOK sb nmeta d ip.toDinode) {f f' : File}
    (hw : f.writable = true) {m : Space UInt8} {addr : Nat} {n r : Int} (hn : 0 ≤ n)
    (hoff : f.off.toNat ≤ ip.size) (hend : f.off.toNat + n.toNat ≤ MAXFILE * BSIZE)
    (hok : ∀ j < n.toNat, m.ok ((addr + j) / PGSIZE * PGSIZE) = true)
    (h : filewrite sb d ip f m addr n = .ok (d', ip', f', r)) :
    r = n ∧ f'.off.toNat = f.off.toNat + n.toNat ∧ ip'.size = max ip.size (f.off.toNat + n.toNat) ∧
      d'.content ip'.toDinode = (d.content ip.toDinode).take f.off.toNat ++ m.read addr n.toNat ++
        (d.content ip.toDinode).drop (f.off.toNat + n.toNat) := by
  unfold filewrite at h
  rw [hw, Bool.not_true, if_neg Bool.false_ne_true] at h
  cases hl : filewriteLoop sb m addr n.toNat n.toNat d ip f 0 with
  | error e => simp [hl, bind, Except.bind] at h
  | ok res =>
    obtain ⟨d₁, ip₁, f₁, i⟩ := res
    obtain ⟨hi, -, hoff₁, hsize₁, -, -, hB₁⟩ := filewriteLoop_spec n.toNat hL hI hoff (by omega) (by omega)
      (by simpa using hok) hl
    simp only [hl, bind, Except.bind, Except.ok.injEq, Prod.mk.injEq] at h
    obtain ⟨rfl, rfl, rfl, rfl⟩ := h
    simp only [Nat.sub_zero, Nat.add_zero, Nat.zero_max] at hi hoff₁ hsize₁ hB₁
    refine ⟨by rw [hi, Int.toNat_of_nonneg hn, if_pos rfl], hoff₁, hsize₁, ?_⟩
    have e := content_of_byteAt hoff (by rw [Space.length_read]; exact hsize₁) hB₁
    rwa [Space.length_read] at e

end Rounds

/-! ## Writers sharing one offset -/

/-- A process in `filewrite` on the shared file: `write(fd, buf, n)` with
`buf` at `addr` of its address space `mem`, `i` bytes of it written;
`stopped` once it left the loop after a short round. -/
structure Writer where
  mem : Space UInt8
  addr : Nat
  n : Nat
  i : Nat
  stopped : Bool

/-- A round as it ran under the inode's lock: process `p` wrote bytes
`[start, start + len)` of its buffer at `off`, the `f->off` it read. -/
structure Chunk where
  p : Fin NPROC
  off : Nat
  start : Nat
  len : Nat

/-- The bytes a round wrote, from its writer's buffer. -/
def Chunk.bytes (w : Fin NPROC → Writer) (c : Chunk) : List UInt8 :=
  (w c.p).mem.read ((w c.p).addr + c.start) c.len

/-- One inode file, its `struct file` shared by the writers, and the history
of rounds in the order they held the lock (`chunks`, not kernel state). -/
structure Shared where
  disk : Disk
  ip : Inode
  f : File
  w : Fin NPROC → Writer
  chunks : List Chunk

namespace Shared

/-- One round of process `p`'s loop in `filewrite`, whole between `ilock` and
`iunlock`; `none` if `p` has nothing left to write or the kernel panics. A
short round ends `p`'s loop. -/
def round (sb : Superblock) (s : Shared) (p : Fin NPROC) : Option Shared :=
  let w := s.w p
  if w.stopped = false ∧ w.i < w.n then
    let n1 := min (w.n - w.i) filewriteMax
    match filewriteRound sb s.disk s.ip s.f w.mem (w.addr + w.i) n1 with
    | .error _ => none
    | .ok (d, ip, f, r) =>
      if r = n1 then
        some ⟨d, ip, f, Function.update s.w p { w with i := w.i + n1 }, s.chunks ++ [⟨p, s.f.off.toNat, w.i, n1⟩]⟩
      else some ⟨d, ip, f, Function.update s.w p { w with stopped := true }, s.chunks⟩
  else none

/-- Some process runs a round. -/
def Step (sb : Superblock) (s s' : Shared) : Prop := ∃ p, s.round sb p = some s'

/-- The states that interleavings of rounds reach from `s₀`. -/
def Reachable (sb : Superblock) (s₀ s : Shared) : Prop := Framework.Reachable (· = s₀) (Step sb) s

/-- Bytes written so far, by all the writers. -/
def written (s : Shared) : Nat := ∑ p, (s.w p).i

/-- Where the writers start: a well-formed, writable inode file with its
offset inside it, no round run yet, each buffer on accessible pages and all
of them together fitting below `MAXFILE` blocks from the offset on. -/
structure Start (sb : Superblock) (nmeta : Nat) (s : Shared) : Prop where
  layout : Layout sb nmeta s.disk
  inode : InodeOK sb nmeta s.disk s.ip.toDinode
  writable : s.f.writable = true
  off_le : s.f.off.toNat ≤ s.ip.size
  fits : s.f.off.toNat + ∑ p, (s.w p).n ≤ MAXFILE * BSIZE
  copies : ∀ p, ∀ j < (s.w p).n, (s.w p).mem.ok (((s.w p).addr + j) / PGSIZE * PGSIZE) = true
  fresh : ∀ p, (s.w p).i = 0 ∧ (s.w p).stopped = false
  no_chunks : s.chunks = []

/-- What holds after any interleaving of rounds from `s₀`: the file holds,
from the first offset on, the rounds' bytes in lock order, the offset has
moved past all of them, and each writer's rounds are its buffer in order. -/
structure Inv (sb : Superblock) (nmeta : Nat) (s₀ s : Shared) : Prop where
  layout : Layout sb nmeta s.disk
  inode : InodeOK sb nmeta s.disk s.ip.toDinode
  writable : s.f.writable = true
  /-- Each process still makes the request it started with. -/
  req : ∀ p, s.w p = { s₀.w p with i := (s.w p).i }
  i_le : ∀ p, (s.w p).i ≤ (s.w p).n
  off : s.f.off.toNat = s₀.f.off.toNat + s.written
  size : s.ip.size = max s₀.ip.size s.f.off.toNat
  tiles : Tiles s₀.f.off.toNat (s.chunks.map fun c => (c.off, c.len))
  sum_len : (s.chunks.map Chunk.len).sum = s.written
  own : ∀ p, Tiles 0 ((s.chunks.filter (·.p = p)).map fun c => (c.start, c.len)) ∧
    ((s.chunks.filter (·.p = p)).map Chunk.len).sum = (s.w p).i
  len : ∀ c ∈ s.chunks, 0 < c.len ∧ c.len ≤ filewriteMax
  content : s.disk.content s.ip.toDinode = (s₀.disk.content s₀.ip.toDinode).take s₀.f.off.toNat ++
    s.chunks.flatMap (Chunk.bytes s₀.w) ++ (s₀.disk.content s₀.ip.toDinode).drop s.f.off.toNat

variable {sb : Superblock} {nmeta : Nat} {s₀ s s' : Shared}

theorem length_flatMap_bytes (w : Fin NPROC → Writer) (cs : List Chunk) :
    (cs.flatMap (Chunk.bytes w)).length = (cs.map Chunk.len).sum := by
  rw [List.length_flatMap]
  simp [Chunk.bytes]

/-- **What a round can do**: with bytes left and not stopped, `writei` of the
next `min (n - i) filewriteMax` of them at `f->off`; then either all of them
were written and a chunk is recorded, or the writer leaves its loop. -/
theorem round_cases {p : Fin NPROC} (h : s.round sb p = some s') :
    (s.w p).stopped = false ∧ (s.w p).i < (s.w p).n ∧
      ∃ d ip f r, filewriteRound sb s.disk s.ip s.f (s.w p).mem ((s.w p).addr + (s.w p).i)
          (min ((s.w p).n - (s.w p).i) filewriteMax) = .ok (d, ip, f, r) ∧
        ((r = ↑(min ((s.w p).n - (s.w p).i) filewriteMax) ∧
            s' = ⟨d, ip, f, Function.update s.w p { s.w p with i := (s.w p).i + min ((s.w p).n - (s.w p).i) filewriteMax },
              s.chunks ++ [⟨p, s.f.off.toNat, (s.w p).i, min ((s.w p).n - (s.w p).i) filewriteMax⟩]⟩) ∨
          (r ≠ ↑(min ((s.w p).n - (s.w p).i) filewriteMax) ∧
            s' = ⟨d, ip, f, Function.update s.w p { s.w p with stopped := true }, s.chunks⟩)) := by
  dsimp only [round] at h
  split at h
  · rename_i hg
    split at h
    · cases h
    · rename_i d ip f r hr
      refine ⟨hg.1, hg.2, d, ip, f, r, hr, ?_⟩
      split at h
      · exact .inl ⟨‹_›, (Option.some.inj h).symm⟩
      · exact .inr ⟨‹_›, (Option.some.inj h).symm⟩
  · cases h

namespace Inv

/-- The start is its own first state. -/
theorem init (h : Start sb nmeta s₀) : Inv sb nmeta s₀ s₀ := by
  have hw : s₀.written = 0 := Finset.sum_eq_zero fun p _ => (h.fresh p).1
  refine ⟨h.layout, h.inode, h.writable, fun p => rfl, fun p => ?_, by rw [hw]; rfl,
    (max_eq_left h.off_le).symm, ?_, ?_, fun p => ?_, ?_, ?_⟩
  · rw [(h.fresh p).1]
    exact Nat.zero_le _
  · rw [h.no_chunks]
    trivial
  · rw [h.no_chunks, hw]
    rfl
  · rw [h.no_chunks, (h.fresh p).1]
    exact ⟨trivial, rfl⟩
  · simp [h.no_chunks]
  · rw [h.no_chunks, List.flatMap_nil, List.append_nil, List.take_append_drop]

/-- Each writer's buffer, address and count are those it started with. -/
theorem writer (hI : Inv sb nmeta s₀ s) (p : Fin NPROC) :
    (s.w p).mem = (s₀.w p).mem ∧ (s.w p).addr = (s₀.w p).addr ∧ (s.w p).n = (s₀.w p).n ∧
      (s.w p).stopped = (s₀.w p).stopped := by
  rw [hI.req p]
  exact ⟨rfl, rfl, rfl, rfl⟩

/-- What is written, with what one writer has left, is at most all the
requests together. -/
theorem written_add_le (hI : Inv sb nmeta s₀ s) (p : Fin NPROC) :
    s.written + ((s.w p).n - (s.w p).i) ≤ ∑ q, (s₀.w q).n := by
  have e : ∑ q, (Function.update s.w p { s.w p with i := (s.w p).n } q).i + (s.w p).i =
      ∑ q, (s.w q).i + (s.w p).n :=
    sum_update_add Writer.i s.w p _
  have hle : ∑ q, (Function.update s.w p { s.w p with i := (s.w p).n } q).i ≤ ∑ q, (s₀.w q).n :=
    Finset.sum_le_sum fun q _ => by
      rw [← (hI.writer q).2.2.1]
      by_cases hq : q = p
      · subst hq
        rw [Function.update_self]
      · rw [Function.update_of_ne hq]
        exact hI.i_le q
  have := hI.i_le p
  unfold written
  omega

/-- **One round keeps the invariant**: it runs at the offset where every
earlier round ended, writes all of its run of the buffer there, and moves the
offset past it before the lock is released. -/
theorem round (h₀ : Start sb nmeta s₀) (hI : Inv sb nmeta s₀ s) {p : Fin NPROC}
    (h : s.round sb p = some s') : Inv sb nmeta s₀ s' := by
  obtain ⟨-, hlt, d, ip, f, r, hr, hs'⟩ := round_cases h
  obtain ⟨hmem, haddr, hn, -⟩ := hI.writer p
  generalize hn1 : min ((s.w p).n - (s.w p).i) filewriteMax = n1 at hr hs'
  have hn1le : n1 ≤ (s.w p).n - (s.w p).i := by rw [← hn1]; exact Nat.min_le_left _ _
  have hn1max : n1 ≤ filewriteMax := by rw [← hn1]; exact Nat.min_le_right _ _
  have hn1pos : 0 < n1 := by rw [← hn1]; simp only [filewriteMax, MAXOPBLOCKS, BSIZE]; omega
  -- the round's pages are among those the writer started with
  have hok : ∀ j < n1, (s.w p).mem.ok (((s.w p).addr + (s.w p).i + j) / PGSIZE * PGSIZE) = true := by
    intro j hj
    rw [hmem, haddr, Nat.add_assoc]
    exact h₀.copies p _ (by rw [← hn]; omega)
  have hend : s.f.off.toNat + n1 ≤ MAXFILE * BSIZE := by
    have := hI.written_add_le p
    have := h₀.fits
    rw [hI.off]
    omega
  have hoff : s.f.off.toNat ≤ s.ip.size := by rw [hI.size]; exact le_max_right _ _
  obtain ⟨rfl, -, hw, hoff', hwi⟩ := filewriteRound_ok hI.layout hI.inode hoff hend hok hr
  -- so the round is never short
  rcases hs' with ⟨-, rfl⟩ | ⟨hne, -⟩
  swap
  · exact absurd rfl hne
  have hn1u : (UInt32.ofNat n1).toNat = n1 := UInt32.toNat_ofNat_of_lt' (by
    unfold UInt32.size; simp only [MAXFILE, NDIRECT, NINDIRECT, BSIZE] at hend; omega)
  obtain ⟨-, hsize, -, -, hL, hIn, -⟩ :=
    writei_ok hI.layout hI.inode hoff (by rw [hn1u]; exact hend) (by rw [hn1u]; exact hok) hwi
  have hcontent := writei_content hI.layout hI.inode hoff (by rw [hn1u]; exact hend) (by rw [hn1u]; exact hok) hwi
  rw [hn1u] at hsize hcontent
  have hsum : ∑ q, (Function.update s.w p { s.w p with i := (s.w p).i + n1 } q).i = s.written + n1 := by
    have e : ∑ q, (Function.update s.w p { s.w p with i := (s.w p).i + n1 } q).i + (s.w p).i =
        ∑ q, (s.w q).i + ((s.w p).i + n1) :=
      sum_update_add Writer.i s.w p _
    unfold written
    omega
  refine ⟨hL, hIn, hw.trans hI.writable, fun q => ?_, fun q => ?_, ?_, ?_, ?_, ?_, fun q => ?_, ?_, ?_⟩
  · dsimp only
    by_cases hq : q = p
    · subst hq
      rw [Function.update_self, hI.req q]
    · rw [Function.update_of_ne hq]
      exact hI.req q
  · dsimp only
    by_cases hq : q = p
    · subst hq
      rw [Function.update_self]
      dsimp only
      omega
    · rw [Function.update_of_ne hq]
      exact hI.i_le q
  · dsimp only [written]
    rw [hsum, hoff', hI.off]
    omega
  · dsimp only
    rw [hsize, hI.size, hoff']
    omega
  · dsimp only
    rw [List.map_append, List.map_cons, List.map_nil, tiles_append_singleton, List.map_map]
    exact ⟨hI.tiles, by rw [hI.off, ← hI.sum_len]; rfl⟩
  · dsimp only [written]
    rw [List.map_append, List.sum_append, hI.sum_len, hsum]
    rfl
  · obtain ⟨ht, hq_sum⟩ := hI.own q
    dsimp only
    rw [List.filter_append, List.filter_singleton]
    by_cases hq : q = p
    · subst hq
      simp only [decide_true, cond_true, List.map_append, List.map_cons, List.map_nil, tiles_append_singleton,
        List.sum_append, Function.update_self, List.map_map]
      refine ⟨⟨ht, ?_⟩, by rw [hq_sum, List.sum_singleton]⟩
      rw [Nat.zero_add, ← hq_sum]
      rfl
    · simp only [Ne.symm hq, decide_false, cond_false, List.append_nil, Function.update_of_ne hq]
      exact ⟨ht, hq_sum⟩
  · intro c hc
    rcases List.mem_append.mp hc with hc | hc
    · exact hI.len c hc
    · rw [List.mem_singleton.mp hc]
      exact ⟨hn1pos, hn1max⟩
  · dsimp only
    have hlen : ((s₀.disk.content s₀.ip.toDinode).take s₀.f.off.toNat ++
        s.chunks.flatMap (Chunk.bytes s₀.w)).length = s.f.off.toNat := by
      rw [List.length_append, List.length_take, length_flatMap_bytes, hI.sum_len, hI.off, Disk.content,
        List.length_map, List.length_range, Nat.min_eq_left h₀.off_le]
    rw [hcontent, hI.content, List.take_left' hlen, ← List.drop_drop, List.drop_left' hlen, List.drop_drop,
      List.flatMap_append, List.flatMap_singleton, hoff']
    simp only [List.append_assoc, Chunk.bytes, hmem, haddr]

/-- Each writer's rounds, in the order they ran, are its buffer from the
start up to what it has written. -/
theorem own_bytes (hI : Inv sb nmeta s₀ s) (p : Fin NPROC) :
    (s.chunks.filter (·.p = p)).flatMap (Chunk.bytes s₀.w) = (s₀.w p).mem.read (s₀.w p).addr (s.w p).i := by
  obtain ⟨ht, hsum⟩ := hI.own p
  calc (s.chunks.filter (·.p = p)).flatMap (Chunk.bytes s₀.w)
      = ((s.chunks.filter (·.p = p)).map fun c => (c.start, c.len)).flatMap
          (fun r => (s₀.w p).mem.read ((s₀.w p).addr + r.1) r.2) := by
        rw [List.flatMap_map]
        refine List.flatMap_congr fun c hc => ?_
        rw [Chunk.bytes, of_decide_eq_true (List.mem_filter.mp hc).2]
    _ = (s₀.w p).mem.read ((s₀.w p).addr + 0) (((s.chunks.filter (·.p = p)).map fun c => (c.start, c.len)).map
          Prod.snd).sum := Space.read_tiles _ _ ht
    _ = (s₀.w p).mem.read (s₀.w p).addr (s.w p).i := by
        rw [Nat.add_zero, List.map_map, ← hsum]
        rfl

end Inv

/-- **Every interleaving of rounds keeps the invariant.** -/
theorem Reachable.inv (h₀ : Start sb nmeta s₀) (h : s₀.Reachable sb s) : Inv sb nmeta s₀ s :=
  Framework.Reachable.inv (fun _ e => by subst e; exact Inv.init h₀) (fun _ _ hI ⟨_, hs⟩ => hI.round h₀ hs) h

end Shared

/-- **Writes through a shared offset neither overlap nor get lost.** Over
every interleaving of the rounds of processes writing through one `struct
file`, from a well-formed start whose requests all fit: each round ran at
the offset where the rounds before it ended and wrote at most
`filewriteMax` bytes, no writer left its loop early, each writer's rounds are
its buffer in order, the offset has moved past every byte written, the file
holds the rounds' bytes in lock order from the first offset on, and its size
is the larger of the old size and that offset; once every writer is done,
that is the first offset plus all the requests. -/
theorem shared_writes_contiguous {sb : Superblock} {nmeta : Nat} {s₀ s : Shared} (h₀ : s₀.Start sb nmeta)
    (h : s₀.Reachable sb s) :
    Tiles s₀.f.off.toNat (s.chunks.map fun c => (c.off, c.len)) ∧
      (∀ c ∈ s.chunks, 0 < c.len ∧ c.len ≤ filewriteMax) ∧
      (∀ p, (s.w p).stopped = false ∧
        (s.chunks.filter (·.p = p)).flatMap (Chunk.bytes s₀.w) = (s₀.w p).mem.read (s₀.w p).addr (s.w p).i) ∧
      s.f.off.toNat = s₀.f.off.toNat + s.written ∧
      s.ip.size = max s₀.ip.size (s₀.f.off.toNat + s.written) ∧
      s.disk.content s.ip.toDinode = (s₀.disk.content s₀.ip.toDinode).take s₀.f.off.toNat ++
        s.chunks.flatMap (Chunk.bytes s₀.w) ++ (s₀.disk.content s₀.ip.toDinode).drop (s₀.f.off.toNat + s.written) ∧
      ((∀ p, (s.w p).i = (s.w p).n) → s.ip.size = max s₀.ip.size (s₀.f.off.toNat + ∑ p, (s₀.w p).n)) := by
  have hI := Shared.Reachable.inv h₀ h
  have hdone : (∀ p, (s.w p).i = (s.w p).n) → s.written = ∑ p, (s₀.w p).n := fun hd =>
    Finset.sum_congr rfl fun p _ => (hd p).trans (hI.writer p).2.2.1
  refine ⟨hI.tiles, hI.len, fun p => ⟨(hI.writer p).2.2.2.trans (h₀.fresh p).2, hI.own_bytes p⟩, hI.off,
    by rw [hI.size, hI.off], by rw [hI.content, hI.off], fun hd => by rw [hI.size, hI.off, hdone hd]⟩

/-- Process 0 writes five 7s from address 0, all of whose pages are
accessible, through a writable file at offset 0 of `tenByteFile`; the others
write nothing. -/
def sevensStart : Shared :=
  ⟨fullMapDisk, tenByteFile, ⟨true, true, 0⟩,
    fun p => ⟨⟨fun _ => true, fun _ => 7⟩, 0, if p = 0 then 5 else 0, 0, false⟩, []⟩

theorem sevensStart_start : sevensStart.Start fullMapSb 46 where
  layout := fullMapDisk_layout
  inode := tenByteFile_inodeOK
  writable := rfl
  off_le := by decide
  fits := by simp [sevensStart, MAXFILE, NDIRECT, NINDIRECT, BSIZE]
  copies _ _ _ := rfl
  fresh _ := ⟨rfl, rfl⟩
  no_chunks := rfl

/-- The one round of `sevensStart`: a single block copy into block 100,
nothing allocated. -/
theorem sevensStart_round : ∃ s₁, sevensStart.round fullMapSb 0 = some s₁ ∧ (∀ p, (s₁.w p).i = (s₁.w p).n) ∧
    s₁.written = 5 ∧ s₁.chunks = [⟨0, 0, 0, 5⟩] := by
  have hcopy : Space.copyin PGSIZE (⟨fun _ => true, fun _ => 7⟩ : Space UInt8) 0 5 = (0, [7, 7, 7, 7, 7]) :=
    Space.copyin_of_ok _ fun _ _ => rfl
  have hloop : writeiLoop fullMapSb ⟨fun _ => true, fun _ => 7⟩ 5 5 fullMapDisk tenByteFile 0 0 0 =
      .ok ((fullMapDisk.writeBytes 100 0 [7, 7, 7, 7, 7]).logWrite 100, tenByteFile, 5, 5) := by
    rw [writeiLoop, if_pos (by decide), Nat.zero_div, bmap_of_blockOf (by decide) (by rw [tenByteFile_blockOf]; decide),
      tenByteFile_blockOf]
    simp only [bind, Except.bind, Nat.zero_mod, show min (5 - 0) (BSIZE - 0) = 5 by decide, hcopy]
    rw [if_neg (by decide), writeiLoop, if_neg (by decide)]
  have hwrite : writei fullMapSb fullMapDisk tenByteFile ⟨fun _ => true, fun _ => 7⟩ 0 0 (UInt32.ofNat 5) =
      .ok (iupdate fullMapSb ((fullMapDisk.writeBytes 100 0 [7, 7, 7, 7, 7]).logWrite 100) tenByteFile,
        tenByteFile, 5) := by
    unfold writei
    rw [if_neg (by decide), if_neg (by decide), show (UInt32.ofNat 5).toNat = 5 from rfl,
      show (0 : UInt32).toNat = 0 from rfl, hloop]
    simp only [bind, Except.bind, show ¬(5 > tenByteFile.size) by decide, if_false]
    rfl
  have hround : sevensStart.round fullMapSb 0 = some
      ⟨iupdate fullMapSb ((fullMapDisk.writeBytes 100 0 [7, 7, 7, 7, 7]).logWrite 100) tenByteFile, tenByteFile,
        ⟨true, true, 5⟩, Function.update sevensStart.w 0 { sevensStart.w 0 with i := 5 }, [⟨0, 0, 0, 5⟩]⟩ := by
    have hwrite₀ : writei fullMapSb sevensStart.disk sevensStart.ip (sevensStart.w 0).mem
        ((sevensStart.w 0).addr + (sevensStart.w 0).i) sevensStart.f.off (UInt32.ofNat 5) = _ := hwrite
    dsimp only [Shared.round]
    rw [if_pos (by decide)]
    dsimp only [filewriteRound]
    rw [show min ((sevensStart.w 0).n - (sevensStart.w 0).i) filewriteMax = 5 by decide, hwrite₀]
    rfl
  -- process 0 has written its 5 bytes, the others had none to write
  have hw : ∀ p, (Function.update sevensStart.w 0 { sevensStart.w 0 with i := 5 } p).i = (if p = 0 then 5 else 0) ∧
      (Function.update sevensStart.w 0 { sevensStart.w 0 with i := 5 } p).n = if p = 0 then 5 else 0 := by
    intro p
    by_cases hp : p = 0
    · subst hp
      rw [Function.update_self]
      exact ⟨rfl, rfl⟩
    · rw [Function.update_of_ne hp, if_neg hp]
      exact ⟨rfl, if_neg hp⟩
  refine ⟨_, hround, fun p => ?_, ?_, rfl⟩
  · dsimp only
    rw [(hw p).1, (hw p).2]
  · dsimp only [Shared.written]
    simp only [fun p => (hw p).1, Finset.sum_ite_eq', Finset.mem_univ, if_true]

/-- One round from `sevensStart`: the five 7s land at the start of the file,
whose size stays 10. -/
theorem shared_writes_contiguous_sevens :
    ∃ s, sevensStart.Start fullMapSb 46 ∧ sevensStart.Reachable fullMapSb s ∧ s.written = 5 ∧ s.ip.size = 10 ∧
      s.disk.content s.ip.toDinode = [7, 7, 7, 7, 7, 0, 0, 0, 0, 0] := by
  obtain ⟨s₁, hr, hdone, hw, hchunks⟩ := sevensStart_round
  have hreach : sevensStart.Reachable fullMapSb s₁ := Reachable.step_mem (Reachable.init_mem rfl) ⟨0, hr⟩
  obtain ⟨-, -, -, -, -, hcontent, hsize⟩ := shared_writes_contiguous sevensStart_start hreach
  refine ⟨s₁, sevensStart_start, hreach, hw, ?_, ?_⟩
  · rw [hsize hdone]
    simp [sevensStart, tenByteFile]
  · rw [hcontent, hchunks, hw]
    decide

/-- **The size is not the first offset plus the writes.** From
`sevensStart`, 5 bytes written at offset 0 of a 10-byte file, the one writer
finishes and the file keeps its 10 bytes. -/
theorem shared_size_not_offset_sum :
    ∃ s, sevensStart.Start fullMapSb 46 ∧ sevensStart.Reachable fullMapSb s ∧ (∀ p, (s.w p).i = (s.w p).n) ∧
      s.ip.size ≠ sevensStart.f.off.toNat + ∑ p, (sevensStart.w p).n := by
  obtain ⟨s₁, hr, hdone, hw, -⟩ := sevensStart_round
  have hreach : sevensStart.Reachable fullMapSb s₁ := Reachable.step_mem (Reachable.init_mem rfl) ⟨0, hr⟩
  have hI := Shared.Reachable.inv sevensStart_start hreach
  have hn : ∑ p, (sevensStart.w p).n = 5 := by simp [sevensStart]
  refine ⟨s₁, sevensStart_start, hreach, hdone, ?_⟩
  rw [hI.size, hI.off, hw, hn]
  decide

end Xv6
