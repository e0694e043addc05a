import Xv6.Fs.Bio
import Xv6.Fs.LogTxn

/-!
# The log in the buffer cache: absorption and pinning

`log_write(b)` records `b->blockno` in `log.lh` once (absorption) and pins
`b` in the cache the first time; `install_trans(0)` unpins it after
installing it. Between the two the buffer keeps its block and its data,
because `bget` recycles only buffers with no references, so `write_log`,
which reads each logged block through the cache, copies the contents the
transaction last wrote.

`LogCache` is the cache of `bio.c` with its callers (`Bio`), the in-memory
log of `log.c` (`LogState`), the blocks' contents in the buffers and on the
disk, and where `commit()` is. Its steps are any caller's `bread` and
`brelse`, a holder's modification of a buffer followed by `log_write`,
`begin_op` and `end_op`, and the rounds of `write_log` and
`install_trans(0)`, each a run of cache calls between sleeps; `commit()`
runs outside `log.lock`, so other callers' `bread`s and `brelse`s interleave
with its rounds. The header's bytes are not modelled (`Log.lean` is about
them); its reads and writes through the cache are.

* `CacheOk`: what the cache owes the log for a list of pinned blocks, one
  pin on each block's buffer and none elsewhere, and the data the log
  expects in those buffers; each cache call keeps it (`CacheOk.bread`,
  `CacheOk.brelse`, `CacheOk.bpin`, `CacheOk.bunpin`).
* `PinInv`: the header's blocks are distinct home blocks, the blocks not
  yet installed are pinned, and the log blocks `write_log` wrote hold what
  the last `log_write` of each block recorded; every step keeps it
  (`PinInv.next`).
-/

namespace Xv6

open Framework

/-- `ROOTDEV`, the device of the file system and of its log. -/
def ROOTDEV : UInt32 := 1

/-- `sb.logstart` as `mkfs` writes it: the header block, after the boot
block and the superblock. -/
def logstart : Nat := 2

/-- Where `commit()` is. -/
inductive CommitStage
  /-- No commit is running. -/
  | idle
  /-- `write_log` has copied the first `k` blocks of the header to the log. -/
  | writeLog (k : Nat)
  /-- `write_log` is done; `write_head`, the commit point, is next. -/
  | writeHead
  /-- `install_trans(0)` has installed the first `k` blocks. -/
  | install (k : Nat)
  /-- `log.lh.n = 0; write_head()` is done; `end_op` clears
  `log.committing` next. -/
  | done
deriving DecidableEq, Repr

namespace CommitStage

/-- How many of the header's `n` blocks `write_log` has copied to the log. -/
def written (n : Nat) : CommitStage → Nat
  | .writeLog k => k
  | .writeHead | .install _ => n
  | .idle | .done => 0

/-- How many of the header's blocks `install_trans(0)` has installed and
unpinned. -/
def installed : CommitStage → Nat
  | .install k => k
  | .idle | .writeLog _ | .writeHead | .done => 0

/-- The stage agrees with the log: `commit()` runs with `log.committing` set
and no operation outstanding, and its loops stay within the header. -/
def Ok (l : LogState) : CommitStage → Prop
  | .idle => l.committing = false
  | .writeLog k => l.committing = true ∧ l.outstanding = 0 ∧ k ≤ l.lh.length
  | .writeHead => l.committing = true ∧ l.outstanding = 0
  | .install k => l.committing = true ∧ l.outstanding = 0 ∧ k ≤ l.lh.length
  | .done => l.committing = true ∧ l.outstanding = 0 ∧ l.lh = []

/-- A stage with no operation outstanding is `commit()`'s; while operations
run, none is. -/
theorem Ok.idle_of_outstanding {l : LogState} {st : CommitStage} (h : st.Ok l) (ho : 1 ≤ l.outstanding) :
    st = .idle := by
  cases st with
  | idle => rfl
  | writeLog k => exact absurd h.2.1 (by omega)
  | writeHead => exact absurd h.2 (by omega)
  | install k => exact absurd h.2.1 (by omega)
  | done => exact absurd h.2.1 (by omega)

/-- While `log.committing` is clear, no commit runs. -/
theorem Ok.idle_of_committing {l : LogState} {st : CommitStage} (h : st.Ok l) (hc : l.committing = false) :
    st = .idle := by
  cases st with
  | idle => rfl
  | writeLog k => exact absurd (hc ▸ h.1) Bool.false_ne_true
  | writeHead => exact absurd (hc ▸ h.1) Bool.false_ne_true
  | install k => exact absurd (hc ▸ h.1) Bool.false_ne_true
  | done => exact absurd (hc ▸ h.1) Bool.false_ne_true

end CommitStage

/-- The cache and its callers, the log, the blocks' contents and where
`commit()` is. -/
structure LogCache where
  bio : Bio
  log : LogState
  /-- `buf[i].data`, one value for the whole block. -/
  data : Fin NBUF → Nat
  /-- The disk's blocks. -/
  disk : Nat → Nat
  stage : CommitStage
  /-- Ghost: what the last `log_write` of each block recorded. -/
  last : Nat → Nat

/-- A step: a call by some process. -/
inductive LogCacheEv
  /-- `bread(ROOTDEV, bn)`. -/
  | bread (bn : UInt32)
  /-- `brelse(&buf[i])` by a holder. -/
  | brelse (i : Fin NBUF)
  /-- The holder of `buf[i]` writes `v` into it, then `log_write(&buf[i])`. -/
  | logWrite (i : Fin NBUF) (v : Nat)
  | beginOp
  | endOp
  /-- One round of `write_log`'s loop. -/
  | writeLog
  /-- `write_head()` after `write_log`. -/
  | writeHead
  /-- One round of `install_trans(0)`'s loop. -/
  | installTrans
  /-- `log.lh.n = 0; write_head()`. -/
  | clear
  /-- The end of `end_op` after `commit()`. -/
  | finish

namespace LogCache

/-! ## Cache calls -/

/-- `bread(ROOTDEV, bn)`: `bget`, then the block read from the disk into a
buffer that is not valid. The caller holds the buffer. -/
def bread (s : LogCache) (bn : UInt32) : Except String (LogCache × Fin NBUF) :=
  match bget ROOTDEV bn s.bio.bcache with
  | .error e => .error e
  | .ok (c, i) =>
    let holders := Function.update s.bio.holders i (s.bio.holders i + 1)
    if (c.buf i).valid then .ok ({ s with bio := ⟨c, holders, s.bio.pins⟩ }, i)
    else
      .ok ({ s with
        bio := ⟨c.modify i fun b => { b with valid := true }, holders, s.bio.pins⟩
        data := Function.update s.data i (s.disk bn.toNat) }, i)

/-- `bwrite(&buf[i])`: the buffer's data to its block on the disk. -/
@[simps] def bwrite (s : LogCache) (i : Fin NBUF) : LogCache :=
  { s with disk := Function.update s.disk (s.bio.bcache.buf i).blockno.toNat (s.data i) }

/-- `brelse(&buf[i])`. -/
@[simps] def brelse (s : LogCache) (i : Fin NBUF) : LogCache :=
  { s with bio := ⟨Xv6.brelse i s.bio.bcache, Function.update s.bio.holders i (s.bio.holders i - 1), s.bio.pins⟩ }

/-- `bpin(&buf[i])`. -/
@[simps] def bpin (s : LogCache) (i : Fin NBUF) : LogCache :=
  { s with bio := ⟨Xv6.bpin i s.bio.bcache, s.bio.holders, Function.update s.bio.pins i (s.bio.pins i + 1)⟩ }

/-- `bunpin(&buf[i])`. -/
@[simps] def bunpin (s : LogCache) (i : Fin NBUF) : LogCache :=
  { s with bio := ⟨Xv6.bunpin i s.bio.bcache, s.bio.holders, Function.update s.bio.pins i (s.bio.pins i - 1)⟩ }

/-- `memmove(buf[dst].data, buf[src].data, BSIZE)`. -/
@[simps] def copy (s : LogCache) (dst src : Fin NBUF) : LogCache :=
  { s with data := Function.update s.data dst (s.data src) }

/-! ## The log's calls -/

/-- The holder of `buf[i]` writes `v` into it; the ghost records `v` as what
the transaction last wrote to the block. -/
@[simps] def write (s : LogCache) (i : Fin NBUF) (v : Nat) : LogCache :=
  { s with
    data := Function.update s.data i v
    last := Function.update s.last (s.bio.bcache.buf i).blockno.toNat v }

/-- The in-memory log is now `l`. -/
@[simps] def setLog (s : LogCache) (l : LogState) : LogCache := { s with log := l }

/-- `commit()` is now at `st`. -/
@[simps] def setStage (s : LogCache) (st : CommitStage) : LogCache := { s with stage := st }

/-- The holder of `buf[i]` writes `v` into it and calls `log_write`, which
pins the buffer when its block is not in the header yet. -/
def logWrite (s : LogCache) (i : Fin NBUF) (v : Nat) : Except String LogCache :=
  let bn := (s.bio.bcache.buf i).blockno.toNat
  (Xv6.logWrite s.log bn).map fun l =>
    -- the loop ended at `i == log.lh.n`: the block is added, and pinned
    if s.log.lh.idxOf bn = s.log.lh.length then ((s.write i v).setLog l).bpin i else (s.write i v).setLog l

/-- A round of `write_log`'s loop: block `lh[k]` read through the cache and
copied to log block `logstart + k + 1`. -/
def writeLogRound (s : LogCache) (k : Nat) : Except String LogCache :=
  match s.bread (logstart + k + 1).toUInt32 with
  | .error e => .error e
  | .ok (s, toBuf) =>
    match s.bread (s.log.lh.getD k 0).toUInt32 with
    | .error e => .error e
    | .ok (s, fromBuf) => .ok ((((s.copy toBuf fromBuf).bwrite toBuf).brelse fromBuf).brelse toBuf)

/-- `write_head()`'s traffic through the cache: the header block read,
written and released. -/
def writeHead (s : LogCache) : Except String LogCache :=
  match s.bread logstart.toUInt32 with
  | .error e => .error e
  | .ok (s, b) => .ok ((s.bwrite b).brelse b)

/-- A round of `install_trans(0)`'s loop: log block `logstart + k + 1`
copied to its home block `lh[k]`, which is written and unpinned. -/
def installRound (s : LogCache) (k : Nat) : Except String LogCache :=
  match s.bread (logstart + k + 1).toUInt32 with
  | .error e => .error e
  | .ok (s, lbuf) =>
    match s.bread (s.log.lh.getD k 0).toUInt32 with
    | .error e => .error e
    | .ok (s, dbuf) => .ok (((((s.copy dbuf lbuf).bwrite dbuf).bunpin dbuf).brelse lbuf).brelse dbuf)

/-- The log's home blocks are outside the log: below the header or past the
`LOGSIZE` blocks from it. -/
def homeBlock (bn : Nat) : Prop := bn < logstart ∨ logstart + LOGSIZE ≤ bn

instance (bn : Nat) : Decidable (homeBlock bn) := inferInstanceAs (Decidable (_ ∨ _))

/-- One step. Calls that panic, `log_write` of a block in the log, and
`end_op` with no transaction outstanding are not steps. -/
def next (s : LogCache) : LogCacheEv → Option LogCache
  | .bread bn =>
    match s.bread bn with
    | .ok (s, _) => some s
    | .error _ => none
  | .brelse i => if s.bio.holders i = 0 then none else some (s.brelse i)
  | .logWrite i v =>
    if s.bio.holders i = 0 ∨ ¬homeBlock (s.bio.bcache.buf i).blockno.toNat then none
    else (s.logWrite i v).toOption
  | .beginOp => (beginOp s.log).map s.setLog
  | .endOp =>
    if s.log.outstanding < 1 then none else
    match endOp s.log with
    | .ok (l, true) => some ((s.setLog l).setStage (if 0 < l.lh.length then .writeLog 0 else .done))
    | .ok (l, false) => some (s.setLog l)
    | .error _ => none
  | .writeLog =>
    match s.stage with
    | .writeLog k =>
      if k < s.log.lh.length then ((s.writeLogRound k).map fun s => s.setStage (.writeLog (k + 1))).toOption else none
    | .idle | .writeHead | .install _ | .done => none
  | .writeHead =>
    match s.stage with
    | .writeLog k => if k = s.log.lh.length then (s.writeHead.map fun s => s.setStage (.install 0)).toOption else none
    | .idle | .writeHead | .install _ | .done => none
  | .installTrans =>
    match s.stage with
    | .install k =>
      if k < s.log.lh.length then ((s.installRound k).map fun s => s.setStage (.install (k + 1))).toOption else none
    | .idle | .writeLog _ | .writeHead | .done => none
  | .clear =>
    match s.stage with
    | .install k =>
      if k = s.log.lh.length then
        ((s.setLog { s.log with lh := [] }).writeHead.map fun s => s.setStage .done).toOption
      else none
    | .idle | .writeLog _ | .writeHead | .done => none
  | .finish =>
    match s.stage with
    | .done => some ((s.setLog (endOpCommit s.log)).setStage .idle)
    | .idle | .writeLog _ | .writeHead | .install _ => none

/-- After boot: the cache after `binit`, the log after `initlog`'s recovery
with its header cleared, and no commit running. -/
def boot (disk : Nat → Nat) : LogCache :=
  ⟨Bio.boot, ⟨nlog, 0, false, []⟩, fun _ => 0, disk, .idle, fun _ => 0⟩

/-! ## What the cache owes the log -/

/-- `buf[i]` caches block `bn` of the log's device. -/
def Keyed (c : BCache) (i : Fin NBUF) (bn : Nat) : Prop :=
  (c.buf i).dev = ROOTDEV ∧ (c.buf i).blockno.toNat = bn

/-- Two buffers caching one block of the log's device are one. -/
theorem Keyed.unique {c : BCache} (hd : c.Distinct) {i j : Fin NBUF} {bn : Nat} (hi : Keyed c i bn)
    (hj : Keyed c j bn) : i = j :=
  hd i j (by rw [hi.1]; decide) (hi.1.trans hj.1.symm) (UInt32.toNat_inj.1 (hi.2.trans hj.2.symm))

/-- The blocks `P` are pinned once each and their buffers hold what the
transaction last wrote to them; no other buffer is pinned. -/
structure CacheOk (s : LogCache) (P : List Nat) : Prop where
  bio : s.bio.Inv
  /-- A buffer that caches a block caches one of the log's device, and is
  valid; one that caches none is not held. -/
  dev : ∀ i, (s.bio.bcache.buf i).dev ≠ 0 → (s.bio.bcache.buf i).dev = ROOTDEV ∧ (s.bio.bcache.buf i).valid = true
  unused : ∀ i, (s.bio.bcache.buf i).dev = 0 → s.bio.holders i = 0
  pins : ∀ i, s.bio.pins i =
    if (s.bio.bcache.buf i).dev = ROOTDEV ∧ (s.bio.bcache.buf i).blockno.toNat ∈ P then 1 else 0
  cached : ∀ bn ∈ P, ∃ i, Keyed s.bio.bcache i bn ∧ s.data i = s.last bn

section CacheOk

variable {s s' : LogCache} {P : List Nat}

/-- What `bread` does: `bget`'s buffer, held once more, the block read from
the disk into it if it was not valid, and nothing else. -/
theorem bread_ok {bn : UInt32} {i : Fin NBUF} (hb : s.bread bn = .ok (s', i)) :
    ∃ c, bget ROOTDEV bn s.bio.bcache = .ok (c, i) ∧
      s'.bio.bcache = (if (c.buf i).valid then c else c.modify i fun b => { b with valid := true }) ∧
      s'.bio.holders = Function.update s.bio.holders i (s.bio.holders i + 1) ∧ s'.bio.pins = s.bio.pins ∧
      s'.data = (if (c.buf i).valid then s.data else Function.update s.data i (s.disk bn.toNat)) ∧
      s'.log = s.log ∧ s'.disk = s.disk ∧ s'.stage = s.stage ∧ s'.last = s.last := by
  unfold LogCache.bread at hb
  split at hb
  · cases hb
  next c j hget =>
    split_ifs at hb with hv <;> cases hb
    · exact ⟨c, hget, by simp [hv], rfl, rfl, by simp [hv], rfl, rfl, rfl, rfl⟩
    · exact ⟨c, hget, by simp [hv], rfl, rfl, by simp [hv], rfl, rfl, rfl, rfl⟩

/-- A `bread` of the log is a `bread` of the cache's callers. -/
theorem bread_bio {bn : UInt32} {i : Fin NBUF} (hb : s.bread bn = .ok (s', i)) :
    s.bio.next (.bread ROOTDEV bn) = some s'.bio := by
  obtain ⟨c, hget, hc, hh, hp, -⟩ := bread_ok hb
  have hbio : s'.bio = ⟨s'.bio.bcache, s'.bio.holders, s'.bio.pins⟩ := rfl
  rw [hbio, hc, hh, hp, Bio.next, if_neg (by decide), bread_eq, hget]
  dsimp only [Except.map]
  split_ifs with hv
  · rw [BCache.modify_of_eq (by rw [← hv])]
  · rfl

/-- A buffer of a pinned block is pinned once. -/
theorem CacheOk.pins_keyed (h : s.CacheOk P) {i : Fin NBUF} {bn : Nat} (hk : Keyed s.bio.bcache i bn) (hbn : bn ∈ P) :
    s.bio.pins i = 1 := by
  rw [h.pins i, if_pos ⟨hk.1, hk.2 ▸ hbn⟩]

/-- A buffer some process holds caches a block of the log's device. -/
theorem CacheOk.dev_of_held (h : s.CacheOk P) {i : Fin NBUF} (hi : s.bio.holders i ≠ 0) :
    (s.bio.bcache.buf i).dev = ROOTDEV ∧ (s.bio.bcache.buf i).valid = true :=
  h.dev i fun e => hi (h.unused i e)

/-- A call that moves no buffer to another block, changes no pin, and
leaves alone the data of the pinned blocks' buffers keeps what the cache owes
the log. -/
theorem CacheOk.of_keys (h : s.CacheOk P) (hbio : s'.bio.Inv) (hp : s'.bio.pins = s.bio.pins)
    (hk : ∀ j, (s'.bio.bcache.buf j).dev = (s.bio.bcache.buf j).dev ∧
      (s'.bio.bcache.buf j).blockno = (s.bio.bcache.buf j).blockno ∧ (s'.bio.bcache.buf j).valid = (s.bio.bcache.buf j).valid)
    (hu : ∀ j, s'.bio.holders j ≠ 0 → s.bio.holders j ≠ 0 ∨ (s.bio.bcache.buf j).dev ≠ 0)
    (hd : ∀ bn ∈ P, ∀ j, Keyed s.bio.bcache j bn → s'.data j = s.data j ∧ s'.last bn = s.last bn) :
    s'.CacheOk P where
  bio := hbio
  dev j hj := by
    rw [(hk j).1] at hj ⊢
    rw [(hk j).2.2]
    exact h.dev j hj
  unused j hj := by
    by_contra hne
    rcases hu j hne with hne' | hne'
    · exact hne' (h.unused j ((hk j).1 ▸ hj))
    · exact hne' ((hk j).1 ▸ hj)
  pins j := by rw [hp, h.pins j, (hk j).1, (hk j).2.1]
  cached bn hbn := by
    obtain ⟨j, hkj, hdj⟩ := h.cached bn hbn
    obtain ⟨e₁, e₂⟩ := hd bn hbn j hkj
    exact ⟨j, ⟨(hk j).1.trans hkj.1, by rw [(hk j).2.1]; exact hkj.2⟩, by rw [e₁, e₂, hdj]⟩

/-- A buffer recycled by `bget` had no references, so it was not a pinned
block's; it now caches `bn`, which no buffer cached. -/
theorem CacheOk.recycle (h : s.CacheOk P) (hbio : s'.bio.Inv) {bn : UInt32} {i : Fin NBUF}
    (hno : ∀ j, ¬((s.bio.bcache.buf j).dev = ROOTDEV ∧ (s.bio.bcache.buf j).blockno = bn))
    (h0 : (s.bio.bcache.buf i).refcnt = 0)
    (hc : s'.bio.bcache = (s.bio.bcache.modify i fun _ => ⟨false, ROOTDEV, bn, 1⟩).modify i fun b => { b with valid := true })
    (hp : s'.bio.pins = s.bio.pins) (hh : ∀ j, j ≠ i → s'.bio.holders j = s.bio.holders j)
    (hd : ∀ j, j ≠ i → s'.data j = s.data j) (hl : s'.last = s.last) : s'.CacheOk P := by
  have hpin0 : s.bio.pins i = 0 := by
    have := h.bio.refcnt i
    omega
  have hnp : bn.toNat ∉ P := fun hbn => by
    obtain ⟨j, hkj, -⟩ := h.cached _ hbn
    exact hno j ⟨hkj.1, UInt32.toNat_inj.1 hkj.2⟩
  have hne : ∀ bn' ∈ P, ∀ j, Keyed s.bio.bcache j bn' → j ≠ i := by
    rintro bn' hbn' j hkj rfl
    rw [h.pins_keyed hkj hbn'] at hpin0
    cases hpin0
  have hbuf : ∀ j, j ≠ i → s'.bio.bcache.buf j = s.bio.bcache.buf j := by
    intro j hj
    simp [hc, BCache.modify_buf, hj]
  have hbufi : s'.bio.bcache.buf i = ⟨true, ROOTDEV, bn, 1⟩ := by simp [hc]
  refine ⟨hbio, fun j hj => ?_, fun j hj => ?_, fun j => ?_, fun bn' hbn' => ?_⟩
  · by_cases e : j = i
    · subst e
      simp [hbufi]
    · rw [hbuf j e] at hj ⊢
      exact h.dev j hj
  · by_cases e : j = i
    · subst e
      rw [hbufi] at hj
      simp [ROOTDEV] at hj
    · rw [hbuf j e] at hj
      rw [hh j e]
      exact h.unused j hj
  · by_cases e : j = i
    · subst e
      rw [hp, hpin0, hbufi]
      simp [hnp]
    · rw [hp, hbuf j e]
      exact h.pins j
  · obtain ⟨j, hkj, hdj⟩ := h.cached bn' hbn'
    have e := hne bn' hbn' j hkj
    exact ⟨j, by rw [Keyed, hbuf j e]; exact hkj, by rw [hd j e, hl, hdj]⟩

/-- `bread` keeps what the cache owes the log. It returns a buffer of the
block, held: the one that cached it, which for a pinned block holds what the
log expects, or one that nobody held; the other buffers are as they were. -/
theorem CacheOk.bread (h : s.CacheOk P) {bn : UInt32} {i : Fin NBUF} (hb : s.bread bn = .ok (s', i)) :
    s'.CacheOk P ∧ Keyed s'.bio.bcache i bn.toNat ∧ s'.bio.holders i ≠ 0 ∧
      (bn.toNat ∈ P → s'.data i = s.last bn.toNat) ∧
      (Keyed s.bio.bcache i bn.toNat ∨ s.bio.holders i = 0) ∧
      (∀ j, j ≠ i → s'.bio.bcache.buf j = s.bio.bcache.buf j ∧ s'.data j = s.data j ∧
        s'.bio.holders j = s.bio.holders j) ∧
      s'.log = s.log ∧ s'.disk = s.disk ∧ s'.stage = s.stage ∧ s'.last = s.last := by
  obtain ⟨c, hget, hc, hh, hp, hd, hl, hdisk, hst, hlast⟩ := bread_ok hb
  have hbio : s'.bio.Inv := h.bio.next (bread_bio hb)
  obtain ⟨L, hr⟩ := h.bio.ring
  have hhi : s'.bio.holders i ≠ 0 := by simp [hh]
  have hhj : ∀ j, j ≠ i → s'.bio.holders j = s.bio.holders j := fun j e => by simp [hh, e]
  rcases hr.bget_ok hget with ⟨hdev, hbn, rfl⟩ | ⟨hno, h0, rfl⟩
  · -- the block was cached: only the buffer's count moves
    have hv : (s.bio.bcache.buf i).valid = true := (h.dev i (by rw [hdev]; decide)).2
    have hki : Keyed s.bio.bcache i bn.toNat := ⟨hdev, by rw [hbn]⟩
    simp only [BCache.modify_buf_self, Buf.incref, hv, if_true] at hc hd
    have hbuf : ∀ j, j ≠ i → s'.bio.bcache.buf j = s.bio.bcache.buf j := fun j e => by
      simp [hc, BCache.modify_buf, e]
    have hk : ∀ j, (s'.bio.bcache.buf j).dev = (s.bio.bcache.buf j).dev ∧
        (s'.bio.bcache.buf j).blockno = (s.bio.bcache.buf j).blockno ∧
        (s'.bio.bcache.buf j).valid = (s.bio.bcache.buf j).valid := fun j => by
      by_cases e : j = i
      · subst e
        simp [hc, Buf.incref]
      · rw [hbuf j e]
        exact ⟨rfl, rfl, rfl⟩
    refine ⟨h.of_keys hbio hp hk (fun j hj => ?_) (fun bn' _ j _ => ⟨by rw [hd], by rw [hlast]⟩),
      ⟨(hk i).1.trans hdev, by rw [(hk i).2.1, hbn]⟩, hhi, fun hbnP => ?_, .inl hki,
      fun j e => ⟨hbuf j e, by rw [hd], hhj j e⟩, hl, hdisk, hst, hlast⟩
    · by_cases e : j = i
      · subst e
        exact .inr (by rw [hdev]; decide)
      · exact .inl (by rwa [hhj j e] at hj)
    · obtain ⟨j, hkj, hdj⟩ := h.cached _ hbnP
      rw [hd, ← Keyed.unique h.bio.distinct hkj hki, hdj]
  · -- a buffer with no references is taken for the block and read
    have hzero : s.bio.holders i = 0 := by
      have := h.bio.refcnt i
      omega
    simp only [BCache.modify_buf_self, Bool.false_eq_true, if_false] at hc hd
    have hbuf : ∀ j, j ≠ i → s'.bio.bcache.buf j = s.bio.bcache.buf j := fun j e => by
      simp [hc, BCache.modify_buf, e]
    refine ⟨h.recycle hbio hno h0 hc hp hhj (fun j e => by simp [hd, e]) hlast,
      ⟨by simp [hc], by simp [hc]⟩, hhi, fun hbnP => ?_, .inr hzero,
      fun j e => ⟨hbuf j e, by simp [hd, e], hhj j e⟩, hl, hdisk, hst, hlast⟩
    obtain ⟨j, hkj, -⟩ := h.cached _ hbnP
    exact absurd ⟨hkj.1, UInt32.toNat_inj.1 hkj.2⟩ (hno j)

/-- `brelse` moves no buffer to another block. -/
theorem brelse_buf (i j : Fin NBUF) (c : BCache) : (Xv6.brelse i c).buf j = (c.modify i Buf.decref).buf j := by
  simp only [Xv6.brelse]
  split <;> rfl

theorem CacheOk.brelse (h : s.CacheOk P) {i : Fin NBUF} (hi : s.bio.holders i ≠ 0) : (s.brelse i).CacheOk P := by
  have hbio : Bio.next s.bio (.brelse i) = some (s.brelse i).bio := by simp [Bio.next, hi]; rfl
  refine h.of_keys (h.bio.next hbio) rfl (fun j => ?_) (fun j hj => .inl ?_) fun _ _ _ _ => ⟨rfl, rfl⟩
  · by_cases e : j = i
    · subst e
      simp [LogCache.brelse, brelse_buf, Buf.decref]
    · simp [LogCache.brelse, brelse_buf, BCache.modify_buf, e]
  · by_cases e : j = i
    · subst e
      exact hi
    · simpa [LogCache.brelse, e] using hj

/-- The data the log's calls move touch no pinned block's buffer but the one
they name, so writing a buffer keeps what the cache owes the log. -/
theorem CacheOk.write (h : s.CacheOk P) {i : Fin NBUF} (hi : (s.bio.bcache.buf i).dev = ROOTDEV) (v : Nat) :
    (s.write i v).CacheOk P where
  bio := h.bio
  dev := h.dev
  unused := h.unused
  pins := h.pins
  cached bn hbn := by
    obtain ⟨j, hkj, hdj⟩ := h.cached bn hbn
    refine ⟨j, hkj, ?_⟩
    by_cases e : j = i
    · subst e
      simp [LogCache.write, hkj.2]
    · have hne : (s.bio.bcache.buf i).blockno.toNat ≠ bn := fun hb => e (Keyed.unique h.bio.distinct hkj ⟨hi, hb⟩)
      simp [LogCache.write, e, Function.update_of_ne (Ne.symm hne), hdj]

/-- A copy into a buffer of no pinned block keeps what the cache owes the
log. -/
theorem CacheOk.copy (h : s.CacheOk P) {dst : Fin NBUF} (hd : ∀ bn ∈ P, ¬Keyed s.bio.bcache dst bn) (src : Fin NBUF) :
    (s.copy dst src).CacheOk P :=
  h.of_keys h.bio rfl (fun _ => ⟨rfl, rfl, rfl⟩) (fun _ hj => .inl hj) fun bn hbn j hkj => by
    have e : j ≠ dst := by
      rintro rfl
      exact hd bn hbn hkj
    simp [LogCache.copy, e]

theorem CacheOk.bwrite (h : s.CacheOk P) (i : Fin NBUF) : (s.bwrite i).CacheOk P :=
  ⟨h.bio, h.dev, h.unused, h.pins, h.cached⟩

theorem CacheOk.setLog (h : s.CacheOk P) (l : LogState) : (s.setLog l).CacheOk P :=
  ⟨h.bio, h.dev, h.unused, h.pins, h.cached⟩

theorem CacheOk.setStage (h : s.CacheOk P) (st : CommitStage) : (s.setStage st).CacheOk P :=
  ⟨h.bio, h.dev, h.unused, h.pins, h.cached⟩

/-- `bpin` moves no buffer to another block. -/
theorem bpin_keys (s : LogCache) (i j : Fin NBUF) : ((s.bpin i).bio.bcache.buf j).dev = (s.bio.bcache.buf j).dev ∧
    ((s.bpin i).bio.bcache.buf j).blockno = (s.bio.bcache.buf j).blockno ∧
    ((s.bpin i).bio.bcache.buf j).valid = (s.bio.bcache.buf j).valid := by
  by_cases e : j = i
  · subst e
    simp [Xv6.bpin, Buf.incref]
  · simp [Xv6.bpin, BCache.modify_buf, e]

/-- `bunpin` moves no buffer to another block. -/
theorem bunpin_keys (s : LogCache) (i j : Fin NBUF) : ((s.bunpin i).bio.bcache.buf j).dev = (s.bio.bcache.buf j).dev ∧
    ((s.bunpin i).bio.bcache.buf j).blockno = (s.bio.bcache.buf j).blockno ∧
    ((s.bunpin i).bio.bcache.buf j).valid = (s.bio.bcache.buf j).valid := by
  by_cases e : j = i
  · subst e
    simp [Xv6.bunpin, Buf.decref]
  · simp [Xv6.bunpin, BCache.modify_buf, e]

/-- `bpin` of the buffer of a block the log adds: the block is pinned too. -/
theorem CacheOk.bpin (h : s.CacheOk P) {i : Fin NBUF} {bn : Nat} (hk : Keyed s.bio.bcache i bn) (hbn : bn ∉ P)
    (hd : s.data i = s.last bn) : (s.bpin i).CacheOk (P ++ [bn]) := by
  have hkeys := bpin_keys s i
  have hbio : Bio.next s.bio (.bpin i) = some (s.bpin i).bio := rfl
  refine ⟨h.bio.next hbio, fun j hj => ?_, fun j hj => ?_, fun j => ?_, fun bn' hbn' => ?_⟩
  · rw [(hkeys j).1] at hj ⊢
    rw [(hkeys j).2.2]
    exact h.dev j hj
  · exact h.unused j (by rw [← (hkeys j).1]; exact hj)
  · rw [(hkeys j).1, (hkeys j).2.1]
    by_cases e : j = i
    · subst e
      have h0 : s.bio.pins j = 0 := by rw [h.pins j, if_neg fun hc => hbn (hk.2 ▸ hc.2)]
      simp [LogCache.bpin, h0, hk.1, hk.2]
    · have hnot : ¬((s.bio.bcache.buf j).dev = ROOTDEV ∧ (s.bio.bcache.buf j).blockno.toNat = bn) :=
        fun hc => e (Keyed.unique h.bio.distinct hc hk)
      simp only [LogCache.bpin, Function.update_of_ne e, h.pins j, List.mem_append, List.mem_singleton]
      by_cases hdev : (s.bio.bcache.buf j).dev = ROOTDEV
      · simp [hdev, show (s.bio.bcache.buf j).blockno.toNat ≠ bn from fun hb => hnot ⟨hdev, hb⟩]
      · simp [hdev]
  · rcases List.mem_append.1 hbn' with hbn' | hbn'
    · obtain ⟨j, hkj, hdj⟩ := h.cached bn' hbn'
      exact ⟨j, ⟨(hkeys j).1.trans hkj.1, by rw [(hkeys j).2.1]; exact hkj.2⟩, hdj⟩
    · rw [List.mem_singleton] at hbn'
      subst hbn'
      exact ⟨i, ⟨(hkeys i).1.trans hk.1, by rw [(hkeys i).2.1]; exact hk.2⟩, hd⟩

/-- `bunpin` of the buffer of the first pinned block: the others stay
pinned. -/
theorem CacheOk.bunpin {bn : Nat} (h : s.CacheOk (bn :: P)) {i : Fin NBUF} (hk : Keyed s.bio.bcache i bn)
    (hbn : bn ∉ P) : (s.bunpin i).CacheOk P := by
  have hpin : s.bio.pins i = 1 := h.pins_keyed hk List.mem_cons_self
  have hkeys := bunpin_keys s i
  have hbio : Bio.next s.bio (.bunpin i) = some (s.bunpin i).bio := by
    rw [Bio.next, if_neg (by rw [hpin]; decide)]
    rfl
  refine ⟨h.bio.next hbio, fun j hj => ?_, fun j hj => ?_, fun j => ?_, fun bn' hbn' => ?_⟩
  · rw [(hkeys j).1] at hj ⊢
    rw [(hkeys j).2.2]
    exact h.dev j hj
  · exact h.unused j (by rw [← (hkeys j).1]; exact hj)
  · rw [(hkeys j).1, (hkeys j).2.1]
    by_cases e : j = i
    · subst e
      simp [LogCache.bunpin, hpin, hk.1, hk.2, hbn]
    · have hnot : ¬((s.bio.bcache.buf j).dev = ROOTDEV ∧ (s.bio.bcache.buf j).blockno.toNat = bn) :=
        fun hc => e (Keyed.unique h.bio.distinct hc hk)
      simp only [LogCache.bunpin, Function.update_of_ne e, h.pins j, List.mem_cons]
      by_cases hdev : (s.bio.bcache.buf j).dev = ROOTDEV
      · simp [hdev, show (s.bio.bcache.buf j).blockno.toNat ≠ bn from fun hb => hnot ⟨hdev, hb⟩]
      · simp [hdev]
  · obtain ⟨j, hkj, hdj⟩ := h.cached bn' (List.mem_cons_of_mem _ hbn')
    exact ⟨j, ⟨(hkeys j).1.trans hkj.1, by rw [(hkeys j).2.1]; exact hkj.2⟩, hdj⟩

/-- `write_head`'s traffic keeps what the cache owes the log and writes the
header block only. -/
theorem CacheOk.writeHead (h : s.CacheOk P) (hw : s.writeHead = .ok s') :
    s'.CacheOk P ∧ (∀ b, b ≠ logstart → s'.disk b = s.disk b) ∧ s'.log = s.log ∧ s'.stage = s.stage ∧
      s'.last = s.last := by
  unfold LogCache.writeHead at hw
  split at hw
  · cases hw
  next s₁ b hb =>
    cases hw
    obtain ⟨hc, hk, hh, -, -, -, hl, hd, hst, hlast⟩ := h.bread hb
    refine ⟨(hc.bwrite b).brelse hh, fun n hn => ?_, hl, hst, hlast⟩
    have hbn : (s₁.bio.bcache.buf b).blockno.toNat = logstart := hk.2
    simp [hbn, hn, hd]

/-- A round of `write_log` keeps what the cache owes the log and writes to
the log block what the cache holds for the home block, which for a pinned
block is what the transaction last wrote. The two `bread`s return two
buffers: the first is held while the second is taken. -/
theorem CacheOk.writeLogRound (h : s.CacheOk P) {k : Nat} (hlb : logstart + k + 1 ∉ P)
    (hlb32 : logstart + k + 1 < 2 ^ 32) (hbk : s.log.lh.getD k 0 ∈ P) (hbk32 : s.log.lh.getD k 0 < 2 ^ 32)
    (hw : s.writeLogRound k = .ok s') :
    s'.CacheOk P ∧ s'.disk = Function.update s.disk (logstart + k + 1) (s.last (s.log.lh.getD k 0)) ∧
      s'.log = s.log ∧ s'.stage = s.stage ∧ s'.last = s.last := by
  unfold LogCache.writeLogRound at hw
  split at hw
  · cases hw
  next s₁ toBuf hA =>
  split at hw
  · cases hw
  next s₂ fromBuf hB =>
  cases hw
  obtain ⟨hc₁, hk₁, hh₁, -, -, -, hl₁, hd₁, hst₁, hlast₁⟩ := h.bread hA
  rw [hl₁] at hB
  obtain ⟨hc₂, hk₂, hh₂, hdata₂, hor₂, hother₂, hl₂, hd₂, hst₂, hlast₂⟩ := hc₁.bread hB
  rw [UInt32.toNat_ofNat_of_lt' hlb32] at hk₁
  rw [UInt32.toNat_ofNat_of_lt' hbk32] at hk₂ hdata₂ hor₂
  have hne : toBuf ≠ fromBuf := by
    rintro rfl
    rcases hor₂ with hk | h0
    · exact hlb (hk₁.2.symm.trans hk.2 ▸ hbk)
    · exact hh₁ h0
  obtain ⟨hbuf, -, hhold⟩ := hother₂ toBuf hne
  have hk : Keyed s₂.bio.bcache toBuf (logstart + k + 1) := by rw [Keyed, hbuf]; exact hk₁
  have hnot : ∀ bn ∈ P, ¬Keyed s₂.bio.bcache toBuf bn := fun bn hbn hkb => hlb (hk.2.symm.trans hkb.2 ▸ hbn)
  have hc₃ := ((hc₂.copy hnot fromBuf).bwrite toBuf).brelse hh₂
  refine ⟨hc₃.brelse ?_, ?_, by rw [brelse_log, brelse_log, bwrite_log, copy_log, hl₂, hl₁],
    by rw [brelse_stage, brelse_stage, bwrite_stage, copy_stage, hst₂, hst₁],
    by funext n; simp [hlast₂, hlast₁]⟩
  · simp [Function.update_of_ne hne, hhold, hh₁]
  · have hcd : (s₂.copy toBuf fromBuf).disk = s.disk := by rw [← hd₁, ← hd₂]; rfl
    funext n
    simp [hk.2, hdata₂ hbk, hcd, hlast₁]

/-- A round of `install_trans(0)` keeps what the cache owes the log for the
blocks after the one it installs, which it unpins, and writes that home
block only. -/
theorem CacheOk.installRound {bn : Nat} (h : s.CacheOk (bn :: P)) (hbnP : bn ∉ P) {k : Nat}
    (hlb : logstart + k + 1 ∉ bn :: P) (hlb32 : logstart + k + 1 < 2 ^ 32) (hbk : s.log.lh.getD k 0 = bn)
    (hbn32 : bn < 2 ^ 32) (hw : s.installRound k = .ok s') :
    s'.CacheOk P ∧ (∀ b, b ≠ bn → s'.disk b = s.disk b) ∧ s'.log = s.log ∧ s'.stage = s.stage ∧
      s'.last = s.last := by
  unfold LogCache.installRound at hw
  split at hw
  · cases hw
  next s₁ lbuf hA =>
  split at hw
  · cases hw
  next s₂ dbuf hB =>
  cases hw
  obtain ⟨hc₁, hk₁, hh₁, -, -, -, hl₁, hd₁, hst₁, hlast₁⟩ := h.bread hA
  rw [hl₁, hbk] at hB
  obtain ⟨hc₂, hk₂, hh₂, -, hor₂, hother₂, hl₂, hd₂, hst₂, hlast₂⟩ := hc₁.bread hB
  rw [UInt32.toNat_ofNat_of_lt' hlb32] at hk₁
  rw [UInt32.toNat_ofNat_of_lt' hbn32] at hk₂ hor₂
  have hne : lbuf ≠ dbuf := by
    rintro rfl
    rcases hor₂ with hk | h0
    · exact hlb (hk₁.2.symm.trans hk.2 ▸ List.mem_cons_self)
    · exact hh₁ h0
  obtain ⟨-, -, hhold⟩ := hother₂ lbuf hne
  -- after the unpin, only the data of the installed block's buffer differs
  have hc₃ : (((s₂.copy dbuf lbuf).bwrite dbuf).bunpin dbuf).CacheOk P := by
    have hY := hc₂.bunpin hk₂ hbnP
    refine hY.of_keys hY.bio rfl (fun _ => ⟨rfl, rfl, rfl⟩) (fun _ hj => .inl hj) fun bn' hbn' j hkj => ?_
    have e : j ≠ dbuf := by
      rintro rfl
      have hb : (s₂.bio.bcache.buf j).blockno.toNat = bn' := by rw [← (bunpin_keys s₂ j j).2.1]; exact hkj.2
      exact hbnP (hk₂.2.symm.trans hb ▸ hbn')
    simp [e]
  refine ⟨(hc₃.brelse (by simpa [hhold] using hh₁)).brelse ?_, fun b hb => ?_,
    by rw [brelse_log, brelse_log, bunpin_log, bwrite_log, copy_log, hl₂, hl₁],
    by rw [brelse_stage, brelse_stage, bunpin_stage, bwrite_stage, copy_stage, hst₂, hst₁],
    by funext n; simp [hlast₂, hlast₁]⟩
  · simp [Function.update_of_ne (Ne.symm hne), hh₂]
  · simp [hk₂.2, Function.update_of_ne hb, hd₂, hd₁]

end CacheOk

/-! ## The log's pins -/

/-- The header's blocks that `install_trans(0)` has not unpinned yet. -/
def pinned (s : LogCache) : List Nat := s.log.lh.drop s.stage.installed

/-- The header's blocks are distinct home blocks, those not yet installed are
pinned, and the log blocks `write_log` wrote hold what the last `log_write`
of each block recorded. -/
structure PinInv (s : LogCache) : Prop where
  cache : s.CacheOk s.pinned
  size : s.log.size = nlog
  nodup : s.log.lh.Nodup
  length : s.log.lh.length < LOGSIZE
  home : ∀ bn ∈ s.log.lh, bn < 2 ^ 32 ∧ homeBlock bn
  logged : ∀ j < s.stage.written s.log.lh.length, s.disk (logstart + 1 + j) = s.last (s.log.lh.getD j 0)
  stage : s.stage.Ok s.log

theorem PinInv.boot (disk : Nat → Nat) : (boot disk).PinInv where
  cache := ⟨Bio.Inv.boot, fun _ h => absurd rfl h, fun _ _ => rfl, fun _ => rfl, fun _ h => absurd h List.not_mem_nil⟩
  size := rfl
  nodup := List.nodup_nil
  length := show 0 < LOGSIZE by decide
  home _ h := absurd h List.not_mem_nil
  logged _ h := absurd h (Nat.not_lt_zero _)
  stage := rfl

section PinInv

variable {s s' : LogCache}

/-- A log block is no home block. -/
theorem not_home_log {k : Nat} (hk : k + 1 < LOGSIZE) : ¬homeBlock (logstart + k + 1) := by
  simp only [homeBlock]
  omega

/-- A call that changes neither the log, nor where `commit()` is, nor the
disk, nor the ghost, and keeps what the cache owes the log, keeps the
invariant. -/
theorem PinInv.of_cache (h : s.PinInv) (hc : s'.CacheOk s.pinned) (hl : s'.log = s.log) (hst : s'.stage = s.stage)
    (hd : s'.disk = s.disk) (hlast : s'.last = s.last) : s'.PinInv where
  cache := by rw [pinned, hl, hst]; exact hc
  size := hl ▸ h.size
  nodup := hl ▸ h.nodup
  length := hl ▸ h.length
  home := hl ▸ h.home
  logged := by rw [hl, hst, hd, hlast]; exact h.logged
  stage := by rw [hl, hst]; exact h.stage

/-- The log's bookkeeping changes, and `commit()` moves to a stage that has
unpinned no more and claims no more written log blocks; the header is as it
was. -/
theorem PinInv.setLogStage (h : s.PinInv) {l : LogState} {st : CommitStage} (hsize : l.size = s.log.size)
    (hlh : l.lh = s.log.lh) (hi : st.installed = s.stage.installed)
    (hw : st.written l.lh.length ≤ s.stage.written l.lh.length) (hok : st.Ok l) : ((s.setLog l).setStage st).PinInv where
  cache := by
    show CacheOk _ (l.lh.drop st.installed)
    rw [hlh, hi]
    exact (h.cache.setLog l).setStage st
  size := hsize.trans h.size
  nodup := hlh ▸ h.nodup
  length := hlh ▸ h.length
  home := hlh ▸ h.home
  logged j hj := by
    have hj' : j < st.written l.lh.length := hj
    show s.disk _ = s.last (l.lh.getD j 0)
    rw [hlh] at hw hj' ⊢
    exact h.logged j (lt_of_lt_of_le hj' hw)
  stage := hok

/-- The log's bookkeeping changes, the header and the stage do not. -/
theorem PinInv.setLog (h : s.PinInv) {l : LogState} (hsize : l.size = s.log.size) (hlh : l.lh = s.log.lh)
    (hok : s.stage.Ok l) : (s.setLog l).PinInv :=
  h.setLogStage hsize hlh rfl le_rfl hok

theorem PinInv.bread (h : s.PinInv) {bn : UInt32} (hs : s.next (.bread bn) = some s') : s'.PinInv := by
  simp only [next] at hs
  split at hs
  next s₁ i hb =>
    cases hs
    obtain ⟨hc, -, -, -, -, -, hl, hd, hst, hlast⟩ := h.cache.bread hb
    exact h.of_cache hc hl hst hd hlast
  · cases hs

theorem PinInv.brelse (h : s.PinInv) {i : Fin NBUF} (hs : s.next (.brelse i) = some s') : s'.PinInv := by
  simp only [next] at hs
  split_ifs at hs with hi
  cases hs
  exact h.of_cache (h.cache.brelse hi) rfl rfl rfl rfl

/-- With no commit running, the invariant asks only for the header and the
pins of its blocks. -/
theorem PinInv.of_idle (hst : s.stage = .idle) (hc : s.CacheOk s.log.lh) (hsize : s.log.size = nlog)
    (hnodup : s.log.lh.Nodup) (hlen : s.log.lh.length < LOGSIZE) (hhome : ∀ bn ∈ s.log.lh, bn < 2 ^ 32 ∧ homeBlock bn)
    (hcomm : s.log.committing = false) : s.PinInv where
  cache := by rw [pinned, hst]; exact hc
  size := hsize
  nodup := hnodup
  length := hlen
  home := hhome
  logged j hj := by
    rw [hst] at hj
    exact absurd hj (Nat.not_lt_zero j)
  stage := by rw [hst]; exact hcomm

/-- A `log_write` that returns ran inside a transaction, with room in the
header. -/
theorem logWrite_guard {l l' : LogState} {b : Nat} (h : Xv6.logWrite l b = .ok l') :
    1 ≤ l.outstanding ∧ (l.lh.length : Int) < l.size - 1 := by
  simp only [Xv6.logWrite] at h
  split_ifs at h with h₁ h₂ <;> cases h <;> omega

/-- What a `log_write` step is: a holder's write to a buffer of a home block,
then `log_write`, which pins the buffer when the block is new to the header. -/
theorem next_logWrite {i : Fin NBUF} {v : Nat} (hs : s.next (.logWrite i v) = some s') :
    s.bio.holders i ≠ 0 ∧ homeBlock (s.bio.bcache.buf i).blockno.toNat ∧
      ∃ l, Xv6.logWrite s.log (s.bio.bcache.buf i).blockno.toNat = .ok l ∧
        s' = if s.log.lh.idxOf (s.bio.bcache.buf i).blockno.toNat = s.log.lh.length then
          ((s.write i v).setLog l).bpin i else (s.write i v).setLog l := by
  simp only [next] at hs
  split_ifs at hs with hg
  rw [not_or, not_not] at hg
  refine ⟨hg.1, hg.2, ?_⟩
  cases hw : Xv6.logWrite s.log (s.bio.bcache.buf i).blockno.toNat with
  | error e => simp [LogCache.logWrite, hw, Except.map, Except.toOption] at hs
  | ok l =>
    simp only [LogCache.logWrite, hw, Except.map, Except.toOption, Option.some.injEq] at hs
    exact ⟨l, rfl, hs.symm⟩

/-- `log_write` runs only while no commit does. -/
theorem PinInv.logWrite (h : s.PinInv) {i : Fin NBUF} {v : Nat} (hs : s.next (.logWrite i v) = some s') :
    s'.PinInv := by
  obtain ⟨hheld, hhome, l, hw, rfl⟩ := next_logWrite hs
  set bn := (s.bio.bcache.buf i).blockno.toNat with hbn
  obtain ⟨hout, hroom⟩ := logWrite_guard hw
  obtain ⟨hsize, -, hcomm, hlh⟩ := logWrite_lh hw
  have hidle : s.stage = .idle := h.stage.idle_of_outstanding hout
  have hP : s.pinned = s.log.lh := by rw [pinned, hidle]; rfl
  have hc : (s.write i v).CacheOk s.log.lh := hP ▸ h.cache.write (h.cache.dev_of_held hheld).1 v
  have hlen : l.lh.length < LOGSIZE := by
    have : (l.lh.length : Int) ≤ s.log.lh.length + 1 := by
      rw [hlh]
      split_ifs <;> simp
    rw [hsize, h.size] at *
    simp only [nlog] at hroom
    omega
  have hnodup : l.lh.Nodup := by
    rw [hlh]
    split_ifs with hmem
    · exact h.nodup
    · exact h.nodup.append (List.nodup_singleton bn) (List.disjoint_singleton.2 hmem)
  have hhome : ∀ b ∈ l.lh, b < 2 ^ 32 ∧ homeBlock b := by
    intro b hb
    rw [hlh] at hb
    split_ifs at hb
    · exact h.home b hb
    · rcases List.mem_append.1 hb with hb | hb
      · exact h.home b hb
      · rw [List.mem_singleton.1 hb]
        exact ⟨UInt32.toNat_lt _, hhome⟩
  have hcomm' : l.committing = false := by
    have := h.stage
    rw [hidle] at this
    rw [hcomm, this]
  split_ifs with hidx
  · -- a miss: the block is added to the header and its buffer pinned
    have hmem : bn ∉ s.log.lh := List.idxOf_eq_length_iff.1 hidx
    have hk : Keyed ((s.write i v).setLog l).bio.bcache i bn := ⟨(h.cache.dev_of_held hheld).1, hbn.symm⟩
    have hc' := (hc.setLog l).bpin hk hmem (by simp [hbn])
    refine PinInv.of_idle (by simp [hidle]) ?_ (hsize.trans h.size) hnodup hlen hhome hcomm'
    rw [bpin_log, setLog_log, hlh, if_neg hmem]
    exact hc'
  · -- absorbed: the header and the pins are as they were
    have hmem : bn ∈ s.log.lh := by
      by_contra hmem
      exact hidx (List.idxOf_eq_length_iff.2 hmem)
    refine PinInv.of_idle (by simp [hidle]) ?_ (hsize.trans h.size) hnodup hlen hhome hcomm'
    rw [setLog_log, hlh, if_pos hmem]
    exact hc.setLog l

theorem PinInv.beginOp (h : s.PinInv) (hs : s.next .beginOp = some s') : s'.PinInv := by
  simp only [next] at hs
  obtain ⟨l, hb, rfl⟩ := Option.map_eq_some_iff.1 hs
  simp only [Xv6.beginOp] at hb
  split_ifs at hb with hcomm hroom
  cases hb
  have hcomm' : s.log.committing = false := by simpa using hcomm
  have hidle : s.stage = .idle := h.stage.idle_of_committing hcomm'
  exact h.setLog rfl rfl (by rw [hidle]; exact hcomm')

/-- What `end_op`'s critical section does to the log when it returns: one
operation fewer, and the flag set exactly when it was the last. -/
theorem endOp_ok {l l' : LogState} {c : Bool} (h : Xv6.endOp l = .ok (l', c)) :
    l'.size = l.size ∧ l'.lh = l.lh ∧ l'.outstanding = l.outstanding - 1 ∧ l'.committing = c ∧
      (c = true ↔ l'.outstanding = 0) := by
  simp only [Xv6.endOp] at h
  split_ifs at h with h₁ h₂ <;> cases h
  · exact ⟨rfl, rfl, rfl, rfl, by simpa using h₂⟩
  · exact ⟨rfl, rfl, rfl, by simpa using h₁, by simpa using h₂⟩

theorem PinInv.endOp (h : s.PinInv) (hs : s.next .endOp = some s') : s'.PinInv := by
  simp only [next] at hs
  split_ifs at hs with hout
  have hidle : s.stage = .idle := h.stage.idle_of_outstanding (by omega)
  split at hs
  next l hend =>
    -- the last operation out commits
    cases hs
    obtain ⟨hsize, hlh, hl0, hcomm, hzero⟩ := endOp_ok hend
    have hz : l.outstanding = 0 := hzero.1 rfl
    split_ifs with hn
    · exact h.setLogStage hsize hlh (by rw [hidle]; rfl) (by rw [hidle]; exact le_rfl) ⟨hcomm, hz, Nat.zero_le _⟩
    · exact h.setLogStage hsize hlh (by rw [hidle]; rfl) (by rw [hidle]; exact le_rfl)
        ⟨hcomm, hz, List.eq_nil_of_length_eq_zero (by omega)⟩
  next l hend =>
    cases hs
    obtain ⟨hsize, hlh, -, hcomm, -⟩ := endOp_ok hend
    exact h.setLog hsize hlh (by rw [hidle]; exact hcomm)
  · cases hs

theorem PinInv.finish (h : s.PinInv) (hs : s.next .finish = some s') : s'.PinInv := by
  simp only [next] at hs
  split at hs
  next hdone =>
    cases hs
    have hok := h.stage
    rw [hdone] at hok
    obtain ⟨-, hcomm, hnil⟩ := LogInv.endOpCommit_eq s.log
    have hsize : (endOpCommit s.log).size = s.log.size := by
      simp only [endOpCommit]
      split_ifs <;> rfl
    exact h.setLogStage hsize (hnil.trans hok.2.2.symm) (by rw [hdone]; rfl) (by rw [hdone]; exact le_rfl) hcomm
  all_goals cases hs

/-- A round of `commit()`: the log as it was, `commit()` moved on to `st`,
and the cache and the log blocks as `st` asks. -/
theorem PinInv.round (h : s.PinInv) {st : CommitStage} (hl : s'.log = s.log) (hst : s'.stage = st)
    (hc : s'.CacheOk (s.log.lh.drop st.installed)) (hok : st.Ok s.log)
    (hlogged : ∀ j < st.written s.log.lh.length, s'.disk (logstart + 1 + j) = s'.last (s.log.lh.getD j 0)) :
    s'.PinInv where
  cache := by rw [pinned, hl, hst]; exact hc
  size := hl ▸ h.size
  nodup := hl ▸ h.nodup
  length := hl ▸ h.length
  home := hl ▸ h.home
  logged := by rw [hl, hst]; exact hlogged
  stage := by rw [hl, hst]; exact hok

/-- A log block `write_log` or `install_trans(0)` reads is no block of the
header. -/
theorem PinInv.log_not_mem (h : s.PinInv) {k : Nat} (hk : k < s.log.lh.length) : logstart + k + 1 ∉ s.log.lh :=
  fun hm => not_home_log (by have := h.length; omega) (h.home _ hm).2

theorem PinInv.writeLog (h : s.PinInv) (hs : s.next .writeLog = some s') : s'.PinInv := by
  simp only [next] at hs
  split at hs
  next k hst =>
    split_ifs at hs with hk
    cases hw : s.writeLogRound k with
    | error e => simp [hw, Except.map, Except.toOption] at hs
    | ok s₁ =>
      simp only [hw, Except.map, Except.toOption, Option.some.injEq] at hs
      subst hs
      have hok := h.stage
      rw [hst] at hok
      have hP : s.pinned = s.log.lh.drop 0 := by rw [pinned, hst]; rfl
      have hbk : s.log.lh.getD k 0 ∈ s.log.lh := by
        rw [List.getD_eq_getElem _ _ hk]
        exact List.getElem_mem hk
      obtain ⟨hc, hd, hl, -, hlast⟩ := (hP ▸ h.cache).writeLogRound (by simpa using h.log_not_mem hk)
        (by have := h.length; simp only [logstart, LOGSIZE, MAXOPBLOCKS] at *; omega) (by simpa using hbk)
        (h.home _ hbk).1 hw
      refine h.round hl rfl (hc.setStage _) ⟨hok.1, hok.2.1, hk⟩ fun j hj => ?_
      have hj : j < k + 1 := hj
      simp only [setStage_disk, setStage_last, hd, hlast]
      rcases Nat.lt_succ_iff_lt_or_eq.1 hj with hj | rfl
      · -- the blocks written before this round are as they were
        rw [Function.update_of_ne (by omega)]
        exact h.logged j (by rw [hst]; exact hj)
      · rw [show logstart + 1 + j = logstart + j + 1 by omega, Function.update_self]
  all_goals cases hs

theorem PinInv.writeHead (h : s.PinInv) (hs : s.next .writeHead = some s') : s'.PinInv := by
  simp only [next] at hs
  split at hs
  next k hst =>
    split_ifs at hs with hk
    cases hw : s.writeHead with
    | error e => simp [hw, Except.map, Except.toOption] at hs
    | ok s₁ =>
      simp only [hw, Except.map, Except.toOption, Option.some.injEq] at hs
      subst hs
      have hok := h.stage
      rw [hst] at hok
      have hP : s.pinned = s.log.lh.drop 0 := by rw [pinned, hst]; rfl
      obtain ⟨hc, hd, hl, -, hlast⟩ := (hP ▸ h.cache).writeHead hw
      refine h.round hl rfl (hc.setStage _) ⟨hok.1, hok.2.1, Nat.zero_le _⟩ fun j hj => ?_
      have hj : j < s.log.lh.length := hj
      simp only [setStage_disk, setStage_last, hlast]
      rw [hd _ (by omega)]
      exact h.logged j (by rw [hst]; exact hk ▸ hj)
  all_goals cases hs

theorem PinInv.installTrans (h : s.PinInv) (hs : s.next .installTrans = some s') : s'.PinInv := by
  simp only [next] at hs
  split at hs
  next k hst =>
    split_ifs at hs with hk
    cases hw : s.installRound k with
    | error e => simp [hw, Except.map, Except.toOption] at hs
    | ok s₁ =>
      simp only [hw, Except.map, Except.toOption, Option.some.injEq] at hs
      subst hs
      have hok := h.stage
      rw [hst] at hok
      -- the blocks not yet installed are this round's and those after it
      have hdrop : s.pinned = s.log.lh[k] :: s.log.lh.drop (k + 1) := by
        rw [pinned, hst]
        exact List.drop_eq_getElem_cons hk
      have hnd : (s.log.lh[k] :: s.log.lh.drop (k + 1)).Nodup := hdrop ▸ h.nodup.sublist (List.drop_sublist _ _)
      have hbk : s.log.lh.getD k 0 = s.log.lh[k] := List.getD_eq_getElem _ _ hk
      have hhome := h.home _ (List.getElem_mem hk)
      obtain ⟨hc, hd, hl, -, hlast⟩ := (hdrop ▸ h.cache).installRound (List.nodup_cons.1 hnd).1
        (fun hm => h.log_not_mem hk (List.mem_of_mem_drop (by rw [List.drop_eq_getElem_cons hk]; exact hm)))
        (by have := h.length; simp only [logstart, LOGSIZE, MAXOPBLOCKS] at *; omega) hbk hhome.1 hw
      refine h.round hl rfl (hc.setStage _) ⟨hok.1, hok.2.1, hk⟩ fun j hj => ?_
      have hj : j < s.log.lh.length := hj
      simp only [setStage_disk, setStage_last, hlast]
      -- a log block is not the home block installed
      have hne : logstart + 1 + j ≠ s.log.lh[k] := fun e => not_home_log
        (show j + 1 < LOGSIZE by have := h.length; omega) (by rw [show logstart + j + 1 = logstart + 1 + j by omega, e]; exact hhome.2)
      rw [hd _ hne]
      exact h.logged j (by rw [hst]; exact hj)
  all_goals cases hs

theorem PinInv.clear (h : s.PinInv) (hs : s.next .clear = some s') : s'.PinInv := by
  simp only [next] at hs
  split at hs
  next k hst =>
    split_ifs at hs with hk
    cases hw : (s.setLog { s.log with lh := [] }).writeHead with
    | error e => simp [hw, Except.map, Except.toOption] at hs
    | ok s₁ =>
      simp only [hw, Except.map, Except.toOption, Option.some.injEq] at hs
      subst hs
      have hok := h.stage
      rw [hst] at hok
      -- every block was installed and unpinned
      have hnil : s.pinned = [] := by
        rw [pinned, hst]
        exact List.drop_of_length_le hk.ge
      obtain ⟨hc, -, hl, -, -⟩ := ((hnil ▸ h.cache).setLog { s.log with lh := [] }).writeHead hw
      exact {
        cache := by rw [pinned, setStage_log, hl]; exact hc.setStage _
        size := by rw [setStage_log, hl]; exact h.size
        nodup := by rw [setStage_log, hl]; exact List.nodup_nil
        length := by rw [setStage_log, hl]; exact show 0 < LOGSIZE by decide
        home := by rw [setStage_log, hl]; exact fun _ hb => absurd hb List.not_mem_nil
        logged := fun _ hj => absurd hj (Nat.not_lt_zero _)
        stage := by rw [setStage_log, setStage_stage, hl]; exact ⟨hok.1, hok.2.1, rfl⟩ }
  all_goals cases hs

/-- **Every step keeps the invariant.** -/
theorem PinInv.next (h : s.PinInv) {ev : LogCacheEv} (hs : s.next ev = some s') : s'.PinInv := by
  cases ev with
  | bread bn => exact h.bread hs
  | brelse i => exact h.brelse hs
  | logWrite i v => exact h.logWrite hs
  | beginOp => exact h.beginOp hs
  | endOp => exact h.endOp hs
  | writeLog => exact h.writeLog hs
  | writeHead => exact h.writeHead hs
  | installTrans => exact h.installTrans hs
  | clear => exact h.clear hs
  | finish => exact h.finish hs

end PinInv

def Step (s s' : LogCache) : Prop := ∃ ev, s.next ev = some s'

def Reachable (s : LogCache) : Prop := Framework.Reachable (fun s => ∃ disk, s = boot disk) Step s

theorem Reachable.inv {s : LogCache} (h : s.Reachable) : s.PinInv := by
  refine Framework.Reachable.inv (fun s ⟨disk, e⟩ => e ▸ PinInv.boot disk) (fun s s' hi hs => ?_) h
  obtain ⟨ev, hev⟩ := hs
  exact hi.next hev

end LogCache

end Xv6
