import Xv6.Param
import Xv6.Framework.LittleEndian
import Xv6.Framework.Writes

/-!
# The write-ahead log on the disk

The disk maps block numbers to blocks (`Block`, the bytes of `buf.data`) and
applies each `bwrite` atomically, in issue order (`Framework.applyWrites`).
`Bcache` is the disk as the log code sees it through the buffer cache:
`bread`'s data for every block (`view`: the cached copy, the disk's where
there is none) and the writes issued so far. A crash after `k` of them leaves
the disk with the first `k` applied and loses the cache; the next boot reads
the disk (`Bcache.boot`).

The header at `log.start` is `struct logheader`: `n`, then `block[0..n)`,
4-byte little-endian `int`s (`encodeHead`, `decodeHead`; `decodeHead_encodeHead`).
`writeLog`, `installTrans`, `readHead`, `writeHead`, `commit` and
`recoverFromLog` follow `log.c`, with `log.start` and the in-memory
`log.lh.block[0..n)` as arguments. Their spec lemmas give the writes each
issues (`commit_issued`, `recoverFromLog_issued`).
-/

namespace Xv6

open Framework

/-- The contents of a disk block, `uchar data[BSIZE]`. -/
abbrev Block := List UInt8

/-- `struct logheader` written over the first bytes of block `data`: `n`, then
`block[0..n)`. -/
def encodeHead (lh : List Nat) (data : Block) : Block :=
  let img := leBytes 4 lh.length ++ wordsBytes 4 lh
  img ++ data.drop img.length

/-- The `n` field of a header block. -/
def headCount (data : Block) : Nat := leValue (data.take 4)

/-- The block numbers `read_head` takes from a header block; a negative `n`
gives none. -/
def decodeHead (data : Block) : List Nat :=
  let n := headCount data
  bytesWords 4 (if n < 2 ^ 31 then n else 0) (data.drop 4)

theorem headCount_encodeHead {lh : List Nat} (h : lh.length < 2 ^ 32) (data : Block) :
    headCount (encodeHead lh data) = lh.length := by
  simp only [headCount, encodeHead, List.append_assoc, List.take_left' (length_leBytes 4 _)]
  exact leValue_leBytes_of_lt (lt_of_lt_of_eq h (by norm_num))

@[simp] theorem headCount_encodeHead_nil (data : Block) : headCount (encodeHead [] data) = 0 :=
  headCount_encodeHead (by decide) data

/-- A header whose `n` is 0 names no block. -/
theorem decodeHead_of_headCount {data : Block} (h : headCount data = 0) : decodeHead data = [] := by
  simp [decodeHead, h, bytesWords]

/-- A header written and read back gives the block numbers, for at most
`LOGSIZE` `uint` block numbers. -/
theorem decodeHead_encodeHead {lh : List Nat} (hn : lh.length ≤ LOGSIZE) (hb : ∀ b ∈ lh, b < 2 ^ 32)
    (data : Block) : decodeHead (encodeHead lh data) = lh := by
  have hlen : lh.length < 2 ^ 31 := by rw [LOGSIZE_eq] at hn; omega
  rw [decodeHead]
  simp only [headCount_encodeHead (by omega : lh.length < 2 ^ 32), if_pos hlen]
  simp only [encodeHead, List.append_assoc, List.drop_left' (length_leBytes 4 _), bytesWords_wordsBytes_append]
  conv_rhs => rw [← List.map_id lh]
  exact List.map_congr_left fun b hb' => Nat.mod_eq_of_lt (hb b hb')

@[simp] theorem decodeHead_encodeHead_nil (data : Block) : decodeHead (encodeHead [] data) = [] :=
  decodeHead_encodeHead (by decide) (by simp) data

/-- The disk through the buffer cache. -/
structure Bcache where
  /-- What `bread` returns for each block. -/
  view : Nat → Block
  /-- The `bwrite`s issued so far, in order. -/
  issued : List (Nat × Block)

namespace Bcache

/-- The cache at boot: empty, so `bread` reads the disk. -/
def boot (d : Nat → Block) : Bcache := ⟨d, []⟩

/-- `bread(dev, b)->data`. -/
def bread (c : Bcache) (b : Nat) : Block := c.view b

/-- `bwrite` of the buffer of block `b` holding `v`. -/
def bwrite (c : Bcache) (b : Nat) (v : Block) : Bcache :=
  ⟨Function.update c.view b v, c.issued ++ [(b, v)]⟩

/-- `c` after issuing the writes `ws`. -/
def issue (c : Bcache) (ws : List (Nat × Block)) : Bcache := ⟨applyWrites c.view ws, c.issued ++ ws⟩

theorem bwrite_eq_issue (c : Bcache) (b : Nat) (v : Block) : c.bwrite b v = c.issue [(b, v)] := rfl

@[simp] theorem issue_nil (c : Bcache) : c.issue [] = c := by simp [issue]

theorem issue_issue (c : Bcache) (ws vs : List (Nat × Block)) : (c.issue ws).issue vs = c.issue (ws ++ vs) := by
  simp [issue, applyWrites_append]

@[simp] theorem issue_view (c : Bcache) (ws : List (Nat × Block)) : (c.issue ws).view = applyWrites c.view ws := rfl

@[simp] theorem issue_issued (c : Bcache) (ws : List (Nat × Block)) : (c.issue ws).issued = c.issued ++ ws := rfl

end Bcache

/-- `write_log()` from `tail` on: each block of the transaction, read through
the cache, copied to its log block `start + tail + 1`. -/
def writeLog (start : Nat) : Nat → List Nat → Bcache → Bcache
  | _, [], c => c
  | tail, b :: bs, c => writeLog start (tail + 1) bs (c.bwrite (start + tail + 1) (c.bread b))

/-- `install_trans()` from `tail` on: log block `start + tail + 1` copied to
its home block. -/
def installTrans (start : Nat) : Nat → List Nat → Bcache → Bcache
  | _, [], c => c
  | tail, b :: bs, c => installTrans start (tail + 1) bs (c.bwrite b (c.bread (start + tail + 1)))

/-- `read_head()`. -/
def readHead (start : Nat) (c : Bcache) : List Nat := decodeHead (c.bread start)

/-- `write_head()` of the in-memory header `lh`. -/
def writeHead (start : Nat) (lh : List Nat) (c : Bcache) : Bcache :=
  c.bwrite start (encodeHead lh (c.bread start))

/-- `commit()` of the transaction `lh`. -/
def commit (start : Nat) (lh : List Nat) (c : Bcache) : Bcache :=
  if 0 < lh.length then
    let c := writeLog start 0 lh c
    let c := writeHead start lh c
    let c := installTrans start 0 lh c
    writeHead start [] c
  else c

/-- `recover_from_log()`, which `initlog` runs at boot. -/
def recoverFromLog (start : Nat) (c : Bcache) : Bcache :=
  let lh := readHead start c
  let c := installTrans start 0 lh c
  writeHead start [] c

/-! ## The writes each routine issues -/

/-- The writes of `write_log()` from `tail` on: `vs` to the log blocks. -/
def slotWrites (start : Nat) : Nat → List Block → List (Nat × Block)
  | _, [] => []
  | tail, v :: vs => (start + tail + 1, v) :: slotWrites start (tail + 1) vs

/-- The writes of `install_trans()` from `tail` on, reading the log blocks in `view`. -/
def homeWrites (start : Nat) (view : Nat → Block) : Nat → List Nat → List (Nat × Block)
  | _, [] => []
  | tail, b :: bs => (b, view (start + tail + 1)) :: homeWrites start view (tail + 1) bs

section Writes

variable {start : Nat}

@[simp] theorem length_slotWrites (tail : Nat) (vs : List Block) : (slotWrites start tail vs).length = vs.length := by
  induction vs generalizing tail with
  | nil => rfl
  | cons v vs ih => simp [slotWrites, ih]

theorem mem_slotWrites {tail : Nat} {vs : List Block} {w : Nat × Block} (h : w ∈ slotWrites start tail vs) :
    start + tail + 1 ≤ w.1 ∧ w.1 < start + tail + 1 + vs.length := by
  induction vs generalizing tail with
  | nil => cases h
  | cons v vs ih =>
    rcases List.mem_cons.1 h with rfl | h
    · simp
    · have := ih h
      simp only [List.length_cons]
      omega

/-- After `write_log()`'s writes, log block `i` holds the `i`-th block. -/
theorem applyWrites_slotWrites (d : Nat → Block) (tail : Nat) (vs : List Block) {i : Nat} (hi : i < vs.length) :
    applyWrites d (slotWrites start tail vs) (start + tail + 1 + i) = vs[i] := by
  induction vs generalizing d tail i with
  | nil => cases hi
  | cons v vs ih =>
    rw [slotWrites, applyWrites_cons]
    rcases i with _ | i
    · rw [applyWrites_of_forall_ne fun w hw => by have := mem_slotWrites hw; omega]
      simp
    · have := ih (Function.update d (start + tail + 1) v) (tail + 1) (i := i) (by simpa using hi)
      rw [show start + (tail + 1) + 1 + i = start + tail + 1 + (i + 1) by omega] at this
      simpa using this

theorem mem_homeWrites {view : Nat → Block} {tail : Nat} {bs : List Nat} {w : Nat × Block}
    (h : w ∈ homeWrites start view tail bs) : w.1 ∈ bs := by
  induction bs generalizing tail with
  | nil => cases h
  | cons b bs ih =>
    rcases List.mem_cons.1 h with rfl | h
    · exact List.mem_cons_self
    · exact List.mem_cons_of_mem _ (ih h)

/-- `install_trans()` reads only the log blocks of the transaction. -/
theorem homeWrites_congr {v v' : Nat → Block} {tail : Nat} {bs : List Nat}
    (h : ∀ j < bs.length, v (start + tail + 1 + j) = v' (start + tail + 1 + j)) :
    homeWrites start v tail bs = homeWrites start v' tail bs := by
  induction bs generalizing tail with
  | nil => rfl
  | cons b bs ih =>
    have h₀ := h 0 (by simp)
    rw [Nat.add_zero] at h₀
    rw [homeWrites, homeWrites, h₀, ih fun j hj => by
      have := h (j + 1) (by simpa using hj)
      rwa [show start + tail + 1 + (j + 1) = start + (tail + 1) + 1 + j by omega] at this]

/-- When log block `i` holds `f` of the `i`-th home block, `install_trans()`
writes `f b` to each home block `b`. -/
theorem homeWrites_of_slots {view : Nat → Block} {tail : Nat} {bs : List Nat} (f : Nat → Block)
    (h : ∀ j (hj : j < bs.length), view (start + tail + 1 + j) = f bs[j]) :
    homeWrites start view tail bs = bs.map fun b => (b, f b) := by
  induction bs generalizing tail with
  | nil => rfl
  | cons b bs ih =>
    have h₀ := h 0 (by simp)
    simp only [Nat.add_zero, List.getElem_cons_zero] at h₀
    rw [homeWrites, h₀, ih fun j hj => by
      have := h (j + 1) (by simpa using hj)
      rwa [show start + tail + 1 + (j + 1) = start + (tail + 1) + 1 + j by omega,
        List.getElem_cons_succ] at this, List.map_cons]

/-- `write_log()` issues `slotWrites` of the cached blocks, when no block of
the transaction is one of the log blocks it writes. -/
theorem writeLog_eq {tail : Nat} {bs : List Nat} (c : Bcache)
    (h : ∀ b ∈ bs, b < start + tail + 1 ∨ start + tail + 1 + bs.length ≤ b) :
    writeLog start tail bs c = c.issue (slotWrites start tail (bs.map c.view)) := by
  induction bs generalizing tail c with
  | nil => simp [writeLog, slotWrites]
  | cons b bs ih =>
    have hrest : ∀ b' ∈ bs, b' < start + (tail + 1) + 1 ∨ start + (tail + 1) + 1 + bs.length ≤ b' := by
      intro b' hb'
      have := h b' (List.mem_cons_of_mem _ hb')
      simp only [List.length_cons] at this
      omega
    have hview : bs.map (c.bwrite (start + tail + 1) (c.bread b)).view = bs.map c.view := by
      refine List.map_congr_left fun b' hb' => ?_
      have := h b' (List.mem_cons_of_mem _ hb')
      simp only [List.length_cons] at this
      exact Function.update_of_ne (by omega) _ _
    rw [writeLog, ih _ hrest, hview, Bcache.bwrite_eq_issue, Bcache.issue_issue]
    rfl

/-- `install_trans()` issues `homeWrites`, when no home block is one of the
log blocks it reads. -/
theorem installTrans_eq {tail : Nat} {bs : List Nat} (c : Bcache)
    (h : ∀ b ∈ bs, b < start + tail + 1 ∨ start + tail + 1 + bs.length ≤ b) :
    installTrans start tail bs c = c.issue (homeWrites start c.view tail bs) := by
  induction bs generalizing tail c with
  | nil => simp [installTrans, homeWrites]
  | cons b bs ih =>
    have hrest : ∀ b' ∈ bs, b' < start + (tail + 1) + 1 ∨ start + (tail + 1) + 1 + bs.length ≤ b' := by
      intro b' hb'
      have := h b' (List.mem_cons_of_mem _ hb')
      simp only [List.length_cons] at this
      omega
    have hb := h b List.mem_cons_self
    simp only [List.length_cons] at hb
    have hview : homeWrites start (c.bwrite b (c.bread (start + tail + 1))).view (tail + 1) bs =
        homeWrites start c.view (tail + 1) bs :=
      homeWrites_congr fun j hj => Function.update_of_ne (by omega) _ _
    rw [installTrans, ih _ hrest, hview, Bcache.bwrite_eq_issue, Bcache.issue_issue]
    rfl

theorem writeHead_eq (lh : List Nat) (c : Bcache) :
    writeHead start lh c = c.issue [(start, encodeHead lh (c.view start))] := rfl

end Writes

/-- What `commit()` issues, for a transaction of distinct blocks outside the
log blocks it uses: the cached blocks to the log, the header (the commit
point), the blocks home from the log, and the emptied header. -/
theorem commit_issued {start : Nat} {lh : List Nat} (view : Nat → Block) (hne : 0 < lh.length)
    (hout : ∀ b ∈ lh, b < start ∨ start + 1 + lh.length ≤ b) :
    (commit start lh ⟨view, []⟩).issued =
      slotWrites start 0 (lh.map view) ++ [(start, encodeHead lh (view start))] ++
        (lh.map fun b => (b, view b)) ++ [(start, encodeHead [] (encodeHead lh (view start)))] := by
  have hslot : ∀ b ∈ lh, b < start + 0 + 1 ∨ start + 0 + 1 + lh.length ≤ b := by
    intro b hb
    have := hout b hb
    omega
  have hlog : ∀ w ∈ slotWrites start 0 (lh.map view), w.1 ≠ start := by
    intro w hw
    have := mem_slotWrites hw
    omega
  set c₁ : Bcache := (Bcache.mk view []).issue
    (slotWrites start 0 (lh.map view) ++ [(start, encodeHead lh (view start))]) with hc₁
  have hc₁start : c₁.view start = encodeHead lh (view start) := by
    simp [hc₁, applyWrites_append, applyWrites_cons]
  have hc₁slot : ∀ j (hj : j < lh.length), c₁.view (start + 0 + 1 + j) = view lh[j] := by
    intro j hj
    simp only [hc₁, Bcache.issue_view, applyWrites_append, applyWrites_cons, applyWrites_nil]
    rw [Function.update_of_ne (by omega), applyWrites_slotWrites _ _ _ (by simpa using hj), List.getElem_map]
  have hc₂start : (c₁.issue (lh.map fun b => (b, view b))).view start = encodeHead lh (view start) := by
    rw [Bcache.issue_view, applyWrites_of_forall_ne, hc₁start]
    intro w hw
    obtain ⟨b, hb, rfl⟩ := List.mem_map.1 hw
    have := hout b hb
    exact fun e => by simp only at e; omega
  -- The header write reads the header block, which `write_log()` left alone.
  have e₁ : writeHead start lh (writeLog start 0 lh ⟨view, []⟩) = c₁ := by
    rw [writeLog_eq _ hslot, writeHead_eq, Bcache.issue_issue]
    simp [hc₁, applyWrites_of_forall_ne hlog]
  have e₂ : installTrans start 0 lh c₁ = c₁.issue (lh.map fun b => (b, view b)) := by
    rw [installTrans_eq _ hslot, homeWrites_of_slots view hc₁slot]
  simp only [commit, if_pos hne]
  rw [e₁, e₂, writeHead_eq, hc₂start, Bcache.issue_issue]
  simp [hc₁]

/-- What `recover_from_log()` issues at boot, when the header's blocks are
outside the log blocks it names: each home block from its log block, then the
emptied header. -/
theorem recoverFromLog_issued {start : Nat} (d : Nat → Block)
    (hout : ∀ b ∈ decodeHead (d start), b < start + 1 ∨ start + 1 + (decodeHead (d start)).length ≤ b) :
    (recoverFromLog start (Bcache.boot d)).issued =
      homeWrites start d 0 (decodeHead (d start)) ++
        [(start, encodeHead [] (applyWrites d (homeWrites start d 0 (decodeHead (d start))) start))] := by
  simp only [recoverFromLog, readHead, Bcache.bread, Bcache.boot]
  rw [installTrans_eq _ (by simpa using hout), writeHead_eq, Bcache.issue_issue]
  rfl

end Xv6
