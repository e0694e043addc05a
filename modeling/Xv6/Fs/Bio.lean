import Xv6.Param
import Xv6.Framework.DList
import Xv6.Framework.Reach

/-!
# The buffer cache

`bio.c`: `NBUF` buffers on a circular doubly linked list through
`bcache.head`, most recently used first (`BCache`). `bget` walks the list
forward for a buffer caching the block and else backward for one with
`refcnt == 0`, which it recycles; `brelse` drops a reference and moves a
buffer no one holds to the front; `bpin` and `bunpin` count the log's
references. `bcache.lock` makes each of them atomic, which is how they are
modelled; the sleep-locks and the block data are not.

The list is one ring through the head with each buffer on it once
(`BCache.Ring`), the order of the ring being the LRU order `L`. On such a
ring the two walks are `List.find?` over `L` and over `L.reverse`
(`Ring.bget_eq`). The callers of the cache (`Bio`) are counted per buffer:
`holders i` got `buf[i]` from `bread` and have not released it, and the log
pinned it `pins i` times. Every state reached from `binit` by calls that
ask for `dev ≠ 0` and release or unpin only what they hold keeps the ring, the
uniqueness of the cached blocks and `refcnt = holders + pins` (`Bio.Inv`),
so `bget` returns the cached buffer when there is one, recycles only a buffer
nobody holds or pinned, and panics only when every buffer is in use
(`bcache_invariant`).
-/

namespace Xv6

open Framework

/-- A node of the list: the sentinel `bcache.head` or `bcache.buf[i]`. -/
inductive BNode
  | head
  | buf (i : Fin NBUF)
deriving DecidableEq, Repr

/-- The fields of `struct buf` the cache reads and writes. -/
structure Buf where
  valid : Bool
  dev : UInt32
  blockno : UInt32
  refcnt : Nat
deriving DecidableEq, Repr

/-- `bcache`: the buffers, and the `next` and `prev` pointers of every node. -/
structure BCache where
  buf : Fin NBUF → Buf
  next : BNode → BNode
  prev : BNode → BNode

namespace BCache

/-- `b->dev == dev && b->blockno == blockno`. -/
def caches (c : BCache) (dev blockno : UInt32) : BNode → Bool
  | .buf i => (c.buf i).dev == dev && (c.buf i).blockno == blockno
  | .head => false

/-- `b->refcnt == 0`. -/
def unused (c : BCache) : BNode → Bool
  | .buf i => (c.buf i).refcnt == 0
  | .head => false

/-- `buf[i]` changed by `f`. -/
def modify (c : BCache) (i : Fin NBUF) (f : Buf → Buf) : BCache :=
  { c with buf := Function.update c.buf i (f (c.buf i)) }

@[simp] theorem modify_next (c : BCache) (i f) : (c.modify i f).next = c.next := rfl
@[simp] theorem modify_prev (c : BCache) (i f) : (c.modify i f).prev = c.prev := rfl

theorem modify_buf (c : BCache) (i f j) : (c.modify i f).buf j = if j = i then f (c.buf i) else c.buf j := by
  simp [modify, Function.update_apply]

@[simp] theorem modify_buf_self (c : BCache) (i f) : (c.modify i f).buf i = f (c.buf i) := by
  simp [modify_buf]

theorem modify_of_eq {c : BCache} {i f} (h : f (c.buf i) = c.buf i) : c.modify i f = c := by
  cases c
  simp [modify, h]

end BCache

/-- `refcnt` moved by one: `b->refcnt++` or `b->refcnt--`. -/
def Buf.incref (b : Buf) : Buf := { b with refcnt := b.refcnt + 1 }
def Buf.decref (b : Buf) : Buf := { b with refcnt := b.refcnt - 1 }

/-- `binit`: each buffer linked in after the head in turn, so that
`buf[NBUF-1]` ends up first. The buffers start zeroed, as the global `bcache`
is; the pointers of a buffer are set before they are read. -/
def binit : BCache :=
  let np := (List.finRange NBUF).foldl
    (fun (np : (BNode → BNode) × (BNode → BNode)) i => pushFront np.1 np.2 .head (.buf i))
    (fun _ => .head, fun _ => .head)
  ⟨fun _ => ⟨false, 0, 0, 0⟩, np.1, np.2⟩

/-- `bget`: a buffer caching the block, found walking forward from the head,
with one more reference; else the first buffer with no references walking
backward, taken for the block. The walks are bounded by the `NBUF + 1`
nodes of the ring. -/
def bget (dev blockno : UInt32) (c : BCache) : Except String (BCache × Fin NBUF) :=
  -- Is the block already cached?
  match seek c.next .head (c.caches dev blockno) (NBUF + 1) (c.next .head) with
  | some (.buf i) => .ok (c.modify i Buf.incref, i)
  | _ =>
    -- Not cached: recycle the least recently used unused buffer.
    match seek c.prev .head c.unused (NBUF + 1) (c.prev .head) with
    | some (.buf i) => .ok (c.modify i fun _ => ⟨false, dev, blockno, 1⟩, i)
    | _ => .error "bget: no buffers"

/-- `bread`: `bget`, then the block is read into a buffer that is not valid
(`virtio_disk_rw`, whose data is not modelled). -/
def bread (dev blockno : UInt32) (c : BCache) : Except String (BCache × Fin NBUF) := do
  let (c, i) ← bget dev blockno c
  if !(c.buf i).valid then
    return (c.modify i fun b => { b with valid := true }, i)
  return (c, i)

/-- `brelse`: one reference less; a buffer no one refers to is unlinked and
linked in again after the head. -/
def brelse (i : Fin NBUF) (c : BCache) : BCache :=
  let c := c.modify i Buf.decref
  if (c.buf i).refcnt = 0 then
    let np := unlink c.next c.prev (.buf i)
    let np := pushFront np.1 np.2 .head (.buf i)
    { c with next := np.1, prev := np.2 }
  else c

/-- `bpin`. -/
def bpin (i : Fin NBUF) (c : BCache) : BCache := c.modify i Buf.incref

/-- `bunpin`. -/
def bunpin (i : Fin NBUF) (c : BCache) : BCache := c.modify i Buf.decref

/-! ## The ring -/

namespace BCache

/-- `next` and `prev` link the head and the buffers, in the order `L`, into
one ring that has every buffer exactly once. -/
structure Ring (c : BCache) (L : List (Fin NBUF)) : Prop where
  nodup : L.Nodup
  complete : ∀ i, i ∈ L
  linked : Linked c.next c.prev (.head :: L.map .buf)

variable {c : BCache} {L : List (Fin NBUF)}

theorem Ring.nodes_nodup (hr : c.Ring L) : (BNode.head :: L.map .buf).Nodup :=
  List.nodup_cons.2 ⟨by simp, hr.nodup.map fun _ _ => BNode.buf.inj⟩

theorem Ring.length_lt (hr : c.Ring L) : (L.map BNode.buf).length < NBUF + 1 := by
  have := hr.nodup.length_le_card
  simp only [Fintype.card_fin] at this
  simp only [List.length_map]
  omega

theorem Ring.modify (hr : c.Ring L) (i f) : (c.modify i f).Ring L := ⟨hr.nodup, hr.complete, hr.linked⟩

theorem Ring.seek_caches (hr : c.Ring L) (dev blockno : UInt32) :
    seek c.next .head (c.caches dev blockno) (NBUF + 1) (c.next .head) =
      (L.find? fun i => c.caches dev blockno (.buf i)).map .buf := by
  rw [seek_next hr.linked (by simp) hr.length_lt, List.find?_map]
  rfl

theorem Ring.seek_unused (hr : c.Ring L) :
    seek c.prev .head c.unused (NBUF + 1) (c.prev .head) =
      (L.reverse.find? fun i => c.unused (.buf i)).map .buf := by
  rw [seek_prev hr.linked (by simp) hr.length_lt, ← List.map_reverse, List.find?_map]
  rfl

/-- **`bget` on the ring**: the first buffer of `L` caching the block, else
the last of `L` with no references. -/
theorem Ring.bget_eq (hr : c.Ring L) (dev blockno : UInt32) :
    bget dev blockno c =
      match L.find? fun i => c.caches dev blockno (.buf i) with
      | some i => .ok (c.modify i Buf.incref, i)
      | none =>
        match L.reverse.find? fun i => c.unused (.buf i) with
        | some i => .ok (c.modify i fun _ => ⟨false, dev, blockno, 1⟩, i)
        | none => .error "bget: no buffers" := by
  rw [bget, hr.seek_caches, hr.seek_unused]
  cases L.find? fun i => c.caches dev blockno (.buf i) <;>
    cases L.reverse.find? fun i => c.unused (.buf i) <;> rfl

/-- `buf[i]` moved to the front: unlinked, and linked in after the head. -/
theorem Ring.moveFront (hr : c.Ring L) (i : Fin NBUF) :
    let np := unlink c.next c.prev (.buf i)
    let np := pushFront np.1 np.2 .head (.buf i)
    Ring { c with next := np.1, prev := np.2 } (i :: L.erase i) := by
  intro np₁ np₂
  have hmap : (L.erase i).map BNode.buf = (L.map BNode.buf).erase (.buf i) :=
    List.map_erase (fun _ _ => BNode.buf.inj) L
  have hu := linked_unlink hr.linked hr.nodes_nodup (List.mem_map_of_mem (hr.complete i))
  rw [← hmap] at hu
  have hnd : (L.erase i).Nodup := hr.nodup.erase i
  have hnotin : i ∉ L.erase i := hr.nodup.not_mem_erase
  refine ⟨List.nodup_cons.2 ⟨hnotin, hnd⟩, fun j => ?_, ?_⟩
  · by_cases hj : j = i
    · exact hj ▸ List.mem_cons_self
    · exact List.mem_cons_of_mem _ ((List.mem_erase_of_ne hj).2 (hr.complete j))
  · refine linked_pushFront hu (List.nodup_cons.2 ⟨by simp, hnd.map fun _ _ => BNode.buf.inj⟩) ?_
    simpa using hnotin

end BCache

/-! ## `bget` -/

namespace BCache

variable {c : BCache} {L : List (Fin NBUF)} {dev blockno : UInt32}

/-- No two buffers with `dev ≠ 0` cache the same block. -/
def Distinct (c : BCache) : Prop :=
  ∀ i j, (c.buf i).dev ≠ 0 → (c.buf i).dev = (c.buf j).dev → (c.buf i).blockno = (c.buf j).blockno → i = j

theorem caches_buf {i : Fin NBUF} :
    c.caches dev blockno (.buf i) = true ↔ (c.buf i).dev = dev ∧ (c.buf i).blockno = blockno := by
  simp [caches]

/-- What `bget` returns: the buffer caching the block, with one more
reference, or, when none does, a buffer with no references, taken for the
block. -/
theorem Ring.bget_ok (hr : c.Ring L) {c' : BCache} {i : Fin NBUF} (h : bget dev blockno c = .ok (c', i)) :
    ((c.buf i).dev = dev ∧ (c.buf i).blockno = blockno ∧ c' = c.modify i Buf.incref) ∨
    ((∀ j, ¬((c.buf j).dev = dev ∧ (c.buf j).blockno = blockno)) ∧ (c.buf i).refcnt = 0 ∧
      c' = c.modify i fun _ => ⟨false, dev, blockno, 1⟩) := by
  rw [hr.bget_eq] at h
  cases hf : L.find? fun j => c.caches dev blockno (.buf j) with
  | some j =>
    simp only [hf, Except.ok.injEq, Prod.mk.injEq] at h
    obtain ⟨rfl, rfl⟩ := h
    have hc := List.find?_some (p := fun j => c.caches dev blockno (.buf j)) hf
    exact .inl ⟨(caches_buf.1 hc).1, (caches_buf.1 hc).2, rfl⟩
  | none =>
    have hno : ∀ j, ¬((c.buf j).dev = dev ∧ (c.buf j).blockno = blockno) := fun j hj =>
      List.find?_eq_none.1 hf j (hr.complete j) (caches_buf.2 hj)
    cases hg : L.reverse.find? fun j => c.unused (.buf j) with
    | some j =>
      simp only [hf, hg, Except.ok.injEq, Prod.mk.injEq] at h
      obtain ⟨rfl, rfl⟩ := h
      have := List.find?_some hg
      exact .inr ⟨hno, by simpa [unused] using this, rfl⟩
    | none => simp [hf, hg] at h

/-- `bget` panics only when every buffer has references. -/
theorem Ring.bget_error (hr : c.Ring L) {e : String} (h : bget dev blockno c = .error e) :
    e = "bget: no buffers" ∧ ∀ j, 0 < (c.buf j).refcnt := by
  rw [hr.bget_eq] at h
  cases hf : L.find? fun j => c.caches dev blockno (.buf j) with
  | some j => simp [hf] at h
  | none =>
    cases hg : L.reverse.find? fun j => c.unused (.buf j) with
    | some j => simp [hf, hg] at h
    | none =>
      simp only [hf, hg, Except.error.injEq] at h
      refine ⟨h.symm, fun j => Nat.pos_of_ne_zero fun h0 => ?_⟩
      exact List.find?_eq_none.1 hg j (List.mem_reverse.2 (hr.complete j)) (by simp [unused, h0])

/-- `bget` of a block a buffer caches returns that buffer. -/
theorem Ring.bget_hit (hr : c.Ring L) (hd : c.Distinct) (hdev : dev ≠ 0) {i : Fin NBUF}
    (hi : (c.buf i).dev = dev) (hb : (c.buf i).blockno = blockno) :
    bget dev blockno c = .ok (c.modify i Buf.incref, i) := by
  obtain ⟨j, hj⟩ : ∃ j, (L.find? fun j => c.caches dev blockno (.buf j)) = some j :=
    Option.isSome_iff_exists.1 (List.find?_isSome.2 ⟨i, hr.complete i, caches_buf.2 ⟨hi, hb⟩⟩)
  have hc := List.find?_some (p := fun j => c.caches dev blockno (.buf j)) hj
  obtain ⟨hjd, hjb⟩ := caches_buf.1 hc
  obtain rfl : i = j := hd i j (hi ▸ hdev) (hi.trans hjd.symm) (hb.trans hjb.symm)
  rw [hr.bget_eq, hj]

/-- Changing what the buffers hold but not the block they cache keeps them distinct. -/
theorem Distinct.of_keys {c' : BCache} (hd : c.Distinct)
    (hk : ∀ j, (c'.buf j).dev = (c.buf j).dev ∧ (c'.buf j).blockno = (c.buf j).blockno) : c'.Distinct := by
  intro i j hi he hb
  rw [(hk i).1, (hk j).1] at he
  rw [(hk i).2, (hk j).2] at hb
  exact hd i j ((hk i).1 ▸ hi) he hb

/-- A buffer taken for a block no buffer caches keeps them distinct. -/
theorem Distinct.recycle (hd : c.Distinct) (hno : ∀ j, ¬((c.buf j).dev = dev ∧ (c.buf j).blockno = blockno))
    (i : Fin NBUF) : (c.modify i fun _ => ⟨false, dev, blockno, 1⟩).Distinct := by
  intro a b ha he hb
  simp only [modify_buf] at ha he hb
  by_cases hai : a = i <;> by_cases hbi : b = i
  · exact hai.trans hbi.symm
  · simp only [hai, hbi, if_true, if_false] at he hb
    exact absurd ⟨he.symm, hb.symm⟩ (hno b)
  · simp only [hai, hbi, if_true, if_false] at he hb
    exact absurd ⟨he, hb⟩ (hno a)
  · simp only [hai, hbi, if_false] at ha he hb
    exact hd a b ha he hb

end BCache

theorem bread_eq (dev blockno : UInt32) (c : BCache) :
    bread dev blockno c = (bget dev blockno c).map fun r => (r.1.modify r.2 fun b => { b with valid := true }, r.2) := by
  unfold bread
  cases bget dev blockno c with
  | error e => rfl
  | ok r =>
    obtain ⟨c, i⟩ := r
    simp only [bind, Except.bind, pure, Except.pure, Except.map]
    by_cases hv : (c.buf i).valid
    · have : c.modify i (fun b => { b with valid := true }) = c := BCache.modify_of_eq (by simp [← hv])
      simp [hv, this]
    · simp [hv]

/-- `binit` links the buffers in, each after the head: the last linked is first. -/
theorem foldl_pushFront : ∀ (l : List (Fin NBUF)) {next prev : BNode → BNode} {M : List (Fin NBUF)},
    Linked next prev (.head :: M.map .buf) → (l ++ M).Nodup →
      Linked (l.foldl (fun (np : (BNode → BNode) × (BNode → BNode)) i => pushFront np.1 np.2 .head (.buf i))
        (next, prev)).1
        (l.foldl (fun (np : (BNode → BNode) × (BNode → BNode)) i => pushFront np.1 np.2 .head (.buf i))
        (next, prev)).2 (.head :: (l.reverse ++ M).map .buf)
  | [], _, _, _, hl, _ => by simpa using hl
  | i :: l, next, prev, M, hl, hnd => by
    have hM : (BNode.head :: M.map .buf).Nodup :=
      List.nodup_cons.2 ⟨by simp, ((hnd.sublist (by simp)).map fun _ _ => BNode.buf.inj)⟩
    have hi : BNode.buf i ∉ BNode.head :: M.map .buf := by
      have := (List.nodup_cons.1 hnd).1
      simp only [List.mem_cons, List.mem_map, reduceCtorEq, false_or, not_exists, not_and, BNode.buf.injEq]
      exact fun j hj e => this (e ▸ List.mem_append_right l hj)
    have ih := foldl_pushFront l (M := i :: M) (linked_pushFront hl hM hi)
      (List.nodup_middle.2 hnd)
    simpa using ih

@[simp] theorem binit_buf (i : Fin NBUF) : binit.buf i = ⟨false, 0, 0, 0⟩ := rfl

theorem binit_ring : binit.Ring (List.finRange NBUF).reverse := by
  refine ⟨List.nodup_reverse.2 (List.nodup_finRange NBUF), fun i => by simp, ?_⟩
  have h := @foldl_pushFront (List.finRange NBUF) (fun _ => .head) (fun _ => .head) []
    (by simp [linked_iff, Link]) (by simpa using List.nodup_finRange NBUF)
  simpa [binit] using h

/-! ## The callers -/

/-- The cache with its callers: `holders i` got `buf[i]` from `bread` and
have not released it, and `buf[i]` is pinned `pins i` times. -/
structure Bio where
  bcache : BCache
  holders : Fin NBUF → Nat
  pins : Fin NBUF → Nat

/-- A call into the cache. -/
inductive BioEv
  | bread (dev blockno : UInt32)
  | brelse (i : Fin NBUF)
  | bpin (i : Fin NBUF)
  | bunpin (i : Fin NBUF)

namespace Bio

/-- After `binit`, held by no one. -/
def boot : Bio := ⟨binit, fun _ => 0, fun _ => 0⟩

/-- One call, made as the callers make them: `bread` of a block of a device
`dev ≠ 0`, `brelse` of a buffer the caller holds, `bunpin` of a pinned one.
Other calls, and a `bget` that panics, have no step. -/
def next (s : Bio) : BioEv → Option Bio
  | .bread dev blockno =>
    if dev = 0 then none else
    match bread dev blockno s.bcache with
    | .ok (c, i) => some ⟨c, Function.update s.holders i (s.holders i + 1), s.pins⟩
    | .error _ => none
  | .brelse i =>
    if s.holders i = 0 then none else
    some ⟨brelse i s.bcache, Function.update s.holders i (s.holders i - 1), s.pins⟩
  | .bpin i => some ⟨bpin i s.bcache, s.holders, Function.update s.pins i (s.pins i + 1)⟩
  | .bunpin i =>
    if s.pins i = 0 then none else
    some ⟨bunpin i s.bcache, s.holders, Function.update s.pins i (s.pins i - 1)⟩

/-- Any call, by any caller. -/
def Step (s s' : Bio) : Prop := ∃ ev, s.next ev = some s'

def Reachable (s : Bio) : Prop := Framework.Reachable (· = boot) Step s

/-- The cache's representation invariant: one ring with every buffer once,
no block cached twice, and every reference counted. -/
structure Inv (s : Bio) : Prop where
  ring : ∃ L, s.bcache.Ring L
  distinct : s.bcache.Distinct
  refcnt : ∀ i, (s.bcache.buf i).refcnt = s.holders i + s.pins i

theorem Inv.boot : Bio.boot.Inv :=
  ⟨⟨_, binit_ring⟩, fun _ _ hi => absurd rfl hi, fun _ => rfl⟩

/-- Setting `valid` changes nothing the invariant reads. -/
theorem Inv.valid {c : BCache} {hs ps : Fin NBUF → Nat} (h : Inv ⟨c, hs, ps⟩) (i : Fin NBUF) :
    Inv ⟨c.modify i fun b => { b with valid := true }, hs, ps⟩ := by
  obtain ⟨⟨L, hr⟩, hd, hc⟩ := h
  dsimp only at hr hd hc
  refine ⟨⟨L, hr.modify i fun b => { b with valid := true }⟩, hd.of_keys fun j => ?_, fun j => ?_⟩
  · by_cases hj : j = i <;> simp [BCache.modify_buf, hj]
  · by_cases hj : j = i
    · subst hj; simpa using hc j
    · simpa [BCache.modify_buf, hj] using hc j

theorem Inv.bget {s : Bio} (h : s.Inv) {dev blockno : UInt32} {c : BCache} {i : Fin NBUF}
    (hb : bget dev blockno s.bcache = .ok (c, i)) :
    Inv ⟨c, Function.update s.holders i (s.holders i + 1), s.pins⟩ := by
  obtain ⟨⟨L, hr⟩, hd, hc⟩ := h
  rcases hr.bget_ok hb with ⟨-, -, rfl⟩ | ⟨hno, h0, rfl⟩
  · -- a hit: one more reference, from one more holder
    refine ⟨⟨L, hr.modify i _⟩, hd.of_keys fun j => ?_, fun j => ?_⟩
    · by_cases hj : j = i <;> simp [BCache.modify_buf, hj, Buf.incref]
    · by_cases hj : j = i
      · subst hj; simp [Buf.incref, hc j]; omega
      · simp [BCache.modify_buf, hj, hc j]
  · -- a recycled buffer had no references, so no holders and no pins
    have hz := hc i
    refine ⟨⟨L, hr.modify i fun _ => ⟨false, dev, blockno, 1⟩⟩, hd.recycle hno i, fun j => ?_⟩
    by_cases hj : j = i
    · subst hj; simp; omega
    · simp [BCache.modify_buf, hj, hc j]

theorem Inv.brelse {s : Bio} (h : s.Inv) {i : Fin NBUF} (hi : s.holders i ≠ 0) :
    Inv ⟨brelse i s.bcache, Function.update s.holders i (s.holders i - 1), s.pins⟩ := by
  obtain ⟨⟨L, hr⟩, hd, hc⟩ := h
  have hk : ∀ j, ((s.bcache.modify i Buf.decref).buf j).dev = (s.bcache.buf j).dev ∧
      ((s.bcache.modify i Buf.decref).buf j).blockno = (s.bcache.buf j).blockno := fun j => by
    by_cases hj : j = i <;> simp [BCache.modify_buf, hj, Buf.decref]
  have hr' : ∀ j, ((s.bcache.modify i Buf.decref).buf j).refcnt =
      Function.update s.holders i (s.holders i - 1) j + s.pins j := fun j => by
    by_cases hj : j = i
    · subst hj; simp [Buf.decref, hc j]; omega
    · simp [BCache.modify_buf, hj, hc j]
  rw [Xv6.brelse]
  dsimp only
  split
  · -- the last reference: the buffer moves to the front
    exact ⟨⟨_, (hr.modify i Buf.decref).moveFront i⟩, hd.of_keys hk, hr'⟩
  · exact ⟨⟨L, hr.modify i _⟩, hd.of_keys hk, hr'⟩

theorem Inv.pin {s : Bio} (h : s.Inv) (i : Fin NBUF) (f : Buf → Buf) (g : Nat → Nat)
    (hf : ∀ b, (f b).dev = b.dev ∧ (f b).blockno = b.blockno) (hg : (f (s.bcache.buf i)).refcnt = g (s.pins i) + s.holders i) :
    Inv ⟨s.bcache.modify i f, s.holders, Function.update s.pins i (g (s.pins i))⟩ := by
  obtain ⟨⟨L, hr⟩, hd, hc⟩ := h
  refine ⟨⟨L, hr.modify i _⟩, hd.of_keys fun j => ?_, fun j => ?_⟩
  · by_cases hj : j = i <;> simp [BCache.modify_buf, hj, hf]
  · by_cases hj : j = i
    · subst hj; simp [hg]; omega
    · simp [BCache.modify_buf, hj, hc j]

/-- **Every call keeps the invariant.** -/
theorem Inv.next {s s' : Bio} (h : s.Inv) {ev : BioEv} (hs : s.next ev = some s') : s'.Inv := by
  cases ev with
  | bread dev blockno =>
    simp only [Bio.next] at hs
    split at hs
    · cases hs
    · rw [bread_eq] at hs
      cases hb : Xv6.bget dev blockno s.bcache with
      | error e => simp [hb, Except.map] at hs
      | ok r =>
        obtain ⟨c, i⟩ := r
        simp only [hb, Except.map, Option.some.injEq] at hs
        subst hs
        exact Inv.valid (h.bget hb) i
  | brelse i =>
    simp only [Bio.next] at hs
    split at hs
    · cases hs
    · cases hs
      exact h.brelse ‹_›
  | bpin i =>
    cases hs
    exact h.pin i Buf.incref (· + 1) (fun _ => ⟨rfl, rfl⟩) (by simp [Buf.incref, h.refcnt i]; omega)
  | bunpin i =>
    simp only [Bio.next] at hs
    split at hs
    · cases hs
    · cases hs
      exact h.pin i Buf.decref (· - 1) (fun _ => ⟨rfl, rfl⟩) (by simp [Buf.decref, h.refcnt i]; omega)

theorem Reachable.inv {s : Bio} (h : s.Reachable) : s.Inv :=
  Framework.Reachable.inv (fun _ e => e ▸ Inv.boot) (fun _ _ hI ⟨_, hs⟩ => hI.next hs) h

end Bio

/-- **The buffer cache's invariant** in every reachable state, and what
`bget` then does for a block of a device `dev ≠ 0`: it returns the buffer
caching the block when there is one, recycles only a buffer that no one
holds or pinned, and panics only when every buffer is in use. -/
theorem bcache_invariant {s : Bio} (h : s.Reachable) :
    s.Inv ∧ ∀ dev blockno : UInt32, dev ≠ 0 →
      (∀ i, (s.bcache.buf i).dev = dev → (s.bcache.buf i).blockno = blockno →
        bget dev blockno s.bcache = .ok (s.bcache.modify i Buf.incref, i)) ∧
      (∀ c i, bget dev blockno s.bcache = .ok (c, i) →
        ((s.bcache.buf i).dev = dev ∧ (s.bcache.buf i).blockno = blockno ∧ c = s.bcache.modify i Buf.incref) ∨
        ((∀ j, ¬((s.bcache.buf j).dev = dev ∧ (s.bcache.buf j).blockno = blockno)) ∧
          s.holders i = 0 ∧ s.pins i = 0 ∧ c = s.bcache.modify i fun _ => ⟨false, dev, blockno, 1⟩)) ∧
      (∀ e, bget dev blockno s.bcache = .error e →
        e = "bget: no buffers" ∧ ∀ i, 0 < (s.bcache.buf i).refcnt) := by
  have hI := h.inv
  obtain ⟨L, hr⟩ := hI.ring
  refine ⟨hI, fun dev blockno hdev => ⟨fun i hi hb => hr.bget_hit hI.distinct hdev hi hb,
    fun c i hb => ?_, fun e he => hr.bget_error he⟩⟩
  rcases hr.bget_ok hb with hhit | ⟨hno, h0, hc⟩
  · exact .inl hhit
  · -- a buffer with no references has no holders and no pins
    have := hI.refcnt i
    exact .inr ⟨hno, by omega, by omega, hc⟩

/-- Right after `binit`, `bget` takes a buffer for a block. -/
theorem bcache_invariant_binit : ∃ c i, bget 1 7 Bio.boot.bcache = .ok (c, i) ∧
    c = Bio.boot.bcache.modify i fun _ => ⟨false, 1, 7, 1⟩ := by
  obtain ⟨-, h⟩ := bcache_invariant (show Bio.boot.Reachable from Framework.Reachable.init_mem rfl)
  obtain ⟨-, hok, herr⟩ := h 1 7 (by decide)
  cases hb : bget 1 7 Bio.boot.bcache with
  | error e => exact absurd ((herr e hb).2 ⟨0, by decide⟩) (by simp [Bio.boot])
  | ok r =>
    obtain ⟨c, i⟩ := r
    rcases hok c i hb with ⟨hd, -⟩ | ⟨-, -, -, hc⟩
    · simp [Bio.boot] at hd
    · exact ⟨c, i, rfl, hc⟩

end Xv6
