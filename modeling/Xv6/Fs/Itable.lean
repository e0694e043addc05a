import Xv6.Fs.Inode
import Xv6.Framework.Reach

/-!
# The inode table: `iget`, `idup`, `ilock`, `iunlock`, `iput`, `ialloc`

`itable` from `fs.c`: `NINODE` entries, each with a reference count, the
device and number of the inode it caches, a `valid` bit, its sleep-lock and
its copy of the disk inode. `iget` returns the referenced entry for an inode
or recycles the first entry without references; `ilock` loads the disk inode
into an entry that is not `valid`; `iput` drops a reference and, for the
last reference to a loaded inode with no links, frees the inode on disk and
clears `valid`. `iput` frees in three steps, as the code does: under
`itable.lock` it decides and takes the sleep-lock (`iput`); outside it, it
truncates and writes the free inode (`iputFree`); under the lock again it
drops its reference (`iputDrop`). Any other call may run between them.

`Itable` is the table with the disk inodes and, as ghost state, who holds
each reference: callers with a plain reference, the caller that holds the
sleep-lock, and a freeing `iput`. In every state that any interleaving of
the calls reaches (`Itable.Reachable.inv`), `ref` counts these references,
no two referenced entries cache one inode, and a referenced `valid` entry
holds the disk inode as `iupdate` last wrote it (`itable_invariant`).
-/

namespace Xv6

/-- Maximum number of active i-nodes. -/
def NINODE : Nat := 50

/-- `struct dinode` with every field: `Dinode` and the device numbers and
the link count. -/
structure DiskInode extends Dinode where
  /-- Major device number (T_DEVICE only). -/
  major : Nat
  /-- Minor device number (T_DEVICE only). -/
  minor : Nat
  /-- Number of links to inode in file system. -/
  nlink : Nat

/-- `memset(dip, 0, sizeof(*dip)); dip->type = type;` -/
def DiskInode.fresh (type : Nat) : DiskInode := ⟨⟨type, 0, fun _ => 0⟩, 0, 0, 0⟩

/-- An entry of `itable.inode[]`, the in-memory `struct inode`. -/
structure IEntry where
  /-- Device number. -/
  dev : Nat
  /-- Inode number. -/
  inum : Nat
  /-- Reference count. -/
  ref : Nat
  /-- inode has been read from disk? -/
  valid : Bool
  /-- `ip->lock` is held. -/
  locked : Bool
  /-- Copy of the disk inode. -/
  d : DiskInode

/-- The inode an entry caches. -/
def IEntry.key (e : IEntry) : Nat × Nat := (e.dev, e.inum)

@[simp] theorem IEntry.key_eq_iff (e : IEntry) (dev inum : Nat) :
    e.key = (dev, inum) ↔ e.dev = dev ∧ e.inum = inum := by
  simp [IEntry.key]

namespace Itable

/-! ## The calls, on the table and the disk inodes -/

/-- `iget`'s loop over `itable.inode[]` from `ips` on, with the empty slot
it has remembered. -/
def igetLoop (t : Fin NINODE → IEntry) (dev inum : Nat) :
    List (Fin NINODE) → Option (Fin NINODE) → Except String ((Fin NINODE → IEntry) × Fin NINODE)
  | [], none => .error "iget: no inodes"
  -- Recycle an inode entry.
  | [], some ip => .ok (Function.update t ip { t ip with dev := dev, inum := inum, ref := 1, valid := false }, ip)
  | ip :: ips, empty =>
    -- Is the inode already in the table?
    if 0 < (t ip).ref ∧ (t ip).dev = dev ∧ (t ip).inum = inum then
      .ok (Function.update t ip { t ip with ref := (t ip).ref + 1 }, ip)
    else igetLoop t dev inum ips (if empty = none ∧ (t ip).ref = 0 then some ip else empty)

/-- `iget(dev, inum)`: the entry for the inode, with one more reference. -/
def iget (t : Fin NINODE → IEntry) (dev inum : Nat) : Except String ((Fin NINODE → IEntry) × Fin NINODE) :=
  igetLoop t dev inum (List.finRange NINODE) none

/-- `ialloc`'s loop over the inode numbers `inums`: the first free disk
inode is given type `type`. -/
def iallocLoop (disk : Nat × Nat → DiskInode) (dev type : Nat) :
    List Nat → Except String (Nat × (Nat × Nat → DiskInode))
  | [] => .error "ialloc: no inodes"
  | inum :: inums =>
    if (disk (dev, inum)).type = 0 then  -- a free inode
      .ok (inum, Function.update disk (dev, inum) (DiskInode.fresh type))
    else iallocLoop disk dev type inums

/-- The disk half of `ialloc(dev, type)`, on a file system of `ninodes`
inodes: the inode it marks allocated. -/
def ialloc (ninodes : Nat) (disk : Nat × Nat → DiskInode) (dev type : Nat) :
    Except String (Nat × (Nat × Nat → DiskInode)) :=
  iallocLoop disk dev type (List.range' 1 (ninodes - 1))

/-- `iupdate(ip)`: the entry's copy written to its disk inode. -/
def iupdate (disk : Nat × Nat → DiskInode) (e : IEntry) : Nat × Nat → DiskInode :=
  Function.update disk e.key e.d

/-- `idup(ip)`. -/
def idup (t : Fin NINODE → IEntry) (i : Fin NINODE) : Fin NINODE → IEntry :=
  Function.update t i { t i with ref := (t i).ref + 1 }

/-- `ilock(ip)` past its `acquiresleep`: reads the inode from disk if
necessary. -/
def ilock (t : Fin NINODE → IEntry) (disk : Nat × Nat → DiskInode) (i : Fin NINODE) :
    Except String (Fin NINODE → IEntry) :=
  if (t i).ref < 1 then .error "ilock" else
  let e := { t i with locked := true }
  if e.valid = false then
    let e := { e with d := disk e.key, valid := true }
    if e.d.type = 0 then .error "ilock: no type" else .ok (Function.update t i e)
  else .ok (Function.update t i e)

/-- `iunlock(ip)`. -/
def iunlock (t : Fin NINODE → IEntry) (i : Fin NINODE) : Except String (Fin NINODE → IEntry) :=
  if (t i).locked = false ∨ (t i).ref < 1 then .error "iunlock"
  else .ok (Function.update t i { t i with locked := false })

/-- `iput(ip)` up to its first `release(&itable.lock)`: for the last
reference to a loaded inode with no links it takes the sleep-lock to free
the inode (`true`); otherwise it drops the reference. -/
def iput (t : Fin NINODE → IEntry) (i : Fin NINODE) : (Fin NINODE → IEntry) × Bool :=
  if (t i).ref = 1 ∧ (t i).valid = true ∧ (t i).d.nlink = 0 then
    (Function.update t i { t i with locked := true }, true)
  else (Function.update t i { t i with ref := (t i).ref - 1 }, false)

/-- The free in `iput`, outside `itable.lock` and under the sleep-lock:
`itrunc(ip)` (size 0 and every slot zeroed, written by its `iupdate`),
`ip->type = 0; iupdate(ip); ip->valid = 0;` and `releasesleep`. No other
call reads the entry's fields while the sleep-lock is held, and the disk
inode is free to `ialloc` only from the last `iupdate` on, so the steps are
taken together. -/
def iputFree (t : Fin NINODE → IEntry) (disk : Nat × Nat → DiskInode) (i : Fin NINODE) :
    (Fin NINODE → IEntry) × (Nat × Nat → DiskInode) :=
  let e := { t i with d := { (t i).d with type := 0, size := 0, addrs := fun _ => 0 } }
  (Function.update t i { e with valid := false, locked := false }, iupdate disk e)

/-- The end of a freeing `iput`, under `itable.lock` again: `ip->ref--`. -/
def iputDrop (t : Fin NINODE → IEntry) (i : Fin NINODE) : Fin NINODE → IEntry :=
  Function.update t i { t i with ref := (t i).ref - 1 }

/-! ## What each call does -/

section Calls

variable {t t' : Fin NINODE → IEntry} {dev inum : Nat} {i : Fin NINODE}

/-- The loop returns the first hit, or, when the part it scanned has no hit,
the empty slot it remembered. -/
theorem igetLoop_ok {ips : List (Fin NINODE)} {empty : Option (Fin NINODE)}
    (hempty : ∀ e, empty = some e → (t e).ref = 0) (h : igetLoop t dev inum ips empty = .ok (t', i)) :
    (0 < (t i).ref ∧ (t i).key = (dev, inum) ∧ t' = Function.update t i { t i with ref := (t i).ref + 1 }) ∨
      ((∀ j ∈ ips, 0 < (t j).ref → (t j).key ≠ (dev, inum)) ∧ (t i).ref = 0 ∧
        t' = Function.update t i { t i with dev := dev, inum := inum, ref := 1, valid := false }) := by
  induction ips generalizing empty with
  | nil =>
    cases empty with
    | none => simp [igetLoop] at h
    | some e =>
      simp only [igetLoop, Except.ok.injEq, Prod.mk.injEq] at h
      obtain ⟨rfl, rfl⟩ := h
      exact .inr ⟨by simp, hempty _ rfl, rfl⟩
  | cons ip ips ih =>
    rw [igetLoop] at h
    split at h
    · rename_i hhit
      simp only [Except.ok.injEq, Prod.mk.injEq] at h
      obtain ⟨rfl, rfl⟩ := h
      exact .inl ⟨hhit.1, by simp [hhit.2], rfl⟩
    · rename_i hmiss
      -- the slot remembered next has no references either
      have hempty' : ∀ e, (if empty = none ∧ (t ip).ref = 0 then some ip else empty) = some e →
          (t e).ref = 0 := by
        intro e he
        split at he
        · rename_i hz
          cases he
          exact hz.2
        · exact hempty e he
      rcases ih hempty' h with hhit | ⟨hno, hz, ht⟩
      · exact .inl hhit
      · refine .inr ⟨fun j hj hr hk => ?_, hz, ht⟩
        rcases List.mem_cons.1 hj with rfl | hj
        · exact hmiss ⟨hr, (IEntry.key_eq_iff _ _ _).1 hk⟩
        · exact hno j hj hr hk

/-- The loop fails only when it remembered no empty slot and saw none. -/
theorem igetLoop_error {ips : List (Fin NINODE)} {empty : Option (Fin NINODE)} {msg : String}
    (h : igetLoop t dev inum ips empty = .error msg) :
    msg = "iget: no inodes" ∧ empty = none ∧ ∀ j ∈ ips, 0 < (t j).ref := by
  induction ips generalizing empty with
  | nil =>
    cases empty with
    | none =>
      simp only [igetLoop, Except.error.injEq] at h
      exact ⟨h.symm, rfl, by simp⟩
    | some e => simp [igetLoop] at h
  | cons ip ips ih =>
    rw [igetLoop] at h
    split at h
    · cases h
    · obtain ⟨hmsg, hnone, hall⟩ := ih h
      split at hnone
      · cases hnone
      · rename_i hne
        refine ⟨hmsg, hnone, fun j hj => ?_⟩
        rcases List.mem_cons.1 hj with rfl | hj
        · exact Nat.pos_of_ne_zero fun h0 => hne ⟨hnone, h0⟩
        · exact hall j hj

/-- **`iget`**: one more reference to the entry that caches the inode, or,
when no referenced entry does, an entry without references recycled for it. -/
theorem iget_ok (h : iget t dev inum = .ok (t', i)) :
    (0 < (t i).ref ∧ (t i).key = (dev, inum) ∧ t' = Function.update t i { t i with ref := (t i).ref + 1 }) ∨
      ((∀ j, 0 < (t j).ref → (t j).key ≠ (dev, inum)) ∧ (t i).ref = 0 ∧
        t' = Function.update t i { t i with dev := dev, inum := inum, ref := 1, valid := false }) := by
  rcases igetLoop_ok (fun _ he => by cases he) h with hhit | ⟨hno, hz, ht⟩
  · exact .inl hhit
  · exact .inr ⟨fun j => hno j (List.mem_finRange j), hz, ht⟩

/-- **`iget` panics only when every entry is referenced.** -/
theorem iget_error {msg : String} (h : iget t dev inum = .error msg) :
    msg = "iget: no inodes" ∧ ∀ j, 0 < (t j).ref := by
  obtain ⟨hmsg, -, hall⟩ := igetLoop_error h
  exact ⟨hmsg, fun j => hall j (List.mem_finRange j)⟩

theorem iallocLoop_ok {disk disk' : Nat × Nat → DiskInode} {type n : Nat} {inums : List Nat}
    (h : iallocLoop disk dev type inums = .ok (n, disk')) :
    n ∈ inums ∧ (disk (dev, n)).type = 0 ∧ disk' = Function.update disk (dev, n) (DiskInode.fresh type) := by
  induction inums with
  | nil => simp [iallocLoop] at h
  | cons inum inums ih =>
    rw [iallocLoop] at h
    split at h
    · rename_i hfree
      simp only [Except.ok.injEq, Prod.mk.injEq] at h
      obtain ⟨rfl, rfl⟩ := h
      exact ⟨List.mem_cons_self, hfree, rfl⟩
    · obtain ⟨hn, hfree, hd⟩ := ih h
      exact ⟨List.mem_cons_of_mem _ hn, hfree, hd⟩

/-- **`ialloc`** gives type `type` to a free disk inode `1 ≤ n < ninodes`
and changes no other. -/
theorem ialloc_ok {ninodes : Nat} {disk disk' : Nat × Nat → DiskInode} {type n : Nat}
    (h : ialloc ninodes disk dev type = .ok (n, disk')) :
    1 ≤ n ∧ n < ninodes ∧ (disk (dev, n)).type = 0 ∧
      disk' = Function.update disk (dev, n) (DiskInode.fresh type) := by
  obtain ⟨hn, hfree, hd⟩ := iallocLoop_ok h
  rw [List.mem_range'_1] at hn
  exact ⟨hn.1, by omega, hfree, hd⟩

/-- **`ilock`** keeps a loaded copy and loads one that is not. -/
theorem ilock_ok {disk : Nat × Nat → DiskInode} (h : ilock t disk i = .ok t') :
    1 ≤ (t i).ref ∧
      (((t i).valid = true ∧ t' = Function.update t i { t i with locked := true }) ∨
        ((t i).valid = false ∧ (disk (t i).key).type ≠ 0 ∧
          t' = Function.update t i { t i with locked := true, d := disk (t i).key, valid := true })) := by
  unfold ilock at h
  split at h
  · cases h
  rename_i href
  refine ⟨by omega, ?_⟩
  dsimp only at h
  split at h
  · rename_i hv
    split at h
    · cases h
    · rename_i hty
      cases h
      exact .inr ⟨hv, hty, rfl⟩
  · rename_i hv
    cases h
    exact .inl ⟨by simpa using hv, rfl⟩

theorem iunlock_ok (h : iunlock t i = .ok t') :
    (t i).locked = true ∧ 1 ≤ (t i).ref ∧ t' = Function.update t i { t i with locked := false } := by
  unfold iunlock at h
  split at h
  · cases h
  · rename_i hl
    cases h
    simp only [not_or, Bool.not_eq_false] at hl
    exact ⟨hl.1, by omega, rfl⟩

theorem iput_true (h : iput t i = (t', true)) :
    ((t i).ref = 1 ∧ (t i).valid = true ∧ (t i).d.nlink = 0) ∧
      t' = Function.update t i { t i with locked := true } := by
  unfold iput at h
  split at h
  · rename_i hfree
    cases h
    exact ⟨hfree, rfl⟩
  · cases h

theorem iput_false (h : iput t i = (t', false)) :
    ¬((t i).ref = 1 ∧ (t i).valid = true ∧ (t i).d.nlink = 0) ∧
      t' = Function.update t i { t i with ref := (t i).ref - 1 } := by
  unfold iput at h
  split at h
  · cases h
  · rename_i hkeep
    cases h
    exact ⟨hkeep, rfl⟩

end Calls

end Itable

/-! ## The table with its callers -/

/-- Where a freeing `iput` of an entry is. -/
inductive PutPhase
  /-- No `iput` is freeing the entry. -/
  | idle
  /-- It holds the sleep-lock and truncates. -/
  | freeing
  /-- It released the sleep-lock and has still to drop its reference. -/
  | dropping
  deriving DecidableEq, Repr

/-- The reference a freeing `iput` holds. -/
def PutPhase.refs : PutPhase → Nat
  | .idle => 0
  | .freeing => 1
  | .dropping => 1

/-- The inode table, the disk inodes by device and number, and who holds
the references to each entry. -/
structure Itable where
  inode : Fin NINODE → IEntry
  disk : Nat × Nat → DiskInode
  /-- References of callers that hold neither the sleep-lock nor are in `iput`. -/
  holds : Fin NINODE → Nat
  /-- A caller that took the sleep-lock in `ilock` holds it. -/
  lockHeld : Fin NINODE → Bool
  putter : Fin NINODE → PutPhase

/-- A call into the table. -/
inductive ItableEv
  | iget (dev inum : Nat)
  | ialloc (dev type : Nat)
  | idup (i : Fin NINODE)
  | ilock (i : Fin NINODE)
  | iunlock (i : Fin NINODE)
  /-- The lock holder sets the fields that live on disk and calls `iupdate`. -/
  | iupdate (i : Fin NINODE) (d : DiskInode)
  | iput (i : Fin NINODE)
  | iputFree (i : Fin NINODE)
  | iputDrop (i : Fin NINODE)

namespace Itable

/-- After `iinit`: the table is zeroed, and no one holds a reference. -/
def boot (disk : Nat × Nat → DiskInode) : Itable :=
  ⟨fun _ => ⟨0, 0, 0, false, false, DiskInode.fresh 0⟩, disk, fun _ => 0, fun _ => false, fun _ => .idle⟩

/-- One call, made as the callers make them, on a file system of `ninodes`
inodes: `idup`, `ilock` and `iput` on an entry the caller holds a reference
to (`ilock` and `iput` one without the sleep-lock), `iunlock` and `iupdate`
by the holder of the sleep-lock, who changes no inode's type (only `iput`
does). `acquiresleep` on a held lock waits: no step. A call that panics has
no step either. -/
def next (ninodes : Nat) (s : Itable) : ItableEv → Option Itable
  | .iget dev inum =>
    match iget s.inode dev inum with
    | .ok (t, i) => some { s with inode := t, holds := Function.update s.holds i (s.holds i + 1) }
    | .error _ => none
  | .ialloc dev type =>
    match ialloc ninodes s.disk dev type with
    | .ok (inum, disk) =>
      -- return iget(dev, inum);
      match iget s.inode dev inum with
      | .ok (t, i) => some { s with inode := t, disk := disk, holds := Function.update s.holds i (s.holds i + 1) }
      | .error _ => none
    | .error _ => none
  | .idup i =>
    if s.holds i = 0 ∧ s.lockHeld i = false then none
    else some { s with inode := idup s.inode i, holds := Function.update s.holds i (s.holds i + 1) }
  | .ilock i =>
    if s.holds i = 0 ∨ (s.inode i).locked = true then none else
    match ilock s.inode s.disk i with
    | .ok t =>
      some { s with
        inode := t
        holds := Function.update s.holds i (s.holds i - 1)
        lockHeld := Function.update s.lockHeld i true }
    | .error _ => none
  | .iunlock i =>
    if s.lockHeld i = false then none else
    match iunlock s.inode i with
    | .ok t =>
      some { s with
        inode := t
        holds := Function.update s.holds i (s.holds i + 1)
        lockHeld := Function.update s.lockHeld i false }
    | .error _ => none
  | .iupdate i d =>
    if s.lockHeld i = false ∨ d.type ≠ (s.inode i).d.type then none else
    let e := { s.inode i with d := d }
    some { s with inode := Function.update s.inode i e, disk := iupdate s.disk e }
  | .iput i =>
    if s.holds i = 0 then none else
    match iput s.inode i with
    | (t, true) =>
      if (s.inode i).locked = true then none
      else
        some { s with
          inode := t
          holds := Function.update s.holds i (s.holds i - 1)
          putter := Function.update s.putter i .freeing }
    | (t, false) => some { s with inode := t, holds := Function.update s.holds i (s.holds i - 1) }
  | .iputFree i =>
    if s.putter i ≠ .freeing then none else
    let r := iputFree s.inode s.disk i
    some { s with inode := r.1, disk := r.2, putter := Function.update s.putter i .dropping }
  | .iputDrop i =>
    if s.putter i ≠ .dropping then none
    else some { s with inode := iputDrop s.inode i, putter := Function.update s.putter i .idle }

/-- Any call, by any caller. -/
def Step (ninodes : Nat) (s s' : Itable) : Prop := ∃ ev, s.next ninodes ev = some s'

/-- The states reachable from `iinit`, whatever the disk inodes. -/
def Reachable (ninodes : Nat) (s : Itable) : Prop :=
  Framework.Reachable (fun s => ∃ disk, s = boot disk) (Step ninodes) s

/-! ## The invariant -/

/-- What the invariant says of one entry and the references to it. -/
structure EntryOk (e : IEntry) (holds : Nat) (lockHeld : Bool) (putter : PutPhase) : Prop where
  /-- `ref` counts the references. -/
  ref : e.ref = holds + lockHeld.toNat + putter.refs
  /-- The sleep-lock is held by the caller that took it in `ilock` or by a
  freeing `iput`, -/
  locked : e.locked = true ↔ lockHeld = true ∨ putter = .freeing
  /-- never by both. -/
  excl : lockHeld = true → putter ≠ .freeing
  /-- The lock holder's copy is loaded. -/
  valid : lockHeld = true → e.valid = true

/-- An entry without references has no holder, and its sleep-lock is free. -/
theorem EntryOk.of_ref_zero {e : IEntry} {h : Nat} {l : Bool} {p : PutPhase} (he : EntryOk e h l p)
    (hz : e.ref = 0) : h = 0 ∧ l = false ∧ p = .idle ∧ e.locked = false := by
  have href := he.ref
  have hl : l = false := by cases l <;> simp_all
  have hp : p = .idle := by cases p <;> simp_all [PutPhase.refs]
  subst hl hp
  exact ⟨by omega, rfl, rfl, by simpa using he.locked⟩

/-- An entry whose sleep-lock is free has no lock holder and no freeing `iput`. -/
theorem EntryOk.of_unlocked {e : IEntry} {h : Nat} {l : Bool} {p : PutPhase} (he : EntryOk e h l p)
    (hlk : e.locked = false) : l = false ∧ p ≠ .freeing := by
  have hiff := he.locked
  simp only [hlk, Bool.false_eq_true, false_iff, not_or, Bool.not_eq_true] at hiff
  exact hiff

/-- The representation invariant. -/
structure Inv (s : Itable) : Prop where
  entry : ∀ i, EntryOk (s.inode i) (s.holds i) (s.lockHeld i) (s.putter i)
  /-- No inode is cached by two referenced entries. -/
  distinct : ∀ i j, i ≠ j → 0 < (s.inode i).ref → 0 < (s.inode j).ref → (s.inode i).key ≠ (s.inode j).key
  /-- A referenced, loaded entry holds its disk inode, which is allocated. -/
  coherent : ∀ i, 0 < (s.inode i).ref → (s.inode i).valid = true →
    s.disk (s.inode i).key = (s.inode i).d ∧ (s.inode i).d.type ≠ 0

theorem Inv.boot (disk : Nat × Nat → DiskInode) : (boot disk).Inv where
  entry _ := ⟨rfl, by simp [Itable.boot], by simp [Itable.boot], by simp [Itable.boot]⟩
  distinct _ _ _ h := absurd h (by simp [Itable.boot])
  coherent _ h := absurd h (by simp [Itable.boot])

section Frame

variable {s : Itable}

theorem Inv.ref_pos_of_holds (h : s.Inv) {i : Fin NINODE} (hh : s.holds i ≠ 0) : 0 < (s.inode i).ref := by
  rw [(h.entry i).ref]
  omega

/-- A referenced, loaded entry caches no free disk inode. -/
theorem Inv.key_ne_of_free (h : s.Inv) {k : Nat × Nat} (hk : (s.disk k).type = 0) {j : Fin NINODE}
    (hr : 0 < (s.inode j).ref) (hv : (s.inode j).valid = true) : (s.inode j).key ≠ k := by
  rintro rfl
  obtain ⟨hd, hty⟩ := h.coherent j hr hv
  exact hty (hd ▸ hk)

/-- **Frame rule**: a call that changes entry `i` to `e` and the references
to it, and nothing else of the table, keeps the invariant if `e` keeps what
the invariant says of one entry, caches no inode another referenced entry
caches, holds its disk inode when referenced and loaded, and the call
writes no disk inode another referenced, loaded entry caches. -/
theorem Inv.of_entry (h : s.Inv) {s' : Itable} {i : Fin NINODE} {e : IEntry} (hi : s'.inode i = e)
    (hframe : ∀ j, j ≠ i → s'.inode j = s.inode j ∧ s'.holds j = s.holds j ∧
      s'.lockHeld j = s.lockHeld j ∧ s'.putter j = s.putter j)
    (he : EntryOk e (s'.holds i) (s'.lockHeld i) (s'.putter i))
    (hkey : 0 < e.ref → ∀ j, j ≠ i → 0 < (s.inode j).ref → (s.inode j).key ≠ e.key)
    (hcoh : 0 < e.ref → e.valid = true → s'.disk e.key = e.d ∧ e.d.type ≠ 0)
    (hdisk : ∀ j, j ≠ i → 0 < (s.inode j).ref → (s.inode j).valid = true →
      s'.disk (s.inode j).key = s.disk (s.inode j).key) :
    s'.Inv where
  entry j := by
    by_cases hj : j = i
    · subst hj
      exact hi ▸ he
    · obtain ⟨h₁, h₂, h₃, h₄⟩ := hframe j hj
      rw [h₁, h₂, h₃, h₄]
      exact h.entry j
  distinct j k hjk hj hk := by
    by_cases hji : j = i
    · subst hji
      rw [(hframe k (Ne.symm hjk)).1] at hk ⊢
      rw [hi] at hj ⊢
      exact (hkey hj k (Ne.symm hjk) hk).symm
    · rw [(hframe j hji).1] at hj ⊢
      by_cases hki : k = i
      · subst hki
        rw [hi] at hk ⊢
        exact hkey hk j hji hj
      · rw [(hframe k hki).1] at hk ⊢
        exact h.distinct j k hjk hj hk
  coherent j hj hv := by
    by_cases hji : j = i
    · subst hji
      rw [hi] at hj hv ⊢
      exact hcoh hj hv
    · rw [(hframe j hji).1] at hj hv ⊢
      rw [hdisk j hji hj hv]
      exact h.coherent j hj hv

/-- Another referenced entry caches another inode. -/
theorem Inv.key_ne (h : s.Inv) {i : Fin NINODE} (hr : 0 < (s.inode i).ref) :
    ∀ j, j ≠ i → 0 < (s.inode j).ref → (s.inode j).key ≠ (s.inode i).key :=
  fun j hj hrj => h.distinct j i hj hrj hr

/-- A write to the disk inode of a referenced entry writes no other
referenced entry's. -/
theorem Inv.disk_update (h : s.Inv) {i : Fin NINODE} (hr : 0 < (s.inode i).ref) (d : DiskInode) :
    ∀ j, j ≠ i → 0 < (s.inode j).ref → (s.inode j).valid = true →
      Function.update s.disk (s.inode i).key d (s.inode j).key = s.disk (s.inode j).key :=
  fun j hj hrj _ => Function.update_of_ne (h.key_ne hr j hj hrj) _ _

end Frame

/-! ## What each call can do -/

section Cases

variable {ninodes : Nat} {s s' : Itable} {i : Fin NINODE}

theorem next_iget {dev inum : Nat} (h : s.next ninodes (.iget dev inum) = some s') :
    ∃ t i, iget s.inode dev inum = .ok (t, i) ∧
      s' = { s with inode := t, holds := Function.update s.holds i (s.holds i + 1) } := by
  simp only [next] at h
  split at h
  · rename_i t i hg
    exact ⟨t, i, hg, (Option.some.inj h).symm⟩
  · cases h

theorem next_ialloc {dev type : Nat} (h : s.next ninodes (.ialloc dev type) = some s') :
    ∃ n disk t i, ialloc ninodes s.disk dev type = .ok (n, disk) ∧ iget s.inode dev n = .ok (t, i) ∧
      s' = { s with inode := t, disk := disk, holds := Function.update s.holds i (s.holds i + 1) } := by
  simp only [next] at h
  split at h
  · rename_i n disk ha
    split at h
    · rename_i t i hg
      exact ⟨n, disk, t, i, ha, hg, (Option.some.inj h).symm⟩
    · cases h
  · cases h

theorem next_idup (h : s.next ninodes (.idup i) = some s') :
    (s.holds i ≠ 0 ∨ s.lockHeld i = true) ∧
      s' = { s with inode := idup s.inode i, holds := Function.update s.holds i (s.holds i + 1) } := by
  simp only [next] at h
  split at h
  · cases h
  · rename_i hc
    refine ⟨?_, (Option.some.inj h).symm⟩
    cases hl : s.lockHeld i
    · exact .inl fun hz => hc ⟨hz, hl⟩
    · exact .inr rfl

theorem next_ilock (h : s.next ninodes (.ilock i) = some s') :
    s.holds i ≠ 0 ∧ (s.inode i).locked = false ∧ ∃ t, ilock s.inode s.disk i = .ok t ∧
      s' = { s with
        inode := t
        holds := Function.update s.holds i (s.holds i - 1)
        lockHeld := Function.update s.lockHeld i true } := by
  simp only [next] at h
  split at h
  · cases h
  · rename_i hc
    simp only [not_or, Bool.not_eq_true] at hc
    split at h
    · rename_i t hl
      exact ⟨hc.1, hc.2, t, hl, (Option.some.inj h).symm⟩
    · cases h

theorem next_iunlock (h : s.next ninodes (.iunlock i) = some s') :
    s.lockHeld i = true ∧ ∃ t, iunlock s.inode i = .ok t ∧
      s' = { s with
        inode := t
        holds := Function.update s.holds i (s.holds i + 1)
        lockHeld := Function.update s.lockHeld i false } := by
  simp only [next] at h
  split at h
  · cases h
  · rename_i hc
    split at h
    · rename_i t hu
      exact ⟨by simpa using hc, t, hu, (Option.some.inj h).symm⟩
    · cases h

theorem next_iupdate {d : DiskInode} (h : s.next ninodes (.iupdate i d) = some s') :
    s.lockHeld i = true ∧ d.type = (s.inode i).d.type ∧
      s' = { s with
        inode := Function.update s.inode i { s.inode i with d := d }
        disk := iupdate s.disk { s.inode i with d := d } } := by
  simp only [next] at h
  split at h
  · cases h
  · rename_i hc
    simp only [not_or, Bool.not_eq_false, not_not] at hc
    exact ⟨hc.1, hc.2, (Option.some.inj h).symm⟩

/-- `iput` either frees, with the last reference to a loaded inode with no
links and the sleep-lock free, or drops the reference. -/
theorem next_iput (h : s.next ninodes (.iput i) = some s') :
    s.holds i ≠ 0 ∧
      (((s.inode i).ref = 1 ∧ (s.inode i).valid = true ∧ (s.inode i).d.nlink = 0 ∧ (s.inode i).locked = false ∧
          s' = { s with
            inode := Function.update s.inode i { s.inode i with locked := true }
            holds := Function.update s.holds i (s.holds i - 1)
            putter := Function.update s.putter i .freeing }) ∨
        (¬((s.inode i).ref = 1 ∧ (s.inode i).valid = true ∧ (s.inode i).d.nlink = 0) ∧
          s' = { s with
            inode := Function.update s.inode i { s.inode i with ref := (s.inode i).ref - 1 }
            holds := Function.update s.holds i (s.holds i - 1) })) := by
  simp only [next] at h
  split at h
  · cases h
  rename_i hh
  refine ⟨hh, ?_⟩
  split at h
  · rename_i t hp
    obtain ⟨hfree, rfl⟩ := iput_true hp
    split at h
    · cases h
    · rename_i hlk
      exact .inl ⟨hfree.1, hfree.2.1, hfree.2.2, by simpa using hlk, (Option.some.inj h).symm⟩
  · rename_i t hp
    obtain ⟨hkeep, rfl⟩ := iput_false hp
    exact .inr ⟨hkeep, (Option.some.inj h).symm⟩

theorem next_iputFree (h : s.next ninodes (.iputFree i) = some s') :
    s.putter i = .freeing ∧
      s' = { s with
        inode := (iputFree s.inode s.disk i).1
        disk := (iputFree s.inode s.disk i).2
        putter := Function.update s.putter i .dropping } := by
  simp only [next] at h
  split at h
  · cases h
  · rename_i hc
    exact ⟨not_not.1 hc, (Option.some.inj h).symm⟩

theorem next_iputDrop (h : s.next ninodes (.iputDrop i) = some s') :
    s.putter i = .dropping ∧
      s' = { s with inode := iputDrop s.inode i, putter := Function.update s.putter i .idle } := by
  simp only [next] at h
  split at h
  · cases h
  · rename_i hc
    exact ⟨not_not.1 hc, (Option.some.inj h).symm⟩

end Cases

/-! ## Every call keeps the invariant -/

section Keep

variable {ninodes : Nat} {s s' : Itable} {i : Fin NINODE}

/-- The end of `iget`, and of `ialloc`: one more plain reference to a hit,
or a recycled entry whose one reference is the caller's. The disk inodes
may change where no referenced, loaded entry caches one. -/
theorem Inv.iget_with (h : s.Inv) {dev inum : Nat} {t : Fin NINODE → IEntry}
    (hg : iget s.inode dev inum = .ok (t, i)) {disk : Nat × Nat → DiskInode}
    (hdisk : ∀ j, 0 < (s.inode j).ref → (s.inode j).valid = true →
      disk (s.inode j).key = s.disk (s.inode j).key) :
    Inv { s with inode := t, disk := disk, holds := Function.update s.holds i (s.holds i + 1) } := by
  have he := h.entry i
  rcases iget_ok hg with ⟨hr, -, rfl⟩ | ⟨hno, hz, rfl⟩
  · -- a hit
    refine h.of_entry (Function.update_self _ _ _) (fun j hj => by simp [Function.update_of_ne hj]) ?_
      (fun _ => h.key_ne hr) (fun _ hv => ?_) (fun j _ hrj hv => hdisk j hrj hv)
    · simp only [Function.update_self]
      exact ⟨by dsimp only; rw [he.ref]; omega, he.locked, he.excl, he.valid⟩
    · show disk (s.inode i).key = (s.inode i).d ∧ (s.inode i).d.type ≠ 0
      rw [hdisk i hr hv]
      exact h.coherent i hr hv
  · -- a recycled entry had no references, so no holder and a free sleep-lock
    obtain ⟨hh, hl, hp, hlk⟩ := he.of_ref_zero hz
    refine h.of_entry (Function.update_self _ _ _) (fun j hj => by simp [Function.update_of_ne hj]) ?_
      (fun _ j _ hrj => hno j hrj) (fun _ hv => by cases hv) (fun j _ hrj hv => hdisk j hrj hv)
    simp only [Function.update_self, hh, hl, hp]
    exact ⟨rfl, by simpa using hlk, by simp, by simp⟩

theorem Inv.ialloc (h : s.Inv) {dev type : Nat} (hs : s.next ninodes (.ialloc dev type) = some s') : s'.Inv := by
  obtain ⟨n, disk, t, i, ha, hg, rfl⟩ := next_ialloc hs
  obtain ⟨-, -, hfree, rfl⟩ := ialloc_ok ha
  -- the disk inode `ialloc` writes was free, so no referenced, loaded entry caches it
  exact h.iget_with hg fun j hr hv => Function.update_of_ne (h.key_ne_of_free hfree hr hv) _ _

theorem Inv.idup (h : s.Inv) (hs : s.next ninodes (.idup i) = some s') : s'.Inv := by
  obtain ⟨hc, rfl⟩ := next_idup hs
  have he := h.entry i
  -- the caller holds a reference, plain or with the sleep-lock
  have hr : 0 < (s.inode i).ref := by
    rw [he.ref]
    rcases hc with hh | hl
    · omega
    · rw [hl, Bool.toNat_true]
      omega
  refine h.of_entry (Function.update_self _ _ _) (fun j hj => by simp [Itable.idup, Function.update_of_ne hj]) ?_
    (fun _ => h.key_ne hr) (fun _ hv => h.coherent i hr hv) (fun _ _ _ _ => rfl)
  simp only [Function.update_self]
  exact ⟨by dsimp only; rw [he.ref]; omega, he.locked, he.excl, he.valid⟩

theorem Inv.ilock (h : s.Inv) (hs : s.next ninodes (.ilock i) = some s') : s'.Inv := by
  obtain ⟨hh, hlk, t, hl, rfl⟩ := next_ilock hs
  have he := h.entry i
  have hr := h.ref_pos_of_holds hh
  obtain ⟨hl0, hp⟩ := he.of_unlocked hlk
  -- the caller's plain reference becomes the lock holder's
  have hent : ∀ e : IEntry, e.ref = (s.inode i).ref → e.locked = true → e.valid = true →
      EntryOk e (s.holds i - 1) true (s.putter i) := fun e href hlk' hv =>
    ⟨by rw [href, he.ref, hl0, Bool.toNat_true, Bool.toNat_false]; omega, by simp [hlk'], fun _ => hp,
      fun _ => hv⟩
  obtain ⟨-, ⟨hv, rfl⟩ | ⟨hv, hty, rfl⟩⟩ := ilock_ok hl
  · -- loaded already: the copy is kept
    refine h.of_entry (Function.update_self _ _ _) (fun j hj => by simp [Function.update_of_ne hj]) ?_
      (fun _ => h.key_ne hr) (fun _ _ => h.coherent i hr hv) (fun _ _ _ _ => rfl)
    simp only [Function.update_self]
    exact hent _ rfl rfl hv
  · -- loaded from the disk inode, which is allocated
    refine h.of_entry (Function.update_self _ _ _) (fun j hj => by simp [Function.update_of_ne hj]) ?_
      (fun _ => h.key_ne hr) (fun _ _ => ⟨rfl, hty⟩) (fun _ _ _ _ => rfl)
    simp only [Function.update_self]
    exact hent _ rfl rfl rfl

theorem Inv.iunlock (h : s.Inv) (hs : s.next ninodes (.iunlock i) = some s') : s'.Inv := by
  obtain ⟨hl, t, hu, rfl⟩ := next_iunlock hs
  obtain ⟨-, hr, rfl⟩ := iunlock_ok hu
  have he := h.entry i
  have hp := he.excl hl
  refine h.of_entry (Function.update_self _ _ _) (fun j hj => by simp [Function.update_of_ne hj]) ?_
    (fun _ => h.key_ne hr) (fun _ hv => h.coherent i hr hv) (fun _ _ _ _ => rfl)
  simp only [Function.update_self]
  exact ⟨by dsimp only; simp [he.ref, hl], by simp [hp], by simp, by simp⟩

theorem Inv.iupdate (h : s.Inv) {d : DiskInode} (hs : s.next ninodes (.iupdate i d) = some s') : s'.Inv := by
  obtain ⟨hl, hty, rfl⟩ := next_iupdate hs
  have he := h.entry i
  have hr : 0 < (s.inode i).ref := by
    rw [he.ref, hl, Bool.toNat_true]
    omega
  have hv := he.valid hl
  -- the lock holder writes its own disk inode, which no other referenced entry caches
  refine h.of_entry (Function.update_self _ _ _) (fun j hj => by simp [Function.update_of_ne hj]) ?_
    (fun _ => h.key_ne hr) (fun _ _ => ⟨Function.update_self _ _ _, ?_⟩) (h.disk_update hr d)
  · exact ⟨he.ref, he.locked, he.excl, he.valid⟩
  · dsimp only
    rw [hty]
    exact (h.coherent i hr hv).2

theorem Inv.iput (h : s.Inv) (hs : s.next ninodes (.iput i) = some s') : s'.Inv := by
  have he := h.entry i
  obtain ⟨hh, ⟨href, -, -, hlk, rfl⟩ | ⟨-, rfl⟩⟩ := next_iput hs
  · -- the last reference: `iput` takes the sleep-lock to free
    obtain ⟨hl, hp⟩ := he.of_unlocked hlk
    have hsum := he.ref
    rw [hl, Bool.toNat_false] at hsum
    have hr : 0 < (s.inode i).ref := by omega
    refine h.of_entry (Function.update_self _ _ _) (fun j hj => by simp [Function.update_of_ne hj]) ?_
      (fun _ => h.key_ne hr) (fun _ hv => h.coherent i hr hv) (fun _ _ _ _ => rfl)
    simp only [Function.update_self]
    refine ⟨?_, by simp, by simp [hl], by simp [hl]⟩
    -- its reference was the only one, and is now the freeing `iput`'s
    have hz : (s.putter i).refs = 0 := by omega
    rw [hl, Bool.toNat_false, PutPhase.refs]
    dsimp only
    omega
  · -- another reference is left, or the inode is kept: drop the reference
    have hr := h.ref_pos_of_holds hh
    refine h.of_entry (Function.update_self _ _ _) (fun j hj => by simp [Function.update_of_ne hj]) ?_
      (fun _ => h.key_ne hr) (fun _ hv => h.coherent i hr hv) (fun _ _ _ _ => rfl)
    simp only [Function.update_self]
    exact ⟨by dsimp only; rw [he.ref]; omega, he.locked, he.excl, he.valid⟩

theorem Inv.iputFree (h : s.Inv) (hs : s.next ninodes (.iputFree i) = some s') : s'.Inv := by
  obtain ⟨hp, rfl⟩ := next_iputFree hs
  have he := h.entry i
  have hl : s.lockHeld i = false := by
    cases hc : s.lockHeld i
    · rfl
    · exact absurd hp (he.excl hc)
  have hr : 0 < (s.inode i).ref := by
    rw [he.ref, hp]
    simp [PutPhase.refs]
  -- the entry is no longer loaded, and its disk inode is no other's
  refine h.of_entry (Function.update_self _ _ _)
    (fun j hj => by simp [Itable.iputFree, Function.update_of_ne hj]) ?_
    (fun _ => h.key_ne hr) (fun _ hv => by cases hv) (h.disk_update hr _)
  simp only [Function.update_self]
  exact ⟨by dsimp only; rw [he.ref, hp]; rfl, by simp [hl], by simp, by simp [hl]⟩

theorem Inv.iputDrop (h : s.Inv) (hs : s.next ninodes (.iputDrop i) = some s') : s'.Inv := by
  obtain ⟨hp, rfl⟩ := next_iputDrop hs
  have he := h.entry i
  have hr : 0 < (s.inode i).ref := by
    rw [he.ref, hp]
    simp [PutPhase.refs]
  refine h.of_entry (Function.update_self _ _ _)
    (fun j hj => by simp [Itable.iputDrop, Function.update_of_ne hj]) ?_
    (fun _ => h.key_ne hr) (fun _ hv => h.coherent i hr hv) (fun _ _ _ _ => rfl)
  simp only [Function.update_self]
  exact ⟨by dsimp only; rw [he.ref, hp]; simp [PutPhase.refs], by simpa [hp] using he.locked, fun _ => by simp,
    he.valid⟩

/-- **Every call keeps the invariant.** -/
theorem Inv.next (h : s.Inv) {ev : ItableEv} (hs : s.next ninodes ev = some s') : s'.Inv := by
  cases ev with
  | iget dev inum =>
    obtain ⟨t, i, hg, rfl⟩ := next_iget hs
    exact h.iget_with hg fun _ _ _ => rfl
  | ialloc dev type => exact h.ialloc hs
  | idup i => exact h.idup hs
  | ilock i => exact h.ilock hs
  | iunlock i => exact h.iunlock hs
  | iupdate i d => exact h.iupdate hs
  | iput i => exact h.iput hs
  | iputFree i => exact h.iputFree hs
  | iputDrop i => exact h.iputDrop hs

end Keep

theorem Reachable.inv {ninodes : Nat} {s : Itable} (h : s.Reachable ninodes) : s.Inv :=
  Framework.Reachable.inv (fun _ ⟨disk, e⟩ => e ▸ Inv.boot disk) (fun _ _ hI ⟨_, hs⟩ => hI.next hs) h

/-- `ref == 1 means no other process can have ip locked`: a caller with a
plain reference that is the only one finds the sleep-lock free, so the
`acquiresleep` of a freeing `iput` never waits. -/
theorem Inv.iput_unlocked {s : Itable} (h : s.Inv) {i : Fin NINODE} (hh : s.holds i ≠ 0)
    (hr : (s.inode i).ref = 1) : (s.inode i).locked = false := by
  have he := h.entry i
  have hsum := he.ref
  have hl : s.lockHeld i = false := by
    cases hc : s.lockHeld i
    · rfl
    · rw [hc, Bool.toNat_true] at hsum
      omega
  have hp : s.putter i = .idle := by
    cases hc : s.putter i with
    | idle => rfl
    | freeing | dropping =>
      rw [hc, PutPhase.refs] at hsum
      omega
  have hiff := he.locked
  rw [hl, hp] at hiff
  simpa using hiff

end Itable

/-- **The inode table's invariant** in every state that any interleaving of
`iget`, `ialloc`, `idup`, `ilock`, `iunlock`, `iupdate` and the three steps
of `iput` reaches: no two referenced entries cache one inode; each entry's
`ref` is the number of references callers hold (plain, with the sleep-lock,
or in a freeing `iput`); a referenced, loaded entry's copy is its disk
inode. `ilock` loads the disk inode only into an entry that is not `valid`,
so that its copy is the disk inode as `iupdate` last wrote it, of a type
other than 0; the free in `iput` clears `valid` and frees the disk inode;
`iget` panics only when every entry is referenced. -/
theorem itable_invariant {ninodes : Nat} {s : Itable} (h : s.Reachable ninodes) :
    (∀ i j, i ≠ j → 0 < (s.inode i).ref → 0 < (s.inode j).ref → (s.inode i).key ≠ (s.inode j).key) ∧
      (∀ i, (s.inode i).ref = s.holds i + (s.lockHeld i).toNat + (s.putter i).refs) ∧
      (∀ i, 0 < (s.inode i).ref → (s.inode i).valid = true → (s.inode i).d = s.disk (s.inode i).key) ∧
      (∀ i s', s.next ninodes (.ilock i) = some s' →
        ((s.inode i).valid = true → (s'.inode i).d = (s.inode i).d) ∧
          (s'.inode i).d = s.disk (s.inode i).key ∧ (s'.inode i).d.type ≠ 0) ∧
      (∀ i s', s.next ninodes (.iputFree i) = some s' →
        (s'.inode i).valid = false ∧ (s'.disk (s.inode i).key).type = 0) ∧
      (∀ dev inum msg, Itable.iget s.inode dev inum = .error msg →
        msg = "iget: no inodes" ∧ ∀ i, 0 < (s.inode i).ref) := by
  have hI := h.inv
  refine ⟨hI.distinct, fun i => (hI.entry i).ref, fun i hr hv => (hI.coherent i hr hv).1.symm, ?_, ?_,
    fun _ _ _ => Itable.iget_error⟩
  · intro i s' hs
    obtain ⟨hh, -, t, hl, rfl⟩ := Itable.next_ilock hs
    have hr := hI.ref_pos_of_holds hh
    obtain ⟨-, ⟨hv, rfl⟩ | ⟨hv, hty, rfl⟩⟩ := Itable.ilock_ok hl
    · -- a loaded entry: no load, and the copy is the disk inode already
      dsimp only
      rw [Function.update_self]
      exact ⟨fun _ => rfl, (hI.coherent i hr hv).1.symm, (hI.coherent i hr hv).2⟩
    · dsimp only
      rw [Function.update_self]
      exact ⟨fun hv' => absurd hv' (by simp [hv]), rfl, hty⟩
  · intro i s' hs
    obtain ⟨-, rfl⟩ := Itable.next_iputFree hs
    simp [Itable.iputFree, Itable.iupdate, IEntry.key]

/-- After `iinit`, `iget` finds an entry for the root inode. -/
theorem itable_invariant_iinit : ∃ t i, Itable.iget (Itable.boot fun _ => DiskInode.fresh 0).inode 1 1 = .ok (t, i) := by
  obtain ⟨-, -, -, -, -, herr⟩ := itable_invariant
    (show (Itable.boot fun _ => DiskInode.fresh 0).Reachable 200 from Framework.Reachable.init_mem ⟨_, rfl⟩)
  cases hg : Itable.iget (Itable.boot fun _ => DiskInode.fresh 0).inode 1 1 with
  | error msg => exact absurd ((herr 1 1 msg hg).2 ⟨0, by decide⟩) (by simp [Itable.boot])
  | ok r => exact ⟨r.1, r.2, rfl⟩

end Xv6
