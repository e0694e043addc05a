import Xv6.Param
import Xv6.Framework.Ring
import Xv6.Framework.Reach

/-!
# The virtio disk: descriptors, chains and rings

`virtio_disk.c` gives the device a request as a chain of three of its `NUM`
descriptors, found with `alloc3_desc` and linked by `VRING_DESC_F_NEXT`, and
passes chain heads through two rings in shared memory indexed by free-running
16-bit counters: the driver puts heads on the avail ring, the device puts the
heads of the chains it has served on the used ring. `virtio_disk_rw` submits
a request and sleeps until `virtio_disk_intr` clears `b->disk`, then frees the
chain; both run under `vdisk_lock`, so each run between sleeps is one step
(`Vdisk.next`). The device is a party of its own: it reads the avail ring
(`fetch`) and serves, in any order, each chain it has read (`complete`).
Each buffer's request is ghost state (`Vdisk.req`).

* `Vdisk.alloc3Desc_spec`: `alloc3_desc` takes three distinct free
  descriptors, or gives back what it took and leaves `free[]` as it was.
* `Vdisk.freeChain_chain`: `free_chain` of a chain `virtio_disk_rw` formatted
  frees exactly its three descriptors.
* `Vdisk.window_push` and `Vdisk.window_pop`: the entries of a ring between two
  16-bit counters act as a queue however far the counters have wrapped,
  because `NUM` divides `2¹⁶`.
* `Vdisk.Inv`: the descriptors are partitioned between `free[]` and the
  chains in flight, and the ring windows and the device hold each head of a
  chain whose buffer still waits exactly once; every step keeps it
  (`Vdisk.Inv.next`), and no step of a reachable state panics
  (`Vdisk.Inv.next_ne_error`).
-/

namespace Xv6

open Framework

/-- Descriptors, and entries of each ring (`virtio.h`). -/
def NUM : Nat := 8

/-- The chain goes on with the descriptor in `next`. -/
def VRING_DESC_F_NEXT : Nat := 1

/-- The device writes the buffer (else it reads it). -/
def VRING_DESC_F_WRITE : Nat := 2

/-- What the driver stores in a descriptor's `addr`: nothing, `&disk.ops[i]`,
`b->data`, or `&disk.info[i].status`. -/
inductive DescAddr
  | null
  | ops (i : Nat)
  | data (b : Fin NBUF)
  | status (i : Nat)
deriving DecidableEq, Repr

/-- `struct virtq_desc`. -/
structure VirtqDesc where
  addr : DescAddr
  len : Nat
  flags : Nat
  next : Nat
deriving DecidableEq, Repr

/-- A descriptor as `free_desc` leaves it. -/
def VirtqDesc.zero : VirtqDesc := ⟨.null, 0, 0, 0⟩

/-- `disk.info[i]`: the buffer of the request whose chain starts at `i`, and
the status byte the device writes. -/
structure VirtioInfo where
  b : Option (Fin NBUF)
  status : Nat
deriving DecidableEq, Repr

/-- Where the process holding buffer `b` is in `virtio_disk_rw(b, write)`:
outside it, asleep on `&disk.free[0]` for descriptors, or asleep on `b`
with the chain `idx` submitted. -/
inductive VirtioReq
  | idle
  | waiting (write : Bool)
  | inflight (write : Bool) (i0 i1 i2 : Nat)
deriving DecidableEq, Repr

/-- The descriptors a request holds: its chain while in flight. -/
def VirtioReq.descs : VirtioReq → List Nat
  | .inflight _ i0 i1 i2 => [i0, i1, i2]
  | .idle | .waiting _ => []

@[simp] theorem VirtioReq.descs_inflight (w : Bool) (i0 i1 i2 : Nat) :
    (VirtioReq.inflight w i0 i1 i2).descs = [i0, i1, i2] := rfl
@[simp] theorem VirtioReq.descs_idle : VirtioReq.idle.descs = [] := rfl
@[simp] theorem VirtioReq.descs_waiting (w : Bool) : (VirtioReq.waiting w).descs = [] := rfl

theorem VirtioReq.ne_inflight {r : VirtioReq} (hr : r.descs = []) (w : Bool) (i0 i1 i2 : Nat) :
    r ≠ .inflight w i0 i1 i2 := by
  rintro rfl
  simp at hr

/-- `disk` with the rings it shares with the device, every buffer's `disk`
flag, the device's progress, and each buffer's request. -/
structure Vdisk where
  /-- `disk.desc[i]`. -/
  desc : Nat → VirtqDesc
  /-- `disk.free[i]`. -/
  free : Nat → Bool
  /-- `disk.avail->idx` and `disk.avail->ring`. -/
  availIdx : UInt16
  avail : Nat → Nat
  /-- `disk.used->idx` and the `id`s of `disk.used->ring`, written by the
  device. -/
  usedIdx : UInt16
  used : Nat → Nat
  /-- `disk.used_idx`: how far `virtio_disk_intr` has looked. -/
  used_idx : UInt16
  /-- `disk.info[i]`. -/
  info : Nat → VirtioInfo
  /-- `b->disk`. -/
  bdisk : Fin NBUF → Bool
  /-- The device: how far it has read the avail ring, and the chains it has
  read and not served. -/
  lastAvail : UInt16
  serving : List Nat
  /-- Each buffer's request. -/
  req : Fin NBUF → VirtioReq

namespace Vdisk

/-- `virtio_disk_init`: every descriptor free, the rings empty. -/
def init : Vdisk where
  desc _ := .zero
  free _ := true
  availIdx := 0
  avail _ := 0
  usedIdx := 0
  used _ := 0
  used_idx := 0
  info _ := ⟨none, 0⟩
  bdisk _ := false
  lastAvail := 0
  serving := []
  req _ := .idle

/-! ## Allocating and freeing descriptors -/

/-- `disk.free[i] = 0`. -/
def take (d : Vdisk) (i : Nat) : Vdisk := { d with free := Function.update d.free i false }

/-- What `free_desc(i)` does past its checks. -/
def giveBack (d : Vdisk) (i : Nat) : Vdisk :=
  { d with
    desc := Function.update d.desc i .zero
    free := Function.update d.free i true }

/-- `alloc_desc()`: the first free descriptor, taken; none for `-1`. -/
def allocDesc (d : Vdisk) : Option (Nat × Vdisk) :=
  ((List.range NUM).find? (d.free ·)).map fun i => (i, d.take i)

/-- `free_desc(i)`. The `wakeup(&disk.free[0])` is the waiting requests'
freedom to retry at any step. -/
def freeDesc (d : Vdisk) (i : Nat) : Except String Vdisk :=
  if i ≥ NUM then .error "free_desc 1"
  else if d.free i then .error "free_desc 2"
  else .ok (d.giveBack i)

/-- The loop of `free_chain(i)`, for `fuel` rounds. -/
def freeChainLoop : Nat → Vdisk → Nat → Except String Vdisk
  | 0, d, _ => .ok d
  | fuel + 1, d, i =>
    let flag := (d.desc i).flags
    let nxt := (d.desc i).next
    match d.freeDesc i with
    | .error e => .error e
    | .ok d => if flag &&& VRING_DESC_F_NEXT ≠ 0 then freeChainLoop fuel d nxt else .ok d

/-- `free_chain(i)`. Each round frees a descriptor that was not free or
panics, so the loop has ended within `NUM + 1` rounds. -/
def freeChain (d : Vdisk) (i : Nat) : Except String Vdisk := freeChainLoop (NUM + 1) d i

/-- `alloc3_desc(idx)`, its loop unrolled: three descriptors, or `-1` with
the ones taken freed again. -/
def alloc3Desc (d : Vdisk) : Except String (Option (Nat × Nat × Nat) × Vdisk) :=
  match d.allocDesc with
  | none => .ok (none, d)
  | some (i0, d) =>
    match d.allocDesc with
    | none => (d.freeDesc i0).map fun d => (none, d)
    | some (i1, d) =>
      match d.allocDesc with
      | none => ((d.freeDesc i0).bind fun d => d.freeDesc i1).map fun d => (none, d)
      | some (i2, d) => .ok (some (i0, i1, i2), d)

@[simp] theorem take_free (d : Vdisk) (i : Nat) : (d.take i).free = Function.update d.free i false := rfl
@[simp] theorem take_desc (d : Vdisk) (i : Nat) : (d.take i).desc = d.desc := rfl
@[simp] theorem take_req (d : Vdisk) (i : Nat) : (d.take i).req = d.req := rfl
@[simp] theorem giveBack_free (d : Vdisk) (i : Nat) : (d.giveBack i).free = Function.update d.free i true := rfl
@[simp] theorem giveBack_desc (d : Vdisk) (i : Nat) : (d.giveBack i).desc = Function.update d.desc i .zero := rfl
@[simp] theorem giveBack_req (d : Vdisk) (i : Nat) : (d.giveBack i).req = d.req := rfl
@[simp] theorem giveBack_info (d : Vdisk) (i : Nat) : (d.giveBack i).info = d.info := rfl
@[simp] theorem giveBack_bdisk (d : Vdisk) (i : Nat) : (d.giveBack i).bdisk = d.bdisk := rfl

/-- `alloc_desc` returns a free descriptor, taken. -/
theorem allocDesc_some {d d' : Vdisk} {i : Nat} (h : d.allocDesc = some (i, d')) :
    i < NUM ∧ d.free i = true ∧ d' = d.take i := by
  simp only [allocDesc, Option.map_eq_some_iff, Prod.mk.injEq] at h
  obtain ⟨j, hj, rfl, rfl⟩ := h
  obtain ⟨hf, hmem⟩ := List.find?_some hj, List.mem_of_find?_eq_some hj
  exact ⟨List.mem_range.1 hmem, hf, rfl⟩

/-- `alloc_desc` returns `-1` only when no descriptor is free. -/
theorem allocDesc_none {d : Vdisk} (h : d.allocDesc = none) : ∀ i < NUM, d.free i = false := by
  intro i hi
  simp only [allocDesc, Option.map_eq_none_iff, List.find?_eq_none] at h
  simpa using h i (List.mem_range.2 hi)

theorem freeDesc_ok {d : Vdisk} {i : Nat} (hi : i < NUM) (hf : d.free i = false) : d.freeDesc i = .ok (d.giveBack i) := by
  simp [freeDesc, hf, Nat.not_le.2 hi]

/-- Giving back a descriptor just taken, one that `free_desc` had left
zeroed, restores the state. -/
theorem giveBack_take {d : Vdisk} {i : Nat} (hf : d.free i = true) (hz : d.desc i = .zero) : (d.take i).giveBack i = d := by
  simp only [giveBack, take_desc, take_free, Function.update_idem]
  rw [← hz, ← hf, Function.update_eq_self, Function.update_eq_self]
  rfl

theorem giveBack_take_comm (d : Vdisk) {i j : Nat} (h : i ≠ j) : (d.take j).giveBack i = (d.giveBack i).take j := by
  simp only [giveBack, take, Function.update_comm h]

/-- `alloc3_desc` on a state whose free descriptors are zeroed takes three
distinct free descriptors, or gives back what it took and changes nothing. -/
theorem alloc3Desc_spec {d : Vdisk} (hz : ∀ i, d.free i = true → d.desc i = .zero) :
    (∃ i0 i1 i2, d.alloc3Desc = .ok (some (i0, i1, i2), ((d.take i0).take i1).take i2) ∧
      [i0, i1, i2].Nodup ∧ ∀ i ∈ [i0, i1, i2], i < NUM ∧ d.free i = true) ∨
    d.alloc3Desc = .ok (none, d) := by
  unfold alloc3Desc
  cases h0 : d.allocDesc with
  | none => exact .inr rfl
  | some p0 =>
    obtain ⟨i0, d0⟩ := p0
    obtain ⟨hi0, hf0, rfl⟩ := allocDesc_some h0
    dsimp only
    cases h1 : (d.take i0).allocDesc with
    | none =>
      right
      rw [freeDesc_ok hi0 (by simp), Except.map, giveBack_take hf0 (hz i0 hf0)]
    | some p1 =>
      obtain ⟨i1, d1⟩ := p1
      obtain ⟨hi1, hf1, rfl⟩ := allocDesc_some h1
      dsimp only
      have h10 : i1 ≠ i0 := by
        rintro rfl
        simp at hf1
      have hf1' : d.free i1 = true := by simpa [h10] using hf1
      cases h2 : ((d.take i0).take i1).allocDesc with
      | none =>
        right
        have hb0 := freeDesc_ok (d := (d.take i0).take i1) hi0 (by simp [h10.symm])
        have hb1 := freeDesc_ok (d := ((d.take i0).take i1).giveBack i0) hi1 (by simp [h10])
        rw [hb0, Except.bind, hb1, Except.map, giveBack_take_comm _ h10.symm, giveBack_take hf0 (hz i0 hf0),
          giveBack_take hf1' (hz i1 hf1')]
      | some p2 =>
        obtain ⟨i2, d2⟩ := p2
        obtain ⟨hi2, hf2, rfl⟩ := allocDesc_some h2
        dsimp only
        have h20 : i2 ≠ i0 := by
          rintro rfl
          simp [Ne.symm h10] at hf2
        have h21 : i2 ≠ i1 := by
          rintro rfl
          simp at hf2
        have hf2' : d.free i2 = true := by simpa [h20, h21] using hf2
        left
        refine ⟨i0, i1, i2, rfl, ?_, ?_⟩
        · simp [Ne.symm h10, Ne.symm h20, Ne.symm h21]
        · simp [hi0, hi1, hi2, hf0, hf1', hf2']

/-- `free_chain` of three distinct descriptors in use, linked by `NEXT`
from the first with the last unlinked, frees exactly those three. -/
theorem freeChain_chain {d : Vdisk} {i0 i1 i2 : Nat} (hn : [i0, i1, i2].Nodup)
    (hu : ∀ i ∈ [i0, i1, i2], i < NUM ∧ d.free i = false)
    (h0 : (d.desc i0).flags &&& VRING_DESC_F_NEXT ≠ 0) (h0n : (d.desc i0).next = i1)
    (h1 : (d.desc i1).flags &&& VRING_DESC_F_NEXT ≠ 0) (h1n : (d.desc i1).next = i2)
    (h2 : (d.desc i2).flags &&& VRING_DESC_F_NEXT = 0) :
    d.freeChain i0 = .ok (((d.giveBack i0).giveBack i1).giveBack i2) := by
  simp only [List.mem_cons, List.not_mem_nil, or_false, forall_eq_or_imp, forall_eq] at hu
  obtain ⟨⟨hl0, hf0⟩, ⟨hl1, hf1⟩, ⟨hl2, hf2⟩⟩ := hu
  simp only [List.nodup_cons, List.mem_cons, List.not_mem_nil, or_false, not_or, List.nodup_nil,
    not_false_eq_true, and_true] at hn
  obtain ⟨⟨h01, h02⟩, h12⟩ := hn
  have hd1 : (d.giveBack i0).desc i1 = d.desc i1 := by simp [Ne.symm h01]
  have hd2 : ((d.giveBack i0).giveBack i1).desc i2 = d.desc i2 := by simp [Ne.symm h02, Ne.symm h12]
  rw [freeChain, NUM, freeChainLoop, freeDesc_ok hl0 hf0]
  dsimp only
  rw [if_pos h0, h0n, freeChainLoop, freeDesc_ok hl1 (by simp [Ne.symm h01, hf1])]
  dsimp only
  rw [hd1, if_pos h1, h1n, freeChainLoop, freeDesc_ok hl2 (by simp [Ne.symm h02, Ne.symm h12, hf2])]
  dsimp only
  rw [hd2, if_neg (not_not.2 h2)]

/-! ## The rings

Each ring's entries from one 16-bit counter to another are a queue: the
avail ring's from the device's `lastAvail` to `avail->idx`, the used ring's
from `used_idx` to `used->idx`. -/

/-- The entries of a ring from counter `a` to counter `b`. -/
def window (ring : Nat → Nat) (a b : UInt16) : List Nat := ringView NUM ring a.toNat (b - a).toNat

theorem NUM_dvd : NUM ∣ 2 ^ 16 := by decide

@[simp] theorem length_window (ring : Nat → Nat) (a b : UInt16) : (window ring a b).length = (b - a).toNat := by
  simp [window]

@[simp] theorem window_self (ring : Nat → Nat) (a : UInt16) : window ring a a = [] := by
  rw [window, sub_self, UInt16.toNat_zero]
  rfl

theorem window_eq_nil {ring : Nat → Nat} {a b : UInt16} : window ring a b = [] ↔ a = b := by
  rw [← List.length_eq_zero_iff, length_window, ← UInt16.toNat_zero, UInt16.toNat_inj, sub_eq_zero, eq_comm]

/-- Storing at the cell `b` names, in a ring holding fewer than `NUM`
entries, and advancing `b` appends to the queue. -/
theorem window_push {ring : Nat → Nat} {a b : UInt16} (hc : (b - a).toNat < NUM) (v : Nat) :
    window (Function.update ring (b.toNat % NUM) v) a (b + 1) = window ring a b ++ [v] := by
  have := a.toNat_lt
  have := b.toNat_lt
  have hs : (b + 1 - a).toNat = (b - a).toNat + 1 := by
    rw [NUM] at hc
    rw [UInt16.toNat_sub, UInt16.toNat_sub, UInt16.toNat_add, UInt16.toNat_one] at *
    omega
  have hm : b.toNat % NUM = (a.toNat + (b - a).toNat) % NUM := by
    rw [UInt16.toNat_sub, NUM]
    omega
  rw [window, hs, hm]
  exact ringView_push hc v

/-- Advancing `a` short of `b` takes the head of the queue, in the cell `a`
names. -/
theorem window_pop {ring : Nat → Nat} {a b : UInt16} (h : a ≠ b) :
    window ring a b = ring (a.toNat % NUM) :: window ring (a + 1) b := by
  have := a.toNat_lt
  have := b.toNat_lt
  have hs : (b - a).toNat = (b - (a + 1)).toNat + 1 := by
    have h' : a.toNat ≠ b.toNat := fun e => h (UInt16.toNat_inj.1 e)
    rw [UInt16.toNat_sub, UInt16.toNat_sub, UInt16.toNat_add, UInt16.toNat_one]
    omega
  rw [window, hs, ringView_pop, window, UInt16.toNat_add, UInt16.toNat_one, ringView_mod NUM_dvd]

/-! ## The driver and the device -/

/-- `virtio_disk_rw` from formatting the chain `idx` to advancing
`avail->idx`: the request's type, reserved field and sector in
`disk.ops[idx[0]]`, 16 bytes; the block in `b->data`, which the device writes
for a read; the status byte in `disk.info[idx[0]]`, which it always writes. -/
def submit (d : Vdisk) (b : Fin NBUF) (write : Bool) (i0 i1 i2 : Nat) : Vdisk :=
  { d with
    desc := Function.update (Function.update (Function.update d.desc
      i0 ⟨.ops i0, 16, VRING_DESC_F_NEXT, i1⟩)
      i1 ⟨.data b, BSIZE, (if write then 0 else VRING_DESC_F_WRITE) ||| VRING_DESC_F_NEXT, i2⟩)
      i2 ⟨.status i0, 1, VRING_DESC_F_WRITE, 0⟩
    info := Function.update d.info i0 ⟨some b, 0xff⟩
    bdisk := Function.update d.bdisk b true
    avail := Function.update d.avail (d.availIdx.toNat % NUM) i0
    availIdx := d.availIdx + 1 }

/-- The ghost update: `b`'s request is now `r`. -/
def setReq (d : Vdisk) (b : Fin NBUF) (r : VirtioReq) : Vdisk := { d with req := Function.update d.req b r }

/-- `virtio_disk_rw(b, write)` under `vdisk_lock`, from taking the lock or
waking on `&disk.free[0]` to the next sleep: on `&disk.free[0]` again when
`alloc3_desc` fails, else on `b` with the chain submitted. -/
def virtioDiskRw (d : Vdisk) (b : Fin NBUF) (write : Bool) : Except String Vdisk :=
  d.alloc3Desc.map fun
    | (none, d) => d.setReq b (.waiting write)
    | (some (i0, i1, i2), d) => (d.submit b write i0 i1 i2).setReq b (.inflight write i0 i1 i2)

/-- The end of `virtio_disk_rw`, woken with `b->disk == 0`:
`disk.info[idx[0]].b = 0; free_chain(idx[0])`. -/
def rwDone (d : Vdisk) (i0 : Nat) : Except String Vdisk :=
  freeChain { d with info := Function.update d.info i0 { d.info i0 with b := none } } i0

/-- A round of `virtio_disk_intr`'s loop past its checks: `b->disk = 0` and
`disk.used_idx += 1`. -/
def wake (d : Vdisk) (b : Fin NBUF) : Vdisk :=
  { d with bdisk := Function.update d.bdisk b false, used_idx := d.used_idx + 1 }

/-- The loop of `virtio_disk_intr`, for `fuel` rounds. -/
def intrLoop : Nat → Vdisk → Except String Vdisk
  | 0, d => .ok d
  | fuel + 1, d =>
    if d.used_idx = d.usedIdx then .ok d
    else
      let id := d.used (d.used_idx.toNat % NUM)
      if (d.info id).status ≠ 0 then .error "virtio_disk_intr status"
      else
        match (d.info id).b with
        -- `b->disk = 0` through a null pointer faults in the kernel
        | none => .error "kerneltrap"
        | some b => intrLoop fuel (d.wake b)

/-- `virtio_disk_intr()` under `vdisk_lock`. Each round moves `used_idx` one
closer to `used->idx`, so `(used->idx - used_idx) mod 2¹⁶` rounds take the
loop to its end. An entry the device adds while the loop runs is the next
call's. -/
def virtioDiskIntr (d : Vdisk) : Except String Vdisk := intrLoop (d.usedIdx - d.used_idx).toNat d

/-- The device reads the next head from the avail ring. -/
def fetch (d : Vdisk) : Option Vdisk :=
  if d.lastAvail = d.availIdx then none
  else some { d with serving := d.serving ++ [d.avail (d.lastAvail.toNat % NUM)], lastAvail := d.lastAvail + 1 }

/-- The last descriptor of the chain from `i`, after at most `n` links. -/
def chainEnd (desc : Nat → VirtqDesc) : Nat → Nat → Nat
  | 0, i => i
  | n + 1, i => if (desc i).flags &&& VRING_DESC_F_NEXT ≠ 0 then chainEnd desc n (desc i).next else i

/-- The device serves chain `h`, one it has read: it writes 0 to the status
byte the chain's last descriptor points at and puts `h` on the used ring. -/
def complete (d : Vdisk) (h : Nat) : Option Vdisk :=
  if h ∈ d.serving then
    match (d.desc (chainEnd d.desc NUM h)).addr with
    | .status i =>
      some { d with
        info := Function.update d.info i { d.info i with status := 0 }
        used := Function.update d.used (d.usedIdx.toNat % NUM) h
        usedIdx := d.usedIdx + 1
        serving := d.serving.erase h }
    | .null | .ops _ | .data _ => none
  else none

end Vdisk

/-- A step of the driver or of the device. -/
inductive VirtioEv
  /-- The holder of `b` calls `virtio_disk_rw(b, write)`. -/
  | rw (b : Fin NBUF) (write : Bool)
  /-- It wakes on `&disk.free[0]` and tries again. -/
  | retry (b : Fin NBUF)
  /-- It wakes on `b` and finishes. -/
  | done (b : Fin NBUF)
  | intr
  | fetch
  | complete (h : Nat)
deriving DecidableEq, Repr

namespace Vdisk

/-- One step: none when the step cannot be taken, an error when it
panics. -/
def next (d : Vdisk) : VirtioEv → Option (Except String Vdisk)
  | .rw b write => if d.req b = .idle then some (d.virtioDiskRw b write) else none
  | .retry b =>
    match d.req b with
    | .waiting write => some (d.virtioDiskRw b write)
    | .idle | .inflight .. => none
  | .done b =>
    match d.req b with
    | .inflight _ i0 _ _ =>
      if d.bdisk b then none
      else some ((d.rwDone i0).map fun d => d.setReq b .idle)
    | .idle | .waiting _ => none
  | .intr => some d.virtioDiskIntr
  | .fetch => d.fetch.map .ok
  | .complete h => (d.complete h).map .ok

/-! ## The invariant -/

/-- The heads on the avail ring that the device has not read. -/
def pending (d : Vdisk) : List Nat := window d.avail d.lastAvail d.availIdx

/-- The heads on the used ring that `virtio_disk_intr` has not seen. -/
def completed (d : Vdisk) : List Nat := window d.used d.used_idx d.usedIdx

/-- The heads of the chains between their submission and
`virtio_disk_intr`'s seeing them served. -/
def flight (d : Vdisk) : List Nat := d.pending ++ d.serving ++ d.completed

/-- The chain of `b`'s request as `virtio_disk_rw` formats it. -/
structure ChainOk (d : Vdisk) (b : Fin NBUF) (write : Bool) (i0 i1 i2 : Nat) : Prop where
  lt : ∀ i ∈ [i0, i1, i2], i < NUM
  desc0 : d.desc i0 = ⟨.ops i0, 16, VRING_DESC_F_NEXT, i1⟩
  desc1 : d.desc i1 = ⟨.data b, BSIZE, (if write then 0 else VRING_DESC_F_WRITE) ||| VRING_DESC_F_NEXT, i2⟩
  desc2 : d.desc i2 = ⟨.status i0, 1, VRING_DESC_F_WRITE, 0⟩
  info : (d.info i0).b = some b

/-- What every reachable state keeps. -/
structure Inv (d : Vdisk) : Prop where
  /-- A chain's descriptors are distinct, and no two chains share one. -/
  distinct : ∀ b, (d.req b).descs.Nodup
  disjoint : ∀ b b', b ≠ b' → ∀ i ∈ (d.req b).descs, i ∉ (d.req b').descs
  /-- A descriptor is free exactly when no chain holds it, and free
  descriptors are zeroed. -/
  free : ∀ i < NUM, d.free i = true ↔ ∀ b, i ∉ (d.req b).descs
  zero : ∀ i, d.free i = true → d.desc i = .zero
  chain : ∀ b w i0 i1 i2, d.req b = .inflight w i0 i1 i2 → d.ChainOk b w i0 i1 i2
  /-- `info[i].b` names only the request whose chain starts at `i`. -/
  info : ∀ i b, (d.info i).b = some b → ∃ w i1 i2, d.req b = .inflight w i i1 i2
  /-- The heads in flight are those of the chains whose buffers wait, each
  once. -/
  heads : ∀ h, h ∈ d.flight ↔ ∃ b w i1 i2, d.req b = .inflight w h i1 i2 ∧ d.bdisk b = true
  nodup : d.flight.Nodup
  /-- The device writes a chain's status byte when it serves the chain. -/
  unserved : ∀ h ∈ d.pending ++ d.serving, (d.info h).status = 0xff
  served : ∀ h ∈ d.completed, (d.info h).status = 0

theorem Inv.init : Vdisk.init.Inv where
  distinct _ := by simp [Vdisk.init]
  disjoint _ _ _ := by simp [Vdisk.init]
  free _ _ := by simp [Vdisk.init]
  zero _ _ := rfl
  chain _ _ _ _ _ h := by cases h
  info _ _ h := by cases h
  heads _ := by simp [Vdisk.flight, Vdisk.pending, Vdisk.completed, Vdisk.init]
  nodup := by simp [Vdisk.flight, Vdisk.pending, Vdisk.completed, Vdisk.init]
  unserved _ h := by simp [Vdisk.init, pending] at h
  served _ h := by simp [Vdisk.init, completed] at h

section Inv

variable {d : Vdisk}

/-- A chain is as it was where its descriptors and its `info` entry are. -/
theorem ChainOk.congr {d' : Vdisk} {b : Fin NBUF} {w : Bool} {i0 i1 i2 : Nat} (hc : d.ChainOk b w i0 i1 i2)
    (hd : ∀ i ∈ [i0, i1, i2], d'.desc i = d.desc i) (hi : (d'.info i0).b = (d.info i0).b) :
    d'.ChainOk b w i0 i1 i2 where
  lt := hc.lt
  desc0 := by rw [hd i0 (by simp), hc.desc0]
  desc1 := by rw [hd i1 (by simp), hc.desc1]
  desc2 := by rw [hd i2 (by simp), hc.desc2]
  info := by rw [hi, hc.info]

theorem Inv.head_unique (h : d.Inv) {b b' : Fin NBUF} {w w' : Bool} {i0 i1 i2 j1 j2 : Nat}
    (hb : d.req b = .inflight w i0 i1 i2) (hb' : d.req b' = .inflight w' i0 j1 j2) : b = b' := by
  by_contra hne
  exact h.disjoint b b' hne i0 (by simp [hb]) (by simp [hb'])

theorem Inv.lt_of_flight (h : d.Inv) {x : Nat} (hx : x ∈ d.flight) : x < NUM := by
  obtain ⟨b, w, i1, i2, hb, -⟩ := (h.heads x).1 hx
  exact (h.chain _ _ _ _ _ hb).lt x (by simp)

/-- A free descriptor heads no chain in flight. -/
theorem Inv.not_flight_of_free (h : d.Inv) {i : Nat} (hi : i < NUM) (hf : d.free i = true) : i ∉ d.flight := by
  intro hx
  obtain ⟨b, w, i1, i2, hb, -⟩ := (h.heads i).1 hx
  exact (h.free i hi).1 hf b (by simp [hb])

/-- A list of distinct descriptors that misses one has room to grow. -/
theorem length_lt_of_not_mem {l : List Nat} {x : Nat} (hl : l.Nodup) (hb : ∀ y ∈ l, y < NUM) (hx : x < NUM)
    (hn : x ∉ l) : l.length < NUM := by
  have hsub : (x :: l).Subperm (List.range NUM) := (List.nodup_cons.2 ⟨hn, hl⟩).subperm fun y hy => by
    rcases List.mem_cons.1 hy with rfl | hy
    · exact List.mem_range.2 hx
    · exact List.mem_range.2 (hb y hy)
  simpa using hsub.length_le

section SetReq

variable (d : Vdisk) (b : Fin NBUF) (r : VirtioReq)

@[simp] theorem setReq_req : (d.setReq b r).req = Function.update d.req b r := rfl
@[simp] theorem setReq_desc : (d.setReq b r).desc = d.desc := rfl
@[simp] theorem setReq_free : (d.setReq b r).free = d.free := rfl
@[simp] theorem setReq_info : (d.setReq b r).info = d.info := rfl
@[simp] theorem setReq_bdisk : (d.setReq b r).bdisk = d.bdisk := rfl
@[simp] theorem setReq_flight : (d.setReq b r).flight = d.flight := rfl
@[simp] theorem setReq_pending : (d.setReq b r).pending = d.pending := rfl
@[simp] theorem setReq_serving : (d.setReq b r).serving = d.serving := rfl
@[simp] theorem setReq_completed : (d.setReq b r).completed = d.completed := rfl

end SetReq

/-- A request that holds no chain before or after its change changes
nothing the invariant sees. -/
theorem Inv.setReq (h : d.Inv) {b : Fin NBUF} {r : VirtioReq} (hb : (d.req b).descs = []) (hr : r.descs = []) :
    (d.setReq b r).Inv := by
  have hdescs : ∀ b', (Function.update d.req b r b').descs = (d.req b').descs := by
    intro b'
    by_cases e : b' = b
    · subst e
      simp [hb, hr]
    · simp [e]
  have hin : ∀ b' w i0 i1 i2, Function.update d.req b r b' = .inflight w i0 i1 i2 ↔ d.req b' = .inflight w i0 i1 i2 := by
    intro b' w i0 i1 i2
    by_cases e : b' = b
    · subst e
      simp only [Function.update_self]
      exact ⟨fun e => absurd e (VirtioReq.ne_inflight hr _ _ _ _), fun e => absurd e (VirtioReq.ne_inflight hb _ _ _ _)⟩
    · simp [e]
  exact {
    distinct := fun b' => by simpa [hdescs] using h.distinct b'
    disjoint := fun b₁ b₂ hne => by simpa [hdescs] using h.disjoint b₁ b₂ hne
    free := fun i hi => by simpa [hdescs] using h.free i hi
    zero := h.zero
    chain := fun b' w i0 i1 i2 e => (h.chain b' w i0 i1 i2 ((hin _ _ _ _ _).1 (by simpa using e))).congr
      (fun _ _ => rfl) rfl
    info := fun i b' e => by simpa [hin] using h.info i b' e
    heads := fun x => by simpa [hin] using h.heads x
    nodup := h.nodup
    unserved := h.unserved
    served := h.served }

@[simp] theorem take_info (d : Vdisk) (i : Nat) : (d.take i).info = d.info := rfl
@[simp] theorem take_bdisk (d : Vdisk) (i : Nat) : (d.take i).bdisk = d.bdisk := rfl
@[simp] theorem take_pending (d : Vdisk) (i : Nat) : (d.take i).pending = d.pending := rfl
@[simp] theorem take_serving (d : Vdisk) (i : Nat) : (d.take i).serving = d.serving := rfl
@[simp] theorem take_completed (d : Vdisk) (i : Nat) : (d.take i).completed = d.completed := rfl

section Submit

variable (d : Vdisk) (b : Fin NBUF) (w : Bool) (i0 i1 i2 : Nat)

@[simp] theorem submit_desc : (d.submit b w i0 i1 i2).desc =
    Function.update (Function.update (Function.update d.desc
      i0 ⟨.ops i0, 16, VRING_DESC_F_NEXT, i1⟩)
      i1 ⟨.data b, BSIZE, (if w then 0 else VRING_DESC_F_WRITE) ||| VRING_DESC_F_NEXT, i2⟩)
      i2 ⟨.status i0, 1, VRING_DESC_F_WRITE, 0⟩ := rfl
@[simp] theorem submit_free : (d.submit b w i0 i1 i2).free = d.free := rfl
@[simp] theorem submit_info : (d.submit b w i0 i1 i2).info = Function.update d.info i0 ⟨some b, 0xff⟩ := rfl
@[simp] theorem submit_bdisk : (d.submit b w i0 i1 i2).bdisk = Function.update d.bdisk b true := rfl
@[simp] theorem submit_req : (d.submit b w i0 i1 i2).req = d.req := rfl
@[simp] theorem submit_serving : (d.submit b w i0 i1 i2).serving = d.serving := rfl
@[simp] theorem submit_completed : (d.submit b w i0 i1 i2).completed = d.completed := rfl

/-- Submitting puts the chain's head on the avail ring, when the ring has
room for it. -/
theorem submit_pending (hc : d.pending.length < NUM) : (d.submit b w i0 i1 i2).pending = d.pending ++ [i0] := by
  have hc' : (d.availIdx - d.lastAvail).toNat < NUM := by simpa [pending] using hc
  exact window_push hc' i0

end Submit

/-- Submitting a chain of three free descriptors for a request that holds
none keeps the invariant. -/
theorem Inv.submit (h : d.Inv) {b : Fin NBUF} {w : Bool} {i0 i1 i2 : Nat} (hb : (d.req b).descs = [])
    (hn : [i0, i1, i2].Nodup) (hf : ∀ i ∈ [i0, i1, i2], i < NUM ∧ d.free i = true) :
    ((((d.take i0).take i1).take i2).submit b w i0 i1 i2).setReq b (.inflight w i0 i1 i2) |>.Inv := by
  have hheld : ∀ i ∈ [i0, i1, i2], ∀ b', i ∉ (d.req b').descs := fun i hi =>
    (h.free i (hf i hi).1).1 (hf i hi).2
  have hfl : i0 ∉ d.flight := h.not_flight_of_free (hf i0 (by simp)).1 (hf i0 (by simp)).2
  have hroom : d.pending.length < NUM := by
    have := length_lt_of_not_mem h.nodup (fun _ => h.lt_of_flight) (hf i0 (by simp)).1 hfl
    simp only [Vdisk.flight, List.length_append] at this
    omega
  have hnb : ∀ b' w' j0 j1 j2, d.req b' = .inflight w' j0 j1 j2 → b' ≠ b := by
    rintro b' w' j0 j1 j2 hj rfl
    simp [hj] at hb
  simp only [List.nodup_cons, List.mem_cons, List.not_mem_nil, or_false, not_or, List.nodup_nil,
    not_false_eq_true, and_true] at hn
  obtain ⟨⟨h01, h02⟩, h12⟩ := hn
  set S := ((((d.take i0).take i1).take i2).submit b w i0 i1 i2).setReq b (.inflight w i0 i1 i2) with hS
  -- what the step changes, field by field
  have hdescs : ∀ b', (S.req b').descs = if b' = b then [i0, i1, i2] else (d.req b').descs := by
    intro b'
    by_cases e : b' = b <;> simp [hS, e]
  have hin : ∀ b' w' j0 j1 j2, S.req b' = .inflight w' j0 j1 j2 ↔
      (b' = b ∧ w' = w ∧ j0 = i0 ∧ j1 = i1 ∧ j2 = i2) ∨ (b' ≠ b ∧ d.req b' = .inflight w' j0 j1 j2) := by
    intro b' w' j0 j1 j2
    by_cases e : b' = b
    · subst e
      simp [hS, eq_comm]
    · simp [hS, e]
  have hfree : ∀ i, S.free i = true ↔ (i ≠ i0 ∧ i ≠ i1 ∧ i ≠ i2) ∧ d.free i = true := by
    intro i
    simp only [hS, setReq_free, submit_free, take_free, Function.update_apply]
    split_ifs <;> simp_all
  have hdesc : ∀ i, i ≠ i0 → i ≠ i1 → i ≠ i2 → S.desc i = d.desc i := by
    intro i n0 n1 n2
    simp [hS, n0, n1, n2]
  have hinfo : ∀ i, S.info i = if i = i0 then ⟨some b, 0xff⟩ else d.info i := by
    intro i
    simp [hS, Function.update_apply]
  have hpend : S.pending = d.pending ++ [i0] := by
    rw [hS, setReq_pending, submit_pending _ _ _ _ _ _ (by simpa using hroom)]
    rfl
  have hserv : S.serving = d.serving := rfl
  have hcomp : S.completed = d.completed := rfl
  have hflight : S.flight = d.pending ++ [i0] ++ d.serving ++ d.completed := by
    rw [Vdisk.flight, hpend, hserv, hcomp]
  have hbdisk : ∀ b', S.bdisk b' = if b' = b then true else d.bdisk b' := by
    intro b'
    simp [hS, Function.update_apply]
  refine {
    distinct := fun b' => ?distinct
    disjoint := fun b₁ b₂ hne i hi => ?disjoint
    free := fun i hi => ?free
    zero := fun i hi => ?zero
    chain := fun b' w' j0 j1 j2 e => ?chain
    info := fun i b' e => ?info
    heads := fun x => ?heads
    nodup := ?nodup
    unserved := fun x hx => ?unserved
    served := fun x hx => ?served }
  case distinct =>
    rw [hdescs]
    split
    · simp [h01, h02, h12]
    · exact h.distinct b'
  case disjoint =>
    rw [hdescs] at hi ⊢
    by_cases e₁ : b₁ = b
    · subst e₁
      rw [if_pos rfl] at hi
      rw [if_neg (Ne.symm hne)]
      exact hheld i hi b₂
    · rw [if_neg e₁] at hi
      by_cases e₂ : b₂ = b
      · subst e₂
        rw [if_pos rfl]
        exact fun hi' => hheld i hi' b₁ hi
      · rw [if_neg e₂]
        exact h.disjoint b₁ b₂ hne i hi
  case free =>
    rw [hfree, h.free i hi]
    constructor
    · rintro ⟨⟨n0, n1, n2⟩, hall⟩ b'
      rw [hdescs]
      split
      · simp [n0, n1, n2]
      · exact hall b'
    · intro hall
      have hb' := hall b
      rw [hdescs, if_pos rfl] at hb'
      simp only [List.mem_cons, List.not_mem_nil, or_false, not_or] at hb'
      refine ⟨hb', fun b' => ?_⟩
      by_cases e : b' = b
      · subst e
        simp [hb]
      · simpa [hdescs, e] using hall b'
  case zero =>
    obtain ⟨⟨n0, n1, n2⟩, hd⟩ := (hfree i).1 hi
    rw [hdesc i n0 n1 n2]
    exact h.zero i hd
  case chain =>
    rcases (hin _ _ _ _ _).1 e with ⟨rfl, rfl, rfl, rfl, rfl⟩ | ⟨e₀, e⟩
    · exact {
        lt := fun i hi => (hf i hi).1
        desc0 := by simp [hS, h01, h02]
        desc1 := by simp [hS, h12]
        desc2 := by simp [hS]
        info := by simp [hinfo] }
    · have hj : ∀ j ∈ [j0, j1, j2], j ≠ i0 ∧ j ≠ i1 ∧ j ≠ i2 := by
        intro j hj
        have hj' : j ∈ (d.req b').descs := by simpa [e] using hj
        refine ⟨?_, ?_, ?_⟩ <;> rintro rfl <;> exact hheld _ (by simp) b' hj'
      refine (h.chain b' w' j0 j1 j2 e).congr (fun j hj' => ?_) ?_
      · obtain ⟨n0, n1, n2⟩ := hj j hj'
        exact hdesc j n0 n1 n2
      · rw [hinfo, if_neg (hj j0 (by simp)).1]
  case info =>
    rw [hinfo] at e
    split_ifs at e with e₀
    · subst e₀
      simp only [Option.some.injEq] at e
      subst e
      exact ⟨w, i1, i2, by simp [hin]⟩
    · obtain ⟨w', j1, j2, hj⟩ := h.info i b' e
      exact ⟨w', j1, j2, (hin _ _ _ _ _).2 (.inr ⟨hnb _ _ _ _ _ hj, hj⟩)⟩
  case heads =>
    have hmem : x ∈ S.flight ↔ x ∈ d.flight ∨ x = i0 := by
      rw [hflight]
      simp only [Vdisk.flight, List.mem_append, List.mem_singleton]
      tauto
    rw [hmem, h.heads]
    constructor
    · rintro (⟨b', w', j1, j2, hj, hd⟩ | rfl)
      · have hne := hnb _ _ _ _ _ hj
        exact ⟨b', w', j1, j2, (hin _ _ _ _ _).2 (.inr ⟨hne, hj⟩), by simp [hbdisk, hne, hd]⟩
      · exact ⟨b, w, i1, i2, (hin _ _ _ _ _).2 (.inl ⟨rfl, rfl, rfl, rfl, rfl⟩), by simp [hbdisk]⟩
    · rintro ⟨b', w', j1, j2, hj, hd⟩
      rcases (hin _ _ _ _ _).1 hj with ⟨-, -, rfl, -, -⟩ | ⟨e, hj⟩
      · exact .inr rfl
      · exact .inl ⟨b', w', j1, j2, hj, by simpa [hbdisk, e] using hd⟩
  case nodup =>
    have hperm : List.Perm (d.pending ++ [i0] ++ d.serving ++ d.completed) (i0 :: d.flight) := by
      simp only [Vdisk.flight, List.append_assoc, List.singleton_append]
      exact List.perm_middle
    rw [hflight]
    exact hperm.nodup_iff.2 (List.nodup_cons.2 ⟨hfl, h.nodup⟩)
  case unserved =>
    have hx' : x ∈ d.pending ++ d.serving ∨ x = i0 := by
      rw [hpend, hserv] at hx
      simp only [List.mem_append, List.mem_singleton] at hx ⊢
      tauto
    rw [hinfo]
    split_ifs with e
    · rfl
    · exact h.unserved x (hx'.resolve_right e)
  case served =>
    rw [hcomp] at hx
    have hne : x ≠ i0 := by
      rintro rfl
      exact hfl (by simp [Vdisk.flight, hx])
    rw [hinfo, if_neg hne]
    exact h.served x hx

/-- The links of a chain `virtio_disk_rw` formatted: `NEXT` from the first
two descriptors, none from the last. -/
theorem ChainOk.flags {b : Fin NBUF} {w : Bool} {i0 i1 i2 : Nat} (hc : d.ChainOk b w i0 i1 i2) :
    (d.desc i0).flags &&& VRING_DESC_F_NEXT ≠ 0 ∧ (d.desc i0).next = i1 ∧
      (d.desc i1).flags &&& VRING_DESC_F_NEXT ≠ 0 ∧ (d.desc i1).next = i2 ∧
      (d.desc i2).flags &&& VRING_DESC_F_NEXT = 0 := by
  rw [hc.desc0, hc.desc1, hc.desc2]
  cases w <;> simp [VRING_DESC_F_NEXT, VRING_DESC_F_WRITE]

/-- The end of a request whose buffer the interrupt has released frees its
chain and keeps the invariant. -/
theorem Inv.rwDone (h : d.Inv) {b : Fin NBUF} {w : Bool} {i0 i1 i2 : Nat} (hb : d.req b = .inflight w i0 i1 i2)
    (hd : d.bdisk b = false) :
    ∃ d', d.rwDone i0 = .ok d' ∧ (d'.setReq b .idle).Inv ∧ d'.bdisk = d.bdisk := by
  have hc := h.chain b w i0 i1 i2 hb
  have hn : [i0, i1, i2].Nodup := by simpa [hb] using h.distinct b
  have hheld : ∀ i ∈ [i0, i1, i2], i ∈ (d.req b).descs := by simp [hb]
  have hused : ∀ i ∈ [i0, i1, i2], i < NUM ∧ d.free i = false := fun i hi =>
    ⟨hc.lt i hi, Bool.eq_false_iff.2 fun hf => (h.free i (hc.lt i hi)).1 hf b (hheld i hi)⟩
  obtain ⟨f0, n0, f1, n1, f2⟩ := hc.flags
  set d₁ : Vdisk := { d with info := Function.update d.info i0 { d.info i0 with b := none } } with hd₁
  refine ⟨((d₁.giveBack i0).giveBack i1).giveBack i2, freeChain_chain hn hused f0 n0 f1 n1 f2, ?_, rfl⟩
  set S := (((d₁.giveBack i0).giveBack i1).giveBack i2).setReq b .idle with hS
  have hother : ∀ b', b' ≠ b → ∀ i ∈ (d.req b').descs, i ∉ [i0, i1, i2] := fun b' hne i hi hi' =>
    h.disjoint b b' (Ne.symm hne) i (hheld i hi') hi
  -- what the step changes, field by field
  have hdescs : ∀ b', (S.req b').descs = if b' = b then [] else (d.req b').descs := by
    intro b'
    by_cases e : b' = b <;> simp [hS, d₁, e]
  have hin : ∀ b' w' j0 j1 j2, S.req b' = .inflight w' j0 j1 j2 ↔ b' ≠ b ∧ d.req b' = .inflight w' j0 j1 j2 := by
    intro b' w' j0 j1 j2
    by_cases e : b' = b
    · subst e
      simp [hS]
    · simp [hS, d₁, e]
  have hfree : ∀ i, S.free i = if i ∈ [i0, i1, i2] then true else d.free i := by
    intro i
    simp only [hS, setReq_free, giveBack_free, Function.update_apply, d₁]
    split_ifs <;> simp_all
  have hdesc : ∀ i, S.desc i = if i ∈ [i0, i1, i2] then .zero else d.desc i := by
    intro i
    simp only [hS, setReq_desc, giveBack_desc, Function.update_apply, d₁]
    split_ifs <;> simp_all
  have hinfo₁ : d₁.info = Function.update d.info i0 ⟨none, (d.info i0).status⟩ := rfl
  have hinfo : ∀ i, S.info i = if i = i0 then ⟨none, (d.info i0).status⟩ else d.info i := by
    intro i
    simp [hS, hinfo₁, Function.update_apply]
  have hstatus : ∀ i, (S.info i).status = (d.info i).status := by
    intro i
    rw [hinfo]
    split_ifs with e <;> simp [e]
  have hflight : S.flight = d.flight := rfl
  have hbdisk : S.bdisk = d.bdisk := rfl
  refine {
    distinct := fun b' => ?distinct
    disjoint := fun b₁ b₂ hne i hi => ?disjoint
    free := fun i hi => ?free
    zero := fun i hi => ?zero
    chain := fun b' w' j0 j1 j2 e => ?chain
    info := fun i b' e => ?info
    heads := fun x => ?heads
    nodup := ?nodup
    unserved := fun x hx => ?unserved
    served := fun x hx => ?served }
  case distinct =>
    rw [hdescs]
    split
    · exact List.nodup_nil
    · exact h.distinct b'
  case disjoint =>
    rw [hdescs] at hi ⊢
    by_cases e₁ : b₁ = b
    · rw [if_pos e₁] at hi
      simp at hi
    · rw [if_neg e₁] at hi
      split
      · simp
      · exact h.disjoint b₁ b₂ hne i hi
  case free =>
    rw [hfree]
    split_ifs with hi'
    · simp only [true_iff]
      intro b'
      rw [hdescs]
      split
      · simp
      · exact hother b' ‹_› i |>.mt (not_not.2 hi')
    · rw [h.free i hi]
      constructor
      · intro hall b'
        rw [hdescs]
        split
        · simp
        · exact hall b'
      · intro hall b'
        by_cases e : b' = b
        · subst e
          rw [hb]
          exact hi'
        · simpa [hdescs, e] using hall b'
  case zero =>
    rw [hdesc]
    rw [hfree] at hi
    split_ifs at hi ⊢ with hi'
    · rfl
    · exact h.zero i hi
  case chain =>
    obtain ⟨hne, e⟩ := (hin _ _ _ _ _).1 e
    have hj := hother b' hne
    rw [e] at hj
    refine (h.chain b' w' j0 j1 j2 e).congr (fun j hj' => ?_) ?_
    · rw [hdesc, if_neg (hj j hj')]
    · have : j0 ≠ i0 := fun e₀ => hj j0 (by simp) (by simp [e₀])
      rw [hinfo, if_neg this]
  case info =>
    rw [hinfo] at e
    -- `info[idx[0]].b` was cleared, so `e` is about another entry
    split_ifs at e with e₀
    obtain ⟨w', j1, j2, hj⟩ := h.info i b' e
    have hne : b' ≠ b := by
      rintro rfl
      rw [hb, VirtioReq.inflight.injEq] at hj
      exact e₀ hj.2.1.symm
    exact ⟨w', j1, j2, (hin _ _ _ _ _).2 ⟨hne, hj⟩⟩
  case heads =>
    rw [hflight, h.heads]
    constructor
    · rintro ⟨b', w', j1, j2, hj, hd'⟩
      have hne : b' ≠ b := by
        rintro rfl
        rw [hd] at hd'
        cases hd'
      exact ⟨b', w', j1, j2, (hin _ _ _ _ _).2 ⟨hne, hj⟩, by rw [hbdisk]; exact hd'⟩
    · rintro ⟨b', w', j1, j2, hj, hd'⟩
      exact ⟨b', w', j1, j2, ((hin _ _ _ _ _).1 hj).2, hd'⟩
  case nodup => exact h.nodup
  case unserved =>
    rw [hstatus]
    exact h.unserved x hx
  case served =>
    rw [hstatus]
    exact h.served x hx

/-- The last descriptor of a chain `virtio_disk_rw` formatted is its third. -/
theorem ChainOk.chainEnd_eq {b : Fin NBUF} {w : Bool} {i0 i1 i2 : Nat} (hc : d.ChainOk b w i0 i1 i2) :
    chainEnd d.desc NUM i0 = i2 := by
  obtain ⟨f0, n0, f1, n1, f2⟩ := hc.flags
  rw [NUM, Vdisk.chainEnd, if_pos f0, n0, Vdisk.chainEnd, if_pos f1, n1, Vdisk.chainEnd, if_neg (not_not.2 f2)]

/-- The entry `virtio_disk_intr` looks at next is the head of the served
chains not yet seen. -/
theorem completed_eq (hne : d.used_idx ≠ d.usedIdx) (b : Fin NBUF) :
    d.completed = d.used (d.used_idx.toNat % NUM) :: (d.wake b).completed :=
  window_pop hne

/-- A round of `virtio_disk_intr` with an entry to see: the entry heads a
chain the device served, whose status is 0 and whose buffer `info` names;
waking that buffer keeps the invariant. -/
theorem Inv.intrRound (h : d.Inv) (hne : d.used_idx ≠ d.usedIdx) :
    ∃ b w i1 i2, d.req b = .inflight w (d.used (d.used_idx.toNat % NUM)) i1 i2 ∧
      (d.info (d.used (d.used_idx.toNat % NUM))).status = 0 ∧
      (d.info (d.used (d.used_idx.toNat % NUM))).b = some b ∧ (d.wake b).Inv := by
  set id := d.used (d.used_idx.toNat % NUM) with hid
  have hmem : id ∈ d.completed := by
    rw [completed_eq hne ⟨0, by decide⟩]
    exact List.mem_cons_self
  obtain ⟨b, w, i1, i2, hb, hd⟩ := (h.heads id).1 (by simp [Vdisk.flight, hmem])
  refine ⟨b, w, i1, i2, hb, h.served id hmem, (h.chain b w id i1 i2 hb).info, ?_⟩
  set S := d.wake b with hS
  have hcomp : d.completed = id :: S.completed := completed_eq hne b
  have hflight : d.flight = (d.pending ++ d.serving) ++ id :: S.completed := by
    rw [Vdisk.flight, hcomp]
  have hsplit : id ∉ d.pending ++ d.serving ++ S.completed ∧ (d.pending ++ d.serving ++ S.completed).Nodup := by
    have := h.nodup
    rw [hflight, List.nodup_middle, List.nodup_cons] at this
    exact this
  have hmemS : ∀ x, x ∈ S.flight ↔ x ∈ d.flight ∧ x ≠ id := by
    intro x
    have hSf : S.flight = d.pending ++ d.serving ++ S.completed := rfl
    rw [hSf, hflight]
    simp only [List.mem_append, List.mem_cons]
    constructor
    · intro hx
      refine ⟨by tauto, ?_⟩
      rintro rfl
      apply hsplit.1
      simp only [List.mem_append]
      tauto
    · rintro ⟨hx, hne'⟩
      tauto
  exact {
    distinct := h.distinct
    disjoint := h.disjoint
    free := h.free
    zero := h.zero
    chain := fun b' w' j0 j1 j2 e => (h.chain b' w' j0 j1 j2 e).congr (fun _ _ => rfl) rfl
    info := h.info
    heads := fun x => by
      rw [hmemS, h.heads]
      constructor
      · rintro ⟨⟨b', w', j1, j2, hj, hd'⟩, hx⟩
        have hne' : b' ≠ b := by
          rintro rfl
          exact hx (by rw [hb, VirtioReq.inflight.injEq] at hj; exact hj.2.1.symm)
        exact ⟨b', w', j1, j2, hj, by simp [hS, wake, hne', hd']⟩
      · rintro ⟨b', w', j1, j2, hj, hd'⟩
        have hne' : b' ≠ b := by
          rintro rfl
          simp [hS, wake] at hd'
        refine ⟨⟨b', w', j1, j2, hj, by simpa [hS, wake, hne'] using hd'⟩, ?_⟩
        rintro rfl
        exact hne' (h.head_unique hj hb)
    nodup := hsplit.2
    unserved := h.unserved
    served := fun x hx => h.served x (by rw [hcomp]; exact List.mem_cons_of_mem _ hx) }

/-- `virtio_disk_intr`'s loop, run for as many rounds as there are entries
to see: it does not panic, keeps the invariant, and releases only buffers
whose chains the device served. -/
theorem Inv.intrLoop (n : Nat) : ∀ d : Vdisk, d.Inv → (d.usedIdx - d.used_idx).toNat = n →
    ∃ d', Vdisk.intrLoop n d = .ok d' ∧ d'.Inv ∧ d'.req = d.req ∧
      ∀ b, d.bdisk b = true → d'.bdisk b = false → ∃ w i0 i1 i2, d.req b = .inflight w i0 i1 i2 ∧ i0 ∈ d.completed := by
  induction n with
  | zero =>
    intro d h _
    refine ⟨d, rfl, h, rfl, fun b hb hb' => ?_⟩
    rw [hb] at hb'
    cases hb'
  | succ n ih =>
    intro d h hn
    have hne : d.used_idx ≠ d.usedIdx := by
      intro e
      rw [e, sub_self, UInt16.toNat_zero] at hn
      cases hn
    obtain ⟨b, w, i1, i2, hb, hst, hinfo, hS⟩ := h.intrRound hne
    have hcomp := completed_eq hne b
    have hlen : ((d.wake b).usedIdx - (d.wake b).used_idx).toNat = n := by
      have := congrArg List.length hcomp
      simp only [completed, length_window, List.length_cons] at this
      omega
    obtain ⟨d', hloop, h', hreq, hwake⟩ := ih (d.wake b) hS hlen
    refine ⟨d', ?_, h', hreq, fun b' hb' hb'' => ?_⟩
    · rw [Vdisk.intrLoop, if_neg hne]
      simp only [hst, ne_eq, not_true_eq_false, if_false, hinfo]
      exact hloop
    · by_cases e : b' = b
      · subst e
        exact ⟨w, _, i1, i2, hb, by rw [hcomp]; exact List.mem_cons_self⟩
      · have : (d.wake b).bdisk b' = true := by simp [wake, e, hb']
        obtain ⟨w', j0, j1, j2, hj, hmem⟩ := hwake b' this hb''
        exact ⟨w', j0, j1, j2, hj, by rw [hcomp]; exact List.mem_cons_of_mem _ hmem⟩

/-- What a step of the device reading the avail ring changes. -/
theorem fetch_some {d' : Vdisk} (hf : d.fetch = some d') :
    ∃ x, d.pending = x :: d'.pending ∧ d'.serving = d.serving ++ [x] ∧ d'.completed = d.completed ∧
      d'.req = d.req ∧ d'.desc = d.desc ∧ d'.free = d.free ∧ d'.info = d.info ∧ d'.bdisk = d.bdisk := by
  unfold Vdisk.fetch at hf
  split_ifs at hf with hne
  cases hf
  exact ⟨_, window_pop hne, rfl, rfl, rfl, rfl, rfl, rfl, rfl⟩

/-- The device reading the next head moves it from the avail ring into the
device. -/
theorem Inv.fetch (h : d.Inv) {d' : Vdisk} (hf : d.fetch = some d') : d'.Inv ∧ d'.bdisk = d.bdisk := by
  obtain ⟨x, hpend, hserv, hcomp, hreq, hdesc, hfree, hinfo, hbdisk⟩ := fetch_some hf
  have hperm : List.Perm d'.flight d.flight := by
    rw [Vdisk.flight, Vdisk.flight, hpend, hserv, hcomp]
    simp only [List.append_assoc, List.cons_append]
    rw [← List.append_assoc]
    exact List.perm_middle.trans (List.Perm.of_eq (by simp))
  have hun : ∀ y, y ∈ d'.pending ++ d'.serving ↔ y ∈ d.pending ++ d.serving := by
    intro y
    simp only [hpend, hserv, List.mem_append, List.mem_cons]
    tauto
  refine ⟨{
    distinct := by rw [hreq]; exact h.distinct
    disjoint := by rw [hreq]; exact h.disjoint
    free := by rw [hreq, hfree]; exact h.free
    zero := by rw [hdesc, hfree]; exact h.zero
    chain := fun b w i0 i1 i2 e => (h.chain b w i0 i1 i2 (hreq ▸ e)).congr (by simp [hdesc]) (by rw [hinfo])
    info := by rw [hreq, hinfo]; exact h.info
    heads := fun x => by rw [hperm.mem_iff, hreq, hbdisk]; exact h.heads x
    nodup := hperm.nodup_iff.2 h.nodup
    unserved := fun y hy => by rw [hinfo]; exact h.unserved y ((hun y).1 hy)
    served := by rw [hcomp, hinfo]; exact h.served }, hbdisk⟩

/-- What a step of the device serving chain `h` changes. -/
theorem complete_some {h : Nat} {d' : Vdisk} (hc : d.complete h = some d') :
    h ∈ d.serving ∧ ∃ i, (d.desc (chainEnd d.desc NUM h)).addr = .status i ∧
      d'.info = Function.update d.info i ⟨(d.info i).b, 0⟩ ∧ d'.serving = d.serving.erase h ∧
      (d.completed.length < NUM → d'.completed = d.completed ++ [h]) ∧ d'.pending = d.pending ∧
      d'.req = d.req ∧ d'.desc = d.desc ∧ d'.free = d.free ∧ d'.bdisk = d.bdisk := by
  unfold Vdisk.complete at hc
  split_ifs at hc with hmem
  refine ⟨hmem, ?_⟩
  split at hc
  next i ha =>
    cases hc
    refine ⟨i, ha, rfl, rfl, fun hl => window_push (by simpa [completed] using hl) h, rfl, rfl, rfl, rfl, rfl⟩
  all_goals cases hc

/-- The device serving a chain it has read moves its head to the used ring,
with the chain's status byte written. -/
theorem Inv.complete (h : d.Inv) {x : Nat} {d' : Vdisk} (hc : d.complete x = some d') :
    d'.Inv ∧ d'.bdisk = d.bdisk := by
  obtain ⟨hmem, i, haddr, hinfo, hserv, hcomp, hpend, hreq, hdesc, hfree, hbdisk⟩ := complete_some hc
  have hfl : x ∈ d.flight := by simp [Vdisk.flight, hmem]
  obtain ⟨b, w, i1, i2, hb, -⟩ := (h.heads x).1 hfl
  have hch := h.chain b w x i1 i2 hb
  -- the device writes the status byte of the chain it serves
  have hi : i = x := by
    rw [hch.chainEnd_eq, hch.desc2] at haddr
    cases haddr
    rfl
  subst hi
  have hsplit : i ∉ d.pending ++ d.serving.erase i ++ d.completed ∧ (d.pending ++ d.serving.erase i ++ d.completed).Nodup := by
    have hp : List.Perm d.flight (d.pending ++ (i :: d.serving.erase i) ++ d.completed) := by
      simp only [Vdisk.flight, List.append_assoc]
      exact ((List.perm_cons_erase hmem).append_right d.completed).append_left d.pending
    have := hp.nodup_iff.1 h.nodup
    rw [List.append_assoc, List.cons_append, List.nodup_middle, List.nodup_cons, ← List.append_assoc] at this
    exact this
  have hroom : d.completed.length < NUM :=
    length_lt_of_not_mem (h.nodup.sublist (List.sublist_append_right _ _))
      (fun y hy => h.lt_of_flight (by simp [Vdisk.flight, hy])) (h.lt_of_flight hfl)
      fun hc' => hsplit.1 (by simp [hc'])
  have hperm : List.Perm d'.flight d.flight := by
    have h1 : List.Perm (d.serving.erase i ++ (d.completed ++ [i])) (i :: (d.serving.erase i ++ d.completed)) := by
      rw [← List.append_assoc]
      exact List.perm_append_singleton _ _
    have h2 : List.Perm (d.serving ++ d.completed) (i :: (d.serving.erase i ++ d.completed)) :=
      (List.perm_cons_erase hmem).append_right d.completed
    rw [Vdisk.flight, Vdisk.flight, hpend, hserv, hcomp hroom, List.append_assoc, List.append_assoc]
    exact (h1.trans h2.symm).append_left d.pending
  have hb' : ∀ y, (d'.info y).b = (d.info y).b := by
    intro y
    rw [hinfo, Function.update_apply]
    split_ifs with e <;> simp [e]
  refine ⟨{
    distinct := by rw [hreq]; exact h.distinct
    disjoint := by rw [hreq]; exact h.disjoint
    free := by rw [hreq, hfree]; exact h.free
    zero := by rw [hdesc, hfree]; exact h.zero
    chain := fun b w i0 i1 i2 e => (h.chain b w i0 i1 i2 (hreq ▸ e)).congr (by simp [hdesc]) (hb' i0)
    info := fun y b' e => by rw [hreq]; exact h.info y b' (by rwa [hb'] at e)
    heads := fun y => by rw [hperm.mem_iff, hreq, hbdisk]; exact h.heads y
    nodup := hperm.nodup_iff.2 h.nodup
    unserved := fun y hy => ?_
    served := fun y hy => ?_ }, hbdisk⟩
  · have hne : y ≠ i := by
      rintro rfl
      apply hsplit.1
      rw [hpend, hserv] at hy
      simp only [List.mem_append] at hy ⊢
      tauto
    rw [hinfo, Function.update_of_ne hne]
    exact h.unserved y (by
      rw [hpend, hserv] at hy
      simp only [List.mem_append] at hy ⊢
      exact hy.imp_right List.mem_of_mem_erase)
  · rw [hinfo, Function.update_apply]
    split_ifs with e
    · rfl
    · rw [hcomp hroom, List.mem_append, List.mem_singleton] at hy
      exact h.served y (hy.resolve_right e)

/-- `virtio_disk_rw` for a request that holds no chain does not panic, keeps
the invariant, and releases no buffer. -/
theorem Inv.virtioDiskRw (h : d.Inv) {b : Fin NBUF} (write : Bool) (hb : (d.req b).descs = []) :
    ∃ d', d.virtioDiskRw b write = .ok d' ∧ d'.Inv ∧ ∀ b', d.bdisk b' = true → d'.bdisk b' = true := by
  rcases alloc3Desc_spec h.zero with ⟨i0, i1, i2, ha, hn, hf⟩ | ha
  · refine ⟨_, by rw [Vdisk.virtioDiskRw, ha]; rfl, h.submit hb hn hf, fun b' hb' => ?_⟩
    by_cases e : b' = b <;> simp [e, hb']
  · exact ⟨_, by rw [Vdisk.virtioDiskRw, ha]; rfl, h.setReq hb rfl, fun _ hb' => hb'⟩

/-- The flight list fits the rings. -/
theorem Inv.length_flight_le (h : d.Inv) : d.flight.length ≤ NUM := by
  have hsub : d.flight.Subperm (List.range NUM) :=
    h.nodup.subperm fun y hy => List.mem_range.2 (h.lt_of_flight hy)
  simpa using hsub.length_le

/-- Every step from a state of the invariant: it does not panic, it keeps
the invariant, and only `virtio_disk_intr` releases a buffer, after the
device served the buffer's chain. -/
theorem Inv.next (h : d.Inv) {ev : VirtioEv} {r : Except String Vdisk} (hn : d.next ev = some r) :
    ∃ d', r = .ok d' ∧ d'.Inv ∧ ∀ b, d.bdisk b = true → d'.bdisk b = false →
      ev = .intr ∧ ∃ w i0 i1 i2, d.req b = .inflight w i0 i1 i2 ∧ i0 ∈ d.completed := by
  have keep : ∀ {d' : Vdisk}, (∀ b, d.bdisk b = true → d'.bdisk b = true) → ∀ b, d.bdisk b = true →
      d'.bdisk b = false → ev = .intr ∧ ∃ w i0 i1 i2, d.req b = .inflight w i0 i1 i2 ∧ i0 ∈ d.completed := by
    intro d' hk b hb hb'
    rw [hk b hb] at hb'
    cases hb'
  cases ev with
  | rw b write =>
    simp only [Vdisk.next] at hn
    split_ifs at hn with hidle
    cases hn
    obtain ⟨d', hrw, h', hk⟩ := h.virtioDiskRw write (by rw [hidle]; rfl)
    exact ⟨d', hrw, h', keep hk⟩
  | retry b =>
    simp only [Vdisk.next] at hn
    split at hn
    next write hw =>
      cases hn
      obtain ⟨d', hrw, h', hk⟩ := h.virtioDiskRw write (by rw [hw]; rfl)
      exact ⟨d', hrw, h', keep hk⟩
    all_goals cases hn
  | done b =>
    simp only [Vdisk.next] at hn
    split at hn
    next w i0 i1 i2 hb =>
      split_ifs at hn with hd
      cases hn
      obtain ⟨d', hdone, h', hbd⟩ := h.rwDone hb (Bool.eq_false_iff.2 hd)
      refine ⟨d'.setReq b .idle, by rw [hdone]; rfl, h', keep fun b' hb' => ?_⟩
      rw [setReq_bdisk, hbd]
      exact hb'
    all_goals cases hn
  | intr =>
    cases hn
    obtain ⟨d', hloop, h', -, hwake⟩ := Inv.intrLoop _ d h rfl
    exact ⟨d', hloop, h', fun b hb hb' => ⟨rfl, hwake b hb hb'⟩⟩
  | fetch =>
    simp only [Vdisk.next, Option.map_eq_some_iff] at hn
    obtain ⟨d', hf, rfl⟩ := hn
    obtain ⟨h', hbd⟩ := h.fetch hf
    exact ⟨d', rfl, h', keep fun b hb => by rw [hbd]; exact hb⟩
  | complete x =>
    simp only [Vdisk.next, Option.map_eq_some_iff] at hn
    obtain ⟨d', hc, rfl⟩ := hn
    obtain ⟨h', hbd⟩ := h.complete hc
    exact ⟨d', rfl, h', keep fun b hb => by rw [hbd]; exact hb⟩

end Inv


def Step (d d' : Vdisk) : Prop := ∃ ev, d.next ev = some (.ok d')

def Reachable (d : Vdisk) : Prop := Framework.Reachable (· = init) Step d

theorem Reachable.inv {d : Vdisk} (h : d.Reachable) : d.Inv := by
  refine Framework.Reachable.inv (fun d e => e ▸ Inv.init) (fun d d' hi hs => ?_) h
  obtain ⟨ev, hev⟩ := hs
  obtain ⟨d'', e, h', -⟩ := hi.next hev
  cases e
  exact h'

end Vdisk

open Vdisk in
/-- In every state reached by requests, completions and interrupts: the
descriptors are partitioned between `free[]` and the chains in flight; each
chain is three distinct descriptors linked by `NEXT` from the first, the
last unlinked, and `free_chain` frees exactly those three; `alloc3_desc`
takes three free descriptors or leaves the state as it was; no step panics,
and a buffer is released only by `virtio_disk_intr` once the device served
its chain; and the windows of the two rings between their 16-bit counters,
with the device, hold each head of a chain whose buffer waits exactly once,
never more than `NUM` entries. -/
theorem virtio_descriptor_accounting {d : Vdisk} (hr : d.Reachable) :
    (∀ i < NUM, d.free i = true ↔ ∀ b, i ∉ (d.req b).descs) ∧
    (∀ b b', b ≠ b' → ∀ i ∈ (d.req b).descs, i ∉ (d.req b').descs) ∧
    (∀ b w i0 i1 i2, d.req b = .inflight w i0 i1 i2 →
      [i0, i1, i2].Nodup ∧ (∀ i ∈ [i0, i1, i2], i < NUM) ∧
      (d.desc i0).flags &&& VRING_DESC_F_NEXT ≠ 0 ∧ (d.desc i0).next = i1 ∧
      (d.desc i1).flags &&& VRING_DESC_F_NEXT ≠ 0 ∧ (d.desc i1).next = i2 ∧
      (d.desc i2).flags &&& VRING_DESC_F_NEXT = 0 ∧
      d.freeChain i0 = .ok (((d.giveBack i0).giveBack i1).giveBack i2)) ∧
    ((∃ i0 i1 i2, d.alloc3Desc = .ok (some (i0, i1, i2), ((d.take i0).take i1).take i2) ∧
      [i0, i1, i2].Nodup ∧ ∀ i ∈ [i0, i1, i2], i < NUM ∧ d.free i = true) ∨
      d.alloc3Desc = .ok (none, d)) ∧
    (∀ ev r, d.next ev = some r → ∃ d', r = .ok d' ∧ ∀ b, d.bdisk b = true → d'.bdisk b = false →
      ev = .intr ∧ ∃ w i0 i1 i2, d.req b = .inflight w i0 i1 i2 ∧ i0 ∈ d.completed ∧ (d.info i0).status = 0) ∧
    (∀ h, h ∈ d.pending ++ d.serving ++ d.completed ↔ ∃ b w i1 i2, d.req b = .inflight w h i1 i2 ∧ d.bdisk b = true) ∧
    (d.pending ++ d.serving ++ d.completed).Nodup ∧
    (d.availIdx - d.lastAvail).toNat + d.serving.length + (d.usedIdx - d.used_idx).toNat ≤ NUM := by
  have h := hr.inv
  refine ⟨h.free, h.disjoint, fun b w i0 i1 i2 hb => ?_, alloc3Desc_spec h.zero, fun ev r hn => ?_, h.heads,
    h.nodup, ?_⟩
  · have hc := h.chain b w i0 i1 i2 hb
    have hn : [i0, i1, i2].Nodup := by simpa [hb] using h.distinct b
    obtain ⟨f0, n0, f1, n1, f2⟩ := hc.flags
    have hused : ∀ i ∈ [i0, i1, i2], i < NUM ∧ d.free i = false := fun i hi =>
      ⟨hc.lt i hi, Bool.eq_false_iff.2 fun hf => (h.free i (hc.lt i hi)).1 hf b (by simpa [hb] using hi)⟩
    exact ⟨hn, hc.lt, f0, n0, f1, n1, f2, freeChain_chain hn hused f0 n0 f1 n1 f2⟩
  · obtain ⟨d', rfl, -, hwake⟩ := h.next hn
    refine ⟨d', rfl, fun b hb hb' => ?_⟩
    obtain ⟨hev, w, i0, i1, i2, hreq, hmem⟩ := hwake b hb hb'
    exact ⟨hev, w, i0, i1, i2, hreq, hmem, h.served i0 hmem⟩
  · have := h.length_flight_le
    simp only [Vdisk.flight, List.length_append, pending, completed, length_window] at this
    exact this

/-- The first request on a fresh disk gets descriptors 0, 1 and 2, and
`free_chain` gives exactly those back. -/
theorem virtio_descriptor_accounting_first :
    let b : Fin NBUF := ⟨0, by decide⟩
    let d := ((((Vdisk.init.take 0).take 1).take 2).submit b false 0 1 2).setReq b (.inflight false 0 1 2)
    d.freeChain 0 = .ok (((d.giveBack 0).giveBack 1).giveBack 2) := by
  intro b d
  have hr : d.Reachable := Framework.Reachable.step_mem (Framework.Reachable.init_mem rfl) ⟨.rw b false, rfl⟩
  obtain ⟨-, -, hchain, -⟩ := virtio_descriptor_accounting hr
  exact (hchain b false 0 1 2 (by simp [d])).2.2.2.2.2.2.2

end Xv6
