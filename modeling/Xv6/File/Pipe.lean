import Xv6.Proc.Defs
import Xv6.Framework.Reach
import Xv6.Framework.Ring

/-!
# Pipes

`struct pipe` (`Pipe`): a ring of `PIPESIZE` bytes with the free-running
32-bit counters `nread` and `nwrite`, and the open flags. `pipewrite` and
`piperead` run under `pi->lock` and sleep in their loops; each run between
two sleeps is atomic, and is what `pipewrite` and `piperead` here compute:
`pipewrite` entered with `i` bytes already copied (0 on the call) runs until
it sleeps on a full pipe (`WriteEnd.sleep`) or returns (`WriteEnd.ret`);
`piperead` sleeps on an empty pipe that has writers, or copies and returns.
Each user copy is the one-byte `copyin`/`copyout` of the caller's address
space, which fails on an inaccessible page.

The bytes in the pipe are `Pipe.contents`: the ring from `nread` on,
`(nwrite - nread) mod 2³²` of them. Storing appends to them and taking drops
their head (`Pipe.put_contents`, `Pipe.take_contents`), for all counter
values, wrapped past `2³²` or not, since `PIPESIZE` divides `2³²`.

Over any interleaving of runs of `pipewrite`, `piperead` and `pipeclose`
(`PipeSys`), the pipe is a queue: the bytes taken out are, in order, the
bytes put in, less those still in the pipe, and the pipe never holds more
than `PIPESIZE` bytes (`PipeSys.Reachable.fifo`). But `piperead` advances
`nread` before its `copyout`: when that copy fails, the byte is taken out and
not counted in what the call returns (`pipereadLoop_spec`), and a byte a
writer reported is then neither delivered nor buffered
(`piperead_loses_byte`).
-/

namespace Xv6

open Framework

/-- Bytes in a pipe's ring. -/
def PIPESIZE : Nat := 512

/-- `struct pipe`, without its lock. -/
structure Pipe where
  /-- `char data[PIPESIZE]`, cell `k` for `k < PIPESIZE`. -/
  data : Nat → UInt8
  /-- Number of bytes read. -/
  nread : UInt32
  /-- Number of bytes written. -/
  nwrite : UInt32
  /-- Read fd is still open. -/
  readopen : Bool
  /-- Write fd is still open. -/
  writeopen : Bool

namespace Pipe

/-- How many bytes the pipe holds: `(nwrite - nread) mod 2³²`. -/
def count (pi : Pipe) : Nat := (pi.nwrite - pi.nread).toNat

/-- The bytes the pipe holds, oldest first. -/
def contents (pi : Pipe) : List UInt8 := ringView PIPESIZE pi.data pi.nread.toNat pi.count

/-- `pi->data[pi->nwrite++ % PIPESIZE] = ch`. -/
def put (pi : Pipe) (ch : UInt8) : Pipe :=
  { pi with data := Function.update pi.data (pi.nwrite.toNat % PIPESIZE) ch, nwrite := pi.nwrite + 1 }

/-- `ch = pi->data[pi->nread++ % PIPESIZE]`: the byte, and the pipe after. -/
def take (pi : Pipe) : UInt8 × Pipe :=
  (pi.data (pi.nread.toNat % PIPESIZE), { pi with nread := pi.nread + 1 })

@[simp] theorem length_contents (pi : Pipe) : pi.contents.length = pi.count := by
  simp [contents]

theorem size_dvd : PIPESIZE ∣ 2 ^ 32 := by decide

/-- The cell `nwrite` names is the one after the last byte. -/
theorem nwrite_mod (pi : Pipe) : pi.nwrite.toNat % PIPESIZE = (pi.nread.toNat + pi.count) % PIPESIZE :=
  toNat_mod_of_dvd size_dvd pi.nread pi.nwrite

/-- `pi->nwrite == pi->nread + PIPESIZE` tests for a full pipe. -/
theorem full_iff (pi : Pipe) : pi.nwrite = pi.nread + PIPESIZE.toUInt32 ↔ pi.count = PIPESIZE := by
  rw [← sub_eq_iff_eq_add', count]
  constructor
  · intro h
    rw [h]
    rfl
  · intro h
    exact UInt32.toNat_inj.1 (by rw [h]; rfl)

/-- `pi->nread == pi->nwrite` tests for an empty pipe. -/
theorem empty_iff (pi : Pipe) : pi.nread = pi.nwrite ↔ pi.count = 0 := sub_toNat_eq_zero.symm

/-- Storing in a pipe that is not full appends the byte. -/
theorem put_count {pi : Pipe} (h : pi.count < PIPESIZE) (ch : UInt8) : (pi.put ch).count = pi.count + 1 :=
  sub_toNat_add_one (by unfold PIPESIZE at h; exact Nat.lt_of_lt_of_le (Nat.succ_lt_succ h) (by decide))

theorem put_contents {pi : Pipe} (h : pi.count < PIPESIZE) (ch : UInt8) :
    (pi.put ch).contents = pi.contents ++ [ch] :=
  ringView_push32 size_dvd h (by unfold PIPESIZE at h; exact Nat.lt_of_lt_of_le (Nat.succ_lt_succ h) (by decide)) ch

/-- Taking from a pipe that is not empty drops its oldest byte. -/
theorem take_count {pi : Pipe} (h : pi.count ≠ 0) : pi.take.2.count = pi.count - 1 :=
  sub_succ_toNat fun e => h ((empty_iff pi).1 e)

theorem take_contents {pi : Pipe} (h : pi.count ≠ 0) : pi.contents = pi.take.1 :: pi.take.2.contents :=
  ringView_pop32 size_dvd fun e => h ((empty_iff pi).1 e)

end Pipe

/-- Where a run of `pipewrite` under the lock ends. -/
inductive WriteEnd
  /-- Asleep on a full pipe, with `i` bytes copied. -/
  | sleep (i : Nat)
  /-- Returned `r`. -/
  | ret (r : Int)
  deriving DecidableEq, Repr

/-- `pipewrite`'s loop from byte `i` on, with `fuel` the bytes left to copy. -/
def pipewriteLoop (m : Space UInt8) (killed : Bool) (addr : Nat) (n : Int) : Nat → Pipe → Nat → Pipe × WriteEnd
  | 0, pi, i => (pi, .ret i)
  | fuel + 1, pi, i =>
    if (i : Int) < n then
      if !pi.readopen || killed then (pi, .ret (-1))
      -- DOC: pipewrite-full: wake the readers and sleep
      else if pi.nwrite = pi.nread + PIPESIZE.toUInt32 then (pi, .sleep i)
      else
        let c := m.copyin PGSIZE (addr + i) 1
        if c.1 = -1 then (pi, .ret i)
        else pipewriteLoop m killed addr n fuel (pi.put (c.2.headD 0)) (i + 1)
    else (pi, .ret i)

/-- A run of `pipewrite(pi, addr, n)` by a process whose address space is
`m`, entered with `i` bytes copied. -/
def pipewrite (pi : Pipe) (m : Space UInt8) (killed : Bool) (addr : Nat) (n : Int) (i : Nat) : Pipe × WriteEnd :=
  pipewriteLoop m killed addr n (n.toNat - i) pi i

/-- Where a run of `piperead` under the lock ends. -/
inductive ReadEnd
  /-- Asleep on an empty pipe that has writers. -/
  | sleep
  /-- Returned `r`. -/
  | ret (r : Int)
  deriving DecidableEq, Repr

/-- `piperead`'s copy loop from byte `i` on, with `fuel` the bytes left. -/
def pipereadLoop (addr : Nat) (n : Int) : Nat → Pipe → Space UInt8 → Nat → Pipe × Space UInt8 × Nat
  | 0, pi, m, i => (pi, m, i)
  | fuel + 1, pi, m, i =>
    if (i : Int) < n then
      if pi.nread = pi.nwrite then (pi, m, i)
      else
        -- nread is advanced before the copyout that may fail.
        let c := m.copyout PGSIZE (addr + i) [pi.take.1]
        if c.1 = -1 then (pi.take.2, c.2, i)
        else pipereadLoop addr n fuel pi.take.2 c.2 (i + 1)
    else (pi, m, i)

/-- A run of `piperead(pi, addr, n)` by a process whose address space is `m`:
the pipe, the address space, and where it ends. -/
def piperead (pi : Pipe) (m : Space UInt8) (killed : Bool) (addr : Nat) (n : Int) : Pipe × Space UInt8 × ReadEnd :=
  -- DOC: pipe-empty
  if pi.nread = pi.nwrite && pi.writeopen then
    if killed then (pi, m, .ret (-1)) else (pi, m, .sleep)
  else
    let r := pipereadLoop addr n n.toNat pi m 0
    (r.1, r.2.1, .ret r.2.2)

/-- `pipeclose(pi, writable)`; freeing the pipe when both ends are closed is
left out, since nothing uses it afterwards. -/
def pipeclose (pi : Pipe) (writable : Bool) : Pipe :=
  if writable then { pi with writeopen := false } else { pi with readopen := false }

/-! ## What a run of each does to the bytes in the pipe -/

section Runs

variable {m : Space UInt8} {killed : Bool} {addr : Nat} {n : Int}

/-- A run of `pipewrite`'s loop appends the next `k` bytes of the source to
the pipe, keeps it within `PIPESIZE`, and ends asleep or returning with
`i + k` bytes copied, unless it returns `-1`. -/
theorem pipewriteLoop_spec (fuel : Nat) {pi : Pipe} {i : Nat} (hc : pi.count ≤ PIPESIZE) :
    ∃ k, (pipewriteLoop m killed addr n fuel pi i).1.contents = pi.contents ++ m.read (addr + i) k ∧
      (pipewriteLoop m killed addr n fuel pi i).1.count = pi.count + k ∧
      (pipewriteLoop m killed addr n fuel pi i).1.nread = pi.nread ∧
      (pipewriteLoop m killed addr n fuel pi i).1.count ≤ PIPESIZE ∧
      ((pipewriteLoop m killed addr n fuel pi i).2 = .sleep (i + k) ∨
        (pipewriteLoop m killed addr n fuel pi i).2 = .ret ↑(i + k) ∨
        (pipewriteLoop m killed addr n fuel pi i).2 = .ret (-1)) := by
  induction fuel generalizing pi i with
  | zero => exact ⟨0, by simp [pipewriteLoop, Space.read], by simp [pipewriteLoop], rfl, hc, by simp [pipewriteLoop]⟩
  | succ fuel ih =>
    simp only [pipewriteLoop]
    split_ifs with hn hclosed hfull hfail
    · exact ⟨0, by simp [Space.read], by simp, rfl, hc, by simp⟩
    · exact ⟨0, by simp [Space.read], by simp, rfl, hc, by simp⟩
    · exact ⟨0, by simp [Space.read], by simp, rfl, hc, by simp⟩
    · -- One byte copied in and stored, then the rest of the loop.
      have hlt : pi.count < PIPESIZE := lt_of_le_of_ne hc fun e => hfull ((Pipe.full_iff pi).2 e)
      have hbyte : (m.copyin PGSIZE (addr + i) 1).2.headD 0 = m.byte (addr + i) := by
        rw [Space.copyin_one] at hfail ⊢
        split_ifs at hfail ⊢ with hok
        · rfl
        · exact absurd rfl hfail
      obtain ⟨k, hk, hkc, hkr, hkb, hke⟩ :=
        @ih (pi.put ((m.copyin PGSIZE (addr + i) 1).2.headD 0)) (i + 1) (by rw [Pipe.put_count hlt]; omega)
      refine ⟨k + 1, ?_, ?_, hkr, hkb, ?_⟩
      · rw [hk, Pipe.put_contents hlt, hbyte, show addr + (i + 1) = addr + i + 1 by omega, Space.read,
          List.append_assoc, List.singleton_append]
      · rw [hkc, Pipe.put_count hlt]
        omega
      · rwa [show i + (k + 1) = i + 1 + k by omega]
    · exact ⟨0, by simp [Space.read], by simp, rfl, hc, by simp⟩

/-- `piperead`'s loop stores only from byte `i` of the destination on. -/
theorem pipereadLoop_byte_of_lt (fuel : Nat) {pi : Pipe} {m : Space UInt8} {i x : Nat} (hx : x < addr + i) :
    (pipereadLoop addr n fuel pi m i).2.1.byte x = m.byte x := by
  induction fuel generalizing pi m i with
  | zero => rfl
  | succ fuel ih =>
    simp only [pipereadLoop]
    split_ifs with hn he hfail
    · rfl
    · exact Space.copyout_byte_of_lt m _ hx
    · rw [ih (by omega)]
      exact Space.copyout_byte_of_lt m _ hx
    · rfl

/-- A run of `piperead`'s loop from byte `i` takes the oldest bytes `tk` out
of the pipe and returns `i + k`, where the destination's `k` bytes from `i`
on are the first `k` of `tk`; it takes one byte more than it reports exactly
when its last `copyout` failed. -/
theorem pipereadLoop_spec (fuel : Nat) {pi : Pipe} {m : Space UInt8} {i : Nat} :
    ∃ tk k, (pipereadLoop addr n fuel pi m i).2.2 = i + k ∧
      pi.contents = tk ++ (pipereadLoop addr n fuel pi m i).1.contents ∧
      (tk.length = k ∨ tk.length = k + 1) ∧
      (pipereadLoop addr n fuel pi m i).2.1.read (addr + i) k = tk.take k := by
  induction fuel generalizing pi m i with
  | zero => exact ⟨[], 0, rfl, rfl, .inl rfl, rfl⟩
  | succ fuel ih =>
    simp only [pipereadLoop]
    split_ifs with hn he hfail
    · exact ⟨[], 0, rfl, rfl, .inl rfl, rfl⟩
    · -- The byte is taken out, and its copy to the destination fails.
      have hc : pi.count ≠ 0 := fun h => he ((Pipe.empty_iff pi).2 h)
      exact ⟨[pi.take.1], 0, rfl, Pipe.take_contents hc, .inr rfl, rfl⟩
    · have hc : pi.count ≠ 0 := fun h => he ((Pipe.empty_iff pi).2 h)
      have hm : (m.copyout PGSIZE (addr + i) [pi.take.1]).2 = m.write (addr + i) [pi.take.1] := by
        rw [Space.copyout_one] at hfail ⊢
        split_ifs at hfail ⊢
        · rfl
        · simp at hfail
      have hbyte : (m.write (addr + i) [pi.take.1]).byte (addr + i) = pi.take.1 := by
        simp [Space.write]
      rw [hm]
      obtain ⟨tk, k, hr, hcont, hlen, hread⟩ := @ih pi.take.2 (m.write (addr + i) [pi.take.1]) (i + 1)
      refine ⟨pi.take.1 :: tk, k + 1, by rw [hr]; omega, ?_, ?_, ?_⟩
      · rw [Pipe.take_contents hc, hcont, List.cons_append]
      · rcases hlen with h | h
        · exact .inl (by simp [h])
        · exact .inr (by simp [h])
      · -- The byte stored at `addr + i` stays: the rest of the loop stores above it.
        rw [Space.read, pipereadLoop_byte_of_lt fuel (by omega), hbyte, show addr + i + 1 = addr + (i + 1) by omega,
          hread, List.take_succ_cons]
    · exact ⟨[], 0, rfl, rfl, .inl rfl, rfl⟩

theorem pipeclose_contents (pi : Pipe) (writable : Bool) :
    (pipeclose pi writable).contents = pi.contents ∧ (pipeclose pi writable).count = pi.count := by
  cases writable <;> exact ⟨rfl, rfl⟩

end Runs

/-! ## Any interleaving of runs -/

/-- A pipe, with the bytes put into it and taken out of it so far. -/
structure PipeSys where
  pipe : Pipe
  /-- The source bytes `pipewrite` stored, in order. -/
  put : List UInt8
  /-- The bytes `piperead` advanced `nread` over, in order. -/
  taken : List UInt8

/-- A run of one of the pipe's routines under its lock. -/
inductive PipeCall
  /-- A run of `pipewrite(pi, addr, n)` entered with `i` bytes copied. -/
  | write (m : Space UInt8) (killed : Bool) (addr : Nat) (n : Int) (i : Nat)
  /-- A run of `piperead(pi, addr, n)`. -/
  | read (m : Space UInt8) (killed : Bool) (addr : Nat) (n : Int)
  | close (writable : Bool)

/-- The system after a run: a write puts the source bytes from byte `i` on,
as many as the pipe gained; a read takes the oldest bytes, as many as the
pipe lost. -/
def PipeSys.next (s : PipeSys) : PipeCall → PipeSys
  | .write m killed addr n i =>
    let pi := (pipewrite s.pipe m killed addr n i).1
    ⟨pi, s.put ++ m.read (addr + i) (pi.count - s.pipe.count), s.taken⟩
  | .read m killed addr n =>
    let pi := (piperead s.pipe m killed addr n).1
    ⟨pi, s.put, s.taken ++ s.pipe.contents.take (s.pipe.count - pi.count)⟩
  | .close writable => ⟨pipeclose s.pipe writable, s.put, s.taken⟩

/-- `pipealloc()`: both ends open, nothing written, the ring as `kalloc`
left the page. -/
def PipeSys.init (junk : Nat → UInt8) : PipeSys := ⟨⟨junk, 0, 0, true, true⟩, [], []⟩

/-- The systems reachable from a fresh pipe by runs in any order. -/
def PipeSys.Reachable (s : PipeSys) : Prop :=
  Framework.Reachable (fun s => ∃ junk, s = PipeSys.init junk) (fun s s' => ∃ c, s' = s.next c) s

/-- The pipe is a queue of at most `PIPESIZE` bytes: what was put in is what
was taken out, then what it holds. -/
structure PipeSys.Fifo (s : PipeSys) : Prop where
  queue : s.put = s.taken ++ s.pipe.contents
  bound : s.pipe.count ≤ PIPESIZE

namespace PipeSys.Fifo

variable {s : PipeSys}

theorem init (junk : Nat → UInt8) : (PipeSys.init junk).Fifo :=
  ⟨by simp [PipeSys.init, Pipe.contents, Pipe.count, ringView], by simp [PipeSys.init, Pipe.count]⟩

theorem write (h : s.Fifo) (m : Space UInt8) (killed : Bool) (addr : Nat) (n : Int) (i : Nat) :
    (s.next (.write m killed addr n i)).Fifo := by
  obtain ⟨k, hk, hkc, -, hb, -⟩ := @pipewriteLoop_spec m killed addr n (n.toNat - i) s.pipe i h.bound
  refine ⟨?_, hb⟩
  simp only [PipeSys.next, pipewrite]
  rw [hkc, Nat.add_sub_cancel_left, hk, h.queue, List.append_assoc]

theorem read (h : s.Fifo) (m : Space UInt8) (killed : Bool) (addr : Nat) (n : Int) :
    (s.next (.read m killed addr n)).Fifo := by
  simp only [PipeSys.next, piperead]
  split_ifs
  · exact ⟨by simp [h.queue], h.bound⟩
  · exact ⟨by simp [h.queue], h.bound⟩
  · obtain ⟨tk, k, -, hcont, -, -⟩ := @pipereadLoop_spec addr n n.toNat s.pipe m 0
    have hlen := congrArg List.length hcont
    simp only [Pipe.length_contents, List.length_append] at hlen
    have hb := h.bound
    refine ⟨?_, by dsimp only; omega⟩
    dsimp only
    rw [show s.pipe.count - (pipereadLoop addr n n.toNat s.pipe m 0).1.count = tk.length by omega, hcont,
      List.take_left, h.queue, hcont, List.append_assoc]

theorem close (h : s.Fifo) (writable : Bool) : (s.next (.close writable)).Fifo := by
  obtain ⟨hc, hn⟩ := pipeclose_contents s.pipe writable
  exact ⟨by simp only [PipeSys.next]; rw [hc]; exact h.queue, by simp only [PipeSys.next]; rw [hn]; exact h.bound⟩

end PipeSys.Fifo

/-- Over any interleaving of runs, from a fresh pipe: the bytes taken out,
then the bytes the pipe holds, are the bytes put in, in order, and the pipe
holds at most `PIPESIZE` bytes, however far the counters have wrapped. -/
theorem PipeSys.Reachable.fifo {s : PipeSys} (h : s.Reachable) : s.Fifo := by
  refine Framework.Reachable.inv (fun _ ⟨junk, e⟩ => e ▸ Fifo.init junk) (fun s s' hs ⟨c, e⟩ => ?_) h
  subst e
  cases c with
  | write m killed addr n i => exact hs.write m killed addr n i
  | read m killed addr n => exact hs.read m killed addr n
  | close writable => exact hs.close writable

/-- A write of one byte, `'a'`, from a mapped page, then a read of one byte
into an unmapped page: the write reports the byte accepted, the read reports
nothing delivered, and the pipe is empty. -/
theorem piperead_loses_byte :
    let m : Space UInt8 := ⟨fun a => a == 0, fun _ => 97⟩
    let s₁ := (PipeSys.init fun _ => 0).next (.write m false 0 1 0)
    let s₂ := s₁.next (.read m false PGSIZE 1)
    (pipewrite (PipeSys.init fun _ => 0).pipe m false 0 1 0).2 = .ret 1 ∧ s₁.put = [97] ∧
      (piperead s₁.pipe m false PGSIZE 1).2.2 = .ret 0 ∧ s₂.pipe.contents = [] ∧ s₂.taken = [97] := by
  intro m s₁ s₂
  have hw : pipewrite (PipeSys.init fun _ => 0).pipe m false 0 1 0 = ((PipeSys.init fun _ => 0).pipe.put 97, .ret 1) := by
    simp [pipewrite, pipewriteLoop, PipeSys.init, Space.copyin_one, m, PIPESIZE]
  -- The read advances `nread` over the byte, then its copy to the unmapped page fails.
  have hr : piperead ((PipeSys.init fun _ => 0).pipe.put 97) m false PGSIZE 1 =
      (((PipeSys.init fun _ => 0).pipe.put 97).take.2, m, .ret 0) := by
    simp [piperead, pipereadLoop, Space.copyout_one, m, Pipe.put, Pipe.take, PipeSys.init, PGSIZE]
  have hs₁ : s₁.pipe = (PipeSys.init fun _ => 0).pipe.put 97 := by simp only [s₁, PipeSys.next, hw]
  refine ⟨by rw [hw], ?_, by rw [hs₁, hr], ?_, ?_⟩
  · simp only [s₁, PipeSys.next, hw]
    simp [m, Space.read, Pipe.count, Pipe.put, PipeSys.init]
  · simp only [s₂, PipeSys.next, hs₁, hr]
    simp [Pipe.contents, Pipe.count, Pipe.put, Pipe.take, PipeSys.init, ringView]
  · simp only [s₂, PipeSys.next, hs₁, hr]
    simp [s₁, PipeSys.next, Pipe.contents, Pipe.count, Pipe.put, Pipe.take, PipeSys.init, ringView, PIPESIZE]

end Xv6
