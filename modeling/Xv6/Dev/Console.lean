import Xv6.Param
import Xv6.Framework.Paged
import Xv6.Framework.Ring
import Xv6.Framework.Reach

/-!
# Console input: `consoleintr` and `consoleread`

`cons` (`Cons`) is a ring of `INPUT_BUF` bytes with three free-running
32-bit counters: `r` (read), `w` (committed) and `e` (edited).
`consoleintr` edits the bytes from `w` to `e` (erase, kill, append) and
commits them by moving `w` to `e` at a newline, a ^D or a full ring;
`consoleread` takes committed bytes from `r` and copies them out one at a
time until a newline, a ^D or its count, and sleeps while none are
committed. Both run under `cons.lock`, and a run of `consoleread` between
two sleeps is atomic (`consolereadLoop`). The console as a whole, with one
reader and a history of what each read returned, is `Console`, stepped by
`Console.next`.

The bytes of the ring from `r` to `e` are `Cons.view`: those before `w` are
`Cons.unread`, the rest `Cons.line`. The steps of the code act on them as on
lists, however far the counters have wrapped: storing at `e` appends to the
line (`Cons.store_line`), moving `e` back drops its last byte
(`Cons.erase_line`), moving `w` to `e` commits it (`Cons.commit_unread`),
and advancing `r` takes the head of the unread bytes (`Cons.take_unread`).
-/

namespace Xv6

open Framework

/-- Bytes in the console's input ring. -/
def INPUT_BUF : Nat := 128

/-- The byte of an ASCII character. -/
def ch (x : Char) : UInt8 := x.toNat.toUInt8

/-- `C(x)`: control-x, `x - '@'`. -/
def C (x : Char) : UInt8 := ch x - ch '@'

/-- `cons`, without its lock. -/
structure Cons where
  /-- `char buf[INPUT_BUF]`, cell `k` for `k < INPUT_BUF`. -/
  buf : Nat → UInt8
  /-- Read index. -/
  r : UInt32
  /-- Write index. -/
  w : UInt32
  /-- Edit index. -/
  e : UInt32

/-- The kill-line loop of `consoleintr` (^U): erase back to the write index
or a newline; `fuel` bounds its rounds. -/
def killLine : Nat → Cons → Cons
  | 0, s => s
  | fuel + 1, s =>
    if s.e ≠ s.w ∧ s.buf ((s.e - 1).toNat % INPUT_BUF) ≠ ch '\n' then killLine fuel { s with e := s.e - 1 }
    else s

/-- `consoleintr(c)`, for a byte `c` from the uart. Echoing and `procdump`
leave the ring alone. -/
def consoleintr (s : Cons) (c : UInt8) : Cons :=
  if c = C 'P' then s
  -- each round of the loop moves `e` one closer to `w`
  else if c = C 'U' then killLine (s.e - s.w).toNat s
  else if c = C 'H' ∨ c = 0x7f then
    if s.e ≠ s.w then { s with e := s.e - 1 } else s
  else if c ≠ 0 ∧ s.e - s.r < INPUT_BUF.toUInt32 then
    let c := if c = ch '\r' then ch '\n' else c
    let s := { s with buf := Function.update s.buf (s.e.toNat % INPUT_BUF) c, e := s.e + 1 }
    if c = ch '\n' ∨ c = C 'D' ∨ s.e = s.r + INPUT_BUF.toUInt32 then { s with w := s.e } else s
  else s

/-- Where a run of `consoleread` under `cons.lock` ends. -/
inductive ConsReadEnd
  /-- Asleep on `&cons.r`, with `n` bytes left to read to `dst` on. -/
  | sleep (n dst : Nat)
  /-- Returned `r`. -/
  | ret (r : Int)
  deriving DecidableEq, Repr

/-- The loop of `consoleread(user_dst, dst, target)` with `n` bytes left,
by a process whose address space is `m`. -/
def consolereadLoop (killed : Bool) (target : Nat) : Nat → Cons → Space UInt8 → Nat → Cons × Space UInt8 × ConsReadEnd
  | 0, s, m, _ => (s, m, .ret target)
  | n + 1, s, m, dst =>
    if s.r = s.w then
      if killed then (s, m, .ret (-1)) else (s, m, .sleep (n + 1) dst)
    else
      let c := s.buf (s.r.toNat % INPUT_BUF)
      let s := { s with r := s.r + 1 }
      if c = C 'D' then
        -- a ^D that ends a non-empty read is saved for the next one
        ((if n + 1 < target then { s with r := s.r - 1 } else s), m, .ret ↑(target - (n + 1)))
      else
        let cp := m.copyout PGSIZE dst [c]
        if cp.1 = -1 then (s, cp.2, .ret ↑(target - (n + 1)))
        else if c = ch '\n' then (s, cp.2, .ret ↑(target - n))
        else consolereadLoop killed target n s cp.2 (dst + 1)

namespace Cons

/-- The bytes of the ring from `r` to `e`. -/
def view (s : Cons) : List UInt8 := ringView INPUT_BUF s.buf s.r.toNat (s.e - s.r).toNat

/-- The committed bytes not yet read: from `r` to `w`. -/
def unread (s : Cons) : List UInt8 := s.view.take (s.w - s.r).toNat

/-- The line being edited: from `w` to `e`. -/
def line (s : Cons) : List UInt8 := s.view.drop (s.w - s.r).toNat

/-- The counters in order, `r ≤ w ≤ e ≤ r + INPUT_BUF` as 32-bit
distances from `r`, and no newline in the line being edited. -/
structure Inv (s : Cons) : Prop where
  w_le : (s.w - s.r).toNat ≤ (s.e - s.r).toNat
  e_le : (s.e - s.r).toNat ≤ INPUT_BUF
  line_nl : ch '\n' ∉ s.line

theorem size_dvd : INPUT_BUF ∣ 2 ^ 32 := by decide

variable {s : Cons}

@[simp] theorem length_view (s : Cons) : s.view.length = (s.e - s.r).toNat := by simp [view]

theorem unread_append_line (s : Cons) : s.unread ++ s.line = s.view := List.take_append_drop _ _

theorem length_unread (hI : s.Inv) : s.unread.length = (s.w - s.r).toNat := by
  simp [unread, hI.w_le]

theorem length_line (hI : s.Inv) : s.line.length = (s.e - s.w).toNat := by
  rw [line, List.length_drop, length_view, sub_toNat_of_le hI.w_le]

/-- No byte is committed and unread exactly when `r = w`. -/
theorem unread_eq_nil (hI : s.Inv) : s.unread = [] ↔ s.r = s.w := by
  rw [← List.length_eq_zero_iff, length_unread hI, sub_toNat_eq_zero]

/-- The line is empty exactly when `e = w`. -/
theorem line_eq_nil (hI : s.Inv) : s.line = [] ↔ s.e = s.w := by
  rw [← List.length_eq_zero_iff, length_line hI, sub_toNat_eq_zero, eq_comm]

/-- `e - r < INPUT_BUF` in 32-bit arithmetic tests for room. -/
theorem room_iff (s : Cons) : s.e - s.r < INPUT_BUF.toUInt32 ↔ (s.e - s.r).toNat < INPUT_BUF := by
  rw [UInt32.lt_iff_toNat_lt]
  rfl

/-- `e == r + INPUT_BUF` tests for a full ring. -/
theorem full_iff (s : Cons) : s.e = s.r + INPUT_BUF.toUInt32 ↔ (s.e - s.r).toNat = INPUT_BUF := by
  rw [← sub_eq_iff_eq_add', ← UInt32.toNat_inj]
  rfl

/-- `buf[e++ % INPUT_BUF] = c` on a ring that is not full appends `c` to the
line. -/
theorem store_view (hc : (s.e - s.r).toNat < INPUT_BUF) (c : UInt8) :
    ({ s with buf := Function.update s.buf (s.e.toNat % INPUT_BUF) c, e := s.e + 1 } : Cons).view =
      s.view ++ [c] :=
  ringView_push32 size_dvd hc (by unfold INPUT_BUF at hc; omega) c

theorem store_unread (hI : s.Inv) (hc : (s.e - s.r).toNat < INPUT_BUF) (c : UInt8) :
    ({ s with buf := Function.update s.buf (s.e.toNat % INPUT_BUF) c, e := s.e + 1 } : Cons).unread = s.unread := by
  rw [unread, store_view hc, unread, List.take_append_of_le_length (by rw [length_view]; exact hI.w_le)]

theorem store_line (hI : s.Inv) (hc : (s.e - s.r).toNat < INPUT_BUF) (c : UInt8) :
    ({ s with buf := Function.update s.buf (s.e.toNat % INPUT_BUF) c, e := s.e + 1 } : Cons).line = s.line ++ [c] := by
  rw [line, store_view hc, line, List.drop_append_of_le_length (by rw [length_view]; exact hI.w_le)]

/-- Moving `w` to `e` commits the line. -/
theorem commit_unread (s : Cons) : ({ s with w := s.e } : Cons).unread = s.view := by
  simp [unread, view]

theorem commit_line (s : Cons) : ({ s with w := s.e } : Cons).line = [] := by
  simp [line, view]

/-- An empty ring has `w` where `r` and `e` are. -/
theorem w_eq_of_r_eq_e (hI : s.Inv) (h : s.r = s.e) : s.w = s.r := by
  have hw := hI.w_le
  rw [← h, sub_self, UInt32.toNat_zero, Nat.le_zero, sub_toNat_eq_zero] at hw
  exact hw.symm

/-- `e--` on a non-empty line drops its last byte. -/
theorem erase_view (hI : s.Inv) (h : s.e ≠ s.w) : ({ s with e := s.e - 1 } : Cons).view = s.view.dropLast :=
  ringView_pred32 fun e => h (by rw [w_eq_of_r_eq_e hI e, e])

theorem w_lt_length_view (hI : s.Inv) (h : s.e ≠ s.w) : (s.w - s.r).toNat < s.view.length := by
  have hne : s.line.length ≠ 0 := fun e => h ((line_eq_nil hI).1 (List.length_eq_zero_iff.1 e))
  rw [length_line hI, sub_toNat_of_le hI.w_le] at hne
  rw [length_view]
  omega

theorem erase_unread (hI : s.Inv) (h : s.e ≠ s.w) : ({ s with e := s.e - 1 } : Cons).unread = s.unread := by
  have hlt := w_lt_length_view hI h
  rw [unread, erase_view hI h, List.dropLast_eq_take, List.take_take]
  dsimp only
  rw [Nat.min_eq_left (by omega)]
  rfl

theorem erase_line (hI : s.Inv) (h : s.e ≠ s.w) : ({ s with e := s.e - 1 } : Cons).line = s.line.dropLast := by
  rw [line, erase_view hI h, line, List.dropLast_drop_eq_drop_dropLast]

/-- The last byte of a non-empty line is the one `e - 1` names. -/
theorem getLast_line (hI : s.Inv) (h : s.e ≠ s.w) : s.line.getLast? = some (s.buf ((s.e - 1).toNat % INPUT_BUF)) := by
  rw [line, List.getLast?_drop, if_neg (Nat.not_le.2 (w_lt_length_view hI h))]
  exact getLast_ringView32 size_dvd fun e => h (by rw [w_eq_of_r_eq_e hI e, e])

/-- `r++` short of `w` takes the head of the unread bytes and leaves the
line. -/
theorem take_view (hI : s.Inv) (h : s.r ≠ s.w) :
    s.view = s.buf (s.r.toNat % INPUT_BUF) :: ({ s with r := s.r + 1 } : Cons).view :=
  ringView_pop32 size_dvd fun e => h (w_eq_of_r_eq_e hI e).symm

theorem take_unread (hI : s.Inv) (h : s.r ≠ s.w) :
    s.unread = s.buf (s.r.toNat % INPUT_BUF) :: ({ s with r := s.r + 1 } : Cons).unread := by
  have hw : (s.w - s.r).toNat = (s.w - (s.r + 1)).toNat + 1 := by
    rw [sub_succ_toNat h]
    have := (sub_toNat_eq_zero (a := s.r) (b := s.w)).not.2 h
    omega
  rw [unread, take_view hI h, hw, List.take_succ_cons]
  rfl

theorem take_line (hI : s.Inv) (h : s.r ≠ s.w) : ({ s with r := s.r + 1 } : Cons).line = s.line := by
  have hw : (s.w - s.r).toNat = (s.w - (s.r + 1)).toNat + 1 := by
    rw [sub_succ_toNat h]
    have := (sub_toNat_eq_zero (a := s.r) (b := s.w)).not.2 h
    omega
  rw [line, line, take_view hI h, hw, List.drop_succ_cons]

namespace Inv

/-- Storing at `e` in a ring that is not full keeps the counters in order,
and a byte other than a newline keeps the line free of them. -/
theorem store (hI : s.Inv) (hc : (s.e - s.r).toNat < INPUT_BUF) {c : UInt8} (hnl : c ≠ ch '\n') :
    ({ s with buf := Function.update s.buf (s.e.toNat % INPUT_BUF) c, e := s.e + 1 } : Cons).Inv := by
  have he : (s.e + 1 - s.r).toNat = (s.e - s.r).toNat + 1 := sub_toNat_add_one (by unfold INPUT_BUF at hc; omega)
  refine ⟨?_, ?_, ?_⟩
  · dsimp only
    have := hI.w_le
    omega
  · dsimp only
    omega
  · rw [store_line hI hc]
    simpa [hnl.symm] using hI.line_nl

/-- Committing the line, `w = e`, whatever it holds. -/
theorem commit (he : (s.e - s.r).toNat ≤ INPUT_BUF) : ({ s with w := s.e } : Cons).Inv :=
  ⟨le_refl _, he, by rw [commit_line]; exact List.not_mem_nil⟩

/-- `e--` on a non-empty line. -/
theorem erase (hI : s.Inv) (h : s.e ≠ s.w) : ({ s with e := s.e - 1 } : Cons).Inv := by
  have hlt := w_lt_length_view hI h
  rw [length_view] at hlt
  have hre : s.r ≠ s.e := fun e => h (by rw [w_eq_of_r_eq_e hI e, e])
  have he : (s.e - 1 - s.r).toNat = (s.e - s.r).toNat - 1 := sub_one_sub_toNat hre
  refine ⟨?_, ?_, ?_⟩
  · dsimp only
    omega
  · dsimp only
    have := hI.e_le
    omega
  · rw [erase_line hI h]
    exact fun hm => hI.line_nl (List.dropLast_subset _ hm)

/-- `r++` short of `w`. -/
theorem take (hI : s.Inv) (h : s.r ≠ s.w) : ({ s with r := s.r + 1 } : Cons).Inv := by
  have hw : (s.w - (s.r + 1)).toNat = (s.w - s.r).toNat - 1 := sub_succ_toNat h
  have he : (s.e - (s.r + 1)).toNat = (s.e - s.r).toNat - 1 := sub_succ_toNat fun e => h (w_eq_of_r_eq_e hI e).symm
  refine ⟨?_, ?_, ?_⟩
  · dsimp only
    have := hI.w_le
    omega
  · dsimp only
    have := hI.e_le
    omega
  · rw [take_line hI h]
    exact hI.line_nl

end Inv

/-- **The kill-line loop erases the line**: with no newline in it, the loop
runs until `e = w`, and leaves the unread bytes as they were. -/
theorem killLine_spec (fuel : Nat) : ∀ {s : Cons}, s.Inv → (s.e - s.w).toNat ≤ fuel →
    (killLine fuel s).Inv ∧ (killLine fuel s).unread = s.unread ∧ (killLine fuel s).line = [] ∧
      (killLine fuel s).r = s.r := by
  induction fuel with
  | zero =>
    intro s hI hfuel
    have he : s.e = s.w := (sub_toNat_eq_zero.1 (Nat.le_zero.1 hfuel)).symm
    exact ⟨hI, rfl, (line_eq_nil hI).2 he, rfl⟩
  | succ fuel ih =>
    intro s hI hfuel
    rw [killLine]
    split_ifs with hk
    · -- one more byte erased; the line's last byte is not a newline
      have hne : s.w ≠ s.e := fun e => hk.1 e.symm
      obtain ⟨hI', hu, hl, hr⟩ := ih (hI.erase hk.1) (by
        dsimp only
        rw [sub_right_comm, UInt32.toNat_sub_of_le _ _ (one_le_sub hne), UInt32.toNat_one]
        omega)
      exact ⟨hI', hu.trans (erase_unread hI hk.1), hl, hr⟩
    · -- the loop stops at `w`: a newline at `e - 1` would be in the line
      refine ⟨hI, rfl, ?_, rfl⟩
      by_contra hne
      have he : s.e ≠ s.w := fun e => hne ((line_eq_nil hI).2 e)
      have hnl : s.buf ((s.e - 1).toNat % INPUT_BUF) = ch '\n' := by
        by_contra hb
        exact hk ⟨he, hb⟩
      exact hI.line_nl (List.mem_of_getLast? (hnl ▸ getLast_line hI he))

end Cons

/-! ## The console with its reader -/

/-- A `consoleread` asleep in its loop: its address space, where its buffer
starts, its count, the bytes left and where the next one goes. -/
structure ConsReader where
  m : Space UInt8
  dst₀ : Nat
  target : Nat
  n : Nat
  dst : Nat

/-- The console's input and the one process reading it, with what each
finished `consoleread` returned: its result and the bytes its buffer then
holds up to it (a history, not kernel state). -/
structure Console where
  cons : Cons
  reader : Option ConsReader
  returned : List (Int × List UInt8)

/-- What can happen to the console: a byte arrives (`consoleintr` from
`uartintr`), a process calls `read` on it, or the sleeping reader runs
again after a `wakeup(&cons.r)`. -/
inductive ConsEv
  | intr (c : UInt8)
  | read (m : Space UInt8) (dst n : Nat) (killed : Bool)
  | wake (killed : Bool)

/-- The events the line discipline is stated for: no reader is killed, and
a read's buffer lies on accessible pages. -/
def ConsEv.Good : ConsEv → Prop
  | .intr _ => True
  | .read m dst n killed => killed = false ∧ ∀ i < n, m.ok ((dst + i) / PGSIZE * PGSIZE) = true
  | .wake killed => killed = false

namespace Console

/-- The console after a run of the reader's loop: asleep again, or returned. -/
def resume (s : Console) (rd : ConsReader) : Cons × Space UInt8 × ConsReadEnd → Console
  | (c, m, .sleep n dst) => ⟨c, some { rd with m, n, dst }, s.returned⟩
  | (c, m, .ret r) => ⟨c, none, s.returned ++ [(r, m.read rd.dst₀ r.toNat)]⟩

/-- One event; `none` for a `read` while the reader is asleep, or a wakeup
with none. -/
def next (s : Console) : ConsEv → Option Console
  | .intr c => some { s with cons := consoleintr s.cons c }
  | .read m dst n killed =>
    match s.reader with
    | some _ => none
    | none => some (s.resume ⟨m, dst, n, n, dst⟩ (consolereadLoop killed n n s.cons m dst))
  | .wake killed =>
    match s.reader with
    | none => none
    | some rd => some (s.resume rd (consolereadLoop killed rd.target rd.n s.cons rd.m rd.dst))

/-- After `consoleinit`: `cons` as the kernel's zeroed data left it. -/
def boot : Console := ⟨⟨fun _ => 0, 0, 0, 0⟩, none, []⟩

end Console

end Xv6
