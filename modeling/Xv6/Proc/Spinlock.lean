import Xv6.Framework.Reach

/-!
# Interrupt nesting: `push_off`, `pop_off`, locks and `sched`

`push_off` and `pop_off` of `kernel/spinlock.c`, which `acquire` and
`release` call, keep per CPU a count `noff` and, at the outermost
`push_off`, whether interrupts were on (`intena`). The count belongs to the
CPU, but the nesting belongs to a kernel thread, and threads change places
on a CPU in `swtch`: a process's thread switches out in `sched`, holding its
own lock and nothing else, and the CPU's scheduler thread switches to a
process holding that process's lock and nothing else.

`Cpus` is every CPU with its locks and kernel threads; a step is a call by
the thread running on one CPU (`next`). Each thread's own nesting depth and
whether interrupts were on before its outermost `push_off` are ghost fields.
A well-bracketed thread pops only what it pushed, and turns interrupts on
only with nothing pushed, as the scheduler's loop, `usertrap` and
`kerneltrap`'s return do: other calls are not steps. A process's thread
starts in `forkret` holding its lock, which the scheduler took for it, so
it starts at depth one.

In every reachable state (`Inv`, `Reachable.inv`): `noff` is the depth of
the thread running on the CPU, interrupts are off while it is positive, and
a process's thread finds in `intena` what it recorded at its outermost
`push_off`, since `sched` saves and restores it around `swtch`
(`interrupt_nesting`). So `pop_off` never panics, and a process's outermost
`pop_off` leaves interrupts as they were before its outermost `push_off`.
The scheduler's thread does not save `intena` around its own `swtch`: its
`release` of the process's lock finds the `intena` of the process it ran
(`interrupt_nesting_scheduler`).
-/

set_option linter.unusedSectionVars false

namespace Xv6

open Framework

/-- The fields of `struct cpu` that `push_off` and `pop_off` keep, and the
`SIE` bit of `sstatus`, which `intr_get()` reads. -/
structure Cpu where
  noff : Int
  intena : Bool
  ie : Bool
deriving DecidableEq, Repr

namespace Cpu

/-- `intr_on()`. -/
def intrOn (c : Cpu) : Cpu := { c with ie := true }

/-- `intr_off()`. -/
def intrOff (c : Cpu) : Cpu := { c with ie := false }

/-- `push_off()`. -/
def pushOff (c : Cpu) : Cpu :=
  let old := c.ie
  let c := c.intrOff
  let c := if c.noff = 0 then { c with intena := old } else c
  { c with noff := c.noff + 1 }

/-- `pop_off()`. -/
def popOff (c : Cpu) : Except String Cpu :=
  if c.ie then .error "pop_off - interruptible"
  else if c.noff < 1 then .error "pop_off"
  else
    let c := { c with noff := c.noff - 1 }
    .ok (if c.noff = 0 ∧ c.intena then c.intrOn else c)

@[simp] theorem pushOff_noff (c : Cpu) : c.pushOff.noff = c.noff + 1 := by
  by_cases h : c.noff = 0 <;> simp [pushOff, intrOff, h]

@[simp] theorem pushOff_ie (c : Cpu) : c.pushOff.ie = false := by
  by_cases h : c.noff = 0 <;> simp [pushOff, intrOff, h]

@[simp] theorem pushOff_intena (c : Cpu) : c.pushOff.intena = if c.noff = 0 then c.ie else c.intena := by
  by_cases h : c.noff = 0 <;> simp [pushOff, intrOff, h]

/-- What `pop_off` does when interrupts are off and something is pushed. -/
theorem popOff_ok {c : Cpu} (hie : c.ie = false) (hn : 1 ≤ c.noff) :
    c.popOff = .ok ⟨c.noff - 1, c.intena, c.noff - 1 = 0 && c.intena⟩ := by
  have hn' : ¬c.noff < 1 := by omega
  simp only [popOff, hie, Bool.false_eq_true, if_false, hn']
  by_cases h : c.noff - 1 = 0 <;> cases hi : c.intena <;> simp [intrOn, h]

end Cpu

/-- A kernel thread: a process's, or the scheduler's of a CPU. -/
inductive Kthread (T C : Type)
  | proc (t : T)
  | sched (c : C)
deriving DecidableEq

/-- Where a process's kernel thread is. -/
inductive Place (C : Type)
  /-- Not run yet: its first run starts in `forkret`, holding its lock. -/
  | fresh
  /-- Running on a CPU, in the kernel or in user space. -/
  | running (c : C)
  /-- Switched out inside `sched`. -/
  | switched
deriving DecidableEq

/-- The CPUs, the locks, and the kernel threads. -/
structure Cpus (T L C : Type) where
  cpu : C → Cpu
  /-- `mycpu()->proc`: whose thread runs on each CPU; `none` is its
  scheduler's. -/
  proc : C → Option T
  place : T → Place C
  /-- `lk->locked` and `lk->cpu`. -/
  owner : L → Option C
  /-- The local `intena` of each switched-out thread's `sched`. -/
  saved : T → Bool
  /-- Ghost: each thread's `push_off`s not yet popped. -/
  depth : Kthread T C → Nat
  /-- Ghost: whether interrupts were on before each thread's outermost
  `push_off`. -/
  outer : Kthread T C → Option Bool

/-- A call by the thread running on a CPU. -/
inductive CpuEv (T L C : Type)
  | acquire (c : C) (lk : L)
  | release (c : C) (lk : L)
  | pushOff (c : C)
  | popOff (c : C)
  /-- `intr_on()`, and `kerneltrap` returning to the code it interrupted. -/
  | intrOn (c : C)
  /-- `intr_off()`, and a trap, which clears `SIE`. -/
  | intrOff (c : C)
  /-- `sched()` by the process running on the CPU. -/
  | sched (c : C)
  /-- The scheduler's `swtch` to process `t`, whose lock it holds. -/
  | swtch (c : C) (t : T)

namespace Cpus

variable {T L C : Type} [DecidableEq T] [DecidableEq L] [DecidableEq C]

/-- The thread running on CPU `c`. -/
def cur (s : Cpus T L C) (c : C) : Kthread T C :=
  match s.proc c with
  | some t => .proc t
  | none => .sched c

/-- CPU `c` is now `x`. -/
@[simps] def setCpu (s : Cpus T L C) (c : C) (x : Cpu) : Cpus T L C := { s with cpu := Function.update s.cpu c x }

/-- `push_off()` on CPU `c`, counted for the thread running there. -/
@[simps] def pushed (s : Cpus T L C) (c : C) : Cpus T L C :=
  { s.setCpu c (s.cpu c).pushOff with
    depth := Function.update s.depth (s.cur c) (s.depth (s.cur c) + 1)
    outer := if s.depth (s.cur c) = 0 then Function.update s.outer (s.cur c) (some (s.cpu c).ie) else s.outer }

/-- `pop_off()` on CPU `c`, counted for the thread running there. -/
def popped (s : Cpus T L C) (c : C) : Except String (Cpus T L C) :=
  (s.cpu c).popOff.map fun x =>
    { s.setCpu c x with depth := Function.update s.depth (s.cur c) (s.depth (s.cur c) - 1) }

/-- `lk->locked` and `lk->cpu` are now `o`. -/
@[simps] def setOwner (s : Cpus T L C) (lk : L) (o : Option C) : Cpus T L C :=
  { s with owner := Function.update s.owner lk o }

/-- `sched()`'s `swtch` by process `t` on CPU `c`, with `intena` saved in
its frame: the scheduler runs on. -/
@[simps] def switchOut (s : Cpus T L C) (c : C) (t : T) : Cpus T L C :=
  { s with
    proc := Function.update s.proc c none
    place := Function.update s.place t .switched
    saved := Function.update s.saved t (s.cpu c).intena }

/-- The scheduler's `swtch` on CPU `c` to process `t`. A thread switched
out in `sched` resumes there, with `mycpu()->intena = intena`; a new one
starts in `forkret`. -/
@[simps] def switchIn (s : Cpus T L C) (c : C) (t : T) : Cpus T L C :=
  { s.setCpu c (if s.place t = .switched then { s.cpu c with intena := s.saved t } else s.cpu c) with
    proc := Function.update s.proc c (some t)
    place := Function.update s.place t (.running c) }

variable (plock : T → L)

/-- One call. `plock t` is process `t`'s lock. A call a well-bracketed
thread does not make (a pop with nothing of its own pushed, `intr_on` with
something pushed), a spinning `acquire`, and a `swtch` the scheduler does not
make are not steps; `sched`'s check of `p->state` is not modelled. -/
def next (s : Cpus T L C) : CpuEv T L C → Option (Except String (Cpus T L C))
  | .acquire c lk =>
    -- another CPU holds the lock: `acquire` spins
    if (s.owner lk).isSome ∧ s.owner lk ≠ some c then none
    else if s.owner lk = some c then some (.error "acquire")
    else some (.ok ((s.pushed c).setOwner lk (some c)))
  | .release c lk =>
    if s.depth (s.cur c) = 0 then none
    else if s.owner lk ≠ some c then some (.error "release")
    else some ((s.setOwner lk none).popped c)
  | .pushOff c => some (.ok (s.pushed c))
  | .popOff c => if s.depth (s.cur c) = 0 then none else some (s.popped c)
  | .intrOn c => if s.depth (s.cur c) = 0 then some (.ok (s.setCpu c (s.cpu c).intrOn)) else none
  | .intrOff c => some (.ok (s.setCpu c (s.cpu c).intrOff))
  | .sched c =>
    match s.proc c with
    | none => none
    | some t =>
      if s.owner (plock t) ≠ some c then some (.error "sched p->lock")
      else if (s.cpu c).noff ≠ 1 then some (.error "sched locks")
      else if (s.cpu c).ie then some (.error "sched interruptible")
      else some (.ok (s.switchOut c t))
  | .swtch c t =>
    if s.proc c = none ∧ s.depth (.sched c) = 1 ∧ s.owner (plock t) = some c ∧
        (s.place t = .fresh ∨ s.place t = .switched) then some (.ok (s.switchIn c t))
    else none

/-- Boot: every CPU runs its scheduler with nothing pushed and interrupts
off, no lock is held, and no process has run; a process's thread starts
holding its lock, which the scheduler took for it. -/
def init : Cpus T L C where
  cpu _ := ⟨0, false, false⟩
  proc _ := none
  place _ := .fresh
  owner _ := none
  saved _ := false
  depth
    | .proc _ => 1
    | .sched _ => 0
  outer _ := none

def Step (s s' : Cpus T L C) : Prop := ∃ ev, s.next plock ev = some (.ok s')

def Reachable (s : Cpus T L C) : Prop := Framework.Reachable (· = init) (Step plock) s

/-! ## The invariant -/

theorem cur_of_proc {s : Cpus T L C} {c : C} {t : T} (h : s.proc c = some t) : s.cur c = .proc t := by
  rw [cur, h]

theorem cur_of_none {s : Cpus T L C} {c : C} (h : s.proc c = none) : s.cur c = .sched c := by
  rw [cur, h]

/-- Each CPU's count is its running thread's depth, with interrupts off
while it is positive; a running process finds in `intena`, and a
switched-out one in `sched`'s saved copy, whether interrupts were on before
its outermost `push_off`; a process waits for its turn at depth one, its
scheduler at depth one while it runs. -/
structure Inv (s : Cpus T L C) : Prop where
  noff : ∀ c, (s.cpu c).noff = s.depth (s.cur c)
  ie : ∀ c, (s.cpu c).ie = true → s.depth (s.cur c) = 0
  intena : ∀ c t x, s.proc c = some t → s.outer (.proc t) = some x → s.depth (.proc t) ≠ 0 → (s.cpu c).intena = x
  saved : ∀ t x, s.place t = .switched → s.outer (.proc t) = some x → s.saved t = x
  fresh : ∀ t, s.place t = .fresh → s.outer (.proc t) = none
  waiting : ∀ t, s.place t = .fresh ∨ s.place t = .switched → s.depth (.proc t) = 1
  sched : ∀ c t, s.proc c = some t → s.depth (.sched c) = 1
  proc : ∀ c t, s.proc c = some t ↔ s.place t = .running c

section Inv

variable {s : Cpus T L C}

theorem Inv.init : (init : Cpus T L C).Inv where
  noff c := rfl
  ie c h := absurd h Bool.false_ne_true
  intena c t x h := absurd h (by simp [Cpus.init])
  saved t x h := absurd h (by simp [Cpus.init])
  fresh t _ := rfl
  waiting t _ := rfl
  sched c t h := absurd h (by simp [Cpus.init])
  proc c t := by simp [Cpus.init]

/-- Two CPUs run two threads. -/
theorem Inv.cur_ne (h : s.Inv) {c c' : C} (hne : c' ≠ c) : s.cur c' ≠ s.cur c := by
  unfold cur
  cases hc : s.proc c with
  | none =>
    cases hc' : s.proc c' with
    | none => simpa using hne
    | some t' => simp
  | some t =>
    cases hc' : s.proc c' with
    | none => simp
    | some t' =>
      intro e
      cases e
      have e₁ := (h.proc c t).1 hc
      rw [(h.proc c' t).1 hc'] at e₁
      cases e₁
      exact hne rfl

/-- A thread that waits runs nowhere. -/
theorem Inv.cur_ne_of_waiting (h : s.Inv) {t : T} (ht : s.place t = .fresh ∨ s.place t = .switched) (c : C) :
    s.cur c ≠ .proc t := by
  unfold cur
  cases hc : s.proc c with
  | none => simp
  | some t' =>
    intro e
    cases e
    rw [(h.proc c t).1 hc] at ht
    rcases ht with ht | ht <;> cases ht

/-- While a process runs on a CPU, that CPU's scheduler runs nowhere. -/
theorem sched_ne_cur {c' : C} {t : T} (hp : s.proc c' = some t) (c : C) :
    Kthread.sched c' ≠ s.cur c := by
  unfold cur
  cases hc : s.proc c with
  | none =>
    intro e
    cases e
    rw [hp] at hc
    cases hc
  | some t' => simp

@[simp] theorem cur_setCpu (c : C) (x : Cpu) (c' : C) : (s.setCpu c x).cur c' = s.cur c' := rfl

@[simp] theorem cur_pushed (c c' : C) : (s.pushed c).cur c' = s.cur c' := rfl

/-- `push_off` keeps the invariant: the running thread's depth and the
count go up together, and the outermost one records `intena`. -/
theorem Inv.pushed (h : s.Inv) (c : C) : (s.pushed c).Inv where
  noff c' := by
    by_cases e : c' = c
    · subst e
      simp [h.noff c']
    · simp [e, Function.update_of_ne (h.cur_ne e), h.noff c']
  ie c' hc' := by
    by_cases e : c' = c
    · subst e
      simp at hc'
    · simp only [pushed_cpu, setCpu_cpu, Function.update_of_ne e] at hc'
      simp [Function.update_of_ne (h.cur_ne e), h.ie c' hc']
  intena c' t x hp hx hd := by
    simp only [pushed_proc, setCpu_proc] at hp
    by_cases e : c' = c
    · subst e
      have hcur := cur_of_proc hp
      simp only [pushed_cpu, setCpu_cpu, Function.update_self, Cpu.pushOff_intena, h.noff c', hcur]
      by_cases h0 : s.depth (.proc t) = 0
      · simp only [pushed_outer, hcur, h0, if_true, Function.update_self, Option.some.injEq] at hx
        simp [hx, h0]
      · simp only [pushed_outer, hcur, h0, if_false] at hx
        have hd' : s.depth (.proc t) ≠ 0 := h0
        simp only [h0, Nat.cast_eq_zero, if_false]
        exact h.intena c' t x hp hx hd'
    · have hne : Kthread.proc t ≠ s.cur c := cur_of_proc hp ▸ h.cur_ne e
      simp only [pushed_cpu, setCpu_cpu, Function.update_of_ne e]
      simp only [pushed_outer, pushed_depth, Function.update_of_ne hne] at hx hd
      split at hx
      · exact h.intena c' t x hp (by rwa [Function.update_of_ne hne] at hx) hd
      · exact h.intena c' t x hp hx hd
  saved t x hp hx := by
    have hne := h.cur_ne_of_waiting (.inr hp) c
    simp only [pushed_outer] at hx
    split at hx
    · exact h.saved t x hp (by rwa [Function.update_of_ne hne.symm] at hx)
    · exact h.saved t x hp hx
  fresh t hp := by
    have hne := h.cur_ne_of_waiting (.inl hp) c
    simp only [pushed_outer]
    split
    · rw [Function.update_of_ne hne.symm]
      exact h.fresh t hp
    · exact h.fresh t hp
  waiting t hp := by
    simp only [pushed_depth, Function.update_of_ne (h.cur_ne_of_waiting hp c).symm]
    exact h.waiting t hp
  sched c' t hp := by
    simp only [pushed_proc, setCpu_proc] at hp
    simp only [pushed_depth, Function.update_of_ne (sched_ne_cur hp c)]
    exact h.sched c' t hp
  proc := h.proc

/-- The state after the running thread's `pop_off` on CPU `c`, when it
does not panic. -/
@[simps] def afterPop (s : Cpus T L C) (c : C) : Cpus T L C :=
  { s.setCpu c ⟨(s.cpu c).noff - 1, (s.cpu c).intena, decide ((s.cpu c).noff - 1 = 0) && (s.cpu c).intena⟩ with
    depth := Function.update s.depth (s.cur c) (s.depth (s.cur c) - 1) }

@[simp] theorem cur_afterPop (c c' : C) : (s.afterPop c).cur c' = s.cur c' := rfl

/-- With something of its own pushed, the running thread's `pop_off` does
not panic: the count is positive and interrupts are off. -/
theorem Inv.popped_ok (h : s.Inv) {c : C} (hd : s.depth (s.cur c) ≠ 0) : s.popped c = .ok (s.afterPop c) := by
  have hie : (s.cpu c).ie = false := by
    cases hi : (s.cpu c).ie
    · rfl
    · exact absurd (h.ie c hi) hd
  rw [popped, Cpu.popOff_ok hie (by rw [h.noff c]; omega)]
  rfl

/-- `pop_off` keeps the invariant; interrupts come on only when the count
reaches zero with `intena` set. -/
theorem Inv.afterPop (h : s.Inv) {c : C} (hd : s.depth (s.cur c) ≠ 0) : (s.afterPop c).Inv where
  noff c' := by
    by_cases e : c' = c
    · subst e
      simp only [afterPop_cpu, setCpu_cpu, Function.update_self, afterPop_depth, cur_afterPop, h.noff c']
      omega
    · simp [e, Function.update_of_ne (h.cur_ne e), h.noff c']
  ie c' hc' := by
    by_cases e : c' = c
    · subst e
      simp only [afterPop_cpu, setCpu_cpu, Function.update_self, Bool.and_eq_true, decide_eq_true_eq,
        h.noff c'] at hc'
      simp only [afterPop_depth, cur_afterPop, Function.update_self]
      omega
    · simp only [afterPop_cpu, setCpu_cpu, Function.update_of_ne e] at hc'
      simp [Function.update_of_ne (h.cur_ne e), h.ie c' hc']
  intena c' t x hp hx hd' := by
    simp only [afterPop_proc, setCpu_proc] at hp
    simp only [afterPop_outer, setCpu_outer] at hx
    by_cases e : c' = c
    · subst e
      simp only [afterPop_depth, cur_of_proc hp, Function.update_self] at hd'
      simp only [afterPop_cpu, setCpu_cpu, Function.update_self]
      exact h.intena c' t x hp hx (by omega)
    · have hne : Kthread.proc t ≠ s.cur c := cur_of_proc hp ▸ h.cur_ne e
      simp only [afterPop_depth, Function.update_of_ne hne] at hd'
      simp only [afterPop_cpu, setCpu_cpu, Function.update_of_ne e]
      exact h.intena c' t x hp hx hd'
  saved := h.saved
  fresh := h.fresh
  waiting t hp := by
    simp only [afterPop_depth, Function.update_of_ne (h.cur_ne_of_waiting hp c).symm]
    exact h.waiting t hp
  sched c' t hp := by
    simp only [afterPop_proc, setCpu_proc] at hp
    simp only [afterPop_depth, Function.update_of_ne (sched_ne_cur hp c)]
    exact h.sched c' t hp
  proc := h.proc

/-- Locks are not part of the invariant. -/
theorem Inv.setOwner (h : s.Inv) (lk : L) (o : Option C) : (s.setOwner lk o).Inv :=
  ⟨h.noff, h.ie, h.intena, h.saved, h.fresh, h.waiting, h.sched, h.proc⟩

/-- A change of `ie` alone keeps the invariant when interrupts come on only
with nothing pushed. -/
theorem Inv.setCpu (h : s.Inv) {c : C} {x : Cpu} (hn : x.noff = (s.cpu c).noff)
    (hi : x.intena = (s.cpu c).intena) (hie : x.ie = true → s.depth (s.cur c) = 0) : (s.setCpu c x).Inv where
  noff c' := by
    by_cases e : c' = c
    · subst e
      simp [hn, h.noff c']
    · simp [e, h.noff c']
  ie c' hc' := by
    by_cases e : c' = c
    · subst e
      simp only [setCpu_cpu, Function.update_self] at hc'
      exact hie hc'
    · simp only [setCpu_cpu, Function.update_of_ne e] at hc'
      exact h.ie c' hc'
  intena c' t y hp hy hd := by
    by_cases e : c' = c
    · subst e
      simp only [setCpu_cpu, Function.update_self, hi]
      exact h.intena c' t y hp hy hd
    · simp only [setCpu_cpu, Function.update_of_ne e]
      exact h.intena c' t y hp hy hd
  saved := h.saved
  fresh := h.fresh
  waiting := h.waiting
  sched := h.sched
  proc := h.proc

theorem cur_switchOut (c : C) (t : T) (c' : C) :
    (s.switchOut c t).cur c' = if c' = c then .sched c else s.cur c' := by
  by_cases e : c' = c
  · subst e
    simp [cur]
  · simp [cur, e]

/-- `sched` keeps the invariant: the process leaves at depth one, and what
its `intena` was is saved in its frame; its scheduler resumes at depth one. -/
theorem Inv.switchOut (h : s.Inv) {c : C} {t : T} (hp : s.proc c = some t) (hn : (s.cpu c).noff = 1)
    (hie : (s.cpu c).ie = false) : (s.switchOut c t).Inv := by
  have hrun : s.place t = .running c := (h.proc c t).1 hp
  have hdt : s.depth (.proc t) = 1 := by
    have := h.noff c
    rw [cur_of_proc hp, hn] at this
    omega
  exact {
    noff := fun c' => by
      by_cases e : c' = c
      · subst e
        simp [cur_switchOut, hn, h.sched c' t hp]
      · simp [cur_switchOut, e, h.noff c']
    ie := fun c' hc' => by
      by_cases e : c' = c
      · subst e
        simp [hie] at hc'
      · simp only [switchOut_cpu] at hc'
        simp [cur_switchOut, e, h.ie c' hc']
    intena := fun c' t' x hp' hx hd => by
      by_cases e : c' = c
      · subst e
        simp at hp'
      · simp only [switchOut_proc, Function.update_of_ne e] at hp'
        exact h.intena c' t' x hp' hx hd
    saved := fun t' x hp' hx => by
      by_cases e : t' = t
      · subst e
        simp only [switchOut_saved, Function.update_self]
        exact h.intena c t' x hp hx (by omega)
      · simp only [switchOut_place, Function.update_of_ne e] at hp'
        simp only [switchOut_saved, Function.update_of_ne e]
        exact h.saved t' x hp' hx
    fresh := fun t' hp' => by
      by_cases e : t' = t
      · subst e
        simp at hp'
      · simp only [switchOut_place, Function.update_of_ne e] at hp'
        exact h.fresh t' hp'
    waiting := fun t' hp' => by
      by_cases e : t' = t
      · subst e
        exact hdt
      · simp only [switchOut_place, Function.update_of_ne e] at hp'
        exact h.waiting t' hp'
    sched := fun c' t' hp' => by
      by_cases e : c' = c
      · subst e
        simp at hp'
      · simp only [switchOut_proc, Function.update_of_ne e] at hp'
        exact h.sched c' t' hp'
    proc := fun c' t' => by
      simp only [switchOut_proc, switchOut_place]
      by_cases e : c' = c
      · subst e
        by_cases e' : t' = t
        · subst e'
          simp
        · rw [Function.update_self, Function.update_of_ne e', ← h.proc, hp]
          simp [Ne.symm e']
      · by_cases e' : t' = t
        · subst e'
          rw [Function.update_of_ne e, Function.update_self, h.proc, hrun]
          simp [Ne.symm e]
        · rw [Function.update_of_ne e, Function.update_of_ne e']
          exact h.proc c' t' }

theorem cur_switchIn (c : C) (t : T) (c' : C) :
    (s.switchIn c t).cur c' = if c' = c then .proc t else s.cur c' := by
  by_cases e : c' = c
  · subst e
    simp [cur]
  · simp [cur, e]

theorem switchIn_noff (c : C) (t : T) : ((s.switchIn c t).cpu c).noff = (s.cpu c).noff := by
  simp only [switchIn_cpu, setCpu_cpu, Function.update_self]
  split <;> rfl

theorem switchIn_ie (c : C) (t : T) : ((s.switchIn c t).cpu c).ie = (s.cpu c).ie := by
  simp only [switchIn_cpu, setCpu_cpu, Function.update_self]
  split <;> rfl

/-- The scheduler's `swtch` keeps the invariant: the process comes in at
depth one, as its scheduler was, and one switched out in `sched` gets its
saved `intena` back. -/
theorem Inv.switchIn (h : s.Inv) {c : C} {t : T} (hp : s.proc c = none) (hd : s.depth (.sched c) = 1)
    (hw : s.place t = .fresh ∨ s.place t = .switched) : (s.switchIn c t).Inv := by
  have hdt : s.depth (.proc t) = 1 := h.waiting t hw
  have hnoff : (s.cpu c).noff = 1 := by rw [h.noff c, cur_of_none hp, hd]; rfl
  have hie : (s.cpu c).ie = false := by
    cases hi : (s.cpu c).ie
    · rfl
    · have := h.ie c hi
      rw [cur_of_none hp, hd] at this
      cases this
  exact {
    noff := fun c' => by
      by_cases e : c' = c
      · subst e
        rw [switchIn_noff, cur_switchIn]
        simp [hnoff, hdt]
      · simp [cur_switchIn, e, h.noff c']
    ie := fun c' hc' => by
      by_cases e : c' = c
      · subst e
        rw [switchIn_ie, hie] at hc'
        cases hc'
      · simp only [switchIn_cpu, setCpu_cpu, Function.update_of_ne e] at hc'
        simp [cur_switchIn, e, h.ie c' hc']
    intena := fun c' t' x hp' hx hd' => by
      simp only [switchIn_outer, setCpu_outer] at hx
      by_cases e : c' = c
      · subst e
        simp only [switchIn_proc, Function.update_self, Option.some.injEq] at hp'
        subst hp'
        simp only [switchIn_cpu, setCpu_cpu, Function.update_self]
        rcases hw with hw | hw
        · rw [h.fresh t hw] at hx
          cases hx
        · simp only [hw, if_true]
          exact h.saved t x hw hx
      · simp only [switchIn_proc, Function.update_of_ne e] at hp'
        simp only [switchIn_cpu, setCpu_cpu, Function.update_of_ne e]
        exact h.intena c' t' x hp' hx hd'
    saved := fun t' x hp' hx => by
      by_cases e : t' = t
      · subst e
        simp at hp'
      · simp only [switchIn_place, Function.update_of_ne e] at hp'
        exact h.saved t' x hp' hx
    fresh := fun t' hp' => by
      by_cases e : t' = t
      · subst e
        simp at hp'
      · simp only [switchIn_place, Function.update_of_ne e] at hp'
        exact h.fresh t' hp'
    waiting := fun t' hp' => by
      by_cases e : t' = t
      · subst e
        simp at hp'
      · simp only [switchIn_place, Function.update_of_ne e] at hp'
        exact h.waiting t' hp'
    sched := fun c' t' hp' => by
      by_cases e : c' = c
      · subst e
        exact hd
      · simp only [switchIn_proc, Function.update_of_ne e] at hp'
        exact h.sched c' t' hp'
    proc := fun c' t' => by
      simp only [switchIn_proc, switchIn_place]
      by_cases e : c' = c
      · subst e
        by_cases e' : t' = t
        · subst e'
          simp
        · rw [Function.update_self, Function.update_of_ne e', ← h.proc, hp]
          simp [Ne.symm e']
      · by_cases e' : t' = t
        · subst e'
          rw [Function.update_of_ne e, Function.update_self, h.proc]
          rcases hw with hw | hw <;> simp [hw, Ne.symm e]
        · rw [Function.update_of_ne e, Function.update_of_ne e']
          exact h.proc c' t' }

end Inv

/-! ## Steps -/

section Next

variable {s s' : Cpus T L C} {c : C}

theorem next_acquire_ok {lk : L} (hs : s.next plock (.acquire c lk) = some (.ok s')) :
    s' = (s.pushed c).setOwner lk (some c) := by
  simp only [next] at hs
  split_ifs at hs
  · cases hs
  · cases hs
    rfl

theorem next_release_ok {lk : L} (hs : s.next plock (.release c lk) = some (.ok s')) :
    s.depth (s.cur c) ≠ 0 ∧ (s.setOwner lk none).popped c = .ok s' := by
  simp only [next] at hs
  split_ifs at hs with h0
  · cases hs
  · exact ⟨h0, Option.some.inj hs⟩

theorem next_pushOff_ok (hs : s.next plock (.pushOff c) = some (.ok s')) : s' = s.pushed c := by
  cases hs
  rfl

theorem next_popOff_ok (hs : s.next plock (.popOff c) = some (.ok s')) :
    s.depth (s.cur c) ≠ 0 ∧ s.popped c = .ok s' := by
  simp only [next] at hs
  split_ifs at hs with h0
  exact ⟨h0, Option.some.inj hs⟩

theorem next_intrOn_ok (hs : s.next plock (.intrOn c) = some (.ok s')) :
    s.depth (s.cur c) = 0 ∧ s' = s.setCpu c (s.cpu c).intrOn := by
  simp only [next] at hs
  split_ifs at hs with h0
  cases hs
  exact ⟨h0, rfl⟩

theorem next_intrOff_ok (hs : s.next plock (.intrOff c) = some (.ok s')) : s' = s.setCpu c (s.cpu c).intrOff := by
  cases hs
  rfl

theorem next_sched_ok (hs : s.next plock (.sched c) = some (.ok s')) :
    ∃ t, s.proc c = some t ∧ (s.cpu c).noff = 1 ∧ (s.cpu c).ie = false ∧ s' = s.switchOut c t := by
  simp only [next] at hs
  split at hs
  · cases hs
  · rename_i t hp
    split_ifs at hs with h₁ h₂ h₃
    · cases hs
    · cases hs
    · cases hs
    · cases hs
      exact ⟨t, hp, by simpa using h₂, by simpa using h₃, rfl⟩

theorem next_swtch_ok {t : T} (hs : s.next plock (.swtch c t) = some (.ok s')) :
    s.proc c = none ∧ s.depth (.sched c) = 1 ∧ (s.place t = .fresh ∨ s.place t = .switched) ∧
      s' = s.switchIn c t := by
  simp only [next] at hs
  split_ifs at hs with hg
  cases hs
  exact ⟨hg.1, hg.2.1, hg.2.2.2, rfl⟩

/-- Every step keeps the invariant. -/
theorem Inv.next (h : s.Inv) {ev : CpuEv T L C} (hs : s.next plock ev = some (.ok s')) : s'.Inv := by
  cases ev with
  | acquire c lk =>
    rw [next_acquire_ok plock hs]
    exact (h.pushed c).setOwner lk (some c)
  | release c lk =>
    obtain ⟨hd, hp⟩ := next_release_ok plock hs
    have ho := h.setOwner lk none
    rw [ho.popped_ok hd] at hp
    cases hp
    exact ho.afterPop hd
  | pushOff c =>
    rw [next_pushOff_ok plock hs]
    exact h.pushed c
  | popOff c =>
    obtain ⟨hd, hp⟩ := next_popOff_ok plock hs
    rw [h.popped_ok hd] at hp
    cases hp
    exact h.afterPop hd
  | intrOn c =>
    obtain ⟨hd, rfl⟩ := next_intrOn_ok plock hs
    exact h.setCpu rfl rfl fun _ => hd
  | intrOff c =>
    rw [next_intrOff_ok plock hs]
    exact h.setCpu rfl rfl fun hie => absurd hie Bool.false_ne_true
  | sched c =>
    obtain ⟨t, hp, hn, hie, rfl⟩ := next_sched_ok plock hs
    exact h.switchOut hp hn hie
  | swtch c t =>
    obtain ⟨hp, hd, hw, rfl⟩ := next_swtch_ok plock hs
    exact h.switchIn hp hd hw

theorem Reachable.inv (hr : s.Reachable plock) : s.Inv :=
  Framework.Reachable.inv (fun _ h₀ => h₀ ▸ Inv.init) (fun _ _ h ⟨_, hs⟩ => h.next plock hs) hr

/-- The only panics a step can reach are `acquire`'s, `release`'s and
`sched`'s checks: `pop_off` never panics. -/
theorem Inv.next_error (h : s.Inv) {ev : CpuEv T L C} {e : String} (hs : s.next plock ev = some (.error e)) :
    e = "acquire" ∨ e = "release" ∨ e = "sched p->lock" ∨ e = "sched locks" ∨ e = "sched interruptible" := by
  cases ev with
  | acquire c lk =>
    simp only [Cpus.next] at hs
    split_ifs at hs <;> cases hs
    exact .inl rfl
  | release c lk =>
    simp only [Cpus.next] at hs
    split_ifs at hs with h0
    · cases hs
      exact .inr (.inl rfl)
    · rw [(h.setOwner lk none).popped_ok h0] at hs
      cases hs
  | pushOff c => cases hs
  | popOff c =>
    simp only [Cpus.next] at hs
    split_ifs at hs with h0
    rw [h.popped_ok h0] at hs
    cases hs
  | intrOn c =>
    simp only [Cpus.next] at hs
    split_ifs at hs
    cases hs
  | intrOff c => cases hs
  | sched c =>
    simp only [Cpus.next] at hs
    split at hs
    · cases hs
    · split_ifs at hs <;> cases hs
      · exact .inr (.inr (.inl rfl))
      · exact .inr (.inr (.inr (.inl rfl)))
      · exact .inr (.inr (.inr (.inr rfl)))
  | swtch c t =>
    simp only [Cpus.next] at hs
    split_ifs at hs
    cases hs

/-- Interrupts are off while the count is positive. -/
theorem Inv.ie_of_pos (h : s.Inv) (c : C) (hn : 0 < (s.cpu c).noff) : (s.cpu c).ie = false := by
  cases hi : (s.cpu c).ie
  · rfl
  · have := h.noff c
    rw [h.ie c hi] at this
    omega

/-- A process's outermost `pop_off` leaves interrupts as they were before
its outermost `push_off`. -/
theorem Inv.afterPop_outermost (h : s.Inv) {t : T} {x : Bool} (hp : s.proc c = some t)
    (hd : s.depth (.proc t) = 1) (hx : s.outer (.proc t) = some x) : ((s.afterPop c).cpu c).ie = x := by
  have hn : (s.cpu c).noff = 1 := by rw [h.noff c, cur_of_proc hp, hd]; rfl
  simp [hn, h.intena c t x hp hx (by omega)]

/-- `pop_off` by a thread with something of its own pushed. -/
theorem Inv.next_popOff (h : s.Inv) (hd : s.depth (s.cur c) ≠ 0) :
    s.next plock (.popOff c) = some (.ok (s.afterPop c)) := by
  simp [Cpus.next, hd, h.popped_ok hd]

/-- `release` of a lock the CPU holds, by a thread with something of its own
pushed. -/
theorem Inv.next_release (h : s.Inv) {lk : L} (hd : s.depth (s.cur c) ≠ 0) (ho : s.owner lk = some c) :
    s.next plock (.release c lk) = some (.ok ((s.setOwner lk none).afterPop c)) := by
  simp [Cpus.next, hd, ho, (h.setOwner lk none).popped_ok hd]

end Next

end Cpus

open Cpus in
/-- In every reachable state the count is the running thread's depth,
interrupts are off while it is positive, no step panics in `pop_off`, and a
process's outermost `pop_off`, alone or in `release`, leaves interrupts as
they were before its outermost `push_off`. -/
theorem interrupt_nesting {T L C : Type} [DecidableEq T] [DecidableEq L] [DecidableEq C] (plock : T → L)
    {s : Cpus T L C} (hr : s.Reachable plock) :
    (∀ c, (s.cpu c).noff = s.depth (s.cur c)) ∧
    (∀ c, 0 < (s.cpu c).noff → (s.cpu c).ie = false) ∧
    (∀ ev, s.next plock ev ≠ some (.error "pop_off - interruptible") ∧
      s.next plock ev ≠ some (.error "pop_off")) ∧
    (∀ c t x, s.proc c = some t → s.depth (.proc t) = 1 → s.outer (.proc t) = some x →
      (∃ s', s.next plock (.popOff c) = some (.ok s') ∧ (s'.cpu c).ie = x) ∧
      ∀ lk, s.owner lk = some c → ∃ s', s.next plock (.release c lk) = some (.ok s') ∧ (s'.cpu c).ie = x) := by
  have h := Reachable.inv plock hr
  refine ⟨h.noff, h.ie_of_pos, fun ev => ⟨fun hs => ?_, fun hs => ?_⟩, fun c t x hp hd hx => ⟨?_, fun lk ho => ?_⟩⟩
  · exact absurd (h.next_error plock hs) (by decide)
  · exact absurd (h.next_error plock hs) (by decide)
  · have hd' : s.depth (s.cur c) ≠ 0 := by rw [cur_of_proc hp, hd]; decide
    exact ⟨_, h.next_popOff plock hd', h.afterPop_outermost hp hd hx⟩
  · have hd' : s.depth (s.cur c) ≠ 0 := by rw [cur_of_proc hp, hd]; decide
    exact ⟨_, h.next_release plock hd' ho, (h.setOwner lk none).afterPop_outermost hp hd hx⟩

/-- A process that turned interrupts on in `forkret` and pushed once finds
them on after its `pop_off`. -/
theorem interrupt_nesting_forkret :
    ∃ s : Cpus Unit Unit Unit, s.Reachable (fun _ => ()) ∧ s.proc () = some () ∧ s.depth (.proc ()) = 1 ∧
      s.outer (.proc ()) = some true ∧
      ∃ s', s.next (fun _ => ()) (.popOff ()) = some (.ok s') ∧ (s'.cpu ()).ie = true := by
  have h₀ : (Cpus.init : Cpus Unit Unit Unit).Reachable (fun _ => ()) := Framework.Reachable.init_mem rfl
  have h₁ := h₀.step_mem ⟨.intrOn (), rfl⟩
  have h₂ := h₁.step_mem ⟨.acquire () (), rfl⟩
  have h₃ := h₂.step_mem ⟨.swtch () (), rfl⟩
  have h₄ := h₃.step_mem ⟨.release () (), rfl⟩
  have h₅ := h₄.step_mem ⟨.pushOff (), rfl⟩
  exact ⟨_, h₅, rfl, rfl, rfl, ((interrupt_nesting (fun _ => ()) h₅).2.2.2 () () true rfl rfl rfl).1⟩

/-- The scheduler's thread is not a process's: it takes a process's lock
with interrupts on, runs the process, which yields from a trap with
interrupts off, and its `release` of the lock leaves interrupts off. -/
theorem interrupt_nesting_scheduler :
    ∃ s : Cpus Unit Unit Unit, s.Reachable (fun _ => ()) ∧ s.proc () = none ∧ s.depth (.sched ()) = 1 ∧
      s.outer (.sched ()) = some true ∧
      ∃ s', s.next (fun _ => ()) (.release () ()) = some (.ok s') ∧ (s'.cpu ()).ie = false := by
  have h₀ : (Cpus.init : Cpus Unit Unit Unit).Reachable (fun _ => ()) := Framework.Reachable.init_mem rfl
  -- the scheduler: `intr_on()`, `acquire(&p->lock)`, `swtch`
  have h₁ := h₀.step_mem ⟨.intrOn (), rfl⟩
  have h₂ := h₁.step_mem ⟨.acquire () (), rfl⟩
  have h₃ := h₂.step_mem ⟨.swtch () (), rfl⟩
  -- the process: `forkret`'s `release`, a timer trap, `yield`
  have h₄ := h₃.step_mem ⟨.release () (), rfl⟩
  have h₅ := h₄.step_mem ⟨.intrOff (), rfl⟩
  have h₆ := h₅.step_mem ⟨.acquire () (), rfl⟩
  have h₇ := h₆.step_mem ⟨.sched (), rfl⟩
  exact ⟨_, h₇, rfl, rfl, rfl, _, rfl, rfl⟩

end Xv6
