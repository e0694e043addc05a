import Xv6.Proc.Signal

/-!
# What each signal routine changes

`SameContext p q`: `q` is `p` with at most its flags (`killed`, `stopped`,
`state`) and its pending signals changed, the way other processes' `kill`s
and the kernel handlers `sigcont_func`, `sigstop_func` and `sigkill_func`
change them; registers, memory, masks, handlers and the user-handler state
are `p`'s.

Everything `signalhandler` does keeps the context except entering a user
handler (`usersignalhandler_eq` says what that does, `handleSignal_cases`
that nothing else does it). While a user handler runs, `signal_handling` is
set and `signalhandler` keeps the context (`signalLoop_sameContext_of_handling`);
a call that returns with `signal_handling` still clear kept it throughout
(`signalhandler_sameContext`).
-/

namespace Xv6

open Framework

/-- `q` differs from `p` at most in `killed`, `stopped`, `state` and the
pending signals. -/
structure SameContext (p q : Proc) : Prop where
  trapframe : q.trapframe = p.trapframe
  pagetable : q.pagetable = p.pagetable
  signalsMask : q.signalsMask = p.signalsMask
  signalsMaskBackup : q.signalsMaskBackup = p.signalsMaskBackup
  signalHandlers : q.signalHandlers = p.signalHandlers
  userTfBackup : q.userTfBackup = p.userTfBackup
  signalHandling : q.signalHandling = p.signalHandling

namespace SameContext

variable {p q r : Proc}

theorem refl (p : Proc) : SameContext p p := ⟨rfl, rfl, rfl, rfl, rfl, rfl, rfl⟩

theorem trans (h₁ : SameContext p q) (h₂ : SameContext q r) : SameContext p r :=
  ⟨h₂.1.trans h₁.1, h₂.2.trans h₁.2, h₂.3.trans h₁.3, h₂.4.trans h₁.4, h₂.5.trans h₁.5, h₂.6.trans h₁.6,
    h₂.7.trans h₁.7⟩

/-- Any change of the flags and the pending signals alone. -/
theorem flags (p : Proc) (killed stopped : Bool) (state : Procstate) (pending : UInt32) :
    SameContext p { p with killed, stopped, state, pendingSignals := pending } :=
  ⟨rfl, rfl, rfl, rfl, rfl, rfl, rfl⟩

end SameContext

theorem sameContext_turnoffSigbit (p : Proc) (i : Nat) : SameContext p (turnoffSigbit p i) :=
  .flags p p.killed p.stopped p.state _

theorem sameContext_sigcontFunc (p : Proc) : SameContext p (sigcontFunc p) :=
  .flags p p.killed false p.state p.pendingSignals

theorem sameContext_sigstopFunc (p : Proc) : SameContext p (sigstopFunc p) :=
  .flags p p.killed true p.state p.pendingSignals

theorem sameContext_sigkillFunc (p : Proc) : SameContext p (sigkillFunc p) :=
  .flags p true p.stopped _ p.pendingSignals

theorem sameContext_of_killProc {p q : Proc} {k : Nat} (h : killProc p k = some q) : SameContext p q := by
  unfold killProc at h
  split at h
  · cases h
  · cases h; exact .flags p p.killed p.stopped p.state _

theorem sameContext_receive (p : Proc) (ks : List Nat) : SameContext p (receive p ks) := by
  induction ks generalizing p with
  | nil => exact .refl _
  | cons k ks ih =>
    refine SameContext.trans ?_ (ih _)
    show SameContext p ((killProc p k).getD p)
    cases hk : killProc p k with
    | none => exact .refl _
    | some q => exact sameContext_of_killProc hk

theorem sameContext_searchContSignals (p : Proc) : SameContext p (searchContSignals p).1 := by
  unfold searchContSignals
  split_ifs
  · exact (sameContext_sigcontFunc p).trans (sameContext_turnoffSigbit _ _)
  · exact (sameContext_sigkillFunc p).trans (sameContext_turnoffSigbit _ _)
  · split
    · exact (sameContext_sigcontFunc p).trans (sameContext_turnoffSigbit _ _)
    · exact .refl _

theorem sameContext_of_searchContSignals {p q : Proc} {b : Bool} (h : searchContSignals p = (q, b)) :
    SameContext p q := by
  simpa [h] using sameContext_searchContSignals p

/-- The stopped loop only waits for, and takes, signals. -/
theorem sameContext_of_waitStopped {p q : Proc} {env env' : List (List Nat)}
    (hw : waitStopped p env = some (q, env')) : SameContext p q := by
  induction env generalizing p with
  | nil =>
    unfold waitStopped at hw
    split at hw
    · split at hw
      · cases hw; rename_i hs; exact sameContext_of_searchContSignals hs
      · cases hw
    · cases hw; exact .refl _
  | cons ks env ih =>
    unfold waitStopped at hw
    split at hw
    · split at hw
      · cases hw; rename_i hs; exact sameContext_of_searchContSignals hs
      · rename_i hs
        exact (sameContext_of_searchContSignals hs).trans ((sameContext_receive _ ks).trans (ih hw))
    · cases hw; exact .refl _

/-- What `usersignalhandler` does, with `dst` and `sigmask` the values its
`copyin`s leave in the locals: the handler's mask installed and the old one
backed up, `signal_handling` set, the trap frame saved `sizeof(struct
trapframe)` bytes below the user stack pointer, `callsigret` copied below
that, and the registers set to enter the handler. -/
theorem usersignalhandler_eq (callsigret : List UInt8) (junk : Junk) (p : Proc) (i : Nat) :
    ∃ dst sigmask : _, usersignalhandler callsigret junk p i =
      let spN := p.trapframe.sp - Trapframe.size.toUInt64
      let stub := spN - callsigret.length.toUInt64
      { p with
        signalsMask := sigmask &&& ~~~(bit SIGKILL ||| bit SIGSTOP)
        signalsMaskBackup := p.signalsMask
        signalHandling := true
        userTfBackup := spN
        pagetable :=
          ((p.pagetable.copyout PGSIZE spN.toNat p.trapframe.toBytes).2.copyout PGSIZE stub.toNat callsigret).2
        trapframe := { p.trapframe with epc := dst, sp := stub, a0 := i.toUInt64, ra := stub } } :=
  ⟨_, _, rfl⟩

/-- `handleSignal` either runs a kernel handler or enters the user handler. -/
theorem handleSignal_cases (callsigret : List UInt8) (junk : Junk) (p : Proc) (i : Nat) :
    SameContext p (handleSignal callsigret junk p i) ∨
      handleSignal callsigret junk p i = usersignalhandler callsigret junk p i := by
  dsimp only [handleSignal]
  split_ifs
  all_goals first
    | exact .inl (sameContext_sigstopFunc p) | exact .inl (sameContext_sigcontFunc p)
    | exact .inl (sameContext_sigkillFunc p) | exact .inr rfl

/-- While a user handler runs, `signalhandler`'s loop only takes signals: it
returns at the first one pending and unmasked. -/
theorem signalLoop_sameContext_of_handling {callsigret : List UInt8} {junk : Junk} {is : List Nat}
    {p q : Proc} {env env' : List (List Nat)} (h : p.signalHandling = true)
    (hl : signalLoop callsigret junk is p env = some (q, env')) : SameContext p q := by
  induction is generalizing p env with
  | nil => cases hl; exact .refl _
  | cons i is ih =>
    simp only [signalLoop] at hl
    split at hl
    · cases hl; exact .refl _
    · split at hl
      · cases hl
      · rename_i p₁ env₁ hw
        have h₁ := sameContext_of_waitStopped hw
        have hh : p₁.signalHandling = true := h₁.signalHandling.trans h
        split_ifs at hl
        · cases hl; exact h₁
        · exact h₁.trans (ih hh hl)

/-- A `signalhandler` loop that ends with `signal_handling` clear, from a
process not in a user handler, entered none and changed only flags and
pending signals. -/
theorem signalLoop_sameContext {callsigret : List UInt8} {junk : Junk} {is : List Nat}
    {p q : Proc} {env env' : List (List Nat)} (h : p.signalHandling = false)
    (hl : signalLoop callsigret junk is p env = some (q, env')) (hq : q.signalHandling = false) :
    SameContext p q := by
  induction is generalizing p env with
  | nil => cases hl; exact .refl _
  | cons i is ih =>
    simp only [signalLoop] at hl
    split at hl
    · cases hl; exact .refl _
    · split at hl
      · cases hl
      · rename_i p₁ env₁ hw
        have h₁ := sameContext_of_waitStopped hw
        have hh : p₁.signalHandling = false := h₁.signalHandling.trans h
        split_ifs at hl
        · cases hl; exact h₁
        · exact h₁.trans (ih hh hl)
        · -- A signal is handled: a user handler would leave `signal_handling` set.
          rcases handleSignal_cases callsigret junk p₁ i with hk | hu
          · have hk' := hk.trans (sameContext_turnoffSigbit _ i)
            exact h₁.trans (hk'.trans (ih (hk'.signalHandling.trans hh) hl))
          · have hset : (turnoffSigbit (handleSignal callsigret junk p₁ i) i).signalHandling = true := by
              rw [hu]
              obtain ⟨_, _, he⟩ := usersignalhandler_eq callsigret junk p₁ i
              simp [turnoffSigbit, he]
            have := (signalLoop_sameContext_of_handling hset hl).signalHandling
            rw [hq, hset] at this
            cases this
        · exact h₁.trans (ih hh hl)

/-- A `signalhandler()` call that returns with `signal_handling` clear
entered no user handler: registers, memory and masks are as before. -/
theorem signalhandler_sameContext {callsigret : List UInt8} {junk : Junk} {p q : Proc}
    {env env' : List (List Nat)} (hs : signalhandler callsigret junk p env = some (q, env'))
    (hq : q.signalHandling = false) : SameContext p q := by
  unfold signalhandler at hs
  split at hs
  · cases hs; exact .refl _
  · rename_i h
    exact signalLoop_sameContext (Bool.eq_false_iff.2 h) hs hq

/-- A `signalhandler` loop from outside a user handler that ends inside one
entered it once, from a process `p₀` that differs from `p` only in flags and
pending signals; after that it only took signals. -/
theorem signalLoop_entered {callsigret : List UInt8} {junk : Junk} {is : List Nat}
    {p q : Proc} {env env' : List (List Nat)} (h : p.signalHandling = false)
    (hl : signalLoop callsigret junk is p env = some (q, env')) (hq : q.signalHandling = true) :
    ∃ p₀ i, SameContext p p₀ ∧ SameContext (turnoffSigbit (usersignalhandler callsigret junk p₀ i) i) q := by
  induction is generalizing p env with
  | nil => cases hl; rw [h] at hq; cases hq
  | cons i is ih =>
    simp only [signalLoop] at hl
    split at hl
    · cases hl; rw [h] at hq; cases hq
    · split at hl
      · cases hl
      · rename_i p₁ env₁ hw
        have h₁ := sameContext_of_waitStopped hw
        have hh : p₁.signalHandling = false := h₁.signalHandling.trans h
        split_ifs at hl with hpend hset hign
        · rw [hh] at hset; cases hset
        · obtain ⟨p₀, j, h₀, h₂⟩ := ih hh hl
          exact ⟨p₀, j, h₁.trans h₀, h₂⟩
        · rcases handleSignal_cases callsigret junk p₁ i with hk | hu
          · have hk' := hk.trans (sameContext_turnoffSigbit _ i)
            obtain ⟨p₀, j, h₀, h₂⟩ := ih (hk'.signalHandling.trans hh) hl
            exact ⟨p₀, j, h₁.trans (hk'.trans h₀), h₂⟩
          · rw [hu] at hl
            have hset : (turnoffSigbit (usersignalhandler callsigret junk p₁ i) i).signalHandling = true := by
              obtain ⟨_, _, he⟩ := usersignalhandler_eq callsigret junk p₁ i
              simp [turnoffSigbit, he]
            exact ⟨p₁, i, h₁, signalLoop_sameContext_of_handling hset hl⟩
        · obtain ⟨p₀, j, h₀, h₂⟩ := ih hh hl
          exact ⟨p₀, j, h₁.trans h₀, h₂⟩

/-- A `signalhandler()` call that enters a user handler does so once, from a
process that differs from the caller's only in flags and pending signals. -/
theorem signalhandler_entered {callsigret : List UInt8} {junk : Junk} {p q : Proc}
    {env env' : List (List Nat)} (h : p.signalHandling = false)
    (hs : signalhandler callsigret junk p env = some (q, env')) (hq : q.signalHandling = true) :
    ∃ p₀ i, SameContext p p₀ ∧ SameContext (turnoffSigbit (usersignalhandler callsigret junk p₀ i) i) q := by
  unfold signalhandler at hs
  rw [h] at hs
  exact signalLoop_entered h hs hq

section Rounds

variable {callsigret : List UInt8} {junk : Junk} {is : List Nat} {env : List (List Nat)} {p : Proc} {i : Nat}

theorem waitStopped_of_running (hs : p.stopped = false) : waitStopped p env = some (p, env) := by
  cases env <;> simp [waitStopped, hs]

/-- A round on a signal that is not both pending and unmasked changes nothing. -/
theorem signalLoop_cons_skip (hk : p.killed = false) (hs : p.stopped = false)
    (hi : isPendingAndNotMasked p i = false) :
    signalLoop callsigret junk (i :: is) p env = signalLoop callsigret junk is p env := by
  simp [signalLoop, hk, waitStopped_of_running hs, hi]

/-- A round on a pending, unmasked signal whose handler is a user pointer
enters that handler. -/
theorem signalLoop_cons_user (hk : p.killed = false) (hs : p.stopped = false)
    (hi : isPendingAndNotMasked p i = true) (hh : p.signalHandling = false)
    (hu : p.signalHandlers i ∉ [SIG_IGN, SIG_DFL, SIGSTOP.toUInt64, SIGCONT.toUInt64, SIGKILL.toUInt64]) :
    signalLoop callsigret junk (i :: is) p env =
      signalLoop callsigret junk is (turnoffSigbit (usersignalhandler callsigret junk p i) i) env := by
  simp only [List.mem_cons, List.not_mem_nil, or_false, not_or] at hu
  obtain ⟨h₁, h₂, h₃, h₄, h₅⟩ := hu
  simp [signalLoop, hk, waitStopped_of_running hs, hi, hh, h₁, handleSignal, h₂, h₃, h₄, h₅]

/-- A process neither killed nor stopped that has nothing to handle among
`is` (no signal pending and unmasked, or it is inside a user handler) passes
the loop unchanged. -/
theorem signalLoop_idle (hk : p.killed = false) (hs : p.stopped = false)
    (hi : ∀ i ∈ is, isPendingAndNotMasked p i = true → p.signalHandling = true) :
    signalLoop callsigret junk is p env = some (p, env) := by
  induction is with
  | nil => rfl
  | cons i is ih =>
    have ih' := ih fun j hj => hi j (List.mem_cons_of_mem i hj)
    cases hpend : isPendingAndNotMasked p i with
    | false => rw [signalLoop_cons_skip hk hs hpend, ih']
    | true =>
      have hset := hi i List.mem_cons_self hpend
      simp [signalLoop, hk, waitStopped_of_running hs, hpend, hset]

theorem signalLoop_append_skip {js : List Nat} (hk : p.killed = false) (hs : p.stopped = false)
    (hj : ∀ j ∈ js, isPendingAndNotMasked p j = false) :
    signalLoop callsigret junk (js ++ is) p env = signalLoop callsigret junk is p env := by
  induction js with
  | nil => rfl
  | cons j js ih =>
    rw [List.cons_append, signalLoop_cons_skip hk hs (hj j List.mem_cons_self)]
    exact ih fun k hk' => hj k (List.mem_cons_of_mem j hk')

theorem range_eq_append_cons {n i : Nat} (h : i < n) :
    List.range n = List.range i ++ i :: List.range' (i + 1) (n - 1 - i) := by
  have e := List.range'_append_1 (s := 0) (m := i) (n := n - 1 - i + 1)
  rw [Nat.zero_add, show i + (n - 1 - i + 1) = n by omega] at e
  rw [List.range_eq_range', List.range_eq_range', ← List.range'_succ, e]

/-- `signalhandler()`, for a process neither killed, stopped nor in a user
handler, enters the handler of the lowest-numbered pending, unmasked signal
if it is a user pointer, and returns there. -/
theorem signalhandler_delivers (hi32 : i < 32) (hh : p.signalHandling = false) (hk : p.killed = false)
    (hs : p.stopped = false) (hlow : ∀ j < i, isPendingAndNotMasked p j = false)
    (hi : isPendingAndNotMasked p i = true)
    (hu : p.signalHandlers i ∉ [SIG_IGN, SIG_DFL, SIGSTOP.toUInt64, SIGCONT.toUInt64, SIGKILL.toUInt64]) :
    signalhandler callsigret junk p env = some (turnoffSigbit (usersignalhandler callsigret junk p i) i, env) := by
  obtain ⟨_, _, he⟩ := usersignalhandler_eq callsigret junk p i
  have hlow' : ∀ j ∈ List.range i, isPendingAndNotMasked p j = false := fun j hj => hlow j (List.mem_range.1 hj)
  rw [signalhandler, if_neg (by simp [hh]), range_eq_append_cons hi32, signalLoop_append_skip hk hs hlow',
    signalLoop_cons_user hk hs hi hh hu, signalLoop_idle]
  · simp [turnoffSigbit, he, hk]
  · simp [turnoffSigbit, he, hs]
  · intro _ _ _
    simp [turnoffSigbit, he]

/-- `signalhandler()` for a process neither killed nor stopped with no signal
pending and unmasked changes nothing. -/
theorem signalhandler_idle (hk : p.killed = false) (hs : p.stopped = false)
    (hi : ∀ i < 32, isPendingAndNotMasked p i = false) : signalhandler callsigret junk p env = some (p, env) := by
  unfold signalhandler
  split
  · rfl
  · refine signalLoop_idle hk hs fun j hj hp => ?_
    rw [hi j (List.mem_range.1 hj)] at hp
    cases hp

end Rounds

end Xv6
