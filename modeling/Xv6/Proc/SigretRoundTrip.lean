import Xv6.Proc.Syscall
import Xv6.Proc.SignalFrame

/-!
# Returning from a user signal handler

`usersignalhandler` saves the trap frame `sizeof(struct trapframe)` bytes
below the user stack pointer and the mask in `signals_mask_backup`, and the
handler returns through the `callsigret` stub (`li a7, 24; ecall`), whose
`SYS_sigret` makes `sigret()` read both back. Between the two, user code runs
(`UserRuns`), and `signalhandler` returns at once on each of its returns to
user space, since `signal_handling` is set. `InHandler p tf mask` carries the
saved state across: entering the handler establishes it
(`inHandler_usersignalhandler`), every user step keeps it
(`InHandler.userRuns`), and `sigret` restores from it
(`InHandler.sigret_trapframe`).

`sigret_restores_context` is the round trip: when the `SYS_sigret` call
returns, the mask and every user register but `a0` are back, and they reach
user space unless `usertrapret`'s `signalhandler()` enters another user
handler. `a0` is not: `syscall()` overwrites the `a0` that `sigret()`
restored with `sys_sigret`'s return value `0`
(`sigret_round_trip_counterexample`).
-/

namespace Xv6

open Framework

/-- What a process can do between entering a user handler and the `ecall` of
`callsigret`, while `signal_handling` is set: run instructions (any
registers), store to user memory outside the saved trap frame, call
`sigprocmask` and `sigaction`, and be sent signals. -/
inductive UserStep : Proc → Proc → Prop
  | regs (p : Proc) (tf : Trapframe) : UserStep p { p with trapframe := tf }
  | store (p : Proc) (a : Nat) (bs : List UInt8)
      (h : a + bs.length ≤ p.userTfBackup.toNat ∨ p.userTfBackup.toNat + Trapframe.size ≤ a) :
      UserStep p { p with pagetable := p.pagetable.write a bs }
  | sigprocmask (p : Proc) (mask : UInt32) : UserStep p (sigprocmask p mask).1
  | sigaction (p : Proc) (signum : Int) (act oldact : UInt64) : UserStep p (sigaction p signum act oldact).1
  | receive (p : Proc) (ks : List Nat) : UserStep p (receive p ks)

/-- The runs of user code inside a handler. -/
def UserRuns : Proc → Proc → Prop := Relation.ReflTransGen UserStep

/-- `p` runs the user handler it entered with trap frame `tf` and mask `mask`:
the frame is saved at `user_tf_backup`, on accessible pages, and the mask in
`signals_mask_backup`. -/
structure InHandler (p : Proc) (tf : Trapframe) (mask : UInt32) : Prop where
  ok : ∀ k < Trapframe.size, p.pagetable.ok ((p.userTfBackup.toNat + k) / PGSIZE * PGSIZE)
  saved : p.pagetable.read p.userTfBackup.toNat Trapframe.size = tf.toBytes
  maskBackup : p.signalsMaskBackup = mask
  handling : p.signalHandling = true

/-- `sigaction` changes the handlers alone. -/
theorem sigaction_fst_eq (p : Proc) (signum : Int) (act oldact : UInt64) :
    ∃ hs, (sigaction p signum act oldact).1 = { p with signalHandlers := hs } := by
  unfold sigaction
  split_ifs
  · exact ⟨p.signalHandlers, rfl⟩
  · exact ⟨p.signalHandlers, rfl⟩
  · exact ⟨p.signalHandlers, rfl⟩
  · exact ⟨_, rfl⟩

/-- The stub copied below the saved frame does not reach into it, unless the
address arithmetic wraps all the way round. -/
theorem stub_below_frame (sp : UInt64) {n k : Nat} (hn : n + Trapframe.size ≤ 2 ^ 64) (hk : k ≤ n) :
    (sp - n.toUInt64).toNat + k ≤ sp.toNat ∨ sp.toNat + Trapframe.size ≤ (sp - n.toUInt64).toNat := by
  simp only [Trapframe.size] at hn ⊢
  have hsp := sp.toNat_lt
  have hn' : n < 2 ^ 64 := by omega
  rw [UInt64.toNat_sub, UInt64.toNat_ofNat', Nat.mod_eq_of_lt hn']
  by_cases h : n ≤ sp.toNat
  · left
    rw [show 2 ^ 64 - n + sp.toNat = (sp.toNat - n) + 2 ^ 64 by omega, Nat.add_mod_right,
      Nat.mod_eq_of_lt (by omega)]
    omega
  · right
    rw [Nat.mod_eq_of_lt (by omega)]
    omega

namespace InHandler

variable {p q : Proc} {tf : Trapframe} {mask : UInt32}

theorem congr (h : InHandler p tf mask) (hb : q.userTfBackup = p.userTfBackup)
    (hok : q.pagetable.ok = p.pagetable.ok)
    (hr : q.pagetable.read p.userTfBackup.toNat Trapframe.size = p.pagetable.read p.userTfBackup.toNat Trapframe.size)
    (hm : q.signalsMaskBackup = p.signalsMaskBackup) (hh : q.signalHandling = p.signalHandling) :
    InHandler q tf mask where
  ok k hk := by rw [hok, hb]; exact h.ok k hk
  saved := by rw [hb, hr]; exact h.saved
  maskBackup := hm.trans h.maskBackup
  handling := hh.trans h.handling

theorem of_eq (h : InHandler p tf mask) (hpt : q.pagetable = p.pagetable) (hb : q.userTfBackup = p.userTfBackup)
    (hm : q.signalsMaskBackup = p.signalsMaskBackup) (hh : q.signalHandling = p.signalHandling) :
    InHandler q tf mask :=
  h.congr hb (by rw [hpt]) (by rw [hpt]) hm hh

theorem of_sameContext (h : InHandler p tf mask) (hc : SameContext p q) : InHandler q tf mask :=
  h.of_eq hc.pagetable hc.userTfBackup hc.signalsMaskBackup hc.signalHandling

theorem userStep (h : InHandler p tf mask) (hs : UserStep p q) : InHandler q tf mask := by
  cases hs with
  | regs tf' => exact h.of_eq rfl rfl rfl rfl
  | store a bs hd => exact h.congr rfl rfl (Space.read_write_out _ hd.symm) rfl rfl
  | sigprocmask m => exact h.of_eq rfl rfl rfl rfl
  | sigaction signum act oldact =>
    obtain ⟨hs, he⟩ := sigaction_fst_eq p signum act oldact
    rw [he]
    exact h.of_eq rfl rfl rfl rfl
  | receive ks => exact h.of_sameContext (sameContext_receive p ks)

/-- User code inside the handler leaves the saved state alone. -/
theorem userRuns (h : InHandler p tf mask) (hr : UserRuns p q) : InHandler q tf mask := by
  induction hr with
  | refl => exact h
  | tail _ hs ih => exact ih.userStep hs

/-- The trap frame `sigret` reads back is the saved one. -/
theorem sigret_trapframe (h : InHandler p tf mask) : (sigret p).trapframe = tf := by
  have hc : p.pagetable.copyin PGSIZE p.userTfBackup.toNat Trapframe.size = (0, tf.toBytes) := by
    rw [Space.copyin_of_ok _ h.ok, h.saved]
  have hd : p.trapframe.toBytes.drop tf.toBytes.length = [] := by simp
  simp only [sigret, hc, hd, List.append_nil, Trapframe.ofBytes_toBytes]

end InHandler

/-- Entering a user handler, if the trap frame's `copyout` succeeds, saves the
frame and the mask where `sigret` looks for them. -/
theorem inHandler_usersignalhandler {callsigret : List UInt8} (junk : Junk) {p : Proc} (i : Nat)
    (hlen : callsigret.length + Trapframe.size ≤ 2 ^ 64)
    (hsave : (p.pagetable.copyout PGSIZE (p.trapframe.sp - Trapframe.size.toUInt64).toNat p.trapframe.toBytes).1 = 0) :
    InHandler (usersignalhandler callsigret junk p i) p.trapframe p.signalsMask := by
  obtain ⟨dst, m, he⟩ := usersignalhandler_eq callsigret junk p i
  have hok := (Space.copyout_fst_eq_zero _ _ _).1 hsave
  rw [he]
  dsimp only
  rw [Space.copyout_of_ok _ hok, Space.copyout_eq]
  refine ⟨fun k hk => by simpa using hok k (by simpa using hk), ?_, rfl, rfl⟩
  rw [Space.read_write_out]
  · simpa using Space.read_write_self p.pagetable _ p.trapframe.toBytes
  · exact (stub_below_frame _ hlen (List.length_take_le' _ _)).symm

/-- What a `SYS_sigret` from inside a handler returns with: the saved trap
frame but `a0 = 0`, the saved mask, and `signal_handling` clear. -/
theorem InHandler.sigret_returns {others : Nat → Proc → Option (Proc × UInt64)} {sepc : UInt64} {p q : Proc}
    {tf : Trapframe} {mask : UInt32} (h : InHandler p tf mask)
    (ht : usertrapSyscall others sepc { p with trapframe.a7 := SYS_sigret.toUInt64 } = some q) :
    q.trapframe = { tf with a0 := 0 } ∧ q.signalsMask = mask ∧ q.signalHandling = false := by
  rw [usertrapSyscall_sigret others sepc (p := { p with trapframe.a7 := SYS_sigret.toUInt64 }) toCInt_SYS_sigret] at ht
  split at ht
  · cases ht
  · cases ht
    have h' : InHandler { { p with trapframe.a7 := SYS_sigret.toUInt64 } with trapframe.epc := sepc + 4 } tf mask :=
      h.of_eq rfl rfl rfl rfl
    exact ⟨congrArg (fun t : Trapframe => { t with a0 := 0 }) h'.sigret_trapframe, h'.maskBackup, rfl⟩

/-- **The signal-return round trip.** `signalhandler()` enters a user handler
of a process not already in one, the trap frame is saved, and user code keeps
off the saved frame and ends in `callsigret`'s `ecall`. When that `SYS_sigret`
returns, `signal_handling` is clear and the mask and every register but `a0`
are as before delivery; they reach user space if the `signalhandler()` of
`usertrapret` enters no further user handler. -/
theorem sigret_restores_context {callsigret : List UInt8} {junk : Junk} {p p₁ q p₂ : Proc}
    {env env₁ : List (List Nat)} {others : Nat → Proc → Option (Proc × UInt64)} {sepc : UInt64}
    (hlen : callsigret.length + Trapframe.size ≤ 2 ^ 64) (hp : p.signalHandling = false)
    (hsave : (p.pagetable.copyout PGSIZE (p.trapframe.sp - Trapframe.size.toUInt64).toNat p.trapframe.toBytes).1 = 0)
    (hdeliver : signalhandler callsigret junk p env = some (p₁, env₁)) (hentered : p₁.signalHandling = true)
    (hrun : UserRuns p₁ q)
    (hsigret : usertrapSyscall others sepc { q with trapframe.a7 := SYS_sigret.toUInt64 } = some p₂) :
    p₂.signalHandling = false ∧ p₂.signalsMask = p.signalsMask ∧
      { p₂.trapframe with a0 := p.trapframe.a0 } = p.trapframe ∧
      ∀ (junk' : Junk) (env₂ env₃ : List (List Nat)) (p₃ : Proc),
        signalhandler callsigret junk' p₂ env₂ = some (p₃, env₃) → p₃.signalHandling = false →
          p₃.signalsMask = p.signalsMask ∧ { p₃.trapframe with a0 := p.trapframe.a0 } = p.trapframe := by
  obtain ⟨p₀, i, h₀, h₁⟩ := signalhandler_entered hp hdeliver hentered
  have hsave₀ :
      (p₀.pagetable.copyout PGSIZE (p₀.trapframe.sp - Trapframe.size.toUInt64).toNat p₀.trapframe.toBytes).1 = 0 := by
    rw [h₀.pagetable, h₀.trapframe]
    exact hsave
  have hin : InHandler q p.trapframe p.signalsMask := by
    have h₂ := inHandler_usersignalhandler junk i hlen hsave₀
    rw [h₀.trapframe, h₀.signalsMask] at h₂
    exact ((h₂.of_sameContext (sameContext_turnoffSigbit _ i)).of_sameContext h₁).userRuns hrun
  obtain ⟨htf, hm, hh⟩ := hin.sigret_returns hsigret
  have hregs : { p₂.trapframe with a0 := p.trapframe.a0 } = p.trapframe := by rw [htf]
  refine ⟨hh, hm, hregs, fun junk' env₂ env₃ p₃ hs h₃ => ?_⟩
  have hc := signalhandler_sameContext hs h₃
  exact ⟨hc.signalsMask.trans hm, by rw [hc.trapframe, hregs]⟩

/-- The round trip for a process with one signal pending and a user handler
for it, all of its memory accessible. -/
theorem sigret_restores_context_one_signal :
    let callsigret : List UInt8 := [0x93, 0x08, 0x80, 0x01, 0x73, 0x00, 0x00, 0x00, 0x67, 0x80, 0x00, 0x00]
    let junk : Junk := ⟨0, 0⟩
    let p : Proc :=
      { Proc.zero with
        state := .running, pagetable := ⟨fun _ => true, fun _ => 0⟩,
        trapframe := { Trapframe.zero with sp := 0x10000, a0 := 5 }, pendingSignals := 1,
        signalHandlers := fun i => if i < 2 then 0x1000 else SIG_DFL }
    let p₁ := turnoffSigbit (usersignalhandler callsigret junk p 0) 0
    let p₂ : Proc :=
      { sigret { { p₁ with trapframe.a7 := SYS_sigret.toUInt64 } with trapframe.epc := 0 + 4 } with trapframe.a0 := 0 }
    (callsigret.length + Trapframe.size ≤ 2 ^ 64 ∧ p.signalHandling = false ∧
      (p.pagetable.copyout PGSIZE (p.trapframe.sp - Trapframe.size.toUInt64).toNat p.trapframe.toBytes).1 = 0 ∧
      signalhandler callsigret junk p [] = some (p₁, []) ∧ p₁.signalHandling = true ∧ UserRuns p₁ p₁ ∧
      usertrapSyscall (fun _ _ => none) 0 { p₁ with trapframe.a7 := SYS_sigret.toUInt64 } = some p₂) ∧
    (p₂.signalHandling = false ∧ p₂.signalsMask = p.signalsMask ∧
      { p₂.trapframe with a0 := p.trapframe.a0 } = p.trapframe ∧
      ∀ (junk' : Junk) (env₂ env₃ : List (List Nat)) (p₃ : Proc),
        signalhandler callsigret junk' p₂ env₂ = some (p₃, env₃) → p₃.signalHandling = false →
          p₃.signalsMask = p.signalsMask ∧ { p₃.trapframe with a0 := p.trapframe.a0 } = p.trapframe) := by
  intro callsigret junk p p₁ p₂
  have hlen : callsigret.length + Trapframe.size ≤ 2 ^ 64 := by decide
  have hsave : (p.pagetable.copyout PGSIZE (p.trapframe.sp - Trapframe.size.toUInt64).toNat
      p.trapframe.toBytes).1 = 0 := (Space.copyout_fst_eq_zero _ _ _).2 fun _ _ => rfl
  have hdeliver : signalhandler callsigret junk p [] = some (p₁, []) :=
    signalhandler_delivers (by decide) rfl rfl rfl (by decide) (by decide) (by decide)
  have hsigret : usertrapSyscall (fun _ _ => none) 0 { p₁ with trapframe.a7 := SYS_sigret.toUInt64 } = some p₂ := by
    rw [usertrapSyscall_sigret _ _ (p := { p₁ with trapframe.a7 := SYS_sigret.toUInt64 }) toCInt_SYS_sigret]
    rfl
  exact ⟨⟨hlen, rfl, hsave, hdeliver, rfl, .refl, hsigret⟩,
    sigret_restores_context hlen rfl hsave hdeliver rfl .refl hsigret⟩

/-- Two runs that meet every hypothesis of the round trip and do not come
back as they left: with one signal pending, user space gets `a0 = 0` back
where the interrupted code had `5`; with two, `usertrapret` enters the second
handler on the way back, so `signal_handling` is set again. -/
theorem sigret_round_trip_counterexample :
    let callsigret : List UInt8 := [0x93, 0x08, 0x80, 0x01, 0x73, 0x00, 0x00, 0x00, 0x67, 0x80, 0x00, 0x00]
    let junk : Junk := ⟨0, 0⟩
    let p : UInt32 → Proc := fun pending =>
      { Proc.zero with
        state := .running, pagetable := ⟨fun _ => true, fun _ => 0⟩,
        trapframe := { Trapframe.zero with sp := 0x10000, a0 := 5 }, pendingSignals := pending,
        signalHandlers := fun i => if i < 2 then 0x1000 else SIG_DFL }
    let p₁ : UInt32 → Proc := fun pending => turnoffSigbit (usersignalhandler callsigret junk (p pending) 0) 0
    let p₂ : UInt32 → Proc := fun pending =>
      { sigret { { p₁ pending with trapframe.a7 := SYS_sigret.toUInt64 } with trapframe.epc := 0 + 4 } with
        trapframe.a0 := 0 }
    (∀ pending ∈ ([1, 3] : List UInt32), (p pending).signalHandling = false ∧
      ((p pending).pagetable.copyout PGSIZE ((p pending).trapframe.sp - Trapframe.size.toUInt64).toNat
        (p pending).trapframe.toBytes).1 = 0 ∧
      signalhandler callsigret junk (p pending) [] = some (p₁ pending, []) ∧ (p₁ pending).signalHandling = true ∧
      usertrapSyscall (fun _ _ => none) 0 { p₁ pending with trapframe.a7 := SYS_sigret.toUInt64 } =
        some (p₂ pending)) ∧
    (signalhandler callsigret junk (p₂ 1) [] = some (p₂ 1, []) ∧ (p₂ 1).trapframe.a0 ≠ (p 1).trapframe.a0) ∧
    (signalhandler callsigret junk (p₂ 3) [] =
        some (turnoffSigbit (usersignalhandler callsigret junk (p₂ 3) 1) 1, []) ∧
      (turnoffSigbit (usersignalhandler callsigret junk (p₂ 3) 1) 1).signalHandling = true) := by
  intro callsigret junk p p₁ p₂
  refine ⟨?_, ⟨signalhandler_idle rfl rfl (by decide), by decide⟩,
    ⟨signalhandler_delivers (by decide) rfl rfl rfl (by decide) (by decide) (by decide), rfl⟩⟩
  intro pending hpending
  have hsigret : usertrapSyscall (fun _ _ => none) 0 { p₁ pending with trapframe.a7 := SYS_sigret.toUInt64 } =
      some (p₂ pending) := by
    rw [usertrapSyscall_sigret _ _ (p := { p₁ pending with trapframe.a7 := SYS_sigret.toUInt64 })
      toCInt_SYS_sigret]
    rfl
  refine ⟨rfl, (Space.copyout_fst_eq_zero _ _ _).2 fun _ _ => rfl, ?_, rfl, hsigret⟩
  simp only [List.mem_cons, List.not_mem_nil, or_false] at hpending
  rcases hpending with rfl | rfl
  · exact signalhandler_delivers (by decide) rfl rfl rfl (by decide) (by decide) (by decide)
  · exact signalhandler_delivers (by decide) rfl rfl rfl (by decide) (by decide) (by decide)

end Xv6
