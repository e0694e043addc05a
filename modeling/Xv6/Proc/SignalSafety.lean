import Xv6.Proc.Table
import Xv6.Proc.SignalFrame

/-!
# `SIGKILL` and `SIGSTOP` can be neither blocked nor caught

`SigSafe p`: bits `SIGKILL` and `SIGSTOP` are clear in the mask and in its
backup, and the handlers of both signals are `SIG_DFL`. The mask is written
by `allocproc`, `fork`, `sigprocmask`, `usersignalhandler`, `sigret` (from
the backup, which only `usersignalhandler` writes, and which `allocproc`
leaves as the slot's last user left it) and `exec`; the handlers by
`allocproc`, `fork`, `sigaction` and `exec`. Every one of them keeps
`SigSafe` of every slot (`step_safe`), so it holds in every reachable system
(`sigkill_sigstop_unblockable`), and there `is_pending_and_not_masked` of
either signal is its pending bit.
-/

namespace Xv6

open Framework

/-- Bits `SIGKILL` and `SIGSTOP` of a mask are clear. -/
def ClearsKillStop (m : UInt32) : Prop := bitAt m SIGKILL = false ∧ bitAt m SIGSTOP = false

/-- The signal state of a process that lets `SIGKILL` and `SIGSTOP` through. -/
structure SigSafe (p : Proc) : Prop where
  mask : ClearsKillStop p.signalsMask
  backup : ClearsKillStop p.signalsMaskBackup
  kill_dfl : p.signalHandlers SIGKILL = SIG_DFL
  stop_dfl : p.signalHandlers SIGSTOP = SIG_DFL

theorem clearsKillStop_zero : ClearsKillStop 0 := by simp [ClearsKillStop]

/-- `sigprocmask`'s new mask has both bits cleared, whatever it is given. -/
theorem clearsKillStop_sigprocmask (m : UInt32) : ClearsKillStop (m &&& ~~~(bit SIGKILL ||| bit SIGSTOP)) := by
  simp [ClearsKillStop, SIGKILL, SIGSTOP]

namespace SigSafe

variable {p q : Proc}

theorem of_fields (h : SigSafe p) (hm : q.signalsMask = p.signalsMask)
    (hb : q.signalsMaskBackup = p.signalsMaskBackup) (hh : q.signalHandlers = p.signalHandlers) : SigSafe q :=
  ⟨hm ▸ h.mask, hb ▸ h.backup, hh ▸ h.kill_dfl, hh ▸ h.stop_dfl⟩

theorem zero : SigSafe Proc.zero := ⟨clearsKillStop_zero, clearsKillStop_zero, rfl, rfl⟩

theorem sigprocmask (h : SigSafe p) (m : UInt32) : SigSafe (sigprocmask p m).1 :=
  ⟨clearsKillStop_sigprocmask m, h.backup, h.kill_dfl, h.stop_dfl⟩

/-- `sigaction` refuses `SIGKILL` and `SIGSTOP`, so it changes neither of their handlers. -/
theorem sigaction (h : SigSafe p) (signum : Int) (act oldact : UInt64) :
    SigSafe (sigaction p signum act oldact).1 := by
  unfold Xv6.sigaction
  split_ifs with h₁ h₂ h₃
  · exact h
  · exact h
  · exact h
  · have hk : SIGKILL ≠ signum.toNat := by simp only [SIGKILL] at h₂ ⊢; omega
    have hs : SIGSTOP ≠ signum.toNat := by simp only [SIGSTOP] at h₂ ⊢; omega
    exact ⟨h.mask, h.backup, by simp [Function.update_of_ne hk, h.kill_dfl],
      by simp [Function.update_of_ne hs, h.stop_dfl]⟩

theorem sigret (h : SigSafe p) : SigSafe (sigret p) := ⟨h.backup, h.backup, h.kill_dfl, h.stop_dfl⟩

theorem freeproc (h : SigSafe p) : SigSafe (freeproc p) := h.of_fields rfl rfl rfl

/-- Taking signals and running kernel handlers touch neither masks nor handlers. -/
theorem of_sameContext (h : SigSafe p) (hc : SameContext p q) : SigSafe q :=
  h.of_fields hc.signalsMask hc.signalsMaskBackup hc.signalHandlers

theorem usersignalhandler (h : SigSafe p) (callsigret : List UInt8) (junk : Junk) (i : Nat) :
    SigSafe (usersignalhandler callsigret junk p i) := by
  obtain ⟨_, m, he⟩ := usersignalhandler_eq callsigret junk p i
  rw [he]
  exact ⟨clearsKillStop_sigprocmask m, h.mask, h.kill_dfl, h.stop_dfl⟩

theorem handleSignal (h : SigSafe p) (callsigret : List UInt8) (junk : Junk) (i : Nat) :
    SigSafe (handleSignal callsigret junk p i) := by
  rcases handleSignal_cases callsigret junk p i with hc | hu
  · exact h.of_sameContext hc
  · rw [hu]; exact h.usersignalhandler callsigret junk i

theorem signalLoop (callsigret : List UInt8) (junk : Junk) {is : List Nat} {env env' : List (List Nat)}
    (h : SigSafe p) (hl : Xv6.signalLoop callsigret junk is p env = some (q, env')) : SigSafe q := by
  induction is generalizing p env with
  | nil => cases hl; exact h
  | cons i is ih =>
    simp only [Xv6.signalLoop] at hl
    split at hl
    · cases hl; exact h
    · split at hl
      · cases hl
      · rename_i p₁ env₁ hw
        have h₁ := h.of_sameContext (sameContext_of_waitStopped hw)
        split_ifs at hl
        · cases hl; exact h₁
        · exact ih h₁ hl
        · exact ih ((h₁.handleSignal callsigret junk i).of_sameContext (sameContext_turnoffSigbit _ i)) hl
        · exact ih h₁ hl

theorem signalhandler (h : SigSafe p) (callsigret : List UInt8) (junk : Junk) {env env' : List (List Nat)}
    (hs : Xv6.signalhandler callsigret junk p env = some (q, env')) : SigSafe q := by
  unfold Xv6.signalhandler at hs
  split at hs
  · cases hs; exact h
  · exact h.signalLoop callsigret junk hs

/-- Each round of `exec`'s loop either resets one handler to `SIG_DFL` and the
mask to `0`, or changes nothing. -/
theorem execResetHandlers (h : SigSafe p) : SigSafe (execResetHandlers p) := by
  unfold Xv6.execResetHandlers
  generalize List.range 32 = l
  induction l generalizing p with
  | nil => exact h
  | cons i l ih =>
    apply ih
    dsimp only
    split
    · refine ⟨clearsKillStop_zero, h.backup, ?_, ?_⟩
      · by_cases hi : SIGKILL = i
        · subst hi; simp
        · simp [Function.update_of_ne hi, h.kill_dfl]
      · by_cases hi : SIGSTOP = i
        · subst hi; simp
        · simp [Function.update_of_ne hi, h.stop_dfl]
    · exact h

end SigSafe

/-- Every slot of the table lets `SIGKILL` and `SIGSTOP` through. -/
def TableSafe (s : Sys) : Prop := ∀ i, SigSafe (s.table.proc i)

theorem TableSafe.setProc {s : Sys} (h : TableSafe s) {i : Fin NPROC} {p : Proc} (hp : SigSafe p) :
    TableSafe (s.setProc i p) := by
  intro j
  by_cases hj : j = i
  · subst hj; simpa [Sys.setProc] using hp
  · simpa [Sys.setProc, Table.set_proc_of_ne _ _ hj] using h j

theorem TableSafe.allocproc {s : Sys} (h : TableSafe s) (tfOk ptOk : Bool) (junk : Trapframe) :
    TableSafe (allocproc s tfOk ptOk junk).1 := by
  unfold Xv6.allocproc
  split
  · exact h
  · rename_i i _
    have hp : SigSafe { s.table.proc i with
        pid := s.nextpid, state := .used, signalHandlers := fun _ => SIG_DFL, signalsMask := 0,
        pendingSignals := 0, stopped := false, signalHandling := false, trapframe := junk } :=
      ⟨clearsKillStop_zero, (h i).backup, rfl, rfl⟩
    split
    · exact TableSafe.setProc (s := { s with nextpid := s.nextpid + 1 }) h (hp.of_fields rfl rfl rfl)
    · exact TableSafe.setProc (s := { s with nextpid := s.nextpid + 1 }) h hp.freeproc

/-- The child of `fork` takes the parent's handlers and mask; its backup is
its slot's, safe already. -/
theorem TableSafe.fork {s : Sys} (h : TableSafe s) (i : Fin NPROC) (tfOk ptOk copyOk : Bool) (junk : Trapframe) :
    TableSafe (fork s i tfOk ptOk copyOk junk).1 := by
  unfold Xv6.fork
  have ha := h.allocproc tfOk ptOk junk
  split
  · rename_i s₁ heq; rw [heq] at ha; exact ha
  · rename_i s₁ c heq
    rw [heq] at ha
    split
    · exact ha.setProc ⟨(h i).mask, (ha c).backup, (h i).kill_dfl, (h i).stop_dfl⟩
    · exact ha.setProc (ha c).freeproc

theorem TableSafe.kill {s : Sys} (h : TableSafe s) (pid signum : Int) :
    TableSafe { s with table := (kill s.table pid signum).table } := by
  unfold Xv6.kill
  split
  · exact h
  · split
    · exact h
    · rename_i i _
      split
      · exact h
      · rename_i q hq
        exact TableSafe.setProc h ((h i).of_sameContext (sameContext_of_killProc hq))

/-- Every operation keeps every slot safe. -/
theorem step_safe {s s' : Sys} (h : TableSafe s) (hs : Step s s') : TableSafe s' := by
  cases hs with
  | allocproc tfOk ptOk junk => apply h.allocproc
  | fork i tfOk ptOk copyOk junk => apply h.fork
  | exec i pt tf =>
    apply h.setProc
    exact SigSafe.execResetHandlers ((h i).of_fields rfl rfl rfl)
  | sigprocmask i mask => exact h.setProc ((h i).sigprocmask mask)
  | sigaction i signum act oldact => exact h.setProc ((h i).sigaction signum act oldact)
  | kill pid signum => exact h.kill pid signum
  | signalhandler i callsigret junk env env' p hp => exact h.setProc ((h i).signalhandler callsigret junk hp)
  | sigret i => exact h.setProc (h i).sigret
  | freeproc i => exact h.setProc (h i).freeproc

/-- `is_pending_and_not_masked(i)` bit by bit: pending, and not masked unless
`i` is `SIGKILL` or `SIGSTOP`. -/
theorem isPendingAndNotMasked_iff (p : Proc) {i : Nat} (hi : i < 32) :
    isPendingAndNotMasked p i = true ↔
      bitAt p.pendingSignals i = true ∧ (bitAt p.signalsMask i = true → i = SIGKILL ∨ i = SIGSTOP) := by
  rw [isPendingAndNotMasked, and_bit_ne_zero _ hi, and_bit_ne_zero _ hi]
  simp only [nonMaskable, bitAt_and, bitAt_not _ hi, bitAt_bit (show SIGKILL < 32 by decide),
    bitAt_bit (show SIGSTOP < 32 by decide)]
  cases bitAt p.signalsMask i <;> by_cases h₁ : i = SIGKILL <;> by_cases h₂ : i = SIGSTOP <;> simp [h₁, h₂]

theorem isPendingAndNotMasked_sigkill (p : Proc) :
    isPendingAndNotMasked p SIGKILL = bitAt p.pendingSignals SIGKILL :=
  Bool.eq_iff_iff.2 <| (isPendingAndNotMasked_iff p (by decide)).trans <| by simp

theorem isPendingAndNotMasked_sigstop (p : Proc) :
    isPendingAndNotMasked p SIGSTOP = bitAt p.pendingSignals SIGSTOP :=
  Bool.eq_iff_iff.2 <| (isPendingAndNotMasked_iff p (by decide)).trans <| by simp

/-- **`SIGKILL` and `SIGSTOP` can never be blocked, caught or redefined.** In
every reachable system, every process's mask and mask backup have bits
`SIGKILL` and `SIGSTOP` clear, every process in use has `SIG_DFL` for both,
and `is_pending_and_not_masked` of either is exactly its pending bit. -/
theorem sigkill_sigstop_unblockable {s : Sys} (h : s.Reachable) (i : Fin NPROC) :
    bitAt (s.table.proc i).signalsMask SIGKILL = false ∧ bitAt (s.table.proc i).signalsMask SIGSTOP = false ∧
    bitAt (s.table.proc i).signalsMaskBackup SIGKILL = false ∧
    bitAt (s.table.proc i).signalsMaskBackup SIGSTOP = false ∧
    ((s.table.proc i).state ≠ .unused →
      (s.table.proc i).signalHandlers SIGKILL = SIG_DFL ∧ (s.table.proc i).signalHandlers SIGSTOP = SIG_DFL) ∧
    isPendingAndNotMasked (s.table.proc i) SIGKILL = bitAt (s.table.proc i).pendingSignals SIGKILL ∧
    isPendingAndNotMasked (s.table.proc i) SIGSTOP = bitAt (s.table.proc i).pendingSignals SIGSTOP := by
  have hsafe : TableSafe s := h.inv (fun _ => SigSafe.zero) fun _ _ hi hst => step_safe hi hst
  obtain ⟨⟨hm₁, hm₂⟩, ⟨hb₁, hb₂⟩, hk, hs⟩ := hsafe i
  exact ⟨hm₁, hm₂, hb₁, hb₂, fun _ => ⟨hk, hs⟩, isPendingAndNotMasked_sigkill _, isPendingAndNotMasked_sigstop _⟩

/-- A process that asks `sigprocmask` to block every signal still has
`SIGKILL` and `SIGSTOP` unblocked. -/
theorem sigkill_sigstop_unblockable_mask_all :
    let s := Sys.init.setProc ⟨0, by decide⟩ (sigprocmask (Sys.init.table.proc ⟨0, by decide⟩) 0xFFFFFFFF).1
    let p := s.table.proc ⟨0, by decide⟩
    s.Reachable ∧
    bitAt p.signalsMask SIGKILL = false ∧ bitAt p.signalsMask SIGSTOP = false ∧
    bitAt p.signalsMaskBackup SIGKILL = false ∧ bitAt p.signalsMaskBackup SIGSTOP = false ∧
    (p.state ≠ .unused → p.signalHandlers SIGKILL = SIG_DFL ∧ p.signalHandlers SIGSTOP = SIG_DFL) ∧
    isPendingAndNotMasked p SIGKILL = bitAt p.pendingSignals SIGKILL ∧
    isPendingAndNotMasked p SIGSTOP = bitAt p.pendingSignals SIGSTOP := by
  intro s p
  have h : s.Reachable := Reachable.step_mem (Reachable.init_mem rfl) (Step.sigprocmask _ _ _)
  exact ⟨h, sigkill_sigstop_unblockable h _⟩

end Xv6
