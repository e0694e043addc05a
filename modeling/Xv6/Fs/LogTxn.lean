import Xv6.Param
import Xv6.Framework.Reach

/-!
# Log transactions: `begin_op`, `log_write`, `end_op`

The in-memory `struct log` (`LogState`) and the critical sections of
`begin_op`, `log_write` and `end_op` in `log.c`, each of which runs under
`log.lock` and so atomically. `begin_op` sleeps while a commit runs or while
the log might not hold one more operation (`beginOp` is then `none`: the
call waits); `log_write` and `end_op` can panic (`Except.error` with the
panic's text). The process that ends the last outstanding operation commits
outside the lock: `commit()` empties `log.lh`, then `log.committing = 0`
(`endOpCommit`).

`LogSys` is the log with every process's phase: outside a transaction,
inside one (with the distinct blocks it has passed to `log_write`), or
committing. A process calls `log_write` on at most `MAXOPBLOCKS` distinct
blocks between its `begin_op` and `end_op`, the bound `param.h` documents for
every file-system operation; a call past it is not a step.

The reservation `begin_op` makes keeps `log.lh` within `LOGSIZE` blocks
(`LogInv.space`), `end_op` never panics (`endOp_ok`) and a commit runs with no
operation outstanding (`commit_quiescent`). But the log `mkfs` makes has
`nlog = LOGSIZE` blocks, one of them the header, and `log_write` panics at
`log.size - 1` blocks: three operations admitted together, with ten distinct
blocks each, reach its panic (`log_write_too_big_transaction`).
-/

namespace Xv6

open Framework

/-- `struct log`, without its lock and device. -/
structure LogState where
  /-- `log.size`, from the superblock's `nlog`. -/
  size : Nat
  /-- How many file-system calls are executing. -/
  outstanding : Int
  /-- In `commit()`. -/
  committing : Bool
  /-- `log.lh.block[0..n)`. -/
  lh : List Nat
  deriving DecidableEq, Repr

/-- `begin_op()`: `none` while it has to sleep. -/
def beginOp (l : LogState) : Option LogState :=
  if l.committing then none
  -- this op might exhaust log space; wait for commit.
  else if (l.lh.length : Int) + (l.outstanding + 1) * MAXOPBLOCKS > LOGSIZE then none
  else some { l with outstanding := l.outstanding + 1 }

/-- `log_write()` of block `b`. Absorption: the first slot that holds `b` is
rewritten with `b`, and only when there is none does `n` grow. -/
def logWrite (l : LogState) (b : Nat) : Except String LogState :=
  if l.lh.length ≥ LOGSIZE ∨ (l.lh.length : Int) ≥ l.size - 1 then .error "too big a transaction"
  else if l.outstanding < 1 then .error "log_write outside of trans"
  else if l.lh.idxOf b = l.lh.length then .ok { l with lh := l.lh ++ [b] }
  else .ok l

/-- `end_op()`'s critical section: the log, and whether this call commits. -/
def endOp (l : LogState) : Except String (LogState × Bool) :=
  let l := { l with outstanding := l.outstanding - 1 }
  if l.committing then .error "log.committing"
  else if l.outstanding = 0 then .ok ({ l with committing := true }, true)
  else .ok (l, false)

/-- The rest of `end_op()` in the call that commits: `commit()`, which
empties the in-memory header, then `log.committing = 0`. -/
def endOpCommit (l : LogState) : LogState :=
  let l := if 0 < l.lh.length then { l with lh := [] } else l
  { l with committing := false }

/-- A block passed to `log_write` is in the header afterwards, with every
block that was there. -/
theorem logWrite_lh {l l' : LogState} {b : Nat} (h : logWrite l b = .ok l') :
    l'.size = l.size ∧ l'.outstanding = l.outstanding ∧ l'.committing = l.committing ∧
      l'.lh = if b ∈ l.lh then l.lh else l.lh ++ [b] := by
  simp only [logWrite] at h
  split_ifs at h with h₁ h₂ h₃ <;> cases h
  · simp [List.idxOf_eq_length_iff.1 h₃]
  · simp [show b ∈ l.lh from by_contra fun hb => h₃ (List.idxOf_eq_length_iff.2 hb)]

/-- The phase of a process with respect to the log. -/
inductive Phase
  /-- Outside a transaction. -/
  | idle
  /-- Between `begin_op` and `end_op`, having passed the distinct blocks
  `written` to `log_write`. -/
  | active (written : List Nat)
  /-- In the `commit()` at the end of its `end_op`. -/
  | committing
  deriving DecidableEq, Repr

namespace Phase

/-- One for a process inside a transaction. -/
def inOp : Phase → Nat
  | active _ => 1
  | _ => 0

/-- One for the committing process. -/
def commits : Phase → Nat
  | committing => 1
  | _ => 0

/-- The blocks a process inside a transaction may still add to the log. -/
def reserve : Phase → Nat
  | active ws => MAXOPBLOCKS - ws.length
  | _ => 0

/-- The blocks a transaction wrote are in the header `lh`, distinct, and at
most `MAXOPBLOCKS`. -/
def WroteIn (lh : List Nat) : Phase → Prop
  | active ws => (∀ b ∈ ws, b ∈ lh) ∧ ws.Nodup ∧ ws.length ≤ MAXOPBLOCKS
  | _ => True

@[simp] theorem inOp_idle : idle.inOp = 0 := rfl
@[simp] theorem inOp_active (ws : List Nat) : (active ws).inOp = 1 := rfl
@[simp] theorem inOp_committing : committing.inOp = 0 := rfl
@[simp] theorem commits_idle : idle.commits = 0 := rfl
@[simp] theorem commits_active (ws : List Nat) : (active ws).commits = 0 := rfl
@[simp] theorem commits_committing : committing.commits = 1 := rfl
@[simp] theorem reserve_idle : idle.reserve = 0 := rfl
@[simp] theorem reserve_active (ws : List Nat) : (active ws).reserve = MAXOPBLOCKS - ws.length := rfl
@[simp] theorem reserve_committing : committing.reserve = 0 := rfl
@[simp] theorem wroteIn_idle (lh : List Nat) : idle.WroteIn lh := trivial
@[simp] theorem wroteIn_committing (lh : List Nat) : committing.WroteIn lh := trivial

theorem reserve_le_inOp (ph : Phase) : ph.reserve ≤ MAXOPBLOCKS * ph.inOp := by
  cases ph <;> simp

/-- A header that only grew still holds what a transaction wrote. -/
theorem WroteIn.mono {lh lh' : List Nat} {ph : Phase} (h : ph.WroteIn lh) (hsub : ∀ b ∈ lh, b ∈ lh') :
    ph.WroteIn lh' := by
  cases ph with
  | active ws => exact ⟨fun b hb => hsub b (h.1 b hb), h.2⟩
  | _ => trivial

end Phase

/-- The log and the phase of every process. -/
structure LogSys where
  log : LogState
  phase : Fin NPROC → Phase

/-- After `initlog` on a log of `size` blocks: recovery leaves `n = 0`. -/
def LogSys.init (size : Nat) : LogSys := ⟨⟨size, 0, false, []⟩, fun _ => .idle⟩

/-- A call of a process into the log. -/
inductive LogCall
  | beginOp (p : Fin NPROC)
  | logWrite (p : Fin NPROC) (b : Nat)
  | endOp (p : Fin NPROC)
  | commit (p : Fin NPROC)
  deriving DecidableEq, Repr

/-- The system after one call returns; `none` when it sleeps, panics, or is
not one the process can make in its phase. -/
def LogSys.next (s : LogSys) : LogCall → Option LogSys
  | .beginOp p =>
    match s.phase p with
    | .idle => (beginOp s.log).map fun l => ⟨l, Function.update s.phase p (.active [])⟩
    | _ => none
  | .logWrite p b =>
    match s.phase p with
    | .active ws =>
      if b ∈ ws ∨ ws.length < MAXOPBLOCKS then
        match logWrite s.log b with
        | .ok l => some ⟨l, Function.update s.phase p (.active (if b ∈ ws then ws else b :: ws))⟩
        | .error _ => none
      else none
    | _ => none
  | .endOp p =>
    match s.phase p with
    | .active _ =>
      match endOp s.log with
      | .ok (l, doCommit) => some ⟨l, Function.update s.phase p (if doCommit then .committing else .idle)⟩
      | .error _ => none
    | _ => none
  | .commit p =>
    match s.phase p with
    | .committing => some ⟨endOpCommit s.log, Function.update s.phase p .idle⟩
    | _ => none

/-- The systems reachable from `initlog` on a log of `size` blocks. -/
def LogSys.Reachable (size : Nat) (s : LogSys) : Prop :=
  Framework.Reachable (· = LogSys.init size) (fun s s' => ∃ c, s.next c = some s') s

/-! ## What each call does -/

section Cases

variable {s s' : LogSys} {p : Fin NPROC}

theorem next_beginOp (h : s.next (.beginOp p) = some s') :
    s.phase p = .idle ∧ s.log.committing = false ∧
      (s.log.lh.length : Int) + (s.log.outstanding + 1) * MAXOPBLOCKS ≤ LOGSIZE ∧
      s' = ⟨{ s.log with outstanding := s.log.outstanding + 1 }, Function.update s.phase p (.active [])⟩ := by
  simp only [LogSys.next] at h
  split at h <;> [skip; cases h]
  rename_i hp
  simp only [beginOp] at h
  split_ifs at h with h₁ h₂ <;> simp at h
  exact ⟨hp, by simpa using h₁, by omega, h.symm⟩

theorem next_logWrite {b : Nat} (h : s.next (.logWrite p b) = some s') :
    ∃ ws l, s.phase p = .active ws ∧ (b ∈ ws ∨ ws.length < MAXOPBLOCKS) ∧ logWrite s.log b = .ok l ∧
      s' = ⟨l, Function.update s.phase p (.active (if b ∈ ws then ws else b :: ws))⟩ := by
  simp only [LogSys.next] at h
  split at h <;> [skip; cases h]
  rename_i ws hp
  by_cases hb : b ∈ ws ∨ ws.length < MAXOPBLOCKS
  · rw [if_pos hb] at h
    split at h <;> [skip; cases h]
    rename_i l hl
    exact ⟨ws, l, hp, hb, hl, (Option.some.inj h).symm⟩
  · rw [if_neg hb] at h
    cases h

theorem next_endOp (h : s.next (.endOp p) = some s') :
    ∃ ws, s.phase p = .active ws ∧ s.log.committing = false ∧
      ((s.log.outstanding = 1 ∧
          s' = ⟨{ s.log with outstanding := 0, committing := true }, Function.update s.phase p .committing⟩) ∨
        (s.log.outstanding ≠ 1 ∧
          s' = ⟨{ s.log with outstanding := s.log.outstanding - 1 }, Function.update s.phase p .idle⟩)) := by
  simp only [LogSys.next] at h
  split at h <;> [skip; cases h]
  rename_i ws hp
  split at h <;> [skip; cases h]
  rename_i l doCommit he
  simp only [endOp] at he
  split_ifs at he with h₁ h₂ <;> cases he <;> simp only [Option.some.injEq] at h
  · exact ⟨ws, hp, by simpa using h₁, .inl ⟨by omega, by rw [← h]; simp; omega⟩⟩
  · exact ⟨ws, hp, by simpa using h₁, .inr ⟨by omega, by rw [← h]; simp⟩⟩

theorem next_commit (h : s.next (.commit p) = some s') :
    s.phase p = .committing ∧ s' = ⟨endOpCommit s.log, Function.update s.phase p .idle⟩ := by
  simp only [LogSys.next] at h
  split at h <;> [skip; cases h]
  rename_i hp
  exact ⟨hp, (Option.some.inj h).symm⟩

end Cases

/-! ## The invariant -/

/-- What holds of the log and the processes between calls. -/
structure LogInv (s : LogSys) : Prop where
  /-- `log.outstanding` counts the processes inside a transaction. -/
  outstanding : s.log.outstanding = ((∑ p, (s.phase p).inOp : Nat) : Int)
  /-- `log.committing` is set exactly while one process commits. -/
  committing : s.log.committing.toNat = ∑ p, (s.phase p).commits
  /-- No process is inside a transaction during a commit. -/
  quiet : s.log.committing = true → ∑ p, (s.phase p).inOp = 0
  written : ∀ p, (s.phase p).WroteIn s.log.lh
  /-- The header and what the running transactions may still add fit in `LOGSIZE`. -/
  space : s.log.lh.length + ∑ p, (s.phase p).reserve ≤ LOGSIZE

namespace LogInv

variable {s s' : LogSys} {p : Fin NPROC}

theorem init (size : Nat) : LogInv (LogSys.init size) where
  outstanding := by simp [LogSys.init]
  committing := by simp [LogSys.init]
  quiet := by simp [LogSys.init]
  written := by simp [LogSys.init]
  space := by simp [LogSys.init]

/-- A process's term is part of a sum over all processes. -/
theorem le_sum (g : Phase → Nat) (s : LogSys) (p : Fin NPROC) : g (s.phase p) ≤ ∑ q, g (s.phase q) :=
  Finset.single_le_sum (f := fun q => g (s.phase q)) (fun _ _ => Nat.zero_le _) (Finset.mem_univ p)

/-- With a transaction running, no process commits. -/
theorem not_committing_of_active (h : LogInv s) {ws : List Nat} (hp : s.phase p = .active ws) :
    s.log.committing = false := by
  have := le_sum Phase.inOp s p
  rw [hp, Phase.inOp_active] at this
  by_contra hc
  have := h.quiet (by simpa using hc)
  omega

/-- Each transaction reserves at most `MAXOPBLOCKS` blocks. -/
theorem sum_reserve_le (s : LogSys) : ∑ p, (s.phase p).reserve ≤ MAXOPBLOCKS * ∑ p, (s.phase p).inOp := by
  rw [Finset.mul_sum]
  exact Finset.sum_le_sum fun p _ => (s.phase p).reserve_le_inOp

theorem beginOp (h : LogInv s) (hs : s.next (.beginOp p) = some s') : LogInv s' := by
  obtain ⟨hp, hc, hroom, rfl⟩ := next_beginOp hs
  have hin := sum_update_add Phase.inOp s.phase p (.active [])
  have hcm := sum_update_add Phase.commits s.phase p (.active [])
  have hres := sum_update_add Phase.reserve s.phase p (.active [])
  have hle := sum_reserve_le s
  have hout := h.outstanding
  have hcom := h.committing
  have hspace := h.space
  rw [hp] at hin hcm hres
  simp only [Phase.inOp_idle, Phase.inOp_active, Phase.commits_idle, Phase.commits_active, Phase.reserve_idle,
    Phase.reserve_active, List.length_nil, Nat.sub_zero, Nat.add_zero] at hin hcm hres
  refine ⟨?_, ?_, fun hc' => by simp [hc] at hc', ?_, ?_⟩
  · simp only
    omega
  · simp only [hc] at hcom ⊢
    omega
  · exact Function.forall_update_iff _ (fun _ (ph : Phase) => ph.WroteIn s.log.lh) |>.2
      ⟨by simp [Phase.WroteIn], fun q _ => h.written q⟩
  · simp only [MAXOPBLOCKS, LOGSIZE] at hroom hle hres hspace ⊢
    omega

theorem logWrite (h : LogInv s) {b : Nat} (hs : s.next (.logWrite p b) = some s') : LogInv s' := by
  obtain ⟨ws, l, hp, hb, hl, rfl⟩ := next_logWrite hs
  obtain ⟨hsize, hout, hcom, hlh⟩ := logWrite_lh hl
  obtain ⟨hsub, hnd, hlen⟩ := hp ▸ h.written p
  have hin := sum_update_add Phase.inOp s.phase p (.active (if b ∈ ws then ws else b :: ws))
  have hcm := sum_update_add Phase.commits s.phase p (.active (if b ∈ ws then ws else b :: ws))
  have hres := sum_update_add Phase.reserve s.phase p (.active (if b ∈ ws then ws else b :: ws))
  rw [hp] at hin hcm hres
  simp only [Phase.inOp_active, Phase.commits_active, Phase.reserve_active] at hin hcm hres
  -- The header keeps every block it had, and gains `b`.
  have hmem : ∀ x ∈ s.log.lh, x ∈ l.lh := fun x hx => by rw [hlh]; split_ifs <;> simp [hx]
  have hbmem : b ∈ l.lh := by rw [hlh]; split_ifs with h' <;> simp [h']
  have hc := h.not_committing_of_active hp
  refine ⟨?_, ?_, fun hc' => by simp [hcom, hc] at hc', ?_, ?_⟩
  · dsimp only
    rw [hout, h.outstanding]
    omega
  · dsimp only
    rw [hcom, h.committing]
    omega
  · refine Function.forall_update_iff _ (fun _ (ph : Phase) => ph.WroteIn l.lh) |>.2 ⟨?_, fun q _ => (h.written q).mono hmem⟩
    split_ifs with hbw
    · exact ⟨fun x hx => hmem x (hsub x hx), hnd, hlen⟩
    · refine ⟨fun x hx => ?_, List.nodup_cons.2 ⟨hbw, hnd⟩, ?_⟩
      · rcases List.mem_cons.1 hx with rfl | hx
        · exact hbmem
        · exact hmem x (hsub x hx)
      · have := hb.resolve_left hbw
        simp only [List.length_cons]
        omega
  · -- A block this transaction already wrote is absorbed; a new one uses a
    -- block of its reservation.
    have hgrow : l.lh.length + (MAXOPBLOCKS - (if b ∈ ws then ws else b :: ws).length) ≤
        s.log.lh.length + (MAXOPBLOCKS - ws.length) := by
      rw [hlh]
      by_cases hbw : b ∈ ws
      · simp only [if_pos hbw, if_pos (hsub b hbw), le_refl]
      · have hlt := hb.resolve_left hbw
        by_cases hbl : b ∈ s.log.lh
        · simp only [if_neg hbw, if_pos hbl, List.length_cons]
          omega
        · simp only [if_neg hbw, if_neg hbl, List.length_append, List.length_cons, List.length_nil]
          omega
    have hspace := h.space
    dsimp only
    omega

theorem endOp (h : LogInv s) (hs : s.next (.endOp p) = some s') : LogInv s' := by
  obtain ⟨ws, hp, hc, ⟨hone, rfl⟩ | ⟨hone, rfl⟩⟩ := next_endOp hs
  · -- The last operation ends and this process commits.
    have hin := sum_update_add Phase.inOp s.phase p .committing
    have hcm := sum_update_add Phase.commits s.phase p .committing
    have hres := sum_update_add Phase.reserve s.phase p .committing
    rw [hp] at hin hcm hres
    simp only [Phase.inOp_active, Phase.inOp_committing, Phase.commits_active, Phase.commits_committing,
      Phase.reserve_active, Phase.reserve_committing] at hin hcm hres
    have hout := h.outstanding
    have hcom := h.committing
    have hspace := h.space
    rw [hc, Bool.toNat_false] at hcom
    refine ⟨by dsimp only; omega, by dsimp only; rw [Bool.toNat_true]; omega, fun _ => by dsimp only; omega, ?_,
      by dsimp only; omega⟩
    exact Function.forall_update_iff _ (fun _ (ph : Phase) => ph.WroteIn s.log.lh) |>.2
      ⟨trivial, fun q _ => h.written q⟩
  · have hin := sum_update_add Phase.inOp s.phase p .idle
    have hcm := sum_update_add Phase.commits s.phase p .idle
    have hres := sum_update_add Phase.reserve s.phase p .idle
    rw [hp] at hin hcm hres
    simp only [Phase.inOp_active, Phase.inOp_idle, Phase.commits_active, Phase.commits_idle,
      Phase.reserve_active, Phase.reserve_idle] at hin hcm hres
    have hout := h.outstanding
    have hcom := h.committing
    have hspace := h.space
    rw [hc, Bool.toNat_false] at hcom
    refine ⟨by dsimp only; omega, by dsimp only; rw [hc, Bool.toNat_false]; omega, fun hc' => by simp [hc] at hc', ?_,
      by dsimp only; omega⟩
    exact Function.forall_update_iff _ (fun _ (ph : Phase) => ph.WroteIn s.log.lh) |>.2
      ⟨trivial, fun q _ => h.written q⟩

/-- `endOpCommit` keeps the count of operations and clears the flag and the header. -/
theorem endOpCommit_eq (l : LogState) :
    (endOpCommit l).outstanding = l.outstanding ∧ (endOpCommit l).committing = false ∧ (endOpCommit l).lh = [] := by
  simp only [endOpCommit]
  split_ifs with hn
  · simp
  · simpa using hn

/-- While a process commits, the flag is set. -/
theorem committing_of_committer (h : LogInv s) (hp : s.phase p = .committing) : s.log.committing = true := by
  have hone := le_sum Phase.commits s p
  rw [hp, Phase.commits_committing, ← h.committing] at hone
  cases hc : s.log.committing
  · rw [hc, Bool.toNat_false] at hone
    omega
  · rfl

theorem commit (h : LogInv s) (hs : s.next (.commit p) = some s') : LogInv s' := by
  obtain ⟨hp, rfl⟩ := next_commit hs
  obtain ⟨hlout, hlcom, hllh⟩ := endOpCommit_eq s.log
  have hin := sum_update_add Phase.inOp s.phase p .idle
  have hcm := sum_update_add Phase.commits s.phase p .idle
  have hres := sum_update_add Phase.reserve s.phase p .idle
  rw [hp] at hin hcm hres
  simp only [Phase.inOp_committing, Phase.inOp_idle, Phase.commits_committing, Phase.commits_idle,
    Phase.reserve_committing, Phase.reserve_idle] at hin hcm hres
  have hc := h.committing_of_committer hp
  have hquiet := h.quiet hc
  have hout := h.outstanding
  have hcom := h.committing
  have hspace := h.space
  rw [hc, Bool.toNat_true] at hcom
  refine ⟨?_, ?_, fun hc' => by simp [hlcom] at hc', ?_, ?_⟩
  · dsimp only
    rw [hlout]
    omega
  · dsimp only
    rw [hlcom, Bool.toNat_false]
    omega
  · dsimp only
    rw [hllh]
    refine Function.forall_update_iff _ (fun _ (ph : Phase) => ph.WroteIn []) |>.2 ⟨trivial, fun q _ => ?_⟩
    -- Nothing else is inside a transaction, so nothing else wrote.
    have hq := le_sum Phase.inOp s q
    cases hph : s.phase q with
    | active ws =>
      rw [hph, Phase.inOp_active] at hq
      omega
    | _ => trivial
  · dsimp only
    rw [hllh, List.length_nil]
    omega

theorem step (h : LogInv s) {c : LogCall} (hs : s.next c = some s') : LogInv s' := by
  cases c with
  | beginOp p => exact h.beginOp hs
  | logWrite p b => exact h.logWrite hs
  | endOp p => exact h.endOp hs
  | commit p => exact h.commit hs

end LogInv

theorem LogSys.Reachable.inv {size : Nat} {s : LogSys} (h : LogSys.Reachable size s) : LogInv s :=
  Framework.Reachable.inv (fun _ e => e ▸ LogInv.init size) (fun _ _ hi ⟨_, hs⟩ => hi.step hs) h

/-! ## What the invariant gives -/

section Results

variable {size : Nat} {s : LogSys} {p : Fin NPROC}

/-- `end_op` never panics: a process inside a transaction finds no commit running. -/
theorem endOp_ok (h : LogSys.Reachable size s) {ws : List Nat} (hp : s.phase p = .active ws) :
    ∃ r, endOp s.log = .ok r := by
  have hc := h.inv.not_committing_of_active hp
  simp only [endOp, hc, Bool.false_eq_true, if_false]
  split_ifs <;> exact ⟨_, rfl⟩

/-- `commit()` runs with no operation outstanding. -/
theorem commit_quiescent (h : LogSys.Reachable size s) (hp : s.phase p = .committing) :
    s.log.outstanding = 0 := by
  have hi := h.inv
  rw [hi.outstanding, hi.quiet (hi.committing_of_committer hp)]
  rfl

/-- A new distinct block of a transaction finds the header below `LOGSIZE`. -/
theorem lh_length_lt (h : LogSys.Reachable size s) {ws : List Nat} (hp : s.phase p = .active ws)
    (hlen : ws.length < MAXOPBLOCKS) : s.log.lh.length < LOGSIZE := by
  have hres := LogInv.le_sum Phase.reserve s p
  rw [hp, Phase.reserve_active] at hres
  have := h.inv.space
  omega

end Results

/-- Three operations admitted together on the log `mkfs` makes, the first
two writing ten distinct blocks each and the third nine: the third's tenth
distinct block, within its `MAXOPBLOCKS`, panics `log_write`, since the
header already names `log.size - 1` blocks. -/
theorem log_write_too_big_transaction :
    ∃ s ws, LogSys.Reachable nlog s ∧ s.phase ⟨2, by decide⟩ = .active ws ∧ ws.length < MAXOPBLOCKS ∧
      logWrite s.log 29 = .error "too big a transaction" := by
  let trace : List LogCall :=
    [.beginOp ⟨0, by decide⟩, .beginOp ⟨1, by decide⟩, .beginOp ⟨2, by decide⟩] ++
      (List.range 10).map (.logWrite ⟨0, by decide⟩) ++ (List.range' 10 10).map (.logWrite ⟨1, by decide⟩) ++
      (List.range' 20 9).map (.logWrite ⟨2, by decide⟩)
  have hrun : (run LogSys.next (LogSys.init nlog) trace).map (fun s => (s.phase ⟨2, by decide⟩, s.log)) =
      some (.active (List.range' 20 9).reverse, ⟨nlog, 3, false, List.range 29⟩) := by
    decide
  obtain ⟨s, hs, hobs⟩ := Option.map_eq_some_iff.1 hrun
  simp only [Prod.mk.injEq] at hobs
  refine ⟨s, _, Reachable.of_run (fun s c s' h => ⟨c, h⟩) trace (Reachable.init_mem rfl) hs, hobs.1,
    by decide, ?_⟩
  rw [hobs.2]
  rfl

end Xv6
