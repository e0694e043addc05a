import Xv6.Fs.Log

/-!
# Crash atomicity of the log

A crash after any prefix of the writes `commit()` issues, then at each boot
`recover_from_log()`, itself crashing after any prefix of its writes until a
boot where it runs to the end (`Recovers`), leaves every home block of the
transaction at its old contents or every one at its new contents, the rest of
the disk outside the log as it was, and an empty log header
(`log_crash_atomic`).

The disk between two boots is in one of three states: clean with the old
blocks, committed (the header names the transaction and the log blocks hold
its new contents, whatever the home blocks hold), or clean with the new
blocks. A crashed `commit()` leaves one of them (`commit_crash_before`,
`commit_crash_committed`, `commit_crash_after`); recovery keeps a clean disk
as it is (`CleanAs.recover`) and takes a committed one to itself or, once all
its writes are done, to the new blocks (`Committed.recover`).
-/

namespace Xv6

open Framework

/-- The disks that recovery leaves from `d`: `recover_from_log()` runs to the
end, or crashes after `k` of its writes and the next boot recovers again. -/
inductive Recovers (start : Nat) : (Nat → Block) → (Nat → Block) → Prop
  | done (d : Nat → Block) : Recovers start d (applyWrites d (recoverFromLog start (Bcache.boot d)).issued)
  | crash {d d' : Nat → Block} (k : Nat) :
      Recovers start (applyWrites d ((recoverFromLog start (Bcache.boot d)).issued.take k)) d' →
      Recovers start d d'

/-- What every crashed recovery keeps, and a full one takes to `Q`, holds
after recovery. -/
theorem Recovers.inv {start : Nat} {P Q : (Nat → Block) → Prop}
    (hcrash : ∀ d k, P d → P (applyWrites d ((recoverFromLog start (Bcache.boot d)).issued.take k)))
    (hdone : ∀ d, P d → Q (applyWrites d (recoverFromLog start (Bcache.boot d)).issued))
    {d d' : Nat → Block} (h : Recovers start d d') (hd : P d) : Q d' := by
  induction h with
  | done d => exact hdone d hd
  | crash k _ ih => exact ih (hcrash _ k hd)

/-- An empty log header, and outside the log `[start, start + size)` the
blocks of `X`. -/
def CleanAs (start size : Nat) (X d : Nat → Block) : Prop :=
  headCount (d start) = 0 ∧ ∀ x, x < start ∨ start + size ≤ x → d x = X x

/-- Transaction `lh` past its commit point: the header names `lh`, log block
`start + 1 + j` holds the new contents of the `j`-th block, and the blocks
outside the log and the transaction are as in `d₀`. The home blocks may hold
anything. -/
def Committed (start size : Nat) (lh : List Nat) (d₀ view d : Nat → Block) : Prop :=
  decodeHead (d start) = lh ∧ (∀ j (hj : j < lh.length), d (start + 1 + j) = view lh[j]) ∧
    ∀ x, x < start ∨ start + size ≤ x → x ∉ lh → d x = d₀ x

/-- The blocks after transaction `lh`: its new contents in `view`, the old
ones in `d₀` elsewhere. -/
def installed (lh : List Nat) (d₀ view : Nat → Block) (x : Nat) : Block :=
  if x ∈ lh then view x else d₀ x

section Recovery

variable {start size : Nat} {lh : List Nat} {d₀ view d X : Nat → Block}

/-- With an empty header, recovery only writes the header again. -/
theorem recoverFromLog_issued_of_clean (h : headCount (d start) = 0) :
    (recoverFromLog start (Bcache.boot d)).issued = [(start, encodeHead [] (d start))] := by
  rw [recoverFromLog_issued d (by simp [decodeHead_of_headCount h]), decodeHead_of_headCount h]
  rfl

/-- A clean disk stays as it is through any part of recovery. -/
theorem CleanAs.recover (hsize : 0 < size) (h : CleanAs start size X d) (k : Nat) :
    CleanAs start size X (applyWrites d ((recoverFromLog start (Bcache.boot d)).issued.take k)) := by
  obtain ⟨hhead, hout⟩ := h
  rw [recoverFromLog_issued_of_clean hhead]
  cases k with
  | zero => exact ⟨hhead, hout⟩
  | succ k =>
    refine ⟨by simp [applyWrites_cons], fun x hx => ?_⟩
    have hne : x ≠ start := by omega
    simp [applyWrites_cons, Function.update_of_ne hne, hout x hx]

theorem Recovers.cleanAs (hsize : 0 < size) {d' : Nat → Block} (h : Recovers start d d')
    (hd : CleanAs start size X d) : CleanAs start size X d' := by
  refine h.inv (fun d k hd => hd.recover hsize k) (fun d hd => ?_) hd
  simpa using hd.recover hsize (recoverFromLog start (Bcache.boot d)).issued.length

section Committed

variable (hout : ∀ b ∈ lh, b < start ∨ start + size ≤ b) (hsize : lh.length + 1 ≤ size)
include hout hsize

/-- Writes to the transaction's home blocks keep it committed. -/
theorem Committed.applyWrites_home (h : Committed start size lh d₀ view d) {ws : List (Nat × Block)}
    (hws : ∀ w ∈ ws, w.1 ∈ lh) : Committed start size lh d₀ view (applyWrites d ws) := by
  obtain ⟨hhead, hslot, hrest⟩ := h
  refine ⟨?_, fun j hj => ?_, fun x hx hxl => ?_⟩
  · rw [applyWrites_of_forall_ne fun w hw => ?_, hhead]
    have := hout _ (hws w hw)
    omega
  · rw [applyWrites_of_forall_ne fun w hw => ?_, hslot j hj]
    have := hout _ (hws w hw)
    omega
  · rw [applyWrites_of_forall_ne fun w hw e => hxl (by rw [← e]; exact hws w hw), hrest x hx hxl]

/-- Recovery of a committed disk writes each home block from the log, then
the empty header. -/
theorem recoverFromLog_issued_of_committed (h : Committed start size lh d₀ view d) :
    (recoverFromLog start (Bcache.boot d)).issued =
      (lh.map fun b => (b, view b)) ++ [(start, encodeHead [] (d start))] := by
  obtain ⟨hhead, hslot, -⟩ := h
  have hout' : ∀ b ∈ decodeHead (d start), b < start + 1 ∨ start + 1 + (decodeHead (d start)).length ≤ b := by
    intro b hb
    rw [hhead] at hb ⊢
    have := hout b hb
    omega
  have hhome : homeWrites start d 0 lh = lh.map fun b => (b, view b) :=
    homeWrites_of_slots view fun j hj => by rw [← hslot j hj]
  have hstart : applyWrites d (lh.map fun b => (b, view b)) start = d start := by
    refine applyWrites_of_forall_ne fun w hw => ?_
    obtain ⟨b, hb, rfl⟩ := List.mem_map.1 hw
    have := hout b hb
    exact fun e => by simp only at e; omega
  rw [recoverFromLog_issued d hout', hhead, hhome, hstart]

omit hout in
/-- The disk after all of recovery's writes from a committed one. -/
theorem Committed.recover_done (hnd : lh.Nodup) (h : Committed start size lh d₀ view d) :
    CleanAs start size (installed lh d₀ view)
      (applyWrites d ((lh.map fun b => (b, view b)) ++ [(start, encodeHead [] (d start))])) := by
  obtain ⟨-, -, hrest⟩ := h
  refine ⟨by simp [applyWrites_append, applyWrites_cons], fun x hx => ?_⟩
  have hne : x ≠ start := by omega
  rw [applyWrites_append, applyWrites_cons, applyWrites_nil, Function.update_of_ne hne, installed]
  split_ifs with hx'
  · exact applyWrites_map_of_mem hnd d view hx'
  · rw [applyWrites_of_forall_ne fun w hw e => ?_, hrest x hx hx']
    obtain ⟨b, hb, rfl⟩ := List.mem_map.1 hw
    exact hx' (e ▸ hb)

/-- Any part of recovery from a committed disk leaves it committed, or, once
all of its writes are done, clean with the new blocks. -/
theorem Committed.recover (hnd : lh.Nodup) (h : Committed start size lh d₀ view d) (k : Nat) :
    Committed start size lh d₀ view (applyWrites d ((recoverFromLog start (Bcache.boot d)).issued.take k)) ∨
      CleanAs start size (installed lh d₀ view)
        (applyWrites d ((recoverFromLog start (Bcache.boot d)).issued.take k)) := by
  rw [recoverFromLog_issued_of_committed hout hsize h]
  by_cases hk : k ≤ lh.length
  · -- The crash falls among the home writes.
    left
    rw [List.take_append_of_le_length (by simpa using hk)]
    refine h.applyWrites_home hout hsize fun w hw => ?_
    obtain ⟨b, hb, rfl⟩ := List.mem_map.1 (List.mem_of_mem_take hw)
    exact hb
  · right
    rw [List.take_of_length_le (by simp; omega)]
    exact h.recover_done hsize hnd

theorem Recovers.cleanAs_installed (hnd : lh.Nodup) {d' : Nat → Block} (h : Recovers start d d')
    (hd : Committed start size lh d₀ view d ∨ CleanAs start size (installed lh d₀ view) d) :
    CleanAs start size (installed lh d₀ view) d' := by
  refine h.inv (P := fun d => Committed start size lh d₀ view d ∨ CleanAs start size (installed lh d₀ view) d)
    (fun d k hd => ?_) (fun d hd => ?_) hd
  · rcases hd with hd | hd
    · exact hd.recover hout hsize hnd k
    · exact .inr (hd.recover (by omega) k)
  · rcases hd with hd | hd
    · rw [recoverFromLog_issued_of_committed hout hsize hd]
      exact hd.recover_done hsize hnd
    · simpa using hd.recover (by omega) (recoverFromLog start (Bcache.boot d)).issued.length

end Committed

end Recovery

/-! ## Where a crash of `commit()` leaves the disk -/

section Commit

variable {start size : Nat} {lh : List Nat} {d₀ view₀ : Nat → Block}
variable (hout : ∀ b ∈ lh, b < start ∨ start + size ≤ b) (hsize : lh.length + 1 ≤ size)
include hout hsize

/-- The blocks of `commit()` are outside the log blocks it uses. -/
theorem commit_outside : ∀ b ∈ lh, b < start ∨ start + 1 + lh.length ≤ b := by
  intro b hb
  have := hout b hb
  omega

/-- Before the header write, only log blocks have changed. -/
theorem commit_crash_before (h₀ : headCount (d₀ start) = 0) (hne : 0 < lh.length) {k : Nat}
    (hk : k ≤ lh.length) :
    CleanAs start size d₀ (applyWrites d₀ ((commit start lh ⟨view₀, []⟩).issued.take k)) := by
  rw [commit_issued view₀ hne (commit_outside hout hsize), List.take_append_of_le_length (by simp; omega),
    List.take_append_of_le_length (by simp; omega), List.take_append_of_le_length (by simpa using hk)]
  have hslots : ∀ w ∈ (slotWrites start 0 (lh.map view₀)).take k, start < w.1 ∧ w.1 < start + size := by
    intro w hw
    have := mem_slotWrites (List.mem_of_mem_take hw)
    simp only [List.length_map] at this
    omega
  refine ⟨?_, fun x hx => ?_⟩
  · rw [applyWrites_of_forall_ne fun w hw => ?_, h₀]
    have := hslots w hw
    omega
  · refine applyWrites_of_forall_ne fun w hw => ?_
    have := hslots w hw
    omega


omit hout in
/-- At the commit point: the log blocks and the header written. -/
theorem commit_point (hn : lh.length ≤ LOGSIZE) (hb : ∀ b ∈ lh, b < 2 ^ 32) :
    Committed start size lh d₀ view₀
      (applyWrites d₀ (slotWrites start 0 (lh.map view₀) ++ [(start, encodeHead lh (view₀ start))])) := by
  refine ⟨?_, fun j hj => ?_, fun x hx _ => ?_⟩
  · simp [applyWrites_append, applyWrites_cons, decodeHead_encodeHead hn hb]
  · rw [applyWrites_append, applyWrites_cons, applyWrites_nil, Function.update_of_ne (by omega),
      show start + 1 + j = start + 0 + 1 + j by omega, applyWrites_slotWrites _ _ _ (by simpa using hj),
      List.getElem_map]
  · refine applyWrites_of_forall_ne fun w hw => ?_
    rcases List.mem_append.1 hw with hw | hw
    · have := mem_slotWrites hw
      simp only [List.length_map] at this
      omega
    · rw [List.mem_singleton.1 hw]
      exact fun e => by simp only at e; omega

/-- Between the header write and the emptied header, the transaction is
committed. -/
theorem commit_crash_committed (hn : lh.length ≤ LOGSIZE) (hb : ∀ b ∈ lh, b < 2 ^ 32) (hne : 0 < lh.length)
    {k : Nat} (hk₁ : lh.length < k) (hk₂ : k ≤ 2 * lh.length + 1) :
    Committed start size lh d₀ view₀ (applyWrites d₀ ((commit start lh ⟨view₀, []⟩).issued.take k)) := by
  have htake : (commit start lh ⟨view₀, []⟩).issued.take k =
      slotWrites start 0 (lh.map view₀) ++ [(start, encodeHead lh (view₀ start))] ++
        (lh.map fun b => (b, view₀ b)).take (k - (lh.length + 1)) := by
    rw [commit_issued view₀ hne (commit_outside hout hsize), List.take_append_of_le_length (by simp; omega),
      List.take_append, List.take_of_length_le (by simp; omega)]
    simp
  rw [htake, applyWrites_append]
  refine (commit_point hsize hn hb).applyWrites_home hout hsize fun w hw => ?_
  obtain ⟨b, hb, rfl⟩ := List.mem_map.1 (List.mem_of_mem_take hw)
  exact hb

/-- After all of `commit()`'s writes, the disk is clean with the new blocks:
the home writes and the emptied header are what recovery would write. -/
theorem commit_crash_after (hnd : lh.Nodup) (hn : lh.length ≤ LOGSIZE) (hb : ∀ b ∈ lh, b < 2 ^ 32)
    (hne : 0 < lh.length) {k : Nat} (hk : 2 * lh.length + 1 < k) :
    CleanAs start size (installed lh d₀ view₀)
      (applyWrites d₀ ((commit start lh ⟨view₀, []⟩).issued.take k)) := by
  have hc := @commit_point start size lh d₀ view₀ hsize hn hb
  have hhead : applyWrites d₀ (slotWrites start 0 (lh.map view₀) ++ [(start, encodeHead lh (view₀ start))])
      start = encodeHead lh (view₀ start) := by
    simp [applyWrites_append, applyWrites_cons]
  rw [commit_issued view₀ hne (commit_outside hout hsize), List.take_of_length_le (by simp; omega)]
  have e := hc.recover_done hsize hnd
  rw [hhead, ← applyWrites_append] at e
  simpa only [List.append_assoc] using e

end Commit

/-- A crash after any prefix of `commit()`'s writes, then recovery at boot,
crashing and rerun any number of times, leaves the transaction's home blocks
all old or all new, the other blocks outside the log as they were, and an
empty log header. -/
theorem log_crash_atomic {start size : Nat} {lh : List Nat} {d₀ view₀ d : Nat → Block}
    (hnd : lh.Nodup) (hout : ∀ b ∈ lh, b < start ∨ start + size ≤ b) (hsize : lh.length + 1 ≤ size)
    (hn : lh.length ≤ LOGSIZE) (hb : ∀ b ∈ lh, b < 2 ^ 32) (h₀ : headCount (d₀ start) = 0) (k : Nat)
    (hrec : Recovers start (applyWrites d₀ ((commit start lh ⟨view₀, []⟩).issued.take k)) d) :
    ((∀ b ∈ lh, d b = d₀ b) ∨ (∀ b ∈ lh, d b = view₀ b)) ∧
      (∀ x, x < start ∨ start + size ≤ x → x ∉ lh → d x = d₀ x) ∧ headCount (d start) = 0 := by
  have hclean : CleanAs start size d₀ d ∨ CleanAs start size (installed lh d₀ view₀) d := by
    rcases Nat.eq_zero_or_pos lh.length with h0 | hne
    · -- An empty transaction: `commit()` writes nothing.
      have hw : (commit start lh ⟨view₀, []⟩).issued = [] := by simp [commit, h0]
      rw [hw, List.take_nil, applyWrites_nil] at hrec
      exact .inl (hrec.cleanAs (by omega) ⟨h₀, fun _ _ => rfl⟩)
    -- Otherwise split on where the crash falls: before the header write, up
    -- to the emptied header, or after it.
    by_cases hk₁ : k ≤ lh.length
    · exact .inl (hrec.cleanAs (by omega) (commit_crash_before hout hsize h₀ hne hk₁))
    · by_cases hk₂ : k ≤ 2 * lh.length + 1
      · exact .inr (hrec.cleanAs_installed hout hsize hnd (.inl (commit_crash_committed hout hsize hn hb hne (by omega) hk₂)))
      · exact .inr (hrec.cleanAs_installed hout hsize hnd (.inr (commit_crash_after hout hsize hnd hn hb hne (by omega))))
  rcases hclean with ⟨hhead, hd⟩ | ⟨hhead, hd⟩
  · exact ⟨.inl fun b hb => hd b (hout b hb), fun x hx _ => hd x hx, hhead⟩
  · refine ⟨.inr fun b hb => ?_, fun x hx hxl => ?_, hhead⟩
    · rw [hd b (hout b hb), installed, if_pos hb]
    · rw [hd x hx, installed, if_neg hxl]

/-- A one-block transaction in a log of `nlog` blocks at block 2, crashed
just after its commit point and recovered. -/
theorem log_crash_atomic_one_block :
    let d₀ : Nat → Block := fun _ => []
    let view₀ : Nat → Block := fun b => if b = 40 then [7] else []
    let d₁ := applyWrites d₀ ((commit 2 [40] ⟨view₀, []⟩).issued.take 2)
    let d := applyWrites d₁ (recoverFromLog 2 (Bcache.boot d₁)).issued
    ([40].Nodup ∧ (∀ b ∈ [40], b < 2 ∨ 2 + nlog ≤ b) ∧ [40].length + 1 ≤ nlog ∧ [40].length ≤ LOGSIZE ∧
      (∀ b ∈ [40], b < 2 ^ 32) ∧ headCount (d₀ 2) = 0) ∧
    ((∀ b ∈ [40], d b = d₀ b) ∨ (∀ b ∈ [40], d b = view₀ b)) ∧
      (∀ x, x < 2 ∨ 2 + nlog ≤ x → x ∉ [40] → d x = d₀ x) ∧ headCount (d 2) = 0 := by
  intro d₀ view₀ d₁ d
  have hnd : [40].Nodup := by decide
  have hout : ∀ b ∈ [40], b < 2 ∨ 2 + nlog ≤ b := by decide
  have hsize : [40].length + 1 ≤ nlog := by decide
  have hn : [40].length ≤ LOGSIZE := by decide
  have hb : ∀ b ∈ [40], b < 2 ^ 32 := by decide
  have h₀ : headCount (d₀ 2) = 0 := rfl
  exact ⟨⟨hnd, hout, hsize, hn, hb, h₀⟩, log_crash_atomic hnd hout hsize hn hb h₀ 2 (Recovers.done d₁)⟩

end Xv6
