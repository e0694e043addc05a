import Mathlib

/-!
# Reachable states and runs

The states of a transition system reachable from an initial one
(`Reachable`), the rule that proves an invariant of all of them from a base
case and a step case (`Reachable.inv`), and runs of a partial step function
along a list of labels (`run`), each of which ends in a reachable state
(`Reachable.of_run`): a concrete trace is the witness that a state is
reachable, and an invariant of the steps holds at the end of every run
(`run_inv`). Two systems that step in lockstep along the same labels relate
the ends of their runs (`run_sim`). Invariants that count over the parties of a system change a sum
one party at a time (`sum_update_add`).
-/

namespace Framework

variable {σ : Type}

/-- The states reachable by `step` from a state satisfying `init`. -/
def Reachable (init : σ → Prop) (step : σ → σ → Prop) (s : σ) : Prop :=
  ∃ s₀, init s₀ ∧ Relation.ReflTransGen step s₀ s

namespace Reachable

variable {init : σ → Prop} {step : σ → σ → Prop}

theorem init_mem {s : σ} (h : init s) : Reachable init step s := ⟨s, h, .refl⟩

theorem step_mem {s s' : σ} (h : Reachable init step s) (hs : step s s') : Reachable init step s' :=
  let ⟨s₀, h₀, hr⟩ := h
  ⟨s₀, h₀, hr.tail hs⟩

/-- **Invariant rule**: what holds initially and is kept by every step holds
in every reachable state. -/
theorem inv {I : σ → Prop} (h₀ : ∀ s, init s → I s) (hs : ∀ s s', I s → step s s' → I s') {s : σ}
    (h : Reachable init step s) : I s := by
  obtain ⟨s₀, hinit, hr⟩ := h
  induction hr with
  | refl => exact h₀ s₀ hinit
  | tail _ hst ih => exact hs _ _ ih hst

end Reachable

/-- Run a partial step function along a list of labels. -/
def run {L : Type} (next : σ → L → Option σ) : σ → List L → Option σ
  | s, [] => some s
  | s, l :: ls => (next s l).bind fun s' => run next s' ls

theorem run_append {L : Type} (next : σ → L → Option σ) (s : σ) (ls ks : List L) :
    run next s (ls ++ ks) = (run next s ls).bind fun s' => run next s' ks := by
  induction ls generalizing s with
  | nil => rfl
  | cons l ls ih =>
    simp only [List.cons_append, run]
    cases next s l with
    | none => rfl
    | some s' => exact ih s'

/-- A run of steps of `step` from a reachable state ends in a reachable state. -/
theorem Reachable.of_run {L : Type} {init : σ → Prop} {step : σ → σ → Prop} {next : σ → L → Option σ}
    (hnext : ∀ s l s', next s l = some s' → step s s') :
    ∀ (ls : List L) {s s' : σ}, Reachable init step s → run next s ls = some s' → Reachable init step s'
  | [], _, _, h, hr => by cases hr; exact h
  | l :: ls, s, s', h, hr => by
    simp only [run] at hr
    cases hn : next s l with
    | none => simp [hn] at hr
    | some s₁ =>
      rw [hn, Option.bind_some] at hr
      exact Reachable.of_run hnext ls (h.step_mem (hnext s l s₁ hn)) hr

/-- An invariant that every step on a label satisfying `P` keeps holds at
the end of every run along such labels. -/
theorem run_inv {L : Type} {next : σ → L → Option σ} {P : L → Prop} {I : σ → Prop}
    (hstep : ∀ s l s', P l → I s → next s l = some s' → I s') :
    ∀ (ls : List L) {s s' : σ}, (∀ l ∈ ls, P l) → I s → run next s ls = some s' → I s'
  | [], _, _, _, hI, hr => by cases hr; exact hI
  | l :: ls, s, s', hP, hI, hr => by
    simp only [run] at hr
    cases hn : next s l with
    | none => simp [hn] at hr
    | some s₁ =>
      rw [hn, Option.bind_some] at hr
      exact run_inv hstep ls (fun l hl => hP l (List.mem_cons_of_mem _ hl))
        (hstep s l s₁ (hP l List.mem_cons_self) hI hn) hr

/-- **Lockstep simulation**: a relation between the states of two systems
that every step on a label satisfying `P` keeps, with the other system
taking a step on the same label, relates the ends of runs along labels that
all satisfy `P`. -/
theorem run_sim {σ' L : Type} {next : σ → L → Option σ} {next' : σ' → L → Option σ'} {R : σ → σ' → Prop}
    {P : L → Prop} (hstep : ∀ s t l s', P l → R s t → next s l = some s' → ∃ t', next' t l = some t' ∧ R s' t') :
    ∀ (ls : List L) {s : σ} {t : σ'} {s' : σ}, (∀ l ∈ ls, P l) → R s t → run next s ls = some s' →
      ∃ t', run next' t ls = some t' ∧ R s' t'
  | [], _, t, _, _, hR, hr => by cases hr; exact ⟨t, rfl, hR⟩
  | l :: ls, s, t, s', hP, hR, hr => by
    simp only [run] at hr
    cases hn : next s l with
    | none => simp [hn] at hr
    | some s₁ =>
      rw [hn, Option.bind_some] at hr
      obtain ⟨t₁, ht₁, hR₁⟩ := hstep s t l s₁ (hP l List.mem_cons_self) hR hn
      obtain ⟨t', ht', hR'⟩ := run_sim hstep ls (fun l hl => hP l (List.mem_cons_of_mem _ hl)) hR₁ hr
      exact ⟨t', by simp only [run]; rw [ht₁, Option.bind_some]; exact ht', hR'⟩

/-- Changing one party's entry changes a sum over the parties by the
difference. -/
theorem sum_update_add {ι β : Type} [Fintype ι] [DecidableEq ι] (g : β → Nat) (φ : ι → β) (p : ι) (v : β) :
    ∑ x, g (Function.update φ p v x) + g (φ p) = ∑ x, g (φ x) + g v := by
  rw [← Finset.add_sum_erase _ _ (Finset.mem_univ p), ← Finset.add_sum_erase _ _ (Finset.mem_univ p),
    Function.update_self, Finset.sum_congr rfl fun x hx => by
      rw [Function.update_of_ne (Finset.ne_of_mem_erase hx)]]
  omega

end Framework
