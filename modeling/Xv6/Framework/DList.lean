import Mathlib

/-!
# Rings of doubly linked nodes with a sentinel

A circular doubly linked list through a sentinel node `h`, as kernels keep
their LRU lists: `next` and `prev` pointers on the nodes link `h :: m` into
a ring in that order (`Linked`). What the code does to such a list is said
once here: linking a node in after the sentinel (`pushFront`) puts it first
(`linked_pushFront`), unlinking a node (`unlink`) drops it
(`linked_unlink`), and walking from the sentinel along `next` until a node
passes a test (`seek`) finds the first such node of `m` (`seek_next`), and
along `prev` the last (`seek_prev`). All of it rests on one fact about
pointer updates: a chain of links stays linked where the pointers it reads
are unchanged (`isChain_update`).
-/

namespace Framework

variable {ν : Type}

/-- `a->next == b` and `b->prev == a`. -/
def Link (next prev : ν → ν) (a b : ν) : Prop := next a = b ∧ prev b = a

/-- `next` and `prev` link the nodes of `l` into a ring, in order. -/
def Linked (next prev : ν → ν) (l : List ν) : Prop := List.IsChain (Link next prev) (l ++ l.take 1)

theorem linked_iff {next prev : ν → ν} {h : ν} {m : List ν} :
    Linked next prev (h :: m) ↔ List.IsChain (Link next prev) (h :: m ++ [h]) := by
  simp [Linked]

/-- A chain stays linked under new pointers that agree with the old ones on
the `next` of every node but the last and the `prev` of every node but the
first. -/
theorem isChain_update {next prev next' prev' : ν → ν} :
    ∀ {l : List ν}, List.IsChain (Link next prev) l → (∀ a ∈ l.dropLast, next' a = next a) →
      (∀ b ∈ l.tail, prev' b = prev b) → List.IsChain (Link next' prev') l
  | [], _, _, _ => .nil
  | [_], _, _, _ => .singleton _
  | a :: b :: l, hc, hn, hp => by
    rw [List.isChain_cons_cons] at hc ⊢
    refine ⟨⟨by rw [hn a (by simp), hc.1.1], by rw [hp b (by simp), hc.1.2]⟩,
      isChain_update hc.2 (fun x hx => hn x ?_) (fun x hx => hp x (List.mem_of_mem_tail hx))⟩
    rw [List.dropLast_cons_cons]
    exact List.mem_cons_of_mem _ hx

/-- Following `prev` walks a ring backwards. -/
theorem linked_reverse {next prev : ν → ν} {h : ν} {m : List ν} (hl : Linked next prev (h :: m)) :
    Linked prev next (h :: m.reverse) := by
  rw [linked_iff] at hl ⊢
  have e : (h :: m ++ [h]).reverse = h :: m.reverse ++ [h] := by simp
  rw [← e, List.isChain_reverse]
  exact hl.imp fun a b hab => ⟨hab.2, hab.1⟩

/-- The sentinel's `next` is the first node, or the sentinel itself. -/
theorem next_sentinel {next prev : ν → ν} {h : ν} {m : List ν} (hl : Linked next prev (h :: m)) :
    next h = m.headD h := by
  rw [linked_iff] at hl
  cases m <;> exact (List.isChain_cons_cons.1 hl).1.1

/-- Where a chain `A ++ B` is cut or joined: `p` ends `A`, `n` starts `B`,
and no other node of the chains is `p` where the chain reads its `next` or
`n` where it reads its `prev`. -/
structure Seam (A B : List ν) (p n : ν) : Prop where
  last : p ∈ A.getLast?
  first : n ∈ B.head?
  left_next : ∀ a ∈ A.dropLast, a ≠ p
  left_prev : ∀ b ∈ A.tail, b ≠ n
  right_next : ∀ a ∈ B.dropLast, a ≠ p
  right_prev : ∀ b ∈ B.tail, b ≠ n

theorem ne_of_mem_dropLast {l : List ν} (hl : l.Nodup) {a p : ν} (hp : p ∈ l.getLast?)
    (ha : a ∈ l.dropLast) : a ≠ p := by
  rw [← List.dropLast_append_getLast? p hp] at hl
  exact (List.nodup_append.1 hl).2.2 a ha p (List.mem_singleton_self p)

theorem ne_of_mem_tail {l : List ν} (hl : l.Nodup) {b n : ν} (hn : n ∈ l.head?)
    (hb : b ∈ l.tail) : b ≠ n := by
  cases l with
  | nil => simp at hn
  | cons y l =>
    obtain rfl : y = n := by simpa using hn
    rintro rfl
    exact (List.nodup_cons.1 hl).1 hb

/-- The seam of the ring `h :: s ++ t` between `s` and `t`. -/
theorem Seam.ring {h p : ν} {s t : List ν} (hnd : (h :: (s ++ t)).Nodup) (hp : p ∈ (h :: s).getLast?) :
    Seam (h :: s) (t ++ [h]) p (t.headD h) := by
  have hA : (h :: s).Nodup := hnd.sublist ((List.sublist_append_left s t).cons_cons h)
  have hB : (t ++ [h]).Nodup :=
    (List.perm_append_singleton h t).nodup_iff.2 (hnd.sublist ((List.sublist_append_right s t).cons_cons h))
  have hp' : p ∈ h :: s := List.mem_of_getLast? hp
  have hn : t.headD h ∈ t ++ [h] := by cases t <;> simp
  have hdisj : ∀ a ∈ s, ∀ b ∈ t ++ [h], a ≠ b := by
    intro a ha b hb
    rw [List.nodup_cons, List.nodup_append] at hnd
    grind
  refine ⟨hp, by cases t <;> simp, fun a ha => ne_of_mem_dropLast hA hp ha,
    fun b hb => hdisj b hb _ hn, fun a ha => ?_, fun b hb => ne_of_mem_tail hB (by cases t <;> simp) hb⟩
  rw [List.dropLast_concat] at ha
  rintro rfl
  rcases List.mem_cons.1 hp' with rfl | hp'
  · exact (List.nodup_cons.1 hnd).1 (by simp [ha])
  · exact hdisj a hp' a (by simp [ha]) rfl

variable [DecidableEq ν]

/-- `for(b = start; b != h; b = step(b)) if(p(b)) return b;`, with the
walk bounded by `fuel` nodes. -/
def seek (step : ν → ν) (h : ν) (p : ν → Bool) : Nat → ν → Option ν
  | 0, _ => none
  | fuel + 1, b => if b = h then none else if p b then some b else seek step h p fuel (step b)

/-- `x` linked in after `h`:
`x->next = h->next; x->prev = h; h->next->prev = x; h->next = x;`. -/
def pushFront (next prev : ν → ν) (h x : ν) : (ν → ν) × (ν → ν) :=
  let next₁ := Function.update next x (next h)
  let prev₁ := Function.update (Function.update prev x h) (next₁ h) x
  (Function.update next₁ h x, prev₁)

/-- `x` unlinked: `x->next->prev = x->prev; x->prev->next = x->next;`. -/
def unlink (next prev : ν → ν) (x : ν) : (ν → ν) × (ν → ν) :=
  let prev₁ := Function.update prev (next x) (prev x)
  (Function.update next (prev₁ x) (next x), prev₁)

section Splice

variable {next prev : ν → ν} {A B : List ν} {x p n : ν}

/-- **Linking a node in at a seam** puts it between the two sides. -/
theorem isChain_pushFront (hc : List.IsChain (Link next prev) (A ++ B)) (hs : Seam A B p n)
    (hxA : x ∉ A) (hxB : x ∉ B) :
    List.IsChain (Link (pushFront next prev p x).1 (pushFront next prev p x).2) (A ++ x :: B) := by
  obtain ⟨hA, hB, hpn⟩ := List.isChain_append.1 hc
  have hpn : Link next prev p n := hpn p hs.last n hs.first
  have hxp : x ≠ p := fun e => hxA (e ▸ List.mem_of_getLast? hs.last)
  have hxn : x ≠ n := fun e => hxB (e ▸ List.mem_of_mem_head? hs.first)
  have e : pushFront next prev p x =
      (Function.update (Function.update next x n) p x, Function.update (Function.update prev x p) n x) := by
    simp [pushFront, Function.update_of_ne hxp.symm, hpn.1]
  -- the old nodes keep their pointers, except `p->next` and `n->prev`
  have hA' : ∀ a ∈ A, a ≠ x := fun a ha e => hxA (e ▸ ha)
  have hB' : ∀ a ∈ B, a ≠ x := fun a ha e => hxB (e ▸ ha)
  rw [e]
  dsimp only
  refine List.isChain_append.2 ⟨isChain_update hA (fun a ha => ?_) (fun b hb => ?_),
    List.isChain_cons.2 ⟨fun y hy => ?_, isChain_update hB (fun a ha => ?_) (fun b hb => ?_)⟩,
    fun a ha y hy => ?_⟩
  · rw [Function.update_of_ne (hs.left_next a ha), Function.update_of_ne (hA' a (List.dropLast_subset _ ha))]
  · rw [Function.update_of_ne (hs.left_prev b hb), Function.update_of_ne (hA' b (List.mem_of_mem_tail hb))]
  · obtain rfl := Option.mem_unique hy hs.first
    exact ⟨by simp [hxp], by simp⟩
  · rw [Function.update_of_ne (hs.right_next a ha), Function.update_of_ne (hB' a (List.dropLast_subset _ ha))]
  · rw [Function.update_of_ne (hs.right_prev b hb), Function.update_of_ne (hB' b (List.mem_of_mem_tail hb))]
  · obtain rfl := Option.mem_unique ha hs.last
    obtain rfl : y = x := by simpa using hy.symm
    simp [Link, hxn]

/-- **Unlinking the node between the two sides of a seam** joins them. -/
theorem isChain_unlink (hc : List.IsChain (Link next prev) (A ++ x :: B)) (hs : Seam A B p n)
    (hxn : x ≠ n) : List.IsChain (Link (unlink next prev x).1 (unlink next prev x).2) (A ++ B) := by
  obtain ⟨hAx, hxB⟩ := List.isChain_split.1 hc
  obtain ⟨hA, -, hpx⟩ := List.isChain_append.1 hAx
  have hpx : Link next prev p x := hpx p hs.last x rfl
  obtain ⟨hxn', hB⟩ := List.isChain_cons.1 hxB
  have hxn' : Link next prev x n := hxn' n hs.first
  have e : unlink next prev x = (Function.update next p n, Function.update prev n p) := by
    simp [unlink, hxn'.1, Function.update_of_ne hxn, hpx.2]
  rw [e]
  dsimp only
  refine List.isChain_append.2 ⟨isChain_update hA (fun a ha => ?_) (fun b hb => ?_),
    isChain_update hB (fun a ha => ?_) (fun b hb => ?_), fun a ha b hb => ?_⟩
  · exact Function.update_of_ne (hs.left_next a ha) ..
  · exact Function.update_of_ne (hs.left_prev b hb) ..
  · exact Function.update_of_ne (hs.right_next a ha) ..
  · exact Function.update_of_ne (hs.right_prev b hb) ..
  · obtain rfl := Option.mem_unique ha hs.last
    obtain rfl := Option.mem_unique hb hs.first
    simp [Link]

end Splice

section Ring

variable {next prev : ν → ν} {h x : ν} {m : List ν}

/-- **Linking a new node in after the sentinel makes it the first.** -/
theorem linked_pushFront (hl : Linked next prev (h :: m)) (hnd : (h :: m).Nodup) (hx : x ∉ h :: m) :
    Linked (pushFront next prev h x).1 (pushFront next prev h x).2 (h :: x :: m) := by
  have hxh : x ≠ h := fun e => hx (e ▸ List.mem_cons_self)
  have hxm : x ∉ m := fun e => hx (List.mem_cons_of_mem _ e)
  rw [linked_iff] at hl ⊢
  have hc : List.IsChain (Link next prev) ([h] ++ (m ++ [h])) := by simpa using hl
  have hs : Seam [h] (m ++ [h]) h (m.headD h) := Seam.ring (s := []) hnd rfl
  simpa using isChain_pushFront hc hs (by simpa using hxh) (by simp [hxm, hxh])

/-- **Unlinking a node of the ring drops it.** -/
theorem linked_unlink (hl : Linked next prev (h :: m)) (hnd : (h :: m).Nodup) (hx : x ∈ m) :
    Linked (unlink next prev x).1 (unlink next prev x).2 (h :: m.erase x) := by
  obtain ⟨s, t, rfl⟩ := List.append_of_mem hx
  have hxs : x ∉ s := ((List.nodup_middle.1 (List.nodup_cons.1 hnd).2).sublist (by simp)).notMem
  have hm : (s ++ x :: t).erase x = s ++ t := by
    rw [List.erase_append_right _ hxs, List.erase_cons_head]
  have hnd' : (h :: (s ++ t)).Nodup := by
    rw [List.nodup_cons, List.nodup_middle] at hnd
    rw [List.nodup_cons]
    exact ⟨fun e => hnd.1 (by grind), (List.nodup_cons.1 hnd.2).2⟩
  obtain ⟨p, hp⟩ : ∃ p, p ∈ (h :: s).getLast? := ⟨_, List.getLast?_eq_some_getLast (by simp)⟩
  rw [linked_iff] at hl ⊢
  rw [hm]
  have hc : List.IsChain (Link next prev) ((h :: s) ++ x :: (t ++ [h])) := by simpa using hl
  have hxn : x ≠ t.headD h := by
    cases t <;> simp at hnd ⊢ <;> grind
  simpa using isChain_unlink hc (Seam.ring hnd' hp) hxn

theorem seek_chain {p : ν → Bool} : ∀ {m : List ν} {n : Nat}, List.IsChain (Link next prev) (m ++ [h]) →
    h ∉ m → m.length < n → seek next h p n (m.headD h) = m.find? p
  | [], fuel + 1, _, _, _ => by simp [seek]
  | y :: m, fuel + 1, hc, hh, hf => by
    have hy : y ≠ h := fun e => hh (e ▸ List.mem_cons_self)
    have hstep : next y = m.headD h := by
      cases m <;> exact (List.isChain_cons_cons.1 hc).1.1
    have ih := seek_chain (p := p) (n := fuel) (List.isChain_cons.1 hc).2
      (fun e => hh (List.mem_cons_of_mem _ e)) (by simpa using hf)
    by_cases hp : p y
    · simp [seek, hy, hp]
    · rw [List.headD_cons, seek, if_neg hy, if_neg hp, hstep, ih, List.find?_cons_of_neg hp]

/-- **Walking forward from the sentinel finds the first node that passes**,
given fuel for the whole ring. -/
theorem seek_next {p : ν → Bool} {fuel : Nat} (hl : Linked next prev (h :: m)) (hh : h ∉ m)
    (hf : m.length < fuel) : seek next h p fuel (next h) = m.find? p := by
  rw [next_sentinel hl]
  exact seek_chain (linked_iff.1 hl).tail hh hf

/-- **Walking backward from the sentinel finds the last node that passes.** -/
theorem seek_prev {p : ν → Bool} {fuel : Nat} (hl : Linked next prev (h :: m)) (hh : h ∉ m)
    (hf : m.length < fuel) : seek prev h p fuel (prev h) = m.reverse.find? p :=
  seek_next (linked_reverse hl) (by simpa using hh) (by simpa using hf)

end Ring

end Framework
