import Mathlib

/-!
# Copies into and out of a paged address space

An address space of pages of `P` bytes (`Space`): which pages may be
accessed, named by the address of their first byte, and the byte at every
address. `Space.copyout` and `Space.copyin` copy page by page, as a kernel
does through a page table: each round looks the page up, fails if it is not
accessible, and otherwise moves the bytes up to the end of that page. A
failed copy has already moved the bytes of the pages before.

Both are described by one number, `okLen`: the bytes of the range that come
before its first inaccessible page (`copyout_eq`, `copyin_eq`). A copy
succeeds iff every page it touches is accessible (`copyout_fst_eq_zero`),
and what a successful `copyout` stored a later `copyin` reads back
(`copyin_of_copyout`). A buffer copied in runs that lie one after another
(`Tiles`) is read whole (`Space.read_tiles`).
-/

namespace Framework

/-- Runs `(start, length)` that lie one after another from `o` on, as the
rounds of a copy made piece by piece do. -/
def Tiles : Nat → List (Nat × Nat) → Prop
  | _, [] => True
  | o, r :: rs => r.1 = o ∧ Tiles (o + r.2) rs

/-- One more run extends a tiling where the others end. -/
theorem tiles_append_singleton {o : Nat} {rs : List (Nat × Nat)} {r : Nat × Nat} :
    Tiles o (rs ++ [r]) ↔ Tiles o rs ∧ r.1 = o + (rs.map Prod.snd).sum := by
  induction rs generalizing o with
  | nil => simp [Tiles]
  | cons r' rs ih =>
    simp only [List.cons_append, Tiles, ih, List.map_cons, List.sum_cons, Nat.add_assoc, and_assoc]

/-- An address space: `ok a` says whether the page whose first byte is at
`a` may be accessed; `byte x` is the byte at `x`. -/
structure Space (α : Type) where
  ok : Nat → Bool
  byte : Nat → α

namespace Space

variable {α : Type}

/-- The `n` bytes from `a` on. -/
def read (m : Space α) (a : Nat) : Nat → List α
  | 0 => []
  | n + 1 => m.byte a :: m.read (a + 1) n

/-- `m` with `bs` stored from `a` on. -/
def write (m : Space α) (a : Nat) (bs : List α) : Space α :=
  { m with byte := fun x => if a ≤ x then bs.getD (x - a) (m.byte x) else m.byte x }

@[simp] theorem write_ok (m : Space α) (a : Nat) (bs : List α) : (m.write a bs).ok = m.ok := rfl

@[simp] theorem length_read (m : Space α) (a n : Nat) : (m.read a n).length = n := by
  induction n generalizing a with
  | zero => rfl
  | succ n ih => simp [read, ih]

theorem read_add (m : Space α) (a n k : Nat) : m.read a (n + k) = m.read a n ++ m.read (a + n) k := by
  induction n generalizing a with
  | zero => simp [read]
  | succ n ih =>
    rw [Nat.add_right_comm, read, ih, read, List.cons_append, Nat.add_right_comm a 1 n, Nat.add_assoc]

/-- A read in runs that lie one after another is one read. -/
theorem read_tiles (m : Space α) (a : Nat) :
    ∀ {o : Nat} {rs : List (Nat × Nat)}, Tiles o rs →
      rs.flatMap (fun r => m.read (a + r.1) r.2) = m.read (a + o) (rs.map Prod.snd).sum
  | _, [], _ => rfl
  | o, r :: rs, ⟨h₁, h₂⟩ => by
    rw [List.flatMap_cons, read_tiles m a h₂, h₁, List.map_cons, List.sum_cons, read_add, Nat.add_assoc]

theorem read_congr {m m' : Space α} {a n : Nat} (h : ∀ i < n, m.byte (a + i) = m'.byte (a + i)) :
    m.read a n = m'.read a n := by
  induction n generalizing a with
  | zero => rfl
  | succ n ih =>
    simp only [read]
    rw [show m.byte a = m'.byte a from h 0 (by omega), ih fun i hi => ?_]
    simpa [Nat.add_assoc, Nat.add_comm 1 i] using h (i + 1) (by omega)

theorem write_byte_of_lt (m : Space α) {a x : Nat} (bs : List α) (h : x < a) :
    (m.write a bs).byte x = m.byte x := by
  simp [write, show ¬ a ≤ x by omega]

theorem write_byte_of_ge (m : Space α) {a x : Nat} {bs : List α} (h : a + bs.length ≤ x) :
    (m.write a bs).byte x = m.byte x := by
  simp only [write, show a ≤ x by omega, ite_true]
  exact List.getD_eq_default _ _ (by omega)

theorem write_byte_add (m : Space α) (a : Nat) {bs : List α} {i : Nat} (h : i < bs.length) :
    (m.write a bs).byte (a + i) = bs[i] := by
  simp [write, List.getElem?_eq_getElem h]

/-- The bytes outside the range written are unchanged. -/
theorem write_byte_out (m : Space α) {a x : Nat} {bs : List α} (h : x < a ∨ a + bs.length ≤ x) :
    (m.write a bs).byte x = m.byte x := by
  rcases h with h | h
  · exact m.write_byte_of_lt bs h
  · exact m.write_byte_of_ge h

/-- A range whose bytes are those of a list reads as that list. -/
theorem read_eq_of_bytes (m : Space α) {a : Nat} {l : List α}
    (h : ∀ i (hi : i < l.length), m.byte (a + i) = l[i]) : m.read a l.length = l := by
  induction l generalizing a with
  | nil => rfl
  | cons b l ih =>
    simp only [List.length_cons, read]
    rw [show m.byte a = b from h 0 (by simp), ih fun i hi => ?_]
    have e := h (i + 1) (by simpa using hi)
    rwa [List.getElem_cons_succ, ← Nat.add_assoc, Nat.add_right_comm] at e

theorem read_write_self (m : Space α) (a : Nat) (bs : List α) : (m.write a bs).read a bs.length = bs :=
  read_eq_of_bytes _ fun _ hi => write_byte_add m a hi

/-- Reading a range that a write does not touch. -/
theorem read_write_out (m : Space α) {a b n : Nat} {bs : List α} (h : b + n ≤ a ∨ a + bs.length ≤ b) :
    (m.write a bs).read b n = m.read b n :=
  read_congr fun i hi => m.write_byte_out (by omega)

/-- Storing a byte just past a range that reads as `out` extends it. -/
theorem read_write_snoc (m : Space α) {a : Nat} {out : List α} (h : m.read a out.length = out) (c : α) :
    (m.write (a + out.length) [c]).read a (out.length + 1) = out ++ [c] := by
  rw [read_add, read_write_out _ (.inl (le_refl _)), h]
  exact congrArg (out ++ ·) (read_write_self m _ [c])

theorem write_append (m : Space α) (a : Nat) (bs cs : List α) :
    m.write a (bs ++ cs) = (m.write a bs).write (a + bs.length) cs := by
  cases m with
  | mk ok byte =>
    simp only [write, mk.injEq, true_and]
    funext x
    by_cases h₁ : a + bs.length ≤ x
    · simp only [show a ≤ x by omega, h₁, ite_true]
      rw [List.getD_append_right _ _ _ _ (by omega), show x - a - bs.length = x - (a + bs.length) by omega,
        List.getD_eq_default bs _ (by omega)]
    · simp only [h₁, ite_false]
      by_cases h₂ : a ≤ x
      · simp only [h₂, ite_true, List.getD_append bs cs (byte x) (x - a) (by omega)]
      · simp [h₂]

@[simp] theorem write_nil (m : Space α) (a : Nat) : m.write a [] = m := by
  cases m with
  | mk ok byte => simp only [write, List.getD_nil, ite_self]

section Pages

variable (P : Nat)

/-- How many bytes of `[a, a + n)` come before the first one on an inaccessible
page. -/
def okLen (m : Space α) (a : Nat) : Nat → Nat
  | 0 => 0
  | n + 1 => if m.ok (a / P * P) then okLen m (a + 1) n + 1 else 0

/-- `copyout`: store `src` from `dstva` on, page by page; `-1` at the first
inaccessible page, `0` when all of `src` is stored. -/
def copyout [NeZero P] (m : Space α) (dstva : Nat) (src : List α) : Int × Space α :=
  if h : src.length = 0 then (0, m)
  else
    let va0 := dstva / P * P
    if m.ok va0 then
      let n := min (P - (dstva - va0)) src.length
      copyout (m.write dstva (src.take n)) (va0 + P) (src.drop n)
    else (-1, m)
termination_by src.length
decreasing_by
  have := Nat.div_mul_le_self dstva P
  have := Nat.lt_div_mul_add (a := dstva) (Nat.pos_of_neZero P)
  simp only [List.length_drop]; omega

/-- `copyin`: the `len` bytes from `srcva` on, page by page; `-1` at the first
inaccessible page, with the bytes moved before it. -/
def copyin [NeZero P] (m : Space α) (srcva len : Nat) : Int × List α :=
  if h : len = 0 then (0, [])
  else
    let va0 := srcva / P * P
    if m.ok va0 then
      let n := min (P - (srcva - va0)) len
      let r := copyin m (va0 + P) (len - n)
      (r.1, m.read srcva n ++ r.2)
    else (-1, [])
termination_by len
decreasing_by
  have := Nat.div_mul_le_self srcva P
  have := Nat.lt_div_mul_add (a := srcva) (Nat.pos_of_neZero P)
  omega

variable {P}

theorem okLen_le (m : Space α) (a n : Nat) : okLen P m a n ≤ n := by
  induction n generalizing a with
  | zero => rfl
  | succ n ih => simp only [okLen]; split <;> [have := ih (a + 1); skip] <;> omega

/-- Splitting `[a, a + k + n)` after `k` bytes. -/
theorem okLen_add (m : Space α) (a k n : Nat) :
    okLen P m a (k + n) = if okLen P m a k = k then k + okLen P m (a + k) n else okLen P m a k := by
  induction k generalizing a with
  | zero => simp [okLen]
  | succ k ih =>
    rw [Nat.add_right_comm, okLen, okLen, ih (a + 1), Nat.add_right_comm a 1 k, Nat.add_assoc a k 1]
    by_cases hp : m.ok (a / P * P)
    · simp only [hp, ite_true]
      by_cases hk : okLen P m (a + 1) k = k
      · simp only [hk, ite_true]; omega
      · simp only [hk, ite_false, show ¬ okLen P m (a + 1) k + 1 = k + 1 by omega]
    · simp [hp]

theorem div_mul_add_of_lt {q r : Nat} (hr : r < P) : (q * P + r) / P * P = q * P := by
  have hP : 0 < P := by omega
  rw [Nat.add_comm, Nat.add_mul_div_right _ _ hP, Nat.div_eq_of_lt hr, Nat.zero_add]

/-- The bytes of one accessible page, from `a` to at most its end, all count. -/
theorem okLen_page (m : Space α) {a c : Nat} (hp : m.ok (a / P * P)) (hc : c ≤ P - a % P) :
    okLen P m a c = c := by
  rcases Nat.eq_zero_or_pos P with rfl | hP
  · obtain rfl : c = 0 := by simpa using hc
    rfl
  rw [← Nat.div_add_mod' a P] at hp ⊢
  rw [div_mul_add_of_lt (Nat.mod_lt a hP)] at hp
  generalize a % P = r at hc ⊢
  induction c generalizing r with
  | zero => rfl
  | succ c ih =>
    rw [okLen, div_mul_add_of_lt (by omega), if_pos hp, Nat.add_assoc, ih (r + 1) (by omega)]

@[simp] theorem okLen_write (m : Space α) (a : Nat) (bs : List α) (x n : Nat) :
    okLen P (m.write a bs) x n = okLen P m x n := by
  induction n generalizing x with
  | zero => rfl
  | succ n ih => simp only [okLen, write_ok, ih]

theorem okLen_bad (m : Space α) {a n : Nat} (hp : m.ok (a / P * P) = false) (hn : 0 < n) :
    okLen P m a n = 0 := by
  obtain ⟨n, rfl⟩ : ∃ k, n = k + 1 := ⟨n - 1, by omega⟩
  simp [okLen, hp]

/-- All of a range counts iff every byte of it lies on an accessible page. -/
theorem okLen_eq_iff (m : Space α) (a n : Nat) : okLen P m a n = n ↔ ∀ i < n, m.ok ((a + i) / P * P) := by
  induction n generalizing a with
  | zero => simp [okLen]
  | succ n ih =>
    rw [okLen]
    by_cases hp : m.ok (a / P * P)
    · rw [if_pos hp, Nat.add_right_cancel_iff, ih]
      refine ⟨fun h i hi => ?_, fun h i hi => ?_⟩
      · cases i with
        | zero => simpa using hp
        | succ i => simpa [Nat.add_assoc, Nat.add_comm 1 i] using h i (by omega)
      · simpa [Nat.add_assoc, Nat.add_comm 1 i] using h (i + 1) (by omega)
    · rw [if_neg hp]
      exact ⟨fun h => absurd h (by omega), fun h => absurd (by simpa using h 0 (by omega)) hp⟩

variable [NeZero P]

/-- Where the first page round of a copy from `a` ends. -/
theorem page_end (a : Nat) : a / P * P + P = a + (P - (a - a / P * P)) := by
  have := Nat.div_mul_le_self a P
  have := Nat.lt_div_mul_add (a := a) (Nat.pos_of_neZero P)
  omega

/-- One page round of `okLen`: the bytes of the first page, then the rest. -/
theorem okLen_round (m : Space α) {a n : Nat} (hp : m.ok (a / P * P)) :
    okLen P m a n = min (P - (a - a / P * P)) n +
      okLen P m (a / P * P + P) (n - min (P - (a - a / P * P)) n) := by
  have hmod : a - a / P * P = a % P := by rw [Nat.mod_eq_sub_div_mul]
  have e := okLen_add (P := P) m a (min (P - (a - a / P * P)) n) (n - min (P - (a - a / P * P)) n)
  rw [Nat.add_sub_cancel' (Nat.min_le_right _ _), okLen_page (c := min (P - (a - a / P * P)) n) m hp (by omega),
    if_pos rfl] at e
  rw [e, page_end]
  by_cases h : P - (a - a / P * P) ≤ n
  · rw [Nat.min_eq_left h]
  · rw [Nat.min_eq_right (by omega), Nat.sub_self, okLen, okLen]

theorem write_take_drop (m : Space α) (a : Nat) (src : List α) {c k : Nat} (hc : c ≤ src.length) :
    (m.write a (src.take c)).write (a + c) ((src.drop c).take k) = m.write a (src.take (c + k)) := by
  rw [List.take_add, write_append, List.length_take, Nat.min_eq_left hc]

/-- **What `copyout` does**: it stores the first `okLen` bytes of `src`, and
reports success iff that is all of them. -/
theorem copyout_eq (m : Space α) (a : Nat) (src : List α) :
    copyout P m a src =
      (if okLen P m a src.length = src.length then 0 else -1, m.write a (src.take (okLen P m a src.length))) := by
  induction m, a, src using copyout.induct P with
  | case1 m a src h =>
    rw [copyout, dif_pos h, List.length_eq_zero_iff.mp h]; simp [okLen]
  | case2 m a src h va0 hp n ih =>
    have h₁ := Nat.div_mul_le_self a P
    have h₂ := Nat.lt_div_mul_add (a := a) (Nat.pos_of_neZero P)
    rw [copyout, dif_neg h]
    simp only [va0, n] at hp ih ⊢
    rw [if_pos hp, ih, okLen_write, okLen_round m hp, List.length_drop]
    have hlen : min (P - (a - a / P * P)) src.length ≤ src.length := Nat.min_le_right _ _
    have hpos : 0 < min (P - (a - a / P * P)) src.length := by omega
    congr 1
    · split <;> split <;> omega
    · by_cases hfull : P - (a - a / P * P) ≤ src.length
      · rw [Nat.min_eq_left hfull] at hlen ⊢
        rw [page_end, write_take_drop m a src hlen]
      · rw [Nat.min_eq_right (by omega), List.drop_length, List.take_nil, write_nil,
          List.take_of_length_le (by omega), List.take_of_length_le (by omega)]
  | case3 m a src h va0 hp =>
    rw [copyout, dif_neg h]
    simp only [va0] at hp ⊢
    rw [if_neg (by simpa using hp), okLen_bad m (by simpa using hp) (by omega)]
    simp only [List.take_zero, write_nil]
    rw [if_neg (by omega)]

/-- **What `copyin` does**: it reads the first `okLen` bytes, and reports
success iff that is all of them. -/
theorem copyin_eq (m : Space α) (a n : Nat) :
    copyin P m a n = (if okLen P m a n = n then 0 else -1, m.read a (okLen P m a n)) := by
  induction a, n using copyin.induct P m with
  | case1 a => simp [copyin, okLen, read]
  | case2 a n h va0 hp c ih =>
    have h₁ := Nat.div_mul_le_self a P
    have h₂ := Nat.lt_div_mul_add (a := a) (Nat.pos_of_neZero P)
    rw [copyin, dif_neg h]
    simp only [va0, c] at hp ih ⊢
    rw [if_pos hp, ih, okLen_round m hp, read_add]
    congr 1
    · split <;> split <;> omega
    · dsimp only
      by_cases hfull : P - (a - a / P * P) ≤ n
      · rw [Nat.min_eq_left hfull, page_end]
      · rw [Nat.min_eq_right (by omega), Nat.sub_self, okLen, read, read]
  | case3 a n h va0 hp =>
    rw [copyin, dif_neg h]
    simp only [va0] at hp ⊢
    rw [if_neg (by simpa using hp), okLen_bad m (by simpa using hp) (by omega), if_neg (Ne.symm h)]
    rfl

theorem copyout_nil (m : Space α) (a : Nat) : copyout P m a [] = (0, m) := by
  rw [copyout, dif_pos List.length_nil]

theorem copyout_of_bad (m : Space α) {a : Nat} {src : List α} (h : src ≠ []) (hp : m.ok (a / P * P) = false) :
    copyout P m a src = (-1, m) := by
  rw [copyout, dif_neg (by simpa using h)]
  simp [hp]

/-- One page round of `copyout`, on an accessible page. -/
theorem copyout_round (m : Space α) {a : Nat} {src : List α} (h : src ≠ []) (hp : m.ok (a / P * P) = true) :
    copyout P m a src =
      copyout P (m.write a (src.take (min (P - a % P) src.length))) (a / P * P + P)
        (src.drop (min (P - a % P) src.length)) := by
  rw [copyout, dif_neg (by simpa using h), Nat.mod_eq_sub_div_mul]
  simp only [hp, if_true]

theorem copyin_zero (m : Space α) (a : Nat) : copyin P m a 0 = (0, []) := by
  rw [copyin, dif_pos rfl]

theorem copyin_of_bad (m : Space α) {a n : Nat} (h : n ≠ 0) (hp : m.ok (a / P * P) = false) :
    copyin P m a n = (-1, []) := by
  rw [copyin, dif_neg h]
  simp [hp]

/-- One page round of `copyin`, on an accessible page. -/
theorem copyin_round (m : Space α) {a n : Nat} (h : n ≠ 0) (hp : m.ok (a / P * P) = true) :
    copyin P m a n =
      ((copyin P m (a / P * P + P) (n - min (P - a % P) n)).1,
        m.read a (min (P - a % P) n) ++ (copyin P m (a / P * P + P) (n - min (P - a % P) n)).2) := by
  rw [copyin, dif_neg h, Nat.mod_eq_sub_div_mul]
  simp only [hp, if_true]

/-- A `copyout` whose pages are all accessible stores all of `src`. -/
theorem copyout_of_ok (m : Space α) {a : Nat} {src : List α}
    (h : ∀ i < src.length, m.ok ((a + i) / P * P)) : copyout P m a src = (0, m.write a src) := by
  rw [copyout_eq, (okLen_eq_iff m a _).mpr h, if_pos rfl, List.take_length]

/-- A `copyin` whose pages are all accessible reads all `n` bytes. -/
theorem copyin_of_ok (m : Space α) {a n : Nat} (h : ∀ i < n, m.ok ((a + i) / P * P)) :
    copyin P m a n = (0, m.read a n) := by
  rw [copyin_eq, (okLen_eq_iff m a _).mpr h, if_pos rfl]

/-- A `copyout` succeeds iff every page it touches is accessible. -/
theorem copyout_fst_eq_zero (m : Space α) (a : Nat) (src : List α) :
    (copyout P m a src).1 = 0 ↔ ∀ i < src.length, m.ok ((a + i) / P * P) := by
  rw [copyout_eq, ← okLen_eq_iff]
  split <;> simp_all

/-- A `copyin` succeeds iff every page it touches is accessible. -/
theorem copyin_fst_eq_zero (m : Space α) (a n : Nat) :
    (copyin P m a n).1 = 0 ↔ ∀ i < n, m.ok ((a + i) / P * P) := by
  rw [copyin_eq, ← okLen_eq_iff]
  split <;> simp_all

/-- A one-byte `copyin` reads the byte iff its page is accessible. -/
theorem copyin_one (m : Space α) (a : Nat) :
    copyin P m a 1 = if m.ok (a / P * P) then (0, [m.byte a]) else (-1, []) := by
  rw [copyin_eq]
  by_cases h : m.ok (a / P * P) <;> simp [okLen, read, h]

/-- A one-byte `copyout` stores the byte iff its page is accessible. -/
theorem copyout_one (m : Space α) (a : Nat) (c : α) :
    copyout P m a [c] = if m.ok (a / P * P) then (0, m.write a [c]) else (-1, m) := by
  rw [copyout_eq]
  by_cases h : m.ok (a / P * P) <;> simp [okLen, h]

/-- `copyout` stores nothing below its destination. -/
theorem copyout_byte_of_lt (m : Space α) {a x : Nat} (src : List α) (h : x < a) :
    (copyout P m a src).2.byte x = m.byte x := by
  rw [copyout_eq]
  exact write_byte_of_lt m _ h

/-- What a successful `copyout` stored, a `copyin` of the same range reads
back from any space that has kept those bytes. -/
theorem copyin_of_copyout {m m' : Space α} {a : Nat} {src : List α} (h : copyout P m a src = (0, m'))
    {m'' : Space α} (hok : m''.ok = m.ok) (hb : ∀ i < src.length, m''.byte (a + i) = m'.byte (a + i)) :
    copyin P m'' a src.length = (0, src) := by
  have hall := (copyout_fst_eq_zero m a src).mp (by rw [h])
  rw [copyout_of_ok m hall, Prod.mk.injEq] at h
  rw [copyin_of_ok m'' (by rw [hok]; exact hall), read_congr hb, ← h.2, read_write_self]

end Pages

end Space

end Framework
