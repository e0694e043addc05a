import Mathlib

/-!
# `grep`

`user/grep.c`: Kernighan and Pike's matcher (`match`, `matchhere`,
`matchstar`) and the loop that reads the input into a 1024-byte buffer and
prints the lines that match. Strings are the characters before their NUL.

A pattern is read left to right as atoms (`atoms`): a character followed by
`*` stands for any number of copies of it, any other character for
itself, and `.` in either place for any character. A leading `^` anchors
the match at the start of the text and a final `$` at its end
(`Selects`). `match` accepts exactly the texts `Selects` describes
(`match_spec`); being a definition, it terminates on every input.
-/

namespace Xv6

mutual

/-- `matchhere(re, text)`: whether `re` matches at the start of `text`. -/
def matchhere (re text : List Char) : Bool :=
  match re with
  | [] => true
  | c :: rest =>
    if _h : rest.head? = some '*' then matchstar c rest.tail text
    else if c = '$' ∧ rest = [] then text.isEmpty
    else
      match text with
      | t :: text => (c == '.' || c == t) && matchhere rest text
      | [] => false
termination_by (re.length, text.length)
decreasing_by
  · have : rest ≠ [] := fun e => by rw [e] at _h; cases _h
    have := List.length_pos_of_ne_nil this
    apply Prod.Lex.left
    simp only [List.length_cons, List.length_tail]
    omega
  · apply Prod.Lex.left
    simp

/-- `matchstar(c, re, text)`: whether `c*re` matches at the start of `text`. -/
def matchstar (c : Char) (re text : List Char) : Bool :=
  matchhere re text ||
    match text with
    | t :: rest => (t == c || c == '.') && matchstar c re rest
    | [] => false
termination_by (re.length + 1, text.length)

end

/-- The loop of `match` without a `^`: `matchhere` at each position of
`text`, the end included. -/
def matchLoop (re : List Char) : List Char → Bool
  | [] => matchhere re []
  | t :: text => matchhere re (t :: text) || matchLoop re text

/-- `match(re, text)`. -/
def match_ (re text : List Char) : Bool :=
  if re.head? = some '^' then matchhere re.tail text else matchLoop re text

/-! ## What a pattern means -/

/-- An atom of a pattern: one character, or a starred one. `.` stands for
any character. -/
inductive Atom where
  | one (c : Char)
  | star (c : Char)
  deriving DecidableEq, Repr

/-- The pattern read left to right as atoms. -/
def atoms : List Char → List Atom
  | [] => []
  | c :: '*' :: re => .star c :: atoms re
  | c :: re => .one c :: atoms re

/-- The words of a list of atoms. -/
inductive Matches : List Atom → List Char → Prop where
  | nil : Matches [] []
  | one {c t : Char} {as : List Atom} {w : List Char} : (c = '.' ∨ c = t) → Matches as w →
      Matches (.one c :: as) (t :: w)
  | skip {c : Char} {as : List Atom} {w : List Char} : Matches as w → Matches (.star c :: as) w
  | more {c t : Char} {as : List Atom} {w : List Char} : (c = '.' ∨ c = t) → Matches (.star c :: as) w →
      Matches (.star c :: as) (t :: w)

/-- The pattern after a leading `^`, and whether there was one. -/
def caret (re : List Char) : Bool × List Char := if re.head? = some '^' then (true, re.tail) else (false, re)

/-- Whether a pattern ends in `$`, which, being last, has no `*` after it. -/
def endsInDollar (re : List Char) : Bool := re.getLast? == some '$'

/-- The pattern without its final `$`. -/
def body (re : List Char) : List Char := if endsInDollar re then re.dropLast else re

/-- **What `match(re, text)` should decide**: some substring `text[i, j)`
is a word of the atoms of `re`, with `i = 0` if `re` begins with `^` and `j`
the end of `text` if the rest of `re` ends in `$`. -/
def Selects (re text : List Char) : Prop :=
  ∃ i j, i ≤ j ∧ j ≤ text.length ∧ ((caret re).1 = true → i = 0) ∧
    (endsInDollar (caret re).2 = true → j = text.length) ∧
    Matches (atoms (body (caret re).2)) ((text.drop i).take (j - i))

/-- What `matchhere re` should decide of the start of `w`. -/
def Here (re w : List Char) : Prop :=
  ∃ k ≤ w.length, (endsInDollar re = true → k = w.length) ∧ Matches (atoms (body re)) (w.take k)

/-! ## The language of atoms -/

section Matches

variable {c : Char} {as : List Atom} {w : List Char}

theorem matches_nil_iff : Matches [] w ↔ w = [] := by
  constructor
  · rintro ⟨⟩
    rfl
  · rintro rfl
    exact .nil

theorem matches_one_iff : Matches (.one c :: as) w ↔ ∃ t w', w = t :: w' ∧ (c = '.' ∨ c = t) ∧ Matches as w' := by
  constructor
  · rintro (_ | ⟨ht, hm⟩)
    exact ⟨_, _, rfl, ht, hm⟩
  · rintro ⟨t, w', rfl, ht, hm⟩
    exact .one ht hm

/-- A starred atom takes some prefix of copies, the rest takes the rest. -/
theorem matches_star_iff :
    Matches (.star c :: as) w ↔ ∃ n ≤ w.length, (∀ x ∈ w.take n, c = '.' ∨ c = x) ∧ Matches as (w.drop n) := by
  induction w with
  | nil =>
    constructor
    · rintro (_ | _ | hm)
      exact ⟨0, le_refl _, by simp, hm⟩
    · rintro ⟨n, hn, -, hm⟩
      rw [List.drop_nil] at hm
      exact .skip hm
  | cons t w ih =>
    constructor
    · rintro (_ | _ | hm | ⟨ht, hm⟩)
      · exact ⟨0, Nat.zero_le _, by simp, hm⟩
      · obtain ⟨n, hn, hpre, hrest⟩ := ih.1 hm
        refine ⟨n + 1, by simp [hn], ?_, hrest⟩
        rw [List.take_succ_cons]
        rintro x (_ | ⟨_, hx⟩)
        · exact ht
        · exact hpre x hx
    · rintro ⟨n, hn, hpre, hrest⟩
      cases n with
      | zero => exact .skip hrest
      | succ n =>
        rw [List.take_succ_cons] at hpre
        exact .more (hpre t List.mem_cons_self)
          (ih.2 ⟨n, by simpa using hn, fun x hx => hpre x (List.mem_cons_of_mem _ hx), hrest⟩)

end Matches

/-! ## The shape of a pattern -/

section Shape

variable {c : Char} {r : List Char}

theorem atoms_star : atoms (c :: '*' :: r) = .star c :: atoms r := rfl

theorem atoms_one (h : r.head? ≠ some '*') : atoms (c :: r) = .one c :: atoms r := by
  cases r with
  | nil => rfl
  | cons d r =>
    have hd : d ≠ '*' := fun e => h (by rw [e]; rfl)
    rw [atoms]
    intro r' e
    exact hd (List.cons.inj e).1

/-- A starred atom first: the end anchor is the rest's. -/
theorem shape_star : endsInDollar (c :: '*' :: r) = endsInDollar r ∧
    atoms (body (c :: '*' :: r)) = .star c :: atoms (body r) := by
  have he : endsInDollar (c :: '*' :: r) = endsInDollar r := by
    cases r with
    | nil => rfl
    | cons d r => simp only [endsInDollar, List.getLast?_cons_cons]
  refine ⟨he, ?_⟩
  unfold body
  rw [he]
  split
  · rename_i h
    have hr : r ≠ [] := by
      rintro rfl
      cases h
    rw [List.dropLast_cons_of_ne_nil (List.cons_ne_nil _ _), List.dropLast_cons_of_ne_nil hr, atoms_star]
  · rfl

/-- A plain character first: the end anchor is the rest's, unless the
character is the `$` itself. -/
theorem shape_one (h₁ : r.head? ≠ some '*') (h₂ : ¬(c = '$' ∧ r = [])) :
    endsInDollar (c :: r) = endsInDollar r ∧ atoms (body (c :: r)) = .one c :: atoms (body r) := by
  have he : endsInDollar (c :: r) = endsInDollar r := by
    cases r with
    | nil =>
      have : c ≠ '$' := fun e => h₂ ⟨e, rfl⟩
      simp [endsInDollar, this]
    | cons d r => simp only [endsInDollar, List.getLast?_cons_cons]
  refine ⟨he, ?_⟩
  unfold body
  rw [he]
  split
  · rename_i h
    have hr : r ≠ [] := by
      rintro rfl
      cases h
    rw [List.dropLast_cons_of_ne_nil hr, atoms_one]
    -- dropping the last character keeps the first
    cases r with
    | nil => exact absurd rfl hr
    | cons d r =>
      cases r with
      | nil => simp
      | cons e r => simpa [List.dropLast_cons_of_ne_nil] using h₁
  · exact atoms_one h₁

end Shape

/-! ## The matcher decides the language -/

/-- **`matchstar`** tries every count of copies of `c`, fewest first. -/
theorem matchstar_iff (c : Char) (re text : List Char) :
    matchstar c re text = true ↔
      ∃ n ≤ text.length, (∀ x ∈ text.take n, c = '.' ∨ c = x) ∧ matchhere re (text.drop n) = true := by
  induction text with
  | nil =>
    rw [matchstar]
    simp
  | cons t text ih =>
    rw [matchstar]
    simp only [Bool.or_eq_true, Bool.and_eq_true, Bool.or_eq_true, beq_iff_eq, ih]
    constructor
    · rintro (h | ⟨ht, n, hn, hpre, hm⟩)
      · exact ⟨0, Nat.zero_le _, by simp, h⟩
      · refine ⟨n + 1, by simp [hn], ?_, hm⟩
        rw [List.take_succ_cons]
        rintro x (_ | ⟨_, hx⟩)
        · rcases ht with ht | ht
          · exact .inr ht.symm
          · exact .inl ht
        · exact hpre x hx
    · rintro ⟨n, hn, hpre, hm⟩
      cases n with
      | zero => exact .inl hm
      | succ n =>
        rw [List.take_succ_cons] at hpre
        have ht : t = c ∨ c = '.' := by
          rcases hpre t List.mem_cons_self with h | h
          · exact .inr h
          · exact .inl h.symm
        exact .inr ⟨ht, n, by simpa using hn, fun x hx => hpre x (List.mem_cons_of_mem _ hx), hm⟩

/-- A prefix of copies of `c`, then a word of the rest, is a word of the
starred atom and the rest. -/
theorem here_star_iff {c : Char} {r text : List Char}
    (ih : ∀ w : List Char, matchhere r w = true ↔ Here r w) :
    matchstar c r text = true ↔ Here (c :: '*' :: r) text := by
  obtain ⟨he, ha⟩ := @shape_star c r
  rw [matchstar_iff, Here, he, ha]
  simp only [ih, Here, List.length_drop]
  constructor
  · rintro ⟨n, hn, hpre, k, hk, hend, hm⟩
    refine ⟨n + k, by omega, fun h => by rw [hend h]; omega, matches_star_iff.2 ⟨n, ?_, ?_, ?_⟩⟩
    · simp only [List.length_take]
      omega
    · rwa [List.take_take, Nat.min_eq_left (by omega)]
    · rwa [List.drop_take, Nat.add_sub_cancel_left]
  · rintro ⟨K, hK, hend, hm⟩
    obtain ⟨n, hn, hpre, hrest⟩ := matches_star_iff.1 hm
    simp only [List.length_take, Nat.min_eq_left hK] at hn
    refine ⟨n, by omega, ?_, K - n, by omega, fun h => by rw [hend h], ?_⟩
    · rwa [List.take_take, Nat.min_eq_left hn] at hpre
    · rwa [List.drop_take] at hrest

/-- **`matchhere`** decides whether the pattern matches at the start. -/
theorem matchhere_iff (re text : List Char) : matchhere re text = true ↔ Here re text := by
  match re with
  | [] =>
    rw [matchhere.eq_def]
    refine ⟨fun _ => ⟨0, Nat.zero_le _, (fun h => absurd h (by decide)), ?_⟩, fun _ => rfl⟩
    simp [body, endsInDollar, atoms, Matches.nil]
  | c :: rest =>
    rw [matchhere.eq_def]
    dsimp only
    split
    · rename_i h
      obtain ⟨r, rfl⟩ : ∃ r, rest = '*' :: r := by
        cases rest with
        | nil => cases h
        | cons d r => exact ⟨r, by cases h; rfl⟩
      exact here_star_iff fun w => matchhere_iff r w
    · rename_i h₁
      split
      · rename_i h₂
        obtain ⟨rfl, rfl⟩ := h₂
        simp only [List.isEmpty_iff, Here, body, endsInDollar]
        constructor
        · rintro rfl
          exact ⟨0, le_refl _, fun _ => rfl, by simp [atoms, Matches.nil]⟩
        · rintro ⟨k, hk, hend, hm⟩
          have := hend rfl
          subst this
          simpa [atoms, matches_nil_iff] using hm
      · rename_i h₂
        obtain ⟨he, ha⟩ := shape_one h₁ h₂
        unfold Here
        rw [he, ha]
        cases text with
        | nil =>
          simp only [Bool.false_eq_true, false_iff, not_exists, not_and, List.length_nil]
          intro k hk _ hm
          rw [Nat.le_zero.1 hk] at hm
          obtain ⟨t, w', e, -⟩ := matches_one_iff.1 hm
          cases e
        | cons t text =>
          simp only [Bool.and_eq_true, Bool.or_eq_true, beq_iff_eq, matchhere_iff rest text, Here]
          constructor
          · rintro ⟨ht, k, hk, hend, hm⟩
            refine ⟨k + 1, by simp [hk], fun h => by simp [hend h], ?_⟩
            rw [List.take_succ_cons]
            exact .one ht hm
          · rintro ⟨K, hK, hend, hm⟩
            obtain ⟨t', w', e, ht, hrest⟩ := matches_one_iff.1 hm
            cases K with
            | zero => cases e
            | succ k =>
              rw [List.take_succ_cons, List.cons.injEq] at e
              obtain ⟨rfl, rfl⟩ := e
              exact ⟨ht, k, by simpa using hK, fun h => by simpa using hend h, hrest⟩
termination_by re.length

/-- `match`'s loop tries `matchhere` at every position. -/
theorem matchLoop_iff (re text : List Char) :
    matchLoop re text = true ↔ ∃ i ≤ text.length, matchhere re (text.drop i) = true := by
  induction text with
  | nil => simp [matchLoop]
  | cons t text ih =>
    rw [matchLoop, Bool.or_eq_true, ih]
    constructor
    · rintro (h | ⟨i, hi, h⟩)
      · exact ⟨0, Nat.zero_le _, h⟩
      · exact ⟨i + 1, by simp [hi], h⟩
    · rintro ⟨i, hi, h⟩
      cases i with
      | zero => exact .inl h
      | succ i => exact .inr ⟨i, by simpa using hi, h⟩

/-- **`match(re, text)` decides its regular-expression language**: it
returns 1 exactly when some substring of `text` is a word of the atoms of
`re`, anchored at the start by a leading `^` and at the end by a final `$`. -/
theorem match_spec (re text : List Char) : match_ re text = true ↔ Selects re text := by
  have here : ∀ i ≤ text.length, ∀ p, (matchhere p (text.drop i) = true ↔
      ∃ j, i ≤ j ∧ j ≤ text.length ∧ (endsInDollar p = true → j = text.length) ∧
        Matches (atoms (body p)) ((text.drop i).take (j - i))) := by
    intro i hi p
    rw [matchhere_iff, Here, List.length_drop]
    constructor
    · rintro ⟨k, hk, hend, hm⟩
      refine ⟨i + k, by omega, by omega, fun h => by rw [hend h]; omega, ?_⟩
      rwa [Nat.add_sub_cancel_left]
    · rintro ⟨j, hij, hj, hend, hm⟩
      exact ⟨j - i, by omega, fun h => by rw [hend h], hm⟩
  unfold match_ Selects caret
  split
  · rename_i hre
    have h0 := here 0 (Nat.zero_le _) re.tail
    rw [List.drop_zero] at h0
    rw [h0]
    constructor
    · rintro ⟨j, -, hj, hend, hm⟩
      exact ⟨0, j, Nat.zero_le _, hj, fun _ => rfl, hend, hm⟩
    · rintro ⟨i, j, -, hj, hi, hend, hm⟩
      obtain rfl := hi rfl
      exact ⟨j, Nat.zero_le _, hj, hend, hm⟩
  · rw [matchLoop_iff]
    constructor
    · rintro ⟨i, hi, h⟩
      obtain ⟨j, hij, hj, hend, hm⟩ := (here i hi re).1 h
      exact ⟨i, j, hij, hj, fun h => absurd h Bool.false_ne_true, hend, hm⟩
    · rintro ⟨i, j, hij, hj, -, hend, hm⟩
      exact ⟨i, by omega, (here i (by omega) re).2 ⟨j, hij, hj, hend, hm⟩⟩

/-! ## The line loop -/

/-- `read(fd, buf+m, k)` on a stream that delivers `chunks`, a pipe's
writes say: at most `k` characters of the next chunk. An empty chunk, like
the end of the stream, reads as nothing. -/
def readChunk (k : Nat) : List (List Char) → List Char × List (List Char)
  | [] => ([], [])
  | c :: cs => (c.take k, if k < c.length then c.drop k :: cs else cs)

/-- The inner loop of `grep` from `p` on: each line ending in a newline is
written if it matches; what follows the last newline is left. -/
def grepLines (pattern p : List Char) : List Char × List Char :=
  if _h : '\n' ∈ p then
    let line := p.takeWhile (· != '\n')
    let r := grepLines pattern (p.dropWhile (· != '\n')).tail
    ((if match_ pattern line then line ++ ['\n'] else []) ++ r.1, r.2)
  else ([], p)
termination_by p.length
decreasing_by
  have := List.length_pos_of_mem _h
  have := List.length_dropWhile_le (· != '\n') p
  simp only [List.length_tail]
  omega

/-- A read takes what it returns off the stream. -/
theorem sum_readChunk (k : Nat) (input : List (List Char)) :
    ((readChunk k input).2.map List.length).sum + (readChunk k input).1.length = (input.map List.length).sum := by
  cases input with
  | nil => rfl
  | cons c cs =>
    simp only [readChunk, List.length_take, List.map_cons, List.sum_cons]
    split
    · simp only [List.map_cons, List.sum_cons, List.length_drop]
      omega
    · omega

/-- The loop of `grep(pattern, fd)` with `buf[0..m)` holding `buf`, the
start of a line, and `input` still to read: what it writes to fd 1. -/
def grepLoop (pattern buf : List Char) (input : List (List Char)) : List Char :=
  match _h : readChunk (1024 - buf.length - 1) input with
  | (bs, rest) =>
    if _hn : bs.length > 0 then
      let s := grepLines pattern (buf ++ bs)
      s.1 ++ grepLoop pattern s.2 rest
    else []
termination_by (input.map List.length).sum
decreasing_by
  have := sum_readChunk (1024 - buf.length - 1) input
  rw [_h] at this
  dsimp only at this
  omega

/-- `grep(pattern, fd)`. -/
def grep (pattern : List Char) (input : List (List Char)) : List Char := grepLoop pattern [] input

/-- A full buffer reads nothing more, and the loop ends. -/
theorem grepLoop_full (pattern : List Char) {buf : List Char} (hb : buf.length = 1023) (input : List (List Char)) :
    grepLoop pattern buf input = [] := by
  have hr : (readChunk (1024 - buf.length - 1) input).1 = [] := by
    cases input with
    | nil => rfl
    | cons c cs => simp [readChunk, hb]
  rw [grepLoop]
  split
  · rename_i bs rest h
    rw [h] at hr
    rw [dif_neg (by rw [show bs = [] from hr]; simp)]

theorem grepLines_of_not_mem (pattern : List Char) {p : List Char} (h : '\n' ∉ p) : grepLines pattern p = ([], p) := by
  rw [grepLines, dif_neg h]

/-- **A line of 1023 characters or more stops `grep`**: once the buffer and
the input hold that many characters with no newline among them, `grep`
writes nothing more, whatever the rest of the input. -/
theorem grepLoop_long_line (pattern : List Char) :
    ∀ (n : Nat) (buf : List Char) (input : List (List Char)), (input.map List.length).sum = n →
      (∀ c ∈ input, c ≠ []) → buf.length ≤ 1023 → 1023 ≤ buf.length + n →
      '\n' ∉ buf ++ input.flatten.take (1023 - buf.length) → grepLoop pattern buf input = [] := by
  intro n
  induction n using Nat.strong_induction_on with
  | _ n ih =>
    intro buf input hn hne hb hlong hnl
    rcases Nat.lt_or_ge buf.length 1023 with hlt | hge
    swap
    · exact grepLoop_full pattern (by omega) input
    cases input with
    | nil =>
      simp only [List.map_nil, List.sum_nil] at hn
      omega
    | cons c cs =>
      have hc : c ≠ [] := hne c List.mem_cons_self
      have hcpos := List.length_pos_of_ne_nil hc
      have hk : 1024 - buf.length - 1 = 1023 - buf.length := by omega
      have hpos : 0 < (c.take (1023 - buf.length)).length := by
        rw [List.length_take]
        omega
      -- the characters read are the next ones of the stream, no newline among them
      have hread : '\n' ∉ buf ++ c.take (1023 - buf.length) := by
        intro hm
        apply hnl
        rw [List.flatten_cons, List.take_append]
        simp only [List.mem_append] at hm ⊢
        rcases hm with hm | hm
        · exact .inl hm
        · exact .inr (.inl hm)
      rw [grepLoop]
      split
      rename_i bs rest hr
      rw [hk] at hr
      simp only [readChunk, Prod.mk.injEq] at hr
      obtain ⟨rfl, rfl⟩ := hr
      rw [dif_pos hpos]
      dsimp only
      rw [grepLines_of_not_mem pattern hread, List.nil_append]
      have hsum : (cs.map List.length).sum + c.length = n := by
        simp only [List.map_cons, List.sum_cons] at hn
        omega
      split
      · rename_i hlen
        refine ih ((c.drop (1023 - buf.length)).length + (cs.map List.length).sum) ?_ _ _ ?_ ?_ ?_ ?_ ?_
        · rw [List.length_drop]
          omega
        · simp
        · rintro d (_ | ⟨_, hd⟩)
          · rw [← List.length_pos_iff, List.length_drop]
            omega
          · exact hne d (List.mem_cons_of_mem _ hd)
        · simp only [List.length_append, List.length_take]
          omega
        · simp only [List.length_append, List.length_take, List.length_drop]
          omega
        · rw [List.length_append, List.length_take, Nat.min_eq_left (by omega),
            show 1023 - (buf.length + (1023 - buf.length)) = 0 by omega, List.take_zero, List.append_nil]
          exact hread
      · rename_i hlen
        refine ih (cs.map List.length).sum (by omega) _ _ rfl
          (fun d hd => hne d (List.mem_cons_of_mem _ hd)) ?_ ?_ ?_
        · simp only [List.length_append, List.length_take]
          omega
        · simp only [List.length_append, List.length_take]
          omega
        · -- the rest of the line comes from the next chunks
          rw [List.take_of_length_le (by omega)]
          intro hm
          apply hnl
          rw [List.flatten_cons, List.take_append, List.take_of_length_le (by omega)]
          simp only [List.mem_append, List.length_append] at hm ⊢
          rcases hm with (hm | hm) | hm
          · exact .inl hm
          · exact .inr (.inl hm)
          · refine .inr (.inr ?_)
            rwa [show 1023 - buf.length - c.length = 1023 - (buf.length + c.length) by omega]

/-- A line of 1023 `y`s and then the line `x`: `grep x` writes nothing,
though the line `x` matches. -/
theorem grep_drops_line_after_long_line :
    grep ['x'] [List.replicate 1023 'y' ++ ['\n', 'x', '\n']] = [] ∧ match_ ['x'] ['x'] = true := by
  have hlen : (List.replicate 1023 'y').length = 1023 := List.length_replicate
  refine ⟨grepLoop_long_line ['x'] _ [] _ rfl ?_ (Nat.zero_le _) ?_ ?_, ?_⟩
  · intro c hc e
    rw [List.mem_singleton] at hc
    rw [hc] at e
    exact List.cons_ne_nil _ _ (List.append_eq_nil_iff.1 e).2
  · simp only [List.map_singleton, List.sum_singleton, List.length_append, hlen, List.length_nil, List.length_cons]
    omega
  · rw [List.nil_append, List.flatten_singleton, List.length_nil, Nat.sub_zero, List.take_left' hlen]
    exact fun h => absurd (List.mem_replicate.1 h).2 (by decide)
  · rw [match_spec]
    refine ⟨0, 1, Nat.zero_le _, le_refl _, (fun _ => rfl), (fun _ => rfl), ?_⟩
    show Matches [.one 'x'] ['x']
    exact .one (.inr rfl) .nil

end Xv6
