import Xv6.User.Umalloc

/-!
# The user `printf`

`vprintf` from `user/printf.c`, with `printint` and `printptr`. What
`vprintf` writes to its file descriptor is the list of characters its
`putc` calls write, in order. The arguments are the 64-bit slots `va_arg`
reads them from, one per conversion: an `int` is passed sign-extended and
read back as the slot's low 32 bits. A `%s` argument is read through `str`,
the characters before the NUL at each address.

`printint` writes the digits of a `uint x` into a 16-byte buffer, lowest
first, then prints the buffer backward: `%d` writes the decimal numeral
(`Nat.toDigits 10`) with a `-` for negatives, `INT_MIN` included, `%x` the
hexadecimal numeral of the 32-bit pattern, and `%p` sixteen hexadecimal
digits (`conversion_d`, `conversion_x`, `conversion_p`); no number needs
more than 11 bytes of the buffer (`length_printint_le`). `%l` passes its
`uint64` to `printint`'s `int xx`, so it prints the low 32 bits only
(`conversion_l`): `%l` of `2³²` writes `0` (`printf_l_drops_high_bits`).
-/

namespace Xv6

/-- `digits[]`. -/
def digits : List Char := ['0', '1', '2', '3', '4', '5', '6', '7', '8', '9', 'A', 'B', 'C', 'D', 'E', 'F']

/-- The loop `do buf[i++] = digits[x % base]; while((x /= base) != 0);`:
the digits of `x`, lowest first. `printint` is called with bases 10 and 16
only; in base 1 the loop would not end, and the model stops. -/
def digitLoop (base x : Nat) : List Char :=
  if _h : 1 < base ∧ x / base ≠ 0 then digits.getD (x % base) '0' :: digitLoop base (x / base)
  else [digits.getD (x % base) '0']
termination_by x
decreasing_by exact Nat.div_lt_self (Nat.pos_of_ne_zero fun e => _h.2 (by rw [e, Nat.zero_div])) _h.1

/-- `printint(fd, xx, base, sgn)` for an `int xx`: the buffer, printed
backward. `x = -xx` wraps for `INT_MIN`, to `2³¹`. -/
def printint (xx : Int) (base : Nat) (sgn : Bool) : List Char :=
  let neg := sgn && decide (xx < 0)
  let x := if neg then (-xx % 2 ^ 32).toNat else (xx % 2 ^ 32).toNat
  (digitLoop base x ++ if neg then ['-'] else []).reverse

/-- The loop of `printptr` with `i` digits left: `digits[x >> 60]`, then
`x <<= 4` on the `uint64 x`. -/
def printptrLoop : Nat → Nat → List Char
  | 0, _ => []
  | i + 1, x => digits.getD (x / 2 ^ 60) '0' :: printptrLoop i (x * 16 % 2 ^ 64)

/-- `printptr(fd, x)`. -/
def printptr (x : Nat) : List Char := '0' :: 'x' :: printptrLoop 16 x

/-- `va_arg(ap, T)`: the next slot. Past the last argument C reads whatever
is there; here `0`. -/
def vaArg : List UInt64 → UInt64 × List UInt64
  | [] => (0, [])
  | a :: rest => (a, rest)

/-- What `vprintf` does with the character `c` after a `%`: the characters
it writes, and the arguments left. -/
def conversion (str : Nat → List Char) (c : Char) (args : List UInt64) : List Char × List UInt64 :=
  let (a, rest) := vaArg args
  match c with
  | 'd' => (printint (toInt32 a.toNat) 10 true, rest)
  | 'l' => (printint (toInt32 a.toNat) 10 false, rest)
  | 'x' => (printint (toInt32 a.toNat) 16 false, rest)
  | 'p' => (printptr a.toNat, rest)
  | 's' => (if a = 0 then ['(', 'n', 'u', 'l', 'l', ')'] else str a.toNat, rest)
  | 'c' => ([Char.ofNat (a.toNat % 256)], rest)
  | '%' => (['%'], args)
  -- an unknown conversion is printed as it stands
  | c => (['%', c], args)

/-- The loop of `vprintf` over the characters of `fmt`, in `state` `'%'`
(`true`) after a `%` and `0` (`false`) elsewhere. -/
def vprintfLoop (str : Nat → List Char) : List Char → Bool → List UInt64 → List Char
  | [], _, _ => []
  | c :: fmt, false, args => if c = '%' then vprintfLoop str fmt true args else c :: vprintfLoop str fmt false args
  | c :: fmt, true, args => (conversion str c args).1 ++ vprintfLoop str fmt false (conversion str c args).2

/-- `vprintf(fd, fmt, ap)`, and so `printf` and `fprintf`: what it writes. -/
def vprintf (str : Nat → List Char) (fmt : List Char) (args : List UInt64) : List Char :=
  vprintfLoop str fmt false args

/-- The slot an `int` argument is passed in: sign-extended to 64 bits. -/
def intSlot (v : Int) : UInt64 := UInt64.ofNat (v % 2 ^ 64).toNat

/-! ## Numerals -/

/-- The hexadecimal numeral of `v`, with the digits `A`–`F`. -/
def hexNumeral (v : Nat) : List Char := (Nat.toDigits 16 v).map Char.toUpper

/-- The sixteen hexadecimal digits of a 64-bit `v`, highest first. -/
def hex16 (v : Nat) : List Char := (List.range 16).map fun i => (Nat.digitChar (v / 16 ^ (15 - i) % 16)).toUpper

theorem digits_getD : ∀ d < 16, digits.getD d '0' = (Nat.digitChar d).toUpper := by decide

theorem toUpper_of_isDigit {c : Char} (h : c.isDigit = true) : c.toUpper = c := by
  simp only [Char.isDigit, Bool.and_eq_true, decide_eq_true_eq] at h
  unfold Char.toUpper
  rw [dif_neg]
  rintro ⟨h₁, -⟩
  have h₂ : c.val ≤ '9'.val := h.2
  rw [UInt32.le_iff_toNat_le] at h₁ h₂
  exact absurd (le_trans h₁ h₂) (by decide)

/-- A decimal numeral has no letters to raise. -/
theorem map_toUpper_toDigits_ten (x : Nat) : (Nat.toDigits 10 x).map Char.toUpper = Nat.toDigits 10 x := by
  conv_rhs => rw [← List.map_id (Nat.toDigits 10 x)]
  apply List.map_congr_left
  intro c hc
  exact toUpper_of_isDigit (Nat.isDigit_of_mem_toDigits (by decide) (le_refl _) hc)

/-- **The digit loop** writes the numeral of `x` backward. -/
theorem reverse_digitLoop {base : Nat} (h₁ : 1 < base) (h₂ : base ≤ 16) (x : Nat) :
    (digitLoop base x).reverse = (Nat.toDigits base x).map Char.toUpper := by
  induction x using Nat.strong_induction_on with
  | _ x ih =>
    have hd : digits.getD (x % base) '0' = (Nat.digitChar (x % base)).toUpper :=
      digits_getD _ (lt_of_lt_of_le (Nat.mod_lt x (by omega)) h₂)
    rw [digitLoop, Nat.toDigits_eq_if h₁]
    by_cases hx : x < base
    · rw [dif_neg (fun h => h.2 (Nat.div_eq_of_lt hx)), if_pos hx, hd, Nat.mod_eq_of_lt hx]
      rfl
    · have hq : x / base ≠ 0 := fun h => hx ((Nat.div_eq_zero_iff_lt (by omega)).1 h)
      rw [dif_pos ⟨h₁, hq⟩, if_neg hx, List.reverse_cons, ih _ (Nat.div_lt_self (by omega) h₁), hd,
        List.map_append]
      rfl

theorem length_digitLoop_le {base x : Nat} (h₁ : 10 ≤ base) (h₂ : base ≤ 16) (hx : x < 2 ^ 32) :
    (digitLoop base x).length ≤ 10 := by
  rw [← List.length_reverse, reverse_digitLoop (by omega) h₂, List.length_map,
    Nat.length_toDigits_le_iff (by omega) (by decide)]
  calc x < 2 ^ 32 := hx
    _ < 10 ^ 10 := by decide
    _ ≤ base ^ 10 := Nat.pow_le_pow_left h₁ 10

/-! ## `printint` and `printptr` -/

section Printint

variable {xx : Int} {base : Nat}

/-- **`printint` stays inside its buffer**: in base 10 or 16 a number takes
at most ten digits and a sign, of the 16 bytes. -/
theorem length_printint_le (h₁ : 10 ≤ base) (h₂ : base ≤ 16) (sgn : Bool) : (printint xx base sgn).length ≤ 11 := by
  unfold printint
  dsimp only
  rw [List.length_reverse, List.length_append]
  have hx : ∀ y : Int, (y % 2 ^ 32).toNat < 2 ^ 32 := fun y => by omega
  split
  · have := length_digitLoop_le h₁ h₂ (hx (-xx))
    rw [List.length_singleton]
    omega
  · have := length_digitLoop_le h₁ h₂ (hx xx)
    rw [List.length_nil]
    omega

/-- `printint` with `sgn` of an `int`: a `-` for negatives, then the decimal
numeral of the magnitude; for `INT_MIN` the wrapped `-xx` is `2³¹`. -/
theorem printint_signed (h₁ : -2 ^ 31 ≤ xx) (h₂ : xx < 2 ^ 31) :
    printint xx 10 true = (if xx < 0 then ['-'] else []) ++ Nat.toDigits 10 xx.natAbs := by
  unfold printint
  by_cases hneg : xx < 0
  · have hx : (-xx % 2 ^ 32).toNat = xx.natAbs := by omega
    simp only [hneg, decide_true, Bool.and_self, if_true, hx, List.reverse_append, List.reverse_cons,
      List.reverse_nil, List.nil_append, List.cons_append]
    rw [reverse_digitLoop (by decide) (by decide), map_toUpper_toDigits_ten]
  · have hx : (xx % 2 ^ 32).toNat = xx.natAbs := by omega
    simp only [hneg, decide_false, Bool.and_false, Bool.false_eq_true, if_false, hx, List.append_nil]
    rw [reverse_digitLoop (by decide) (by decide), map_toUpper_toDigits_ten, List.nil_append]

/-- `printint` without `sgn`: the numeral of the `uint` the `int` is taken to. -/
theorem printint_unsigned (h₁ : 1 < base) (h₂ : base ≤ 16) :
    printint xx base false = (Nat.toDigits base (xx % 2 ^ 32).toNat).map Char.toUpper := by
  unfold printint
  simp only [Bool.false_and, Bool.false_eq_true, if_false, List.append_nil]
  exact reverse_digitLoop h₁ h₂ _

end Printint

/-- Shifting a 64-bit value left by four bits moves each of its hexadecimal
digits up by one place. -/
theorem shl4_digit (x : Nat) {i : Nat} (hi : i < 15) :
    x * 16 % 2 ^ 64 / 16 ^ (15 - i) % 16 = x / 16 ^ (15 - (i + 1)) % 16 := by
  obtain ⟨j, hj⟩ : ∃ j, 15 - i = j + 1 := ⟨14 - i, by omega⟩
  have hsplit : 2 ^ 64 = 16 ^ (j + 1) * 16 ^ (15 - j) := by
    rw [← Nat.pow_add, show j + 1 + (15 - j) = 16 by omega]
    rfl
  have hdvd : 16 ∣ 16 ^ (15 - j) := dvd_pow_self 16 (by omega)
  rw [hj, show 15 - (i + 1) = j by omega, hsplit, Nat.mod_mul_right_div_self, Nat.mod_mod_of_dvd _ hdvd,
    Nat.pow_succ, Nat.mul_div_mul_right _ _ (by decide)]

/-- The loop of `printptr` prints the digits from place `15 - 16 + i`
down, each as `digits[]` has it. -/
theorem printptrLoop_eq (k : Nat) (hk : k ≤ 16) (x : Nat) (hx : x < 2 ^ 64) :
    printptrLoop k x = (List.range k).map fun i => (Nat.digitChar (x / 16 ^ (15 - i) % 16)).toUpper := by
  induction k generalizing x with
  | zero => rfl
  | succ k ih =>
    have htop : x / 2 ^ 60 = x / 16 ^ (15 - 0) % 16 := by
      rw [Nat.mod_eq_of_lt (by rw [Nat.div_lt_iff_lt_mul (by decide)]; exact hx)]
      rfl
    rw [printptrLoop, ih (by omega) _ (Nat.mod_lt _ (by decide)), List.range_succ_eq_map, List.map_cons, List.map_map,
      htop, digits_getD _ (Nat.mod_lt _ (by decide))]
    congr 1
    apply List.map_congr_left
    intro i hi
    rw [List.mem_range] at hi
    simp only [Function.comp_apply]
    rw [shl4_digit x (by omega)]

/-- **`printptr`** writes `0x` and the sixteen hexadecimal digits. -/
theorem printptr_eq {x : Nat} (hx : x < 2 ^ 64) : printptr x = '0' :: 'x' :: hex16 x := by
  rw [printptr, printptrLoop_eq 16 (le_refl _) x hx]
  rfl

/-! ## The integer conversions of `vprintf` -/

section Conversions

variable (str : Nat → List Char) (args : List UInt64)

theorem vprintfLoop_conversion (c : Char) (fmt : List Char) :
    vprintfLoop str ('%' :: c :: fmt) false args =
      (conversion str c args).1 ++ vprintfLoop str fmt false (conversion str c args).2 := by
  simp [vprintfLoop]

theorem toInt32_intSlot {v : Int} (h₁ : -2 ^ 31 ≤ v) (h₂ : v < 2 ^ 31) : toInt32 (intSlot v).toNat = v := by
  unfold toInt32 intSlot
  rw [UInt64.toNat_ofNat']
  split <;> omega

/-- **`%d`** of an `int` `v`: a `-` for negatives, `INT_MIN` included, and
the decimal numeral of `|v|`. -/
theorem conversion_d {v : Int} (h₁ : -2 ^ 31 ≤ v) (h₂ : v < 2 ^ 31) :
    conversion str 'd' (intSlot v :: args) = ((if v < 0 then ['-'] else []) ++ Nat.toDigits 10 v.natAbs, args) := by
  simp only [conversion, vaArg, toInt32_intSlot h₁ h₂, printint_signed h₁ h₂]

/-- **`%x`** of an `int` `v`: the hexadecimal numeral of its 32-bit pattern. -/
theorem conversion_x {v : Int} (h₁ : -2 ^ 31 ≤ v) (h₂ : v < 2 ^ 31) :
    conversion str 'x' (intSlot v :: args) = (hexNumeral (v % 2 ^ 32).toNat, args) := by
  simp only [conversion, vaArg, toInt32_intSlot h₁ h₂, printint_unsigned (by decide : 1 < 16) (le_refl _),
    hexNumeral]

/-- **`%p`** of a `uint64` `w`: `0x` and its sixteen hexadecimal digits. -/
theorem conversion_p (w : UInt64) : conversion str 'p' (w :: args) = ('0' :: 'x' :: hex16 w.toNat, args) := by
  simp only [conversion, vaArg, printptr_eq w.toNat_lt]

/-- **`%l`** of a `uint64` `w`: the decimal numeral of its low 32 bits only,
the value `printint`'s `int` parameter keeps. -/
theorem conversion_l (w : UInt64) :
    conversion str 'l' (w :: args) = (Nat.toDigits 10 (w.toNat % 2 ^ 32), args) := by
  have h : (toInt32 w.toNat % 2 ^ 32).toNat = w.toNat % 2 ^ 32 := by
    unfold toInt32
    split <;> omega
  simp only [conversion, vaArg, printint_unsigned (by decide : 1 < 10) (by decide), h, map_toUpper_toDigits_ten]

end Conversions

/-- `printf("%l", 2³²)` writes `0`, not the ten digits of `2³²`. -/
theorem printf_l_drops_high_bits (str : Nat → List Char) :
    vprintf str ['%', 'l'] [4294967296] = ['0'] ∧
      Nat.toDigits 10 4294967296 = ['4', '2', '9', '4', '9', '6', '7', '2', '9', '6'] := by
  refine ⟨?_, by decide⟩
  rw [vprintf, vprintfLoop_conversion, conversion_l]
  rfl

end Xv6
