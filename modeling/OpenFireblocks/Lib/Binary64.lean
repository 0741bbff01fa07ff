import Mathlib.Algebra.Order.Field.Power
import Mathlib.Data.Int.Log
import Mathlib.Data.Rat.Floor
import Mathlib.Tactic.Positivity

/-!
# Rounding to binary64

A finite double is the rational it stands for, and an operation on doubles is the exact one followed
by `nearest`: to the nearest number of 53 significant bits, ties to even. The exponent is not bounded,
so this is the arithmetic of doubles as long as it neither overflows nor underflows. What does not
depend on the 53 bits is stated of any number of them.

`Close n x y` says that `x` and `y` differ by a factor of at most `(1 + 2⁻⁵³) ^ n`, either way. One
rounding costs one (`close_nearest`), and the costs of a computation add up by the rules below. What
comes of a value that should have been an integer is read off it by `Close.floor_eq`.
-/

namespace Binary64

/-- The integer nearest to `x`, the even one of two. -/
def roundEven (x : ℚ) : ℤ :=
  if x - ⌊x⌋ < 1 / 2 then ⌊x⌋
  else if 1 / 2 < x - ⌊x⌋ then ⌊x⌋ + 1
  else if ⌊x⌋ % 2 = 0 then ⌊x⌋
  else ⌊x⌋ + 1

/-- The weight of the last bit of `x`, with `p` bits behind the first. -/
def ulp (p : ℕ) (x : ℚ) : ℚ := 2 ^ (Int.log 2 |x| - p)

/-- The number of `p + 1` bits nearest to `x`. -/
def roundTo (p : ℕ) (x : ℚ) : ℚ := roundEven (x / ulp p x) * ulp p x

/-- The double nearest to `x`. -/
abbrev nearest : ℚ → ℚ := roundTo 52

/-! ## The error of one rounding -/

theorem abs_roundEven_sub_le (x : ℚ) : |(roundEven x : ℚ) - x| ≤ 1 / 2 := by
  have hlo := Int.floor_le x
  have hhi := Int.lt_floor_add_one x
  unfold roundEven
  rw [abs_le]
  split
  · constructor <;> linarith
  split
  · push_cast
    constructor <;> linarith
  · split
    · constructor <;> linarith
    · push_cast
      constructor <;> linarith

theorem floor_le_roundEven (x : ℚ) : ⌊x⌋ ≤ roundEven x := by
  unfold roundEven
  split
  · exact le_rfl
  split
  · omega
  · split <;> omega

variable {p : ℕ}

theorem ulp_pos (p : ℕ) (x : ℚ) : 0 < ulp p x := zpow_pos (by norm_num) _

@[simp] theorem roundTo_zero : roundTo p 0 = 0 := by
  have : roundEven 0 = 0 := by
    have := abs_roundEven_sub_le 0
    rw [abs_le] at this
    have h1 : ((roundEven 0 : ℤ) : ℚ) < 1 := by linarith
    have h2 : (-1 : ℚ) < ((roundEven 0 : ℤ) : ℚ) := by linarith
    have h1' : roundEven 0 < 1 := by exact_mod_cast h1
    have h2' : -1 < roundEven 0 := by exact_mod_cast h2
    omega
  simp [roundTo, this]

theorem abs_roundTo_sub_le (x : ℚ) : |roundTo p x - x| ≤ ulp p x / 2 := by
  have hu := ulp_pos p x
  have hx : roundTo p x - x = ((roundEven (x / ulp p x) : ℚ) - x / ulp p x) * ulp p x := by
    unfold roundTo
    rw [sub_mul, div_mul_cancel₀ x hu.ne']
  rw [hx, abs_mul, abs_of_pos hu]
  have := abs_roundEven_sub_le (x / ulp p x)
  nlinarith

variable {x y : ℚ}

theorem mul_ulp_eq (p : ℕ) (hx : 0 < x) (n : Nat) : 2 ^ (p + n) * ulp p x = 2 ^ (Int.log 2 x + n) := by
  unfold ulp
  rw [abs_of_pos hx, ← zpow_natCast, ← zpow_add₀ (by norm_num)]
  congr 1
  push_cast
  ring

/-- A number and its rounding both have `p + 1` bits. -/
theorem ulp_le (hx : 0 < x) : 2 ^ p * ulp p x ≤ x ∧ 2 ^ p * ulp p x ≤ roundTo p x := by
  have hu := ulp_pos p x
  have hle : 2 ^ p * ulp p x ≤ x := by
    have h := Int.zpow_log_le_self (b := 2) (by norm_num) hx
    have hpow := mul_ulp_eq p hx 0
    rw [Nat.add_zero, Nat.cast_zero, add_zero] at hpow
    rw [hpow]
    exact_mod_cast h
  refine ⟨hle, ?_⟩
  have hfloor : (2 ^ p : ℤ) ≤ ⌊x / ulp p x⌋ := by
    rw [Int.le_floor]
    push_cast
    rw [le_div_iff₀ hu]
    exact hle
  have hround : (2 : ℚ) ^ p ≤ roundEven (x / ulp p x) := by
    exact_mod_cast hfloor.trans (floor_le_roundEven _)
  exact mul_le_mul_of_nonneg_right hround hu.le

/-! ## A rounded number is its own rounding -/

theorem roundEven_intCast (k : ℤ) : roundEven k = k := by
  unfold roundEven
  rw [Int.floor_intCast, if_pos (by norm_num)]

theorem roundTo_of_eq_mul_ulp {k : ℤ} (h : x = k * ulp p x) : roundTo p x = x := by
  have hu := ulp_pos p x
  unfold roundTo
  rw [(div_eq_iff hu.ne').mpr h, roundEven_intCast]
  exact h.symm

theorem roundEven_le (x : ℚ) : roundEven x ≤ ⌊x⌋ + 1 := by
  unfold roundEven
  split
  · omega
  split
  · exact le_rfl
  · split <;> omega

theorem roundTo_le (hx : 0 < x) : roundTo p x ≤ 2 ^ (p + 1) * ulp p x := by
  have hu := ulp_pos p x
  have hlt : x / ulp p x < 2 ^ (p + 1) := by
    rw [div_lt_iff₀ hu, mul_ulp_eq p hx 1]
    exact_mod_cast Int.lt_zpow_succ_log_self (by norm_num) x
  have hfloor : ⌊x / ulp p x⌋ < 2 ^ (p + 1) := by
    rw [Int.floor_lt]
    exact_mod_cast hlt
  have hround : roundEven (x / ulp p x) ≤ 2 ^ (p + 1) := by
    have := roundEven_le (x / ulp p x)
    omega
  exact mul_le_mul_of_nonneg_right (by exact_mod_cast hround) hu.le

theorem roundTo_roundTo (hx : 0 ≤ x) : roundTo p (roundTo p x) = roundTo p x := by
  rcases hx.eq_or_lt with rfl | hpos
  · simp
  obtain ⟨-, hge⟩ := ulp_le hpos
  have hy : 0 < roundTo p x := lt_of_lt_of_le (mul_pos (by norm_num) (ulp_pos p x)) hge
  have hpow : (2 : ℚ) ^ p * ulp p x = 2 ^ Int.log 2 x := by simpa using mul_ulp_eq p hpos 0
  have hpow' : (2 : ℚ) ^ (p + 1) * ulp p x = 2 ^ (Int.log 2 x + 1) := mul_ulp_eq p hpos 1
  rcases (roundTo_le hpos).lt_or_eq with hlt | heq
  · -- the rounding has the exponent of the number, and is a multiple of the same unit
    have hlog : Int.log 2 (roundTo p x) = Int.log 2 x := by
      refine le_antisymm (Int.lt_add_one_iff.mp ?_) ?_
      · refine (Int.lt_zpow_iff_log_lt (by norm_num) hy).mp ?_
        exact_mod_cast hlt.trans_eq hpow'
      · refine (Int.zpow_le_iff_le_log (by norm_num) hy).mp ?_
        exact_mod_cast hpow.symm.le.trans hge
    have hulp : ulp p (roundTo p x) = ulp p x := by
      unfold ulp
      rw [abs_of_pos hy, abs_of_pos hpos, hlog]
    refine roundTo_of_eq_mul_ulp (k := roundEven (x / ulp p x)) ?_
    rw [hulp]
    rfl
  · -- it went up to the next power of two
    rw [heq, hpow']
    have hlog : Int.log 2 ((2 : ℚ) ^ (Int.log 2 x + 1)) = Int.log 2 x + 1 := by
      exact_mod_cast Int.log_zpow (R := ℚ) (by norm_num) (Int.log 2 x + 1)
    refine roundTo_of_eq_mul_ulp (k := 2 ^ p) ?_
    have h := mul_ulp_eq p (x := (2 : ℚ) ^ (Int.log 2 x + 1)) (zpow_pos (by norm_num) _) 0
    rw [hlog, Nat.cast_zero, add_zero (Int.log 2 x + 1)] at h
    exact_mod_cast h.symm

/-! ## Rounding and order -/

theorem roundEven_mono (h : x ≤ y) : roundEven x ≤ roundEven y := by
  rcases (Int.floor_le_floor h).lt_or_eq with hlt | heq
  · exact (roundEven_le x).trans (hlt.trans_le (floor_le_roundEven y))
  unfold roundEven
  rw [heq]
  split_ifs <;> first | omega | linarith

theorem roundTo_nonneg (h : 0 ≤ x) : 0 ≤ roundTo p x := by
  have hround : (0 : ℤ) ≤ roundEven (x / ulp p x) :=
    (Int.floor_nonneg.mpr (div_nonneg h (ulp_pos p x).le)).trans (floor_le_roundEven _)
  exact mul_nonneg (by exact_mod_cast hround) (ulp_pos p x).le

theorem roundTo_nonpos (h : x ≤ 0) : roundTo p x ≤ 0 := by
  have hround : roundEven (x / ulp p x) ≤ 0 :=
    (roundEven_mono (div_nonpos_of_nonpos_of_nonneg h (ulp_pos p x).le)).trans_eq
      (by exact_mod_cast roundEven_intCast 0)
  exact mul_nonpos_of_nonpos_of_nonneg (by exact_mod_cast hround) (ulp_pos p x).le

theorem roundTo_mono (hy : 0 ≤ y) (h : x ≤ y) : roundTo p x ≤ roundTo p y := by
  rcases le_or_gt x 0 with hneg | hx
  · exact (roundTo_nonpos hneg).trans (roundTo_nonneg hy)
  replace hy := hx.trans_le h
  rcases (Int.log_mono_right (b := 2) hx h).lt_or_eq with hlt | heq
  · -- the rounding of the smaller one is at most the power of two below the other
    have hpow : (2 : ℚ) ^ (p + 1) * ulp p x ≤ 2 ^ p * ulp p y := by
      have hx' := mul_ulp_eq p hx 1
      have hy' := mul_ulp_eq p hy 0
      rw [Nat.add_zero] at hy'
      rw [hy', hx']
      exact zpow_le_zpow_right₀ (by norm_num) (by push_cast; omega)
    exact (roundTo_le hx).trans (hpow.trans (ulp_le hy).2)
  · have hulp : ulp p x = ulp p y := by
      unfold ulp
      rw [abs_of_pos hx, abs_of_pos hy, heq]
    unfold roundTo
    rw [hulp]
    refine mul_le_mul_of_nonneg_right ?_ (ulp_pos p y).le
    exact_mod_cast roundEven_mono (div_le_div_of_nonneg_right h (ulp_pos p y).le)

/-- A number of at most `p + 1` bits, scaled by a power of two, is rounded to itself. -/
theorem roundTo_mul_zpow {n : ℕ} (h0 : 0 < n) (hn : n < 2 ^ (p + 1)) (e : ℤ) :
    roundTo p (n * 2 ^ e) = n * 2 ^ e := by
  have hlog : Int.log 2 ((n : ℚ) * 2 ^ e) = Nat.log 2 n + e := by
    have hpos : (0 : ℚ) < n * 2 ^ e := by positivity
    have hlow : (2 : ℚ) ^ Nat.log 2 n ≤ n := by exact_mod_cast Nat.pow_log_le_self 2 h0.ne'
    have hhigh : (n : ℚ) < 2 ^ (Nat.log 2 n + 1) := by
      exact_mod_cast Nat.lt_pow_succ_log_self (by norm_num) n
    refine le_antisymm (Int.lt_add_one_iff.mp ?_) ?_
    · refine (Int.lt_zpow_iff_log_lt (by norm_num) hpos).mp ?_
      rw [add_right_comm, zpow_add₀ (by norm_num)]
      exact mul_lt_mul_of_pos_right (by exact_mod_cast hhigh) (by positivity)
    · refine (Int.zpow_le_iff_le_log (by norm_num) hpos).mp ?_
      rw [zpow_add₀ (by norm_num)]
      exact mul_le_mul_of_nonneg_right (by exact_mod_cast hlow) (by positivity)
  have hle : Nat.log 2 n ≤ p := Nat.lt_succ_iff.mp (Nat.log_lt_of_lt_pow h0.ne' hn)
  refine roundTo_of_eq_mul_ulp (k := n * 2 ^ (p - Nat.log 2 n)) ?_
  rw [ulp, abs_of_pos (by positivity)]
  push_cast
  rw [mul_assoc, ← zpow_natCast, ← zpow_add₀ (by norm_num)]
  congr 2
  omega

theorem roundTo_two_pow (k : ℕ) : roundTo p (2 ^ k) = 2 ^ k := by
  have hone := roundTo_mul_zpow (p := p) (n := 1) (by decide) (Nat.one_lt_two_pow (by omega)) k
  rwa [Nat.cast_one, one_mul, zpow_natCast] at hone

theorem two_pow_le_roundTo {k : ℕ} (h : 2 ^ k ≤ x) : 2 ^ k ≤ roundTo p x :=
  (roundTo_two_pow k).symm.trans_le (roundTo_mono (le_trans (by positivity) h) h)

/-- What is above a number by a unit of its last bit is above it after rounding. -/
theorem lt_nearest {l : ℚ} (hl : 0 < l) (h : l * (1 + 1 / 2 ^ 52) ≤ x) : l < nearest x := by
  have hx : 0 < x := lt_of_lt_of_le (by positivity) h
  have herr := (abs_le.mp (abs_roundTo_sub_le (p := 52) x)).1
  have hulp := (ulp_le (p := 52) hx).1
  linarith

/-! ## Computations with a few roundings -/

/-- `x` and `y` differ by a factor of at most `(1 + 2⁻⁵³) ^ n`. -/
structure Close (n : Nat) (x y : ℚ) : Prop where
  nonneg : 0 ≤ x
  le : x ≤ y * (1 + 1 / 2 ^ 53) ^ n
  ge : y ≤ x * (1 + 1 / 2 ^ 53) ^ n

namespace Close

variable {n m : Nat} {x y z x' y' : ℚ}

theorem factor_pos (n : Nat) : (0 : ℚ) < (1 + 1 / 2 ^ 53) ^ n := by positivity

theorem one_le_factor (n : Nat) : (1 : ℚ) ≤ (1 + 1 / 2 ^ 53) ^ n := one_le_pow₀ (by norm_num)

theorem nonneg_right (h : Close n x y) : 0 ≤ y := by
  have hf := factor_pos n
  by_contra hneg
  have := h.le
  have := h.nonneg
  nlinarith

theorem pos_left (h : Close n x y) (hy : 0 < y) : 0 < x := by
  have hf := factor_pos n
  have hge := h.ge
  by_contra hneg
  nlinarith [h.nonneg]

theorem refl (hx : 0 ≤ x) : Close 0 x x := ⟨hx, by simp, by simp⟩

section

variable (h : Close n x y)
include h

theorem symm : Close n y x := ⟨h.nonneg_right, h.ge, h.le⟩

theorem trans (h' : Close m y z) : Close (n + m) x z where
  nonneg := h.nonneg
  le := by
    rw [add_comm n m, pow_add, ← mul_assoc]
    exact h.le.trans (mul_le_mul_of_nonneg_right h'.le (factor_pos n).le)
  ge := by
    rw [pow_add, ← mul_assoc]
    exact h'.ge.trans (mul_le_mul_of_nonneg_right h.ge (factor_pos m).le)

theorem mono (hnm : n ≤ m) : Close m x y where
  nonneg := h.nonneg
  le := h.le.trans (mul_le_mul_of_nonneg_left (pow_le_pow_right₀ (by norm_num) hnm) h.nonneg_right)
  ge := h.ge.trans (mul_le_mul_of_nonneg_left (pow_le_pow_right₀ (by norm_num) hnm) h.nonneg)

theorem add (h' : Close n x' y') : Close n (x + x') (y + y') where
  nonneg := add_nonneg h.nonneg h'.nonneg
  le := by rw [add_mul]; exact add_le_add h.le h'.le
  ge := by rw [add_mul]; exact add_le_add h.ge h'.ge

theorem mul (h' : Close m x' y') : Close (n + m) (x * x') (y * y') where
  nonneg := mul_nonneg h.nonneg h'.nonneg
  le := by
    rw [pow_add, mul_mul_mul_comm]
    exact mul_le_mul h.le h'.le h'.nonneg (mul_nonneg h.nonneg_right (factor_pos n).le)
  ge := by
    rw [pow_add, mul_mul_mul_comm]
    exact mul_le_mul h.ge h'.ge h'.nonneg_right (mul_nonneg h.nonneg (factor_pos n).le)

theorem inv (hx : 0 < x) (hy : 0 < y) : Close n x⁻¹ y⁻¹ where
  nonneg := (inv_pos.mpr hx).le
  le := by
    rw [inv_mul_eq_div, le_div_iff₀ hy, inv_mul_eq_div, div_le_iff₀ hx, mul_comm]
    exact h.ge
  ge := by
    rw [inv_mul_eq_div, le_div_iff₀ hx, inv_mul_eq_div, div_le_iff₀ hy, mul_comm]
    exact h.le

theorem div (h' : Close m x' y') (hx : 0 < x') (hy : 0 < y') : Close (n + m) (x / x') (y / y') := by
  exact h.mul (h'.inv hx hy)

/-! ### Back to integers -/

/-- What should have been at least `c` is, after rounding to an integer. -/
theorem le_floor {c : ℤ} (hc : 0 ≤ c) (hy : (c : ℚ) ≤ y)
    (hsmall : (c : ℚ) * ((1 + 1 / 2 ^ 53) ^ n - 1) < 1 / 2) : c ≤ ⌊x + 1 / 2⌋ := by
  have hf := one_le_factor n
  rw [Int.le_floor]
  by_contra hlt
  push Not at hlt
  have hx : x ≤ c := by linarith
  have hge := h.ge
  nlinarith

end

/-- What should have been `c` is `c` after rounding to an integer. -/
theorem floor_eq {c : ℤ} (h : Close n x c)
    (hsmall : (c : ℚ) * ((1 + 1 / 2 ^ 53) ^ n - 1) < 1 / 2) : ⌊x + 1 / 2⌋ = c := by
  have hc : 0 ≤ c := by exact_mod_cast h.nonneg_right
  refine le_antisymm ?_ (h.le_floor hc le_rfl hsmall)
  have hlt : ⌊x + 1 / 2⌋ < c + 1 := by
    rw [Int.floor_lt]
    have hle := h.le
    push_cast
    nlinarith
  omega

/-- Multiples of one number are compared as the numbers close to them are. -/
theorem le_of_le {k l : ℤ} {q : ℚ} (hq : 0 < q) (h : Close n x (k * q)) (h' : Close m x' (l * q))
    (hle : x ≤ x') (hsmall : (l : ℚ) * ((1 + 1 / 2 ^ 53) ^ (m + n) - 1) < 1) : k ≤ l := by
  have hkl : (k : ℚ) * q ≤ l * (1 + 1 / 2 ^ 53) ^ (m + n) * q := by
    calc (k : ℚ) * q ≤ x * (1 + 1 / 2 ^ 53) ^ n := h.ge
      _ ≤ x' * (1 + 1 / 2 ^ 53) ^ n := mul_le_mul_of_nonneg_right hle (factor_pos n).le
      _ ≤ l * q * (1 + 1 / 2 ^ 53) ^ m * (1 + 1 / 2 ^ 53) ^ n :=
        mul_le_mul_of_nonneg_right h'.le (factor_pos n).le
      _ = l * (1 + 1 / 2 ^ 53) ^ (m + n) * q := by rw [pow_add]; ring
  have hk : (k : ℚ) ≤ l * (1 + 1 / 2 ^ 53) ^ (m + n) := le_of_mul_le_mul_right hkl hq
  have hlt : (k : ℚ) < ((l + 1 : ℤ) : ℚ) := by
    push_cast
    linarith
  have : k < l + 1 := by exact_mod_cast hlt
  omega

end Close

theorem close_nearest (hx : 0 ≤ x) : Close 1 (nearest x) x := by
  rcases hx.eq_or_lt with rfl | hpos
  · rw [nearest, roundTo_zero]
    exact ⟨le_rfl, by simp, by simp⟩
  · obtain ⟨hle, hge⟩ := ulp_le (p := 52) hpos
    have hu := ulp_pos 52 x
    have herr := abs_le.mp (abs_roundTo_sub_le (p := 52) x)
    refine ⟨?_, ?_, ?_⟩
    · linarith [mul_pos (show (0 : ℚ) < 2 ^ 52 by norm_num) hu]
    · rw [pow_one]
      linarith
    · rw [pow_one]
      linarith

theorem Close.nearest {n : Nat} (h : Close n x y) : Close (n + 1) (nearest x) y := by
  rw [add_comm]
  exact (close_nearest h.nonneg).trans h

end Binary64
