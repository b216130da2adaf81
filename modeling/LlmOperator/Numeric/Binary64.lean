import Mathlib.Data.Int.Log
import Mathlib.Data.Rat.Floor
import Mathlib.Tactic.Linarith
import Mathlib.Tactic.FieldSimp
import Mathlib.Tactic.Ring

/-!
# Rounding to binary64

The numbers of the format are rationals `m * 2 ^ e` with a significand `m` of at most 53 bits
and an exponent `e` that is not below `-1074`. `nearest` rounds a rational to the nearest of
them, and to the even one of two. The exponent is not bounded above here; a rounded number
that is too large is refused when it is made a `Float64`.

`abs_sub_nearest_le` says that no number of the format is nearer. That `nearest` leaves these
numbers alone and is monotone follows from it alone.
-/

namespace LlmOperator.Numeric

/-! ## The nearest integer -/

/-- The nearest integer, the even one of two. -/
def roundEven (x : ℚ) : ℤ :=
  if x - ⌊x⌋ < 1 / 2 then ⌊x⌋
  else if 1 / 2 < x - ⌊x⌋ then ⌊x⌋ + 1
  else if ⌊x⌋ % 2 = 0 then ⌊x⌋
  else ⌊x⌋ + 1

variable (x : ℚ)

theorem abs_sub_roundEven : |x - roundEven x| ≤ 1 / 2 := by
  have hfloor := Int.floor_le x
  have hceil := Int.lt_floor_add_one x
  unfold roundEven
  split_ifs <;> rw [abs_le] <;> push_cast <;> constructor <;> linarith

/-- No integer is nearer. -/
theorem abs_sub_roundEven_le (z : ℤ) : |x - roundEven x| ≤ |x - z| := by
  have hhalf := abs_sub_roundEven x
  rcases lt_trichotomy z (roundEven x) with hlt | heq | hgt
  · have hle : (z : ℚ) + 1 ≤ roundEven x := by exact_mod_cast hlt
    have hlower := (abs_le.mp hhalf).1
    have hfar : 1 / 2 ≤ x - z := by linarith
    exact hhalf.trans (hfar.trans (le_abs_self _))
  · rw [heq]
  · have hle : (roundEven x : ℚ) + 1 ≤ z := by exact_mod_cast hgt
    have hupper := (abs_le.mp hhalf).2
    have hfar : 1 / 2 ≤ -(x - z) := by linarith
    exact hhalf.trans (hfar.trans (neg_le_abs _))

@[simp] theorem roundEven_intCast (z : ℤ) : roundEven z = z := by
  simp [roundEven]

/-! ## The numbers of the format -/

/-- A significand of 53 bits, and an exponent that is not too small. -/
def Precise (x : ℚ) : Prop := ∃ m e : ℤ, |m| < 2 ^ 53 ∧ -1074 ≤ e ∧ x = m * 2 ^ e

/-- The exponent of the last bit of a number of the size of `x`. -/
def scale (x : ℚ) : ℤ := max (-1074) (Int.log 2 |x| - 52)

/-- The nearest number of the format, the even one of two. -/
def nearest (x : ℚ) : ℚ := roundEven (x / 2 ^ scale x) * 2 ^ scale x

theorem two_zpow_pos (e : ℤ) : (0 : ℚ) < 2 ^ e := zpow_pos two_pos e

theorem abs_lt_two_zpow_scale : |x| < 2 ^ 53 * 2 ^ scale x := by
  have hlog : |x| < (2 : ℚ) ^ (Int.log 2 |x| + 1) := by
    exact_mod_cast Int.lt_zpow_succ_log_self (b := 2) one_lt_two |x|
  have hscale : Int.log 2 |x| + 1 ≤ 53 + scale x := by
    have := le_max_right (-1074) (Int.log 2 |x| - 52)
    unfold scale
    omega
  calc |x| < (2 : ℚ) ^ (Int.log 2 |x| + 1) := hlog
    _ ≤ 2 ^ (53 + scale x) := zpow_le_zpow_right₀ one_le_two hscale
    _ = 2 ^ 53 * 2 ^ scale x := by
        rw [zpow_add₀ two_ne_zero]
        norm_cast

/-- A multiple of the last bit is at least as far away. -/
theorem abs_sub_nearest_le_mul (z : ℤ) : |x - nearest x| ≤ |x - z * 2 ^ scale x| := by
  have hpos := two_zpow_pos (scale x)
  have hx : x = x / 2 ^ scale x * 2 ^ scale x := (div_mul_cancel₀ x hpos.ne').symm
  have hround := abs_sub_roundEven_le (x / 2 ^ scale x) z
  have hscaled : ∀ y : ℚ, |x - y * 2 ^ scale x| = |x / 2 ^ scale x - y| * 2 ^ scale x := by
    intro y
    nth_rewrite 1 [hx]
    rw [← sub_mul, abs_mul, abs_of_pos hpos]
  unfold nearest
  rw [hscaled, hscaled]
  exact mul_le_mul_of_nonneg_right hround hpos.le

/-- The error is at most half of the last bit. -/
theorem abs_sub_nearest : |x - nearest x| ≤ 2 ^ scale x / 2 := by
  have hpos := two_zpow_pos (scale x)
  have hround := abs_sub_roundEven (x / 2 ^ scale x)
  have hx : x - nearest x = (x / 2 ^ scale x - roundEven (x / 2 ^ scale x)) * 2 ^ scale x := by
    unfold nearest
    rw [sub_mul, div_mul_cancel₀ x hpos.ne']
  rw [hx, abs_mul, abs_of_pos hpos]
  calc _ ≤ 1 / 2 * 2 ^ scale x := mul_le_mul_of_nonneg_right hround hpos.le
    _ = 2 ^ scale x / 2 := by ring

theorem precise_nearest : Precise (nearest x) := by
  have hpos := two_zpow_pos (scale x)
  have hscale : -1074 ≤ scale x := le_max_left _ _
  have hbound : |x / 2 ^ scale x| < (2 ^ 53 : ℤ) := by
    rw [abs_div, abs_of_pos hpos, div_lt_iff₀ hpos]
    exact_mod_cast abs_lt_two_zpow_scale x
  have hround : |roundEven (x / 2 ^ scale x)| ≤ 2 ^ 53 := by
    have habs := abs_lt.mp hbound
    have herror := abs_le.mp (abs_sub_roundEven (x / 2 ^ scale x))
    have hupper : (roundEven (x / 2 ^ scale x) : ℚ) < (2 ^ 53 : ℤ) + 1 := by linarith
    have hlower : -((2 ^ 53 : ℤ) + 1 : ℚ) < roundEven (x / 2 ^ scale x) := by linarith
    rw [abs_le]
    constructor
    · have : -((2 ^ 53 : ℤ) + 1) < roundEven (x / 2 ^ scale x) := by exact_mod_cast hlower
      omega
    · have : roundEven (x / 2 ^ scale x) < 2 ^ 53 + 1 := by exact_mod_cast hupper
      omega
  rcases hround.lt_or_eq with hlt | heq
  · exact ⟨_, scale x, hlt, hscale, rfl⟩
  -- A carry out of the significand: it is a power of two, one bit further up.
  · have hup : (2 : ℚ) ^ (scale x + 1) = 2 * 2 ^ scale x := by
      rw [zpow_add_one₀ two_ne_zero, mul_comm]
    unfold nearest
    rcases eq_or_eq_neg_of_abs_eq heq with h | h
    · refine ⟨2 ^ 52, scale x + 1, by norm_num, by omega, ?_⟩
      rw [h, hup]
      push_cast
      ring
    · refine ⟨-2 ^ 52, scale x + 1, by norm_num, by omega, ?_⟩
      rw [h, hup]
      push_cast
      ring

theorem nearest_zero : nearest 0 = 0 := by
  have h : roundEven ((0 : ℤ) : ℚ) = 0 := roundEven_intCast 0
  rw [Int.cast_zero] at h
  unfold nearest
  rw [zero_div, h]
  simp

/-- A number with a finer last bit than `x` is smaller than `x` in size, with a power of two
between them. -/
theorem abs_lt_of_finer {x : ℚ} (hx : x ≠ 0) {m e : ℤ} (hm : |m| < 2 ^ 53) (he : -1074 ≤ e)
    (hfiner : e < scale x) :
    |(m * 2 ^ e : ℚ)| < 2 ^ 52 * 2 ^ scale x ∧ 2 ^ 52 * 2 ^ scale x ≤ |x| := by
  have hscale : scale x = Int.log 2 |x| - 52 := by
    unfold scale at hfiner ⊢
    omega
  constructor
  · have hm' : |(m : ℚ)| < 2 ^ 53 := by exact_mod_cast hm
    calc |(m * 2 ^ e : ℚ)| = |(m : ℚ)| * 2 ^ e := by rw [abs_mul, abs_of_pos (two_zpow_pos e)]
      _ < 2 ^ 53 * 2 ^ e := mul_lt_mul_of_pos_right hm' (two_zpow_pos e)
      _ = 2 ^ 52 * 2 ^ (e + 1) := by
          rw [zpow_add_one₀ two_ne_zero]
          ring
      _ ≤ 2 ^ 52 * 2 ^ scale x :=
          mul_le_mul_of_nonneg_left (zpow_le_zpow_right₀ one_le_two hfiner) (by norm_num)
  · have hlog : (2 : ℚ) ^ Int.log 2 |x| ≤ |x| := by
      exact_mod_cast Int.zpow_log_le_self (b := 2) one_lt_two (abs_pos.mpr hx)
    have hpow : (2 : ℚ) ^ Int.log 2 |x| = 2 ^ 52 * 2 ^ scale x := by
      rw [hscale, ← zpow_natCast, ← zpow_add₀ two_ne_zero]
      congr 1
      push_cast
      ring
    rwa [hpow] at hlog

/-- **Nearest.** No number of the format is nearer. -/
theorem abs_sub_nearest_le {y : ℚ} (hy : Precise y) : |x - nearest x| ≤ |x - y| := by
  obtain ⟨m, e, hm, he, rfl⟩ := hy
  rcases eq_or_ne x 0 with rfl | hx
  · rw [nearest_zero, sub_zero, abs_zero]
    exact abs_nonneg _
  by_cases hfiner : e < scale x
  · obtain ⟨hsmall, hlarge⟩ := abs_lt_of_finer hx hm he hfiner
    have hy := abs_lt.mp hsmall
    rcases lt_or_gt_of_ne hx with hneg | hpos
    · rw [abs_of_neg hneg] at hlarge
      have hmul := abs_sub_nearest_le_mul x (-2 ^ 52)
      push_cast at hmul
      refine hmul.trans ?_
      rw [abs_of_nonpos (by linarith), abs_of_nonpos (by linarith)]
      linarith
    · rw [abs_of_pos hpos] at hlarge
      have hmul := abs_sub_nearest_le_mul x (2 ^ 52)
      push_cast at hmul
      refine hmul.trans ?_
      rw [abs_of_nonneg (by linarith), abs_of_nonneg (by linarith)]
      linarith
  -- Otherwise the number is a multiple of the last bit.
  · obtain ⟨d, hd⟩ := Int.eq_ofNat_of_zero_le (sub_nonneg.mpr (not_lt.mp hfiner))
    have hy : (m * 2 ^ e : ℚ) = ((m * 2 ^ d : ℤ) : ℚ) * 2 ^ scale x := by
      have he : e = d + scale x := by omega
      rw [he, zpow_add₀ two_ne_zero]
      push_cast
      rw [zpow_natCast]
      ring
    rw [hy]
    exact abs_sub_nearest_le_mul x _

theorem nearest_eq_self {x : ℚ} (h : Precise x) : nearest x = x := by
  have hle := abs_sub_nearest_le x h
  rw [sub_self, abs_zero] at hle
  exact (sub_eq_zero.mp (abs_nonpos_iff.mp hle)).symm

/-- What is as near to the greater of two numbers as to the smaller one is not below their
middle. -/
theorem add_le_of_nearer {x a b : ℚ} (hab : b < a) (h : |x - a| ≤ |x - b|) : a + b ≤ 2 * x := by
  have hsq : (x - a) ^ 2 ≤ (x - b) ^ 2 := sq_le_sq.mpr h
  nlinarith

theorem le_add_of_nearer {x a b : ℚ} (hab : b < a) (h : |x - b| ≤ |x - a|) : 2 * x ≤ a + b := by
  have hsq : (x - b) ^ 2 ≤ (x - a) ^ 2 := sq_le_sq.mpr h
  nlinarith

theorem nearest_mono {x y : ℚ} (h : x ≤ y) : nearest x ≤ nearest y := by
  by_contra hgt
  rw [not_le] at hgt
  have hx := add_le_of_nearer hgt (abs_sub_nearest_le x (precise_nearest y))
  have hy := le_add_of_nearer hgt (abs_sub_nearest_le y (precise_nearest x))
  have hxy : x = y := by linarith
  rw [hxy] at hgt
  exact lt_irrefl _ hgt

/-- The rationals that are rounded to one number lie together. -/
theorem nearest_eq_of_between {x y z f : ℚ} (hx : nearest x = f) (hz : nearest z = f)
    (hxy : x ≤ y) (hyz : y ≤ z) : nearest y = f :=
  le_antisymm ((nearest_mono hyz).trans_eq hz) (hx.symm.le.trans (nearest_mono hxy))

/-! ## Numbers of the machine -/

/-- A finite number of the format. The two zeros are not told apart. -/
structure Float64 where
  value : ℚ
  precise : Precise value
  finite : |value| < 2 ^ 1024

@[ext] theorem Float64.ext {f g : Float64} (h : f.value = g.value) : f = g := by
  cases f
  cases g
  cases h
  rfl

/-- The nearest number, if it is not too large. -/
def toFloat64 (x : ℚ) : Option Float64 :=
  if h : |nearest x| < 2 ^ 1024 then some ⟨nearest x, precise_nearest x, h⟩ else none

theorem value_of_toFloat64 {x : ℚ} {f : Float64} (h : toFloat64 x = some f) :
    f.value = nearest x := by
  unfold toFloat64 at h
  split at h
  · cases h
    rfl
  · cases h

end LlmOperator.Numeric
