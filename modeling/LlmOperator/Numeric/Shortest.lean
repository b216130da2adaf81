import LlmOperator.Numeric.Binary64
import Mathlib.Algebra.Order.Archimedean.Basic
import Mathlib.Algebra.Order.Ring.Int
import Mathlib.Tactic.NormNum

/-!
# The shortest decimal

A number of the machine is printed as the decimal with the fewest significant digits that is
read back as the same number, and of these as the one nearest to it. `shortest` finds it by
looking, for one number of digits after the other, at the two decimals next to the number.

`value_shortest_eq_iff` answers which integers come back unchanged when they are read and
printed: those that are themselves the shortest decimal of the number they are read as.
-/

namespace LlmOperator.Numeric

/-- A decimal literal, by the integer its digits make and the exponent of the last of them. -/
structure Decimal where
  significand : ℤ
  exponent : ℤ
  deriving DecidableEq

def Decimal.value (d : Decimal) : ℚ := d.significand * 10 ^ d.exponent

/-- At most `n` significant digits. -/
def HasDigits (x : ℚ) (n : ℕ) : Prop := ∃ d : Decimal, |d.significand| < 10 ^ n ∧ d.value = x

/-- `x` has no more significant digits than `y`. -/
def AsShort (x y : ℚ) : Prop := ∀ n, HasDigits y n → HasDigits x n

theorem ten_zpow_pos (k : ℤ) : (0 : ℚ) < 10 ^ k := zpow_pos (by norm_num) k

variable {x : ℚ} {z : ℤ}

theorem HasDigits.mono {m n : ℕ} (h : HasDigits x m) (hmn : m ≤ n) : HasDigits x n := by
  obtain ⟨d, hd, hx⟩ := h
  exact ⟨d, hd.trans_le (pow_le_pow_right₀ (by norm_num) hmn), hx⟩

theorem hasDigits_of_le {s k : ℤ} {n : ℕ} (hn : 1 ≤ n) (hs : |s| ≤ 10 ^ n) :
    HasDigits (s * 10 ^ k) n := by
  rcases hs.lt_or_eq with hlt | heq
  · exact ⟨⟨s, k⟩, hlt, rfl⟩
  -- All digits carried: a power of ten has one digit.
  · have hone : (1 : ℤ) < 10 ^ n := one_lt_pow₀ (by norm_num) (by omega)
    have hpow : (10 : ℚ) ^ (n + k) = 10 ^ n * 10 ^ k := by
      rw [zpow_add₀ (by norm_num), zpow_natCast]
    rcases eq_or_eq_neg_of_abs_eq heq with rfl | rfl
    · refine ⟨⟨1, n + k⟩, by simpa using hone, ?_⟩
      show ((1 : ℤ) : ℚ) * 10 ^ (n + k) = _
      rw [hpow]
      push_cast
      ring
    · refine ⟨⟨-1, n + k⟩, by simpa using hone, ?_⟩
      show ((-1 : ℤ) : ℚ) * 10 ^ (n + k) = _
      rw [hpow]
      push_cast
      ring

/-! ## The decimals next to a number -/

section Next

/-- The exponent of the last of `n` digits of a number of the size of `f`. -/
def grid (f : ℚ) (n : ℕ) : ℤ := Int.log 10 |f| + 1 - n

def below (f : ℚ) (n : ℕ) : Decimal := ⟨⌊f / 10 ^ grid f n⌋, grid f n⟩

def above (f : ℚ) (n : ℕ) : Decimal := ⟨⌊f / 10 ^ grid f n⌋ + 1, grid f n⟩

variable {f : ℚ} {n : ℕ}

theorem value_above (f : ℚ) (n : ℕ) :
    (above f n).value = (below f n).value + 10 ^ grid f n := by
  show ((⌊f / 10 ^ grid f n⌋ + 1 : ℤ) : ℚ) * 10 ^ grid f n = ⌊f / 10 ^ grid f n⌋ * 10 ^ grid f n + _
  push_cast
  ring

theorem below_le (f : ℚ) (n : ℕ) : (below f n).value ≤ f :=
  (le_div_iff₀ (ten_zpow_pos _)).mp (Int.floor_le _)

theorem lt_above (f : ℚ) (n : ℕ) : f < (above f n).value := by
  have h := (div_lt_iff₀ (ten_zpow_pos (grid f n))).mp (Int.lt_floor_add_one (f / 10 ^ grid f n))
  exact_mod_cast h

theorem abs_lt_grid (f : ℚ) (n : ℕ) : |f / 10 ^ grid f n| < (10 ^ n : ℤ) := by
  have hpos := ten_zpow_pos (grid f n)
  have hlog : |f| < (10 : ℚ) ^ (Int.log 10 |f| + 1) := by
    exact_mod_cast Int.lt_zpow_succ_log_self (b := 10) (by norm_num) |f|
  have hpow : (10 : ℚ) ^ (Int.log 10 |f| + 1) = 10 ^ n * 10 ^ grid f n := by
    rw [← zpow_natCast, ← zpow_add₀ (by norm_num)]
    congr 1
    unfold grid
    ring
  rw [abs_div, abs_of_pos hpos, div_lt_iff₀ hpos]
  push_cast
  rwa [← hpow]

theorem floor_grid (f : ℚ) (n : ℕ) :
    -10 ^ n ≤ ⌊f / 10 ^ grid f n⌋ ∧ ⌊f / 10 ^ grid f n⌋ < 10 ^ n := by
  have h := abs_lt.mp (abs_lt_grid f n)
  refine ⟨Int.le_floor.mpr ?_, Int.floor_lt.mpr h.2⟩
  push_cast at h ⊢
  exact h.1.le

theorem hasDigits_below (hn : 1 ≤ n) : HasDigits (below f n).value n := by
  obtain ⟨hlower, hupper⟩ := floor_grid f n
  exact hasDigits_of_le hn (abs_le.mpr ⟨hlower, hupper.le⟩)

theorem hasDigits_above (hn : 1 ≤ n) : HasDigits (above f n).value n := by
  obtain ⟨hlower, hupper⟩ := floor_grid f n
  exact hasDigits_of_le hn (abs_le.mpr ⟨by show _ ≤ _ + 1; omega, by show _ + 1 ≤ _; omega⟩)

/-- A decimal with `n` digits is on the grid, or a number of the grid separates its size from that
of `f`. -/
theorem on_grid_or_lt (hf : f ≠ 0) (hn : 1 ≤ n) (hx : HasDigits x n) :
    (∃ z : ℤ, x = z * 10 ^ grid f n) ∨
      ∃ z : ℤ, |x| < z * 10 ^ grid f n ∧ z * 10 ^ grid f n ≤ |f| := by
  obtain ⟨⟨s, k⟩, hs, rfl⟩ := hx
  by_cases hk : grid f n ≤ k
  · obtain ⟨d, hd⟩ := Int.eq_ofNat_of_zero_le (sub_nonneg.mpr hk)
    refine Or.inl ⟨s * 10 ^ d, ?_⟩
    show (s : ℚ) * 10 ^ k = _
    have hsum : k = d + grid f n := by omega
    rw [hsum, zpow_add₀ (by norm_num), zpow_natCast]
    push_cast
    ring
  · rw [not_le] at hk
    have hlog : (10 : ℚ) ^ Int.log 10 |f| ≤ |f| := by
      exact_mod_cast Int.zpow_log_le_self (b := 10) (by norm_num) (abs_pos.mpr hf)
    have hs' : |(s : ℚ)| < 10 ^ n := by exact_mod_cast hs
    have hpow : ((10 ^ (n - 1) : ℤ) : ℚ) * 10 ^ grid f n = 10 ^ Int.log 10 |f| := by
      push_cast
      rw [← zpow_natCast, ← zpow_add₀ (by norm_num)]
      congr 1
      unfold grid
      omega
    refine Or.inr ⟨10 ^ (n - 1), ?_, by rwa [hpow]⟩
    rw [hpow]
    calc |(s : ℚ) * 10 ^ k| = |(s : ℚ)| * 10 ^ k := by rw [abs_mul, abs_of_pos (ten_zpow_pos k)]
      _ < 10 ^ n * 10 ^ k := mul_lt_mul_of_pos_right hs' (ten_zpow_pos k)
      _ = 10 ^ (n + k) := by rw [zpow_add₀ (by norm_num), zpow_natCast]
      _ ≤ 10 ^ Int.log 10 |f| := by
          refine zpow_le_zpow_right₀ (by norm_num) ?_
          unfold grid at hk
          omega

theorem le_below_of_grid (h : z * 10 ^ grid f n ≤ f) : z * 10 ^ grid f n ≤ (below f n).value := by
  have hz : z ≤ ⌊f / 10 ^ grid f n⌋ := Int.le_floor.mpr ((le_div_iff₀ (ten_zpow_pos _)).mpr h)
  exact mul_le_mul_of_nonneg_right (by exact_mod_cast hz) (ten_zpow_pos _).le

theorem above_le_of_grid (h : f < z * 10 ^ grid f n) : (above f n).value ≤ z * 10 ^ grid f n := by
  have hz : ⌊f / 10 ^ grid f n⌋ < z := Int.floor_lt.mpr ((div_lt_iff₀ (ten_zpow_pos _)).mpr h)
  exact mul_le_mul_of_nonneg_right (by exact_mod_cast hz) (ten_zpow_pos _).le

/-- Among the decimals with `n` digits, `below` is next to `f` from below. -/
theorem le_below (hf : f ≠ 0) (hn : 1 ≤ n) (hx : HasDigits x n) (hle : x ≤ f) :
    x ≤ (below f n).value := by
  rcases on_grid_or_lt hf hn hx with ⟨z, rfl⟩ | ⟨z, hlt, hz⟩
  · exact le_below_of_grid hle
  · have hx' := abs_lt.mp hlt
    rcases abs_cases f with ⟨habs, -⟩ | ⟨habs, -⟩
    · exact hx'.2.le.trans (le_below_of_grid (hz.trans_eq habs))
    · linarith

/-- Among the decimals with `n` digits, `above` is next to `f` from above, unless `f` is one of
them itself. -/
theorem above_le (hf : f ≠ 0) (hn : 1 ≤ n) (hoff : (below f n).value ≠ f) (hx : HasDigits x n)
    (hlt : f < x) : (above f n).value ≤ x := by
  rcases on_grid_or_lt hf hn hx with ⟨z, rfl⟩ | ⟨z, hz, hle⟩
  · exact above_le_of_grid hlt
  · have hx' := abs_lt.mp hz
    rcases abs_cases f with ⟨habs, -⟩ | ⟨habs, -⟩
    · linarith
    · have hneg : f ≤ ((-z : ℤ) : ℚ) * 10 ^ grid f n := by
        push_cast
        linarith
      have hne : f ≠ ((-z : ℤ) : ℚ) * 10 ^ grid f n := by
        intro heq
        exact hoff (le_antisymm (below_le f n) (heq.le.trans (le_below_of_grid heq.ge)))
      refine (above_le_of_grid (lt_of_le_of_ne hneg hne)).trans ?_
      push_cast
      linarith

end Next

/-! ## Printing -/

/-- The nearer to `f` of the two decimals with `n` digits next to it, the even one where both are as
near, of those that are read as `f`. -/
def pick (f : ℚ) (n : ℕ) : Option Decimal :=
  let low := below f n
  let high := above f n
  if nearest low.value = f then
    if nearest high.value = f ∧ (high.value - f < f - low.value ∨
        high.value - f = f - low.value ∧ high.significand % 2 = 0) then some high
    else some low
  else if nearest high.value = f then some high
  else none

/-- The first number of digits, counted from `n`, with which there is a decimal to print. -/
def search (f : ℚ) : ℕ → ℕ → Decimal
  | 0, _ => ⟨0, 0⟩
  | more + 1, n => (pick f n).getD (search f more (n + 1))

/-- Enough digits to write any number out exactly: one for each bit of the significand and one for
each bit behind the point. -/
def maxDigits : ℕ := 53 + 1074

def shortest (f : Float64) : Decimal :=
  if f.value = 0 then ⟨0, 0⟩ else search f.value maxDigits 1

/-- `x` is the decimal that `f` is printed as, or as near to `f` as that one. -/
structure Printed (f x : ℚ) : Prop where
  reads : nearest x = f
  fewest : ∀ y, nearest y = f → AsShort x y
  closest : ∀ y, nearest y = f → AsShort y x → |f - x| ≤ |f - y|

theorem pick_eq_some {f : ℚ} {n : ℕ} {d : Decimal} (h : pick f n = some d) :
    (d = below f n ∨ d = above f n) ∧ nearest d.value = f ∧
      (nearest (below f n).value = f → |f - d.value| ≤ |f - (below f n).value|) ∧
      (nearest (above f n).value = f → |f - d.value| ≤ |f - (above f n).value|) := by
  have hlow : |f - (below f n).value| = f - (below f n).value :=
    abs_of_nonneg (sub_nonneg.mpr (below_le f n))
  have hhigh : |f - (above f n).value| = (above f n).value - f := by
    rw [abs_sub_comm]
    exact abs_of_pos (sub_pos.mpr (lt_above f n))
  unfold pick at h
  dsimp only at h
  split_ifs at h with hbelow hboth habove
  · cases h
    refine ⟨Or.inr rfl, hboth.1, fun _ => ?_, fun _ => le_rfl⟩
    rw [hlow, hhigh]
    rcases hboth.2 with hlt | ⟨heq, -⟩
    · exact hlt.le
    · exact heq.le
  · cases h
    refine ⟨Or.inl rfl, hbelow, fun _ => le_rfl, fun habove => ?_⟩
    rw [hlow, hhigh]
    by_contra hlt
    exact hboth ⟨habove, Or.inl (not_le.mp hlt)⟩
  · cases h
    exact ⟨Or.inr rfl, habove, fun hno => absurd hno hbelow, fun _ => le_rfl⟩

theorem pick_eq_none {f : ℚ} {n : ℕ} (h : pick f n = none) :
    nearest (below f n).value ≠ f ∧ nearest (above f n).value ≠ f := by
  unfold pick at h
  dsimp only at h
  split_ifs at h with hbelow hboth habove
  exact ⟨hbelow, habove⟩

section Pick

variable {f : ℚ} {n : ℕ}

section

variable (hf : Precise f) (hne : f ≠ 0)
include hf hne

/-- A decimal with `n` digits that is read as `f` has one of the two next to `f` between itself and
`f`. -/
theorem next_of_reads (hn : 1 ≤ n) (hx : nearest x = f) (hdigits : HasDigits x n) :
    nearest (below f n).value = f ∧ |f - (below f n).value| ≤ |f - x| ∨
      nearest (above f n).value = f ∧ |f - (above f n).value| ≤ |f - x| := by
  have hself : nearest f = f := nearest_eq_self hf
  by_cases hoff : (below f n).value = f
  · rw [hoff, sub_self, abs_zero]
    exact Or.inl ⟨hself, abs_nonneg _⟩
  rcases le_or_gt x f with hle | hgt
  · have hbelow := le_below hne hn hdigits hle
    refine Or.inl ⟨nearest_eq_of_between hx hself hbelow (below_le f n), ?_⟩
    rw [abs_of_nonneg (sub_nonneg.mpr (below_le f n)), abs_of_nonneg (sub_nonneg.mpr hle)]
    linarith
  · have habove := above_le hne hn hoff hdigits hgt
    refine Or.inr ⟨nearest_eq_of_between hself hx (lt_above f n).le habove, ?_⟩
    rw [abs_of_neg (sub_neg.mpr (lt_above f n)), abs_of_neg (sub_neg.mpr hgt)]
    linarith

theorem pick_closest (hn : 1 ≤ n) {d : Decimal} (hd : pick f n = some d) (hx : nearest x = f)
    (hdigits : HasDigits x n) : |f - d.value| ≤ |f - x| := by
  obtain ⟨-, -, hbelow, habove⟩ := pick_eq_some hd
  rcases next_of_reads hf hne hn hx hdigits with ⟨hreads, hle⟩ | ⟨hreads, hle⟩
  · exact (hbelow hreads).trans hle
  · exact (habove hreads).trans hle

theorem not_hasDigits_of_pick (hn : 1 ≤ n) (hd : pick f n = none) (hx : nearest x = f) :
    ¬HasDigits x n := by
  intro hdigits
  obtain ⟨hbelow, habove⟩ := pick_eq_none hd
  rcases next_of_reads hf hne hn hx hdigits with ⟨hreads, -⟩ | ⟨hreads, -⟩
  · exact hbelow hreads
  · exact habove hreads

/-- The search, once it is known that fewer digits do not do and that some number of digits within
reach does. -/
theorem printed_search (more : ℕ) (hn : 1 ≤ n)
    (hfewer : ∀ x m, nearest x = f → HasDigits x m → n ≤ m)
    (hfound : ∃ m, m < n + more ∧ HasDigits f m) : Printed f (search f more n).value := by
  induction more generalizing n with
  | zero =>
    obtain ⟨m, hm, hdigits⟩ := hfound
    have := hfewer f m (nearest_eq_self hf) hdigits
    omega
  | succ more ih =>
    unfold search
    cases hd : pick f n with
    | some d =>
      obtain ⟨hnext, hreads, -⟩ := pick_eq_some hd
      have hdigits : HasDigits d.value n := by
        rcases hnext with rfl | rfl
        · exact hasDigits_below hn
        · exact hasDigits_above hn
      refine ⟨hreads, fun y hy m hm => hdigits.mono (hfewer y m hy hm), fun y hy hshort => ?_⟩
      exact pick_closest hf hne hn hd hy (hshort n hdigits)
    | none =>
      have hno := fun {x} => not_hasDigits_of_pick hf hne hn hd (x := x)
      refine ih (by omega) (fun x m hx hm => ?_) ?_
      · have hle := hfewer x m hx hm
        have hneq : m ≠ n := by
          rintro rfl
          exact hno hx hm
        omega
      · obtain ⟨m, hm, hdigits⟩ := hfound
        exact ⟨m, by omega, hdigits⟩

end

end Pick

theorem abs_lt_of_cast {n : ℕ} (h : |(z : ℚ)| < 2 ^ n) : |z| < 2 ^ n := by
  exact_mod_cast h

/-- Every number of the machine can be written out. -/
theorem hasDigits_value (f : Float64) : HasDigits f.value maxDigits := by
  obtain ⟨m, e, hm, he, hf⟩ := f.precise
  rcases le_or_gt 0 e with hpos | hneg
  · obtain ⟨d, rfl⟩ := Int.eq_ofNat_of_zero_le hpos
    have hvalue : f.value = ((m * 2 ^ d : ℤ) : ℚ) := by
      rw [hf]
      push_cast
      rw [zpow_natCast]
    refine ⟨⟨m * 2 ^ d, 0⟩, ?_, ?_⟩
    · have hfinite := f.finite
      rw [hvalue] at hfinite
      calc |m * 2 ^ d| < 2 ^ 1024 := abs_lt_of_cast hfinite
        _ ≤ 10 ^ 1024 := pow_le_pow_left₀ (by norm_num) (by norm_num) 1024
        _ ≤ 10 ^ maxDigits := pow_le_pow_right₀ (by norm_num) (by decide)
    · rw [hvalue, Decimal.value, zpow_zero, mul_one]
  · obtain ⟨d, hd⟩ := Int.eq_ofNat_of_zero_le (neg_nonneg.mpr hneg.le)
    have he' : e = -d := by omega
    refine ⟨⟨m * 5 ^ d, e⟩, ?_, ?_⟩
    · show |m * 5 ^ d| < 10 ^ maxDigits
      have hd' : d ≤ 1074 := by omega
      have hm' : |m| < 10 ^ 53 := hm.trans (by norm_num)
      rw [abs_mul, abs_of_pos (by positivity : (0 : ℤ) < 5 ^ d)]
      calc |m| * 5 ^ d ≤ |m| * 10 ^ d :=
            mul_le_mul_of_nonneg_left (pow_le_pow_left₀ (by norm_num) (by norm_num) d)
              (abs_nonneg m)
        _ < 10 ^ 53 * 10 ^ d := mul_lt_mul_of_pos_right hm' (by positivity)
        _ ≤ 10 ^ 53 * 10 ^ 1074 :=
            mul_le_mul_of_nonneg_left (pow_le_pow_right₀ (by norm_num) hd') (by positivity)
        _ = 10 ^ maxDigits := (pow_add 10 53 1074).symm
    · show ((m * 5 ^ d : ℤ) : ℚ) * 10 ^ e = f.value
      rw [hf, he', zpow_neg, zpow_neg, zpow_natCast, zpow_natCast]
      push_cast
      rw [show (10 : ℚ) = 5 * 2 by norm_num, mul_pow]
      field_simp

/-- What is printed is read back, and it is the shortest and nearest such decimal. -/
theorem printed_shortest (f : Float64) : Printed f.value (shortest f).value := by
  unfold shortest
  split
  · rename_i hzero
    have hvalue : (⟨0, 0⟩ : Decimal).value = 0 := by simp [Decimal.value]
    rw [hvalue, hzero]
    refine ⟨nearest_zero, fun y hy n hn => ⟨⟨0, 0⟩, by simp, hvalue⟩, fun y _ _ => ?_⟩
    rw [sub_self, abs_zero]
    exact abs_nonneg _
  · rename_i hne
    refine printed_search f.precise hne maxDigits le_rfl (fun x m hx hm => ?_)
      ⟨maxDigits, by omega, hasDigits_value f⟩
    by_contra hlt
    have hm0 : m = 0 := by omega
    subst hm0
    obtain ⟨d, hd, rfl⟩ := hm
    have hzero : d.significand = 0 := by simpa using hd
    rw [Decimal.value, hzero, Int.cast_zero, zero_mul, nearest_zero] at hx
    exact hne hx.symm

/-! ## Integers that come back -/

/-- Every other decimal that is read as the same number has more digits than `x`, or as many and is
farther from that number. -/
def Kept (x : ℚ) : Prop :=
  ∀ y, nearest y = nearest x → y ≠ x →
    ¬AsShort y x ∨ AsShort x y ∧ |nearest x - x| < |nearest x - y|

/-- The bits of a small integer all fit. -/
theorem nearest_intCast_of_scale (h : scale z ≤ 0) : nearest z = z := by
  obtain ⟨d, hd⟩ := Int.eq_ofNat_of_zero_le (neg_nonneg.mpr h)
  have hscale : scale (z : ℚ) = -d := by omega
  have hmul : (z : ℚ) / 2 ^ scale z = ((z * 2 ^ d : ℤ) : ℚ) := by
    rw [hscale, zpow_neg, zpow_natCast, div_inv_eq_mul]
    push_cast
    rfl
  unfold nearest
  rw [hmul, roundEven_intCast, ← hmul, div_mul_cancel₀ _ (two_zpow_pos _).ne']

/-- Half of a power of ten has one factor two less. -/
theorem two_mul_ne_ten_pow {a : ℤ} {n : ℕ} (h : 2 ^ n ∣ a) : 2 * a ≠ 10 ^ n := by
  intro heq
  obtain ⟨c, rfl⟩ := h
  have hten : (10 : ℤ) ^ n = 2 ^ n * 5 ^ n := by
    rw [← mul_pow]
    norm_num
  have hfive : 2 * c = 5 ^ n := by
    have hpos : (2 : ℤ) ^ n ≠ 0 := by positivity
    refine mul_left_cancel₀ hpos ?_
    rw [← hten, ← heq]
    ring
  have hodd : Odd ((5 : ℤ) ^ n) := Odd.pow (by decide)
  rw [← hfive] at hodd
  exact (Int.not_even_iff_odd.mpr hodd) (even_two_mul c)

/-- An integer is not half a unit of its last digit away from the number it is read as. -/
theorem ne_half_unit {s k : ℤ} (hz : (z : ℚ) = s * 10 ^ k) : 2 * |nearest z - z| ≠ 10 ^ k := by
  intro hhalf
  have hpos := ten_zpow_pos k
  rcases le_or_gt (scale z) 0 with hle | hgt
  · rw [nearest_intCast_of_scale hle, sub_self, abs_zero, mul_zero] at hhalf
    exact hpos.ne hhalf
  obtain ⟨e, he⟩ := Int.eq_ofNat_of_zero_le hgt.le
  have hunit : (10 : ℚ) ^ k ≤ 2 ^ e := by
    have hbits := abs_sub_nearest (z : ℚ)
    rw [abs_sub_comm, he, zpow_natCast] at hbits
    linarith
  obtain ⟨q, hq⟩ : ∃ q : ℤ, nearest z = ((q * 2 ^ e : ℤ) : ℚ) := by
    refine ⟨roundEven (z / 2 ^ scale z), ?_⟩
    unfold nearest
    rw [he, zpow_natCast]
    push_cast
    rfl
  have hint : ((2 * |q * 2 ^ e - z| : ℤ) : ℚ) = 10 ^ k := by
    rw [← hhalf, hq]
    push_cast
    rfl
  have hk : 0 ≤ k := by
    by_contra hneg
    have hlt : (10 : ℚ) ^ k < 1 := zpow_lt_one_of_neg₀ (by norm_num) (by omega)
    rw [← hint] at hlt hpos
    have hbelow : 2 * |q * 2 ^ e - z| < 1 := by exact_mod_cast hlt
    have habove : 0 < 2 * |q * 2 ^ e - z| := by exact_mod_cast hpos
    omega
  obtain ⟨n, rfl⟩ := Int.eq_ofNat_of_zero_le hk
  rw [zpow_natCast] at hint hz hunit
  have hne : n ≤ e := by
    have hten : (10 : ℤ) ^ n ≤ 2 ^ e := by exact_mod_cast hunit
    have htwo : (2 : ℤ) ^ n ≤ 10 ^ n := pow_le_pow_left₀ (by norm_num) (by norm_num) n
    exact (pow_le_pow_iff_right₀ one_lt_two).mp (htwo.trans hten)
  have hz' : z = s * 10 ^ n := by exact_mod_cast hz
  have hdvd : (2 : ℤ) ^ n ∣ |q * 2 ^ e - z| := by
    rw [dvd_abs, hz']
    exact dvd_sub (Dvd.dvd.mul_left (pow_dvd_pow 2 hne) q)
      (Dvd.dvd.mul_left (pow_dvd_pow_of_dvd (by norm_num) n) s)
  exact two_mul_ne_ten_pow hdvd (by exact_mod_cast hint)

theorem hasDigits_intCast (z : ℤ) : ∃ n, HasDigits z n := by
  obtain ⟨n, hn⟩ := pow_unbounded_of_one_lt |z| (by norm_num : (1 : ℤ) < 10)
  exact ⟨n, ⟨z, 0⟩, hn, by rw [Decimal.value, zpow_zero, mul_one]⟩

/-- The number of digits of an integer. -/
theorem exists_numDigits (hz : z ≠ 0) :
    ∃ n, 1 ≤ n ∧ HasDigits z n ∧ ∀ x, HasDigits x n → AsShort x z := by
  classical
  have h := hasDigits_intCast z
  refine ⟨Nat.find h, ?_, Nat.find_spec h, fun x hx m hm => hx.mono (Nat.find_min' h hm)⟩
  rw [Nat.one_le_iff_ne_zero]
  intro hzero
  obtain ⟨d, hd, hvalue⟩ := hzero ▸ Nat.find_spec h
  have hd0 : d.significand = 0 := by simpa using hd
  rw [Decimal.value, hd0, Int.cast_zero, zero_mul] at hvalue
  exact hz (by exact_mod_cast hvalue.symm)

theorem nearest_intCast_ne_zero (hz : z ≠ 0) : nearest z ≠ 0 := by
  have hone : nearest 1 = 1 := nearest_eq_self ⟨1, 0, by norm_num, by norm_num, by norm_num⟩
  have hneg : nearest (-1) = -1 := nearest_eq_self ⟨-1, 0, by norm_num, by norm_num, by norm_num⟩
  rcases lt_or_gt_of_ne hz with hlt | hgt
  · have hle : (z : ℚ) ≤ -1 := by exact_mod_cast Int.le_sub_one_of_lt hlt
    have := nearest_mono hle
    rw [hneg] at this
    intro h
    linarith
  · have hle : (1 : ℚ) ≤ z := by exact_mod_cast hgt
    have := nearest_mono hle
    rw [hone] at this
    intro h
    linarith

/-- Two decimals with `n` digits, one on each side of `f` and none nearer, are next to each other on
the grid. -/
theorem tie_on_grid {f y : ℚ} {n : ℕ} (hf : Precise f) (hne : f ≠ 0) (hn : 1 ≤ n)
    (hx : nearest x = f) (hxn : HasDigits x n) (hy : nearest y = f) (hyn : HasDigits y n)
    (hlt : x < f) (htie : f - x = y - f)
    (hclosest : ∀ w, nearest w = f → HasDigits w n → f - x ≤ |f - w|) :
    x = (below f n).value ∧ y = (above f n).value := by
  have hself : nearest f = f := nearest_eq_self hf
  have hfy : f < y := by linarith
  have hxb : x ≤ (below f n).value := le_below hne hn hxn hlt.le
  have hb := hclosest _ (nearest_eq_of_between hx hself hxb (below_le f n)) (hasDigits_below hn)
  rw [abs_of_nonneg (sub_nonneg.mpr (below_le f n))] at hb
  have hxeq : x = (below f n).value := by linarith
  have hoff : (below f n).value ≠ f := by
    rw [← hxeq]
    exact hlt.ne
  have hay : (above f n).value ≤ y := above_le hne hn hoff hyn hfy
  have ha := hclosest _ (nearest_eq_of_between hself hy (lt_above f n).le hay) (hasDigits_above hn)
  rw [abs_of_neg (sub_neg.mpr (lt_above f n))] at ha
  exact ⟨hxeq, by linarith⟩

/-- No other decimal that is as short as a printed integer and is read the same is as near. -/
theorem Printed.lt (h : Printed (nearest z) z) {y : ℚ} (hy : nearest y = nearest z)
    (hshort : AsShort y z) (hne : y ≠ z) : |nearest z - z| < |nearest z - y| := by
  refine lt_of_le_of_ne (h.closest y hy hshort) ?_
  intro htie
  have hself : nearest z ≠ z := by
    intro hself
    rw [hself, sub_self, abs_zero, eq_comm, abs_eq_zero, sub_eq_zero] at htie
    exact hne htie.symm
  have hz : z ≠ 0 := by
    rintro rfl
    exact hself (by exact_mod_cast nearest_zero)
  obtain ⟨n, hn, hdigits, hall⟩ := exists_numDigits hz
  have hclosest : ∀ w, nearest w = nearest z → HasDigits w n → |nearest z - z| ≤ |nearest z - w| :=
    fun w hw hwn => h.closest w hw (hall w hwn)
  have hmirror : nearest z - z = y - nearest z := by
    rcases abs_eq_abs.mp htie with heq | heq
    · exact absurd (by linarith) hne
    · linarith
  have hprecise := precise_nearest (z : ℚ)
  have hf := nearest_intCast_ne_zero hz
  have hunit := value_above (nearest z) n
  rcases lt_or_gt_of_ne hself with hlt | hgt
  · obtain ⟨hyb, hza⟩ := tie_on_grid hprecise hf hn hy (hshort n hdigits) rfl hdigits
      (by linarith) (by linarith) fun w hw hwn => by
        have hle := hclosest w hw hwn
        rw [abs_of_neg (by linarith)] at hle
        linarith
    refine ne_half_unit hza ?_
    rw [abs_of_neg (by linarith)]
    show _ = (10 : ℚ) ^ grid (nearest z) n
    linarith
  · obtain ⟨hzb, hya⟩ := tie_on_grid hprecise hf hn rfl hdigits hy (hshort n hdigits)
      hgt hmirror fun w hw hwn => by
        have hle := hclosest w hw hwn
        rwa [abs_of_pos (by linarith)] at hle
    refine ne_half_unit hzb ?_
    rw [abs_of_pos (by linarith)]
    show _ = (10 : ℚ) ^ grid (nearest z) n
    linarith

/-- **Integers that come back.** An integer is printed as itself, after it has been read, exactly
when every other decimal that is read as the same number has more digits, or as many and is
farther from it. -/
theorem value_shortest_eq_iff {f : Float64} (hf : f.value = nearest z) :
    (shortest f).value = z ↔ Kept z := by
  have hprinted := hf ▸ printed_shortest f
  constructor
  · intro hz y hy hne
    rw [hz] at hprinted
    by_cases hshort : AsShort y z
    · exact Or.inr ⟨hprinted.fewest y hy, hprinted.lt hy hshort hne⟩
    · exact Or.inl hshort
  · intro hkept
    by_contra hne
    rcases hkept _ hprinted.reads hne with hlong | ⟨hshort, hlt⟩
    · exact hlong (hprinted.fewest z rfl)
    · exact absurd hlt (not_lt.mpr (hprinted.closest z rfl hshort))

end LlmOperator.Numeric
