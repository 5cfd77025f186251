import Mathlib.Algebra.Order.Field.Power
import Mathlib.Data.Rat.Cast.Order
import Mathlib.Tactic.FieldSimp
import Mathlib.Tactic.Linarith
import Mathlib.Tactic.LinearCombination
import Mathlib.Tactic.Positivity
import Mathlib.Tactic.Ring
import PostfixCalculator.Decimal.Shortest

/-! The shortest decimal of a magnitude rounds back to it.

Decimals and magnitudes are compared as rational numbers. The midpoints between neighbouring
magnitudes grow with the pattern, so a decimal rounds to the one pattern between whose midpoints it
lies. -/
namespace PostfixCalculator

namespace Decimal

def toRat (d : Decimal) : ℚ := d.digits * (10 : ℚ) ^ d.exponent

theorem zpow_mul_toNat (a : ℚ) (ha : a ≠ 0) (e : ℤ) :
    a ^ e * a ^ (-e).toNat = a ^ e.toNat := by
  rw [← zpow_natCast, ← zpow_natCast, ← zpow_add₀ ha]
  congr 1
  omega

theorem compareDyadic_eq (d : Decimal) (n : ℕ) (q : ℤ) :
    d.compareDyadic n q = compare d.toRat (n * (2 : ℚ) ^ q) := by
  have hscale : (0 : ℚ) < 10 ^ (-d.exponent).toNat * 2 ^ (-q).toNat := by positivity
  have hleft : ((d.digits * Nat.pow 10 d.exponent.toNat * Nat.pow 2 (-q).toNat : ℕ) : ℚ) =
      d.toRat * (10 ^ (-d.exponent).toNat * 2 ^ (-q).toNat) := by
    have h := zpow_mul_toNat 10 (by norm_num) d.exponent
    simp only [Nat.pow_eq, toRat]
    push_cast
    rw [← h]
    ring
  have hright : ((n * Nat.pow 2 q.toNat * Nat.pow 10 (-d.exponent).toNat : ℕ) : ℚ) =
      n * (2 : ℚ) ^ q * (10 ^ (-d.exponent).toNat * 2 ^ (-q).toNat) := by
    have h := zpow_mul_toNat 2 (by norm_num) q
    simp only [Nat.pow_eq]
    push_cast
    rw [← h]
    ring
  rw [compareDyadic]
  rcases lt_trichotomy d.toRat (n * (2 : ℚ) ^ q) with h | h | h
  · have hlt := mul_lt_mul_of_pos_right h hscale
    rw [← hleft, ← hright] at hlt
    rw [compare_lt_iff_lt.mpr h, compare_lt_iff_lt.mpr (by exact_mod_cast hlt)]
  · have heq := congrArg (· * ((10 : ℚ) ^ (-d.exponent).toNat * 2 ^ (-q).toNat)) h
    rw [← hleft, ← hright] at heq
    rw [compare_eq_iff_eq.mpr h, compare_eq_iff_eq.mpr (by exact_mod_cast heq)]
  · have hgt := mul_lt_mul_of_pos_right h hscale
    rw [← hleft, ← hright] at hgt
    rw [compare_gt_iff_gt.mpr h, compare_gt_iff_gt.mpr (by exact_mod_cast hgt)]

end Decimal

namespace Binary64

def value (b : ℕ) : ℚ := significand b * (2 : ℚ) ^ scale b

def midpoint (b : ℕ) : ℚ := value b + (2 : ℚ) ^ scale b / 2

theorem midpoint_eq (b : ℕ) :
    midpoint b = ((2 * significand b + 1 : ℕ) : ℚ) * (2 : ℚ) ^ (scale b - 1) := by
  rw [midpoint, value, zpow_sub_one₀ (by norm_num)]
  push_cast
  ring

/-- Neighbouring magnitudes are one unit of the lower one apart, also where the scale changes. -/
theorem value_succ (b : ℕ) : value (b + 1) = value b + (2 : ℚ) ^ scale b := by
  have hstep : scale (b + 1) = scale b ∧ significand (b + 1) = significand b + 1 ∨
      scale (b + 1) = scale b + 1 ∧ 2 * significand (b + 1) = significand b + 1 := by
    simp only [scale, significand]
    by_cases hlow : b + 1 < implicitBit
    · left
      rw [if_pos hlow, if_pos (by omega), Nat.div_eq_of_lt hlow, Nat.div_eq_of_lt (by omega)]
      exact ⟨rfl, rfl⟩
    by_cases hfirst : b + 1 = implicitBit
    · left
      rw [if_neg hlow, if_pos (by omega), hfirst, Nat.div_eq_of_lt (show b < implicitBit by omega),
        Nat.mod_self]
      exact ⟨rfl, by omega⟩
    rw [if_neg hlow, if_neg (by omega)]
    simp only [implicitBit] at hlow hfirst ⊢
    by_cases hlast : (b + 1) % 0x10000000000000 = 0
    · right
      omega
    · left
      omega
  rcases hstep with ⟨hscale, hdigits⟩ | ⟨hscale, hdigits⟩
  · rw [value, value, hscale, hdigits]
    push_cast
    ring
  · have hcast : (2 : ℚ) * significand (b + 1) = significand b + 1 := by exact_mod_cast hdigits
    rw [value, value, hscale, zpow_add_one₀ (by norm_num)]
    linear_combination (2 : ℚ) ^ scale b * hcast

theorem value_lt_midpoint (b : ℕ) : value b < midpoint b := by
  have hunit : (0 : ℚ) < 2 ^ scale b := by positivity
  rw [midpoint]
  linarith

theorem midpoint_lt_value_succ (b : ℕ) : midpoint b < value (b + 1) := by
  have hunit : (0 : ℚ) < 2 ^ scale b := by positivity
  rw [midpoint, value_succ]
  linarith

theorem midpoint_strictMono : StrictMono midpoint :=
  strictMono_nat_of_lt_succ fun b =>
    (midpoint_lt_value_succ b).trans (value_lt_midpoint (b + 1))

theorem roundsAtMost_iff {d : Decimal} {b : ℕ} (h : b < infinity) :
    roundsAtMost d b ↔ d.toRat < midpoint b ∨ (d.toRat = midpoint b ∧ b % 2 = 0) := by
  have hfinite : ¬ infinity ≤ b := by omega
  rw [roundsAtMost, Decimal.compareDyadic_eq, ← midpoint_eq]
  rcases lt_trichotomy d.toRat (midpoint b) with hlt | heq | hgt
  · simp [compare_lt_iff_lt.mpr hlt, hlt]
  · simp [heq, hfinite]
  · simp [compare_gt_iff_gt.mpr hgt, hfinite, hgt.not_gt, hgt.ne']

theorem roundsAtMost_of_infinity_le {d : Decimal} {b : ℕ} (h : infinity ≤ b) :
    roundsAtMost d b := by
  simp [roundsAtMost, h]

theorem roundsAtMost_mono {d : Decimal} {b c : ℕ} (h : roundsAtMost d b) (hle : b ≤ c) :
    roundsAtMost d c := by
  rcases hle.eq_or_lt with rfl | hlt
  · exact h
  by_cases hc : infinity ≤ c
  · exact roundsAtMost_of_infinity_le hc
  rw [roundsAtMost_iff (by omega)] at h ⊢
  have hmid := midpoint_strictMono hlt
  rcases h with h | ⟨h, _⟩
  · exact Or.inl (h.trans hmid)
  · exact Or.inl (h ▸ hmid)

/-- Rounding depends on the number alone, not on how it is written. -/
theorem roundsAtMost_congr {d e : Decimal} (h : d.toRat = e.toRat) (b : ℕ) :
    roundsAtMost d b = roundsAtMost e b := by
  rw [roundsAtMost, roundsAtMost, Decimal.compareDyadic_eq, Decimal.compareDyadic_eq, h]

theorem leastFrom_eq {p : ℕ → Bool} (hp : ∀ m n, m ≤ n → p m → p n) {b : ℕ} (hb : p b)
    {start : ℕ} (hleast : ∀ m, start ≤ m → m < b → p m = false) {bits : ℕ} (hle : start ≤ b)
    (hlt : b < start + 2 ^ bits) : leastFrom p start bits = b := by
  induction bits generalizing start with
  | zero =>
    rw [leastFrom]
    omega
  | succ bits ih =>
    have hpow : 2 ^ (bits + 1) = 2 ^ bits + 2 ^ bits := by ring
    have hpos : 0 < 2 ^ bits := by positivity
    rw [leastFrom, Nat.pow_eq]
    by_cases hlast : p (start + 2 ^ bits - 1)
    · have hbound : b ≤ start + 2 ^ bits - 1 := by
        by_contra hgt
        have := hleast _ (by omega) (by omega : start + 2 ^ bits - 1 < b)
        simp [this] at hlast
      rw [if_pos hlast]
      exact ih hleast hle (by omega)
    · have hbound : start + 2 ^ bits ≤ b := by
        by_contra hgt
        exact hlast (hp b _ (by omega) hb)
      rw [if_neg hlast]
      exact ih (fun m hm => hleast m (by omega)) hbound (by omega)

theorem isLeast_nearest (d : Decimal) : IsLeast {b | roundsAtMost d b} (nearest d) := by
  have hexists : ∃ b, roundsAtMost d b := ⟨infinity, roundsAtMost_of_infinity_le le_rfl⟩
  have hlt : Nat.find hexists < 0 + 2 ^ 63 :=
    (Nat.find_min' hexists (roundsAtMost_of_infinity_le le_rfl)).trans_lt (by decide)
  have hnearest : nearest d = Nat.find hexists := by
    refine leastFrom_eq (fun m n hle hm => roundsAtMost_mono hm hle) (Nat.find_spec hexists) ?_
      (Nat.zero_le _) hlt
    intro m _ hm
    exact Bool.eq_false_of_not_eq_true (Nat.find_min hexists hm)
  rw [hnearest]
  exact ⟨Nat.find_spec hexists, fun m hm => Nat.find_min' hexists hm⟩

theorem nearest_le (d : Decimal) : nearest d ≤ infinity :=
  (isLeast_nearest d).2 (roundsAtMost_of_infinity_le le_rfl)

theorem nearest_of_roundsTo {d : Decimal} {b : ℕ} (h : roundsTo d b) : nearest d = b := by
  rw [roundsTo, Bool.and_eq_true] at h
  obtain ⟨hatMost, hleast⟩ := h
  refine (isLeast_nearest d).unique ⟨hatMost, ?_⟩
  intro m hm
  by_contra hlt
  have hbelow := roundsAtMost_mono hm (show m ≤ b - 1 by omega)
  have hpos : b ≠ 0 := by omega
  simp [hpos, hbelow] at hleast

theorem nearest_congr {d e : Decimal} (h : d.toRat = e.toRat) : nearest d = nearest e := by
  rw [nearest, nearest, funext (roundsAtMost_congr h)]

theorem roundsTo_of_toRat {d : Decimal} {b : ℕ} (h : d.toRat = value b) (hb : b < infinity) :
    roundsTo d b := by
  have hatMost : roundsAtMost d b := by
    rw [roundsAtMost_iff hb, h]
    exact Or.inl (value_lt_midpoint b)
  cases b with
  | zero => simp [roundsTo, hatMost]
  | succ b =>
    have habove := midpoint_lt_value_succ b
    have hbelow : ¬ roundsAtMost d b := by
      rw [roundsAtMost_iff (by omega), h]
      rintro (hlt | ⟨heq, _⟩)
      · exact absurd hlt habove.not_gt
      · exact absurd heq habove.ne'
    simp [roundsTo, hatMost, hbelow]

theorem toRat_exact (b : ℕ) : (exact b).toRat = value b := by
  rcases le_total 0 (scale b) with h | h
  · obtain ⟨n, hn⟩ := Int.eq_ofNat_of_zero_le h
    simp [Decimal.toRat, exact, value, hn]
  · obtain ⟨n, hn⟩ := Int.eq_ofNat_of_zero_le (Int.neg_nonneg_of_nonpos h)
    have hneg : scale b = -(n : ℤ) := by omega
    have hten : (10 : ℚ) ^ n = 2 ^ n * 5 ^ n := by rw [← mul_pow]; norm_num
    simp only [Decimal.toRat, exact, value, hneg, neg_neg, Int.toNat_natCast, Nat.pow_eq,
      Int.toNat_neg_natCast, pow_zero, mul_one, zpow_neg, zpow_natCast,
      min_eq_left (show -(n : ℤ) ≤ 0 by omega), hten]
    push_cast
    field_simp

theorem roundsTo_onGrid {b k : ℕ} {x d : Decimal} (h : onGrid b x k = some d) : roundsTo d b := by
  rw [onGrid] at h
  split at h
  case h_1 hlower hupper =>
    cases h
    split
    · exact hlower
    · exact hupper
  case h_2 hlower _ =>
    cases h
    exact hlower
  case h_3 _ hupper =>
    cases h
    exact hupper
  case h_4 => cases h

theorem roundsTo_coarsest {b : ℕ} {x : Decimal} (h : roundsTo x b) (k : ℕ) :
    roundsTo (coarsest b x k) b := by
  induction k with
  | zero => exact h
  | succ k ih =>
    rw [coarsest]
    cases hgrid : onGrid b x (k + 1) with
    | none => exact ih
    | some d => exact roundsTo_onGrid hgrid

/-- A finite magnitude is read back from its shortest decimal. -/
theorem nearest_shortest {b : ℕ} (h : b < infinity) : nearest (shortest b) = b := by
  apply nearest_of_roundsTo
  rw [shortest]
  split
  case isTrue hzero =>
    subst hzero
    exact roundsTo_of_toRat (by simp [Decimal.toRat, value, significand, implicitBit]) h
  case isFalse => exact roundsTo_coarsest (roundsTo_of_toRat (toRat_exact b) h) _

end Binary64

end PostfixCalculator
