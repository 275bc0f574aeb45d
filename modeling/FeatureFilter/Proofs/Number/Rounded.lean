import FeatureFilter.Proofs.Number.Nearest
import FeatureFilter.Proofs.Number.Shortest
import Mathlib.Algebra.Order.Field.Power

/-!
# Rounding gives the nearest number

A ratio is rounded to the nearest number (`Binary64.nearest_ofRatio`), and so is a decimal
(`Decimal.nearest_toBinary64`): the decimals whose digits are not looked at are beyond the finite
numbers or less than half the least one.

Distances are compared in whole numbers: `gap n d y` is the distance from `n / d` units to `y`,
counted in `d`-ths of a unit.
-/

namespace FeatureFilter

namespace Binary64

variable {n d k s : Nat} {x : Binary64}

/-! ## Whole numbers -/

/-- A quotient is rounded by half a unit at most, and by half a unit only to an even number. -/
theorem divRound_half (n : Nat) (hd : 0 < d) :
    2 * (n - divRound n d * d : Int).natAbs ≤ d ∧
      (2 * (n - divRound n d * d : Int).natAbs = d → divRound n d % 2 = 0) := by
  have hn : (n : Int) = (n / d : Nat) * d + (n % d : Nat) := by
    exact_mod_cast (Nat.div_add_mod' n d).symm
  have hr : n % d < d := Nat.mod_lt n hd
  have hup : ((n / d + 1 : Nat) : Int) * d = (n / d : Nat) * d + d := by push_cast; ring
  unfold divRound
  simp only
  split
  · rw [hup]
    omega
  · omega

/-- No other whole number is nearer to a quotient than the one that it is rounded to. -/
theorem divRound_nearest (n : Nat) (hd : 0 < d) (m : Int) :
    (n - divRound n d * d : Int).natAbs ≤ (n - m * d).natAbs ∧
      ((n - m * d).natAbs = (n - divRound n d * d : Int).natAbs → m ≠ divRound n d →
        divRound n d % 2 = 0) := by
  obtain ⟨hhalf, htie⟩ := divRound_half n hd
  generalize divRound n d = s at *
  by_cases hm : m = s
  · subst hm
    exact ⟨le_refl _, fun _ h => absurd rfl h⟩
  · have hfar : m * d ≤ s * d - d ∨ s * d + d ≤ m * d := by
      rcases Int.lt_or_gt_of_ne hm with h | h
      · have := Int.mul_le_mul_of_nonneg_right (show m ≤ s - 1 by omega) d.cast_nonneg
        rw [Int.sub_mul, Int.one_mul] at this
        exact .inl this
      · have := Int.mul_le_mul_of_nonneg_right (show (s : Int) + 1 ≤ m by omega) d.cast_nonneg
        rw [Int.add_mul, Int.one_mul] at this
        exact .inr this
    exact ⟨by omega, fun h _ => htie (by omega)⟩

theorem le_divRound (n d : Nat) : n / d ≤ divRound n d := by
  unfold divRound
  simp only
  split <;> omega

theorem divRound_le (n d : Nat) : divRound n d ≤ n / d + 1 := by
  unfold divRound
  simp only
  split <;> omega

/-! ## Ratios -/

/-- The distance from `n / d` units to a number, in `d`-ths of a unit. -/
def gap (n d : Nat) (y : Binary64) : Nat := (n - y.position * d).natAbs

/-- Distances from a ratio are compared by their gaps. -/
theorem abs_sub_point (hd : 0 < d) (y : Binary64) :
    |(n : Rat) / d - y.point| = gap (n * 2 ^ 1074) d y / (d * 2 ^ 1074) := by
  have hd' : (d : Rat) ≠ 0 := by exact_mod_cast hd.ne'
  have hu : (2 : Rat) ^ 1074 ≠ 0 := by positivity
  have he : (n : Rat) / d - y.point =
      ((n * 2 ^ 1074 : Nat) - y.position * d : Int) / (d * 2 ^ 1074) := by
    rw [point, div_sub_div _ _ hd' hu, Int.cast_sub, Int.cast_mul, Int.cast_natCast,
      Int.cast_natCast,
      Nat.cast_mul, Nat.cast_pow, Nat.cast_ofNat, mul_comm (d : Rat) (y.position : Rat)]
  have hpos : (0 : Rat) ≤ d * 2 ^ 1074 := by positivity
  rw [he, abs_div, abs_of_nonneg hpos, gap, Nat.cast_natAbs, Int.cast_abs]

theorem nearest_of_gap (hd : 0 < d) (hx : x ≠ .nan)
    (h : ∀ y, y ≠ .nan → gap (n * 2 ^ 1074) d x ≤ gap (n * 2 ^ 1074) d y ∧
      (gap (n * 2 ^ 1074) d y = gap (n * 2 ^ 1074) d x → y.position ≠ x.position →
        x.isEven = true)) : Nearest (n / d) x := by
  have hpos : (0 : Rat) < d * 2 ^ 1074 := by
    have : (0 : Rat) < d := by exact_mod_cast hd
    positivity
  refine ⟨hx, fun y hy => ?_, fun y hy he hne => ?_⟩
  · rw [abs_sub_point hd, abs_sub_point hd]
    exact div_le_div_of_nonneg_right (by exact_mod_cast (h y hy).1) hpos.le
  · rw [abs_sub_point hd, abs_sub_point hd, div_left_inj' hpos.ne'] at he
    exact (h y hy).2 (by exact_mod_cast he) fun hp => hne (by rw [point, point, hp])

/-- A quotient has at most 53 bits before the point at the scale that is chosen for it. -/
theorem lt_of_scale (n : Nat) (hd : 0 < d) (hk : (n / d).log2 - 52 = k) :
    n < 0x20000000000000 * (d * Nat.pow 2 k) := by
  have hq : n / d < 2 ^ (53 + k) := by
    by_cases h0 : n / d = 0
    · rw [h0]
      exact Nat.two_pow_pos _
    · exact (Nat.log2_lt h0).1 (by omega)
  rw [Nat.div_lt_iff_lt_mul hd, Nat.pow_add] at hq
  calc
    n < 2 ^ 53 * 2 ^ k * d := hq
    _ = 0x20000000000000 * (d * Nat.pow 2 k) := by rw [Nat.mul_assoc, Nat.mul_comm (2 ^ k)]; rfl

/-- And exactly 53 unless the scale is zero. -/
theorem le_of_scale (n : Nat) (hd : 0 < d) (hk : (n / d).log2 - 52 = k) (hpos : 0 < k) :
    0x10000000000000 * (d * Nat.pow 2 k) ≤ n := by
  have h0 : n / d ≠ 0 := by
    intro h0
    rw [h0, Nat.log2_zero] at hk
    omega
  have hq : 2 ^ (52 + k) ≤ n / d := (Nat.le_log2 h0).1 (by omega)
  rw [Nat.le_div_iff_mul_le hd, Nat.pow_add] at hq
  calc
    0x10000000000000 * (d * Nat.pow 2 k) = 2 ^ 52 * 2 ^ k * d := by
      rw [Nat.mul_assoc, Nat.mul_comm (2 ^ k)]; rfl
    _ ≤ n := hq

/-- Rounding to a whole number keeps the bits, or goes on to the next power of two. -/
theorem divRound_bits (n : Nat) (hd : 0 < d) (hk : (n / d).log2 - 52 = k) :
    divRound n (d * Nat.pow 2 k) ≤ 0x20000000000000 ∧
      (k = 0 ∨ 0x10000000000000 ≤ divRound n (d * Nat.pow 2 k)) := by
  have hP : 0 < d * Nat.pow 2 k := Nat.mul_pos hd (Nat.two_pow_pos k)
  have hq := (Nat.div_lt_iff_lt_mul hP).2 (lt_of_scale n hd hk)
  have hle := divRound_le n (d * Nat.pow 2 k)
  refine ⟨by omega, (Nat.eq_zero_or_pos k).imp_right fun hpos => ?_⟩
  exact ((Nat.le_div_iff_mul_le hP).2 (le_of_scale n hd hk hpos)).trans (le_divRound ..)

/-- A significand of 53 bits stands for its multiple of the scale. One that was rounded up to a
power of two is halved, and is infinite when the next scale is out of range. -/
theorem position_ofParts (hk : k ≤ 2045) (hs : s ≤ 0x20000000000000)
    (hn : k = 0 ∨ 0x10000000000000 ≤ s)
    (hx : (if s = 0x20000000000000 then ofParts false 0x10000000000000 (k + 1)
      else ofParts false s k) = x) :
    x ≠ .nan ∧ x.position = s * 2 ^ k ∧ (s % 2 = 0 → x.isEven = true) := by
  split at hx
  · rename_i htop
    have hdouble : (0x10000000000000 : Nat) * (2 : Int) ^ (k + 1) = s * 2 ^ k := by
      rw [htop, pow_succ']
      push_cast
      ring
    by_cases hlast : k = 2045
    · rw [ofParts, dif_neg (by omega)] at hx
      subst hx hlast htop
      exact ⟨by simp, top_eq_significand, fun _ => rfl⟩
    · rw [ofParts, dif_pos ⟨by decide, by omega, .inr (le_refl _)⟩] at hx
      have heven : 0x10000000000000 % 2 = 0 := rfl
      subst hx
      exact ⟨by simp, position_mk.trans hdouble, fun _ => decide_eq_true heven⟩
  · rw [ofParts, dif_pos ⟨by omega, hk, hn⟩] at hx
    subst hx
    exact ⟨by simp, position_mk, fun he => by simpa [isEven] using he⟩

/-- No number is nearer to `n / d` units than the multiple of the scale that it is rounded to: the
others are multiples of the scale themselves, or stand below the least of 53 bits. -/
theorem gap_least (hd : 0 < d) (hk : k ≤ 2045)
    (hlow : 0 < k → 0x10000000000000 * (d * Nat.pow 2 k) ≤ n)
    (hx : x.position = divRound n (d * Nat.pow 2 k) * 2 ^ k) (y : Binary64) :
    gap n d x ≤ gap n d y ∧ (gap n d y = gap n d x → y.position ≠ x.position →
      divRound n (d * Nat.pow 2 k) % 2 = 0) := by
  have hP : 0 < d * Nat.pow 2 k := Nat.mul_pos hd (Nat.two_pow_pos k)
  have hcast (m : Int) : m * 2 ^ k * d = m * (d * Nat.pow 2 k : Nat) := by
    rw [mul_assoc, mul_comm (2 ^ k : Int), Nat.cast_mul]
    exact congrArg (fun p => m * (d * p)) (Nat.cast_pow 2 k).symm
  have hgap : gap n d x =
      (n - divRound n (d * Nat.pow 2 k) * (d * Nat.pow 2 k : Nat) : Int).natAbs := by
    rw [gap, hx, hcast]
  rw [hgap]
  rcases position_grid hk y with ⟨m, hm⟩ | ⟨hpos, hbelow⟩
  · obtain ⟨hle, heven⟩ := divRound_nearest n hP m
    rw [gap, hm, hcast]
    exact ⟨hle, fun he hne => heven he fun h => hne (by rw [hx, h])⟩
  · have hleast := (divRound_nearest n hP 0x10000000000000).1
    have hn := hlow hpos
    have hd' : (0 : Int) < d := by exact_mod_cast hd
    have hy := Int.mul_lt_mul_of_pos_right hbelow hd'
    rw [hcast] at hy
    have hlt : (n - 0x10000000000000 * (d * Nat.pow 2 k : Nat) : Int).natAbs < gap n d y := by
      rw [gap]
      omega
    exact ⟨by omega, fun he => by omega⟩

/-- A ratio beyond the greatest scale is `2 ^ 1024` or more. -/
theorem top_le_ratio (hd : 0 < d) (hk : 2046 ≤ k)
    (h : 0x10000000000000 * (d * 2 ^ k) ≤ n * 2 ^ 1074) : (2 : Rat) ^ 1024 ≤ n / d := by
  have hpowers {a b c e : Nat} (h : a + b = c + e) : 2 ^ a * 2 ^ b = 2 ^ c * 2 ^ e := by
    rw [← Nat.pow_add, ← Nat.pow_add, h]
  have hsplit : 2 ^ 1024 * 2 ^ 1074 = 2 ^ 52 * 2 ^ 2046 := hpowers rfl
  have hle : 2 ^ 1024 * d * 2 ^ 1074 ≤ n * 2 ^ 1074 := calc
    2 ^ 1024 * d * 2 ^ 1074 = 2 ^ 52 * (d * 2 ^ 2046) := by
      rw [Nat.mul_right_comm, hsplit, Nat.mul_assoc, Nat.mul_comm d]
    _ ≤ 2 ^ 52 * (d * 2 ^ k) :=
      Nat.mul_le_mul_left _ (Nat.mul_le_mul_left _ (Nat.pow_le_pow_right (by decide) hk))
    _ ≤ n * 2 ^ 1074 := h
  have hratio : 2 ^ 1024 * d ≤ n := le_of_mul_le_mul_right hle (by positivity)
  rw [le_div_iff₀ (Nat.cast_pos.2 hd)]
  calc
    (2 : Rat) ^ 1024 * d = (2 ^ 1024 * d : Nat) := by
      rw [Nat.cast_mul, Nat.cast_pow, Nat.cast_ofNat]
    _ ≤ n := Nat.cast_le.2 hratio

/-- A ratio is rounded to the nearest number. -/
theorem nearest_ofRatio (n : Nat) (hd : 0 < d) : Nearest (n / d) (ofRatio false n d) := by
  obtain ⟨u, hu⟩ : ∃ u, n * 2 ^ 1074 = u := ⟨_, rfl⟩
  obtain ⟨k, hk⟩ : ∃ k, (u / d).log2 - 52 = k := ⟨_, rfl⟩
  have hlow := le_of_scale u hd hk
  obtain ⟨hbits, hnormal⟩ := divRound_bits u hd hk
  have hrounded : ofRatio false n d =
      if divRound u (d * Nat.pow 2 k) = 0x20000000000000 then ofParts false 0x10000000000000 (k + 1)
      else ofParts false (divRound u (d * Nat.pow 2 k)) k := by
    subst hu hk
    rfl
  by_cases hrange : k ≤ 2045
  · obtain ⟨hnumber, hposition, heven⟩ := position_ofParts hrange hbits hnormal hrounded.symm
    refine nearest_of_gap hd hnumber fun y _ => ?_
    rw [hu]
    obtain ⟨hle, htie⟩ := gap_least hd hrange hlow hposition y
    exact ⟨hle, fun he hne => heven (htie he hne)⟩
  · have hk' : 2046 ≤ k := Nat.lt_of_not_le hrange
    have hinfinite : ofRatio false n d = .infinity false := by
      rw [hrounded]
      split
      · rw [ofParts, dif_neg fun h => hrange (Nat.le_of_succ_le h.2.1)]
      · rw [ofParts, dif_neg fun h => hrange h.2.1]
    rw [hinfinite]
    refine nearest_infinity ((sub_le_self _ (by positivity)).trans (top_le_ratio hd hk' ?_))
    rw [hu]
    exact hlow (Nat.zero_lt_of_lt hk')

/-- Rounding a ratio keeps it unsigned. -/
theorem isNegative_ofRatio (n d : Nat) : (ofRatio false n d).isNegative = false := by
  have hparts (s k : Nat) : (ofParts false s k).isNegative = false := by
    unfold ofParts
    split <;> rfl
  unfold ofRatio
  simp only
  split <;> exact hparts ..

end Binary64

/-! ## Decimals -/

namespace Decimal

/-- A power of ten is the ratio of two whole ones. -/
theorem ten_zpow (k : Int) : (10 : Rat) ^ k = 10 ^ k.toNat / 10 ^ (-k).toNat := by
  rcases Int.le_total 0 k with h | h
  · obtain ⟨m, rfl⟩ := Int.eq_ofNat_of_zero_le h
    simp
  · obtain ⟨m, hm⟩ := Int.eq_ofNat_of_zero_le (Int.neg_nonneg_of_nonpos h)
    obtain rfl : k = -m := by omega
    simp

theorem two_pow_le_ten_pow {a b : Nat} (h : 2 ^ a ≤ 10 ^ b) : (2 : Rat) ^ a ≤ 10 ^ b := by
  exact_mod_cast h

theorem lt_zpow_size (n : Nat) (k : Int) : (n : Rat) * 10 ^ k < 10 ^ (digitCount n + k) := by
  have h10 : (0 : Rat) < 10 ^ k := zpow_pos (by norm_num) k
  have hn : (n : Rat) < 10 ^ digitCount n := by exact_mod_cast lt_pow_digitCount n
  rw [zpow_add₀ (by norm_num), zpow_natCast]
  exact mul_lt_mul_of_pos_right hn h10

theorem zpow_size_le {n : Nat} (hn : n ≠ 0) (k : Int) :
    (10 : Rat) ^ (digitCount n + k - 1) ≤ n * 10 ^ k := by
  have h10 : (0 : Rat) < 10 ^ k := zpow_pos (by norm_num) k
  have hpos := digitCount_pos hn
  have hle : (10 : Rat) ^ (digitCount n - 1) ≤ n := by exact_mod_cast pow_digitCount_le hn
  have he : (digitCount n + k - 1 : Int) = (digitCount n - 1 : Nat) + k := by omega
  rw [he, zpow_add₀ (by norm_num), zpow_natCast]
  exact mul_le_mul_of_nonneg_right hle h10.le

/-- Below `10 ^ -330` a decimal is less than half the least unit. -/
theorem small_decimal {n : Nat} {k : Int} (h : n = 0 ∨ digitCount n + k < -330) :
    2 * (n * 10 ^ k : Rat) ≤ 1 / 2 ^ 1074 := by
  have hu : (0 : Rat) < 2 ^ 1074 := by positivity
  rcases h with rfl | hsize
  · rw [Nat.cast_zero, zero_mul, mul_zero]
    exact div_nonneg zero_le_one hu.le
  · have hv : (n : Rat) * 10 ^ k ≤ 10 ^ (-324 : Int) :=
      (lt_zpow_size n k).le.trans (zpow_le_zpow_right₀ (by norm_num) (by omega))
    have hbound : (2 : Rat) * 2 ^ 1074 ≤ 10 ^ 324 :=
      (pow_succ' 2 1074).symm.trans_le (two_pow_le_ten_pow (by decide +kernel))
    have hten : (0 : Rat) < 10 ^ (-324 : Int) := zpow_pos (by norm_num) _
    rw [le_div_iff₀ hu, mul_right_comm, mul_comm]
    calc
      (n * 10 ^ k : Rat) * (2 * 2 ^ 1074) ≤ 10 ^ (-324 : Int) * 10 ^ 324 :=
        mul_le_mul hv hbound (mul_nonneg zero_le_two hu.le) hten.le
      _ = 1 := by rw [← zpow_natCast, ← zpow_add₀ (by norm_num)]; rfl

/-- A decimal is read as the nearest number. -/
theorem nearest_toBinary64 (n : Nat) (k : Int) :
    Binary64.Nearest (n * 10 ^ k) (⟨false, n, k⟩ : Decimal).toBinary64 := by
  have h10 : (0 : Rat) ≤ 10 ^ k := zpow_nonneg (by norm_num) k
  unfold toBinary64
  simp only
  split
  · rename_i hsmall
    exact Binary64.nearest_zero (mul_nonneg n.cast_nonneg h10) (small_decimal hsmall)
  · rename_i hn
    split
    · rename_i hsize
      have htop : (2 : Rat) ^ 1024 ≤ 10 ^ 309 := two_pow_le_ten_pow (by decide +kernel)
      refine Binary64.nearest_infinity ((sub_le_self _ (by positivity)).trans (htop.trans ?_))
      refine le_trans ?_ (zpow_size_le (by omega) k)
      rw [← zpow_natCast]
      exact zpow_le_zpow_right₀ (by norm_num) (by omega)
    · have hratio : (n : Rat) * 10 ^ k =
          (n * Nat.pow 10 k.toNat : Nat) / (Nat.pow 10 (-k).toNat : Nat) := by
        have hpow (m : Nat) : ((Nat.pow 10 m : Nat) : Rat) = 10 ^ m := Nat.cast_pow 10 m
        rw [ten_zpow, Nat.cast_mul, hpow, hpow, mul_div_assoc]
      rw [hratio]
      exact Binary64.nearest_ofRatio _ (Nat.pow_pos (by decide))

theorem isNegative_toBinary64 (n : Nat) (k : Int) :
    (⟨false, n, k⟩ : Decimal).toBinary64.isNegative = false := by
  unfold toBinary64
  simp only
  split
  · rfl
  · split
    · rfl
    · exact Binary64.isNegative_ofRatio ..

end Decimal

end FeatureFilter
