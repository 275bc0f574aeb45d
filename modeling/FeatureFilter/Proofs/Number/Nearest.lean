import FeatureFilter.Proofs.Number.Equality
import Mathlib.Algebra.Order.Field.Rat
import Mathlib.Tactic.Linarith
import Mathlib.Tactic.Positivity
import Mathlib.Tactic.Ring

/-!
# The nearest number

`Nearest v x` says of a number that no other is nearer to the rational `v`, and that of two equally
near ones it is the even one. An infinity takes part as the first power of two beyond the finite
numbers. There is one such number without a sign (`Nearest.unique`), and it is the infinity from
halfway between that power and the greatest finite number on (`Nearest.eq_infinity_iff`).
-/

namespace FeatureFilter

/-- Between two even significands there is room for an odd one of the lesser scale. -/
theorem Finite.units_add_lt {x y : Finite} (hx : x.significand % 2 = 0) (hy : y.significand % 2 = 0)
    (h : x.units < y.units) : x.units + Nat.pow 2 x.scale < y.units := by
  have hp : 0 < Nat.pow 2 x.scale := Nat.two_pow_pos _
  unfold units at *
  rcases Nat.lt_or_ge y.scale x.scale with hscale | hscale
  · -- a greater scale on the left would leave more bits there than there are on the right
    have hlarge := x.normal.resolve_left (by omega)
    have hpow : 2 * Nat.pow 2 y.scale ≤ Nat.pow 2 x.scale :=
      Nat.pow_succ'.symm.trans_le (Nat.pow_le_pow_right (by decide) hscale)
    have hleft := Nat.mul_le_mul hlarge hpow
    have hright := Nat.mul_le_mul_right (Nat.pow 2 y.scale) y.significand_lt.le
    omega
  · obtain ⟨j, hj⟩ := Nat.exists_eq_add_of_le hscale
    have hunits : y.significand * Nat.pow 2 y.scale =
        y.significand * 2 ^ j * Nat.pow 2 x.scale := by
      rw [hj, Nat.mul_assoc]
      exact congrArg _ ((Nat.pow_add ..).trans (Nat.mul_comm ..))
    have heven : y.significand * 2 ^ j % 2 = 0 := by
      rw [Nat.mul_mod, hy, Nat.zero_mul]
    rw [hunits] at h ⊢
    rw [← Nat.succ_mul]
    have := Nat.lt_of_mul_lt_mul_right h
    exact Nat.mul_lt_mul_of_pos_right (by omega) hp

namespace Binary64

/-- Where a number stands, in units of `2 ^ -1074`. -/
def position : Binary64 → Int
  | .finite x => x.toInt
  | .infinity negative => if negative then -(2 ^ 2098) else 2 ^ 2098
  | .nan => 0

/-- Where a number stands among the rationals; the infinities stand at `± 2 ^ 1024`. -/
def point (x : Binary64) : Rat := x.position / 2 ^ 1074

def isEven : Binary64 → Bool
  | .finite x => x.significand % 2 = 0
  | _ => true

def isNegative : Binary64 → Bool
  | .finite x => x.negative
  | .infinity negative => negative
  | .nan => false

/-- The number is one of those nearest to `v`, and even if another one is as near. -/
structure Nearest (v : Rat) (x : Binary64) : Prop where
  number : x ≠ .nan
  least : ∀ y : Binary64, y ≠ .nan → |v - x.point| ≤ |v - y.point|
  even : ∀ y : Binary64, y ≠ .nan → |v - y.point| = |v - x.point| → y.point ≠ x.point →
    x.isEven = true

variable {n d k s : Nat} {v : Rat} {x y : Binary64}

/-! ## Positions -/

/-- The powers of two that a finite number and an infinity are made of. -/
theorem top_eq (h : k ≤ 2045) : (2 : Int) ^ 2098 = 2 ^ (2098 - k) * 2 ^ k := by
  rw [← pow_add, Nat.sub_add_cancel (by omega)]

theorem top_eq_significand : (2 : Int) ^ 2098 = 0x20000000000000 * 2 ^ 2045 := by
  rw [top_eq (le_refl 2045)]
  rfl

theorem scale_le_top (h : k ≤ 2045) : 0x20000000000000 * 2 ^ k ≤ (2 : Int) ^ 2098 := by
  have hpow : (2 : Int) ^ k ≤ 2 ^ 2045 := pow_le_pow_right₀ (by norm_num) h
  rw [top_eq_significand]
  exact mul_le_mul_of_nonneg_left hpow (by norm_num)

theorem units_lt (x : Finite) : (x.units : Int) < 0x20000000000000 * 2 ^ x.scale := by
  have h : x.units < 0x20000000000000 * Nat.pow 2 x.scale :=
    Nat.mul_lt_mul_of_pos_right x.significand_lt (Nat.two_pow_pos _)
  exact_mod_cast h

theorem toInt_le_units (x : Finite) : x.toInt ≤ x.units := by
  unfold Finite.toInt
  split <;> omega

/-- Nothing stands beyond the infinity. -/
theorem position_le (y : Binary64) : y.position ≤ (infinity false).position := by
  show y.position ≤ 2 ^ 2098
  have hp : (0 : Int) < 2 ^ 2098 := by positivity
  cases y with
  | nan => exact hp.le
  | infinity negative =>
    cases negative with
    | true => exact (neg_lt_self hp).le
    | false => exact le_refl _
  | finite y =>
    calc
      y.toInt ≤ y.units := toInt_le_units y
      _ ≤ 0x20000000000000 * 2 ^ y.scale := (units_lt y).le
      _ ≤ 2 ^ 2098 := scale_le_top y.scale_le

/-- A number is a multiple of `2 ^ k` units, or has fewer bits than a number of that scale. -/
theorem position_grid (hk : k ≤ 2045) (y : Binary64) :
    (∃ m : Int, y.position = m * 2 ^ k) ∨ 0 < k ∧ y.position < 0x10000000000000 * 2 ^ k := by
  cases y with
  | nan => exact .inl ⟨0, (zero_mul _).symm⟩
  | infinity negative =>
    cases negative with
    | true => exact .inl ⟨-2 ^ (2098 - k), by rw [position, if_pos rfl, top_eq hk, neg_mul]⟩
    | false => exact .inl ⟨2 ^ (2098 - k), by rw [position, if_neg Bool.false_ne_true, top_eq hk]⟩
  | finite y =>
    rcases Nat.lt_or_ge y.scale k with hlt | hle
    · refine .inr ⟨by omega, ?_⟩
      have hpow : (2 : Int) ^ y.scale ≤ 2 ^ (k - 1) :=
        pow_le_pow_right₀ (by norm_num) (by omega)
      have hdouble : (2 : Int) ^ k = 2 * 2 ^ (k - 1) := by
        rw [← pow_succ', Nat.sub_add_cancel (by omega)]
      have := toInt_le_units y
      have := units_lt y
      show y.toInt < _
      omega
    · left
      have hunits : (y.units : Int) = y.significand * 2 ^ (y.scale - k) * 2 ^ k := by
        rw [mul_assoc, ← pow_add, Nat.sub_add_cancel hle]
        exact Nat.cast_mul ..|>.trans (congrArg _ (Nat.cast_pow 2 _))
      show ∃ m, y.toInt = _
      unfold Finite.toInt
      split
      · exact ⟨-(y.significand * 2 ^ (y.scale - k)), by rw [hunits, neg_mul]⟩
      · exact ⟨_, hunits⟩

theorem position_mk {s k : Nat} {hs hk hn} :
    (finite ⟨false, s, k, hs, hk, hn⟩).position = s * 2 ^ k := by
  show ((s * Nat.pow 2 k : Nat) : Int) = _
  rw [Nat.cast_mul]
  exact congrArg _ (Nat.cast_pow 2 k)

theorem position_finite {x : Finite} (h : (finite x).isNegative = false) :
    (finite x).position = x.units := if_neg (Bool.eq_false_iff.1 h)

/-- An unsigned number stands in its own place. -/
theorem eq_of_position (hx : x ≠ .nan) (hy : y ≠ .nan) (hx' : x.isNegative = false)
    (hy' : y.isNegative = false) (h : x.position = y.position) : x = y := by
  have hfinite (x : Finite) : x.toInt < 2 ^ 2098 := calc
    x.toInt ≤ x.units := toInt_le_units x
    _ < 0x20000000000000 * 2 ^ x.scale := units_lt x
    _ ≤ 2 ^ 2098 := scale_le_top x.scale_le
  cases x with
  | nan => exact absurd rfl hx
  | infinity a =>
    cases y with
    | nan => exact absurd rfl hy
    | infinity b => exact congrArg infinity (hx'.trans hy'.symm)
    | finite y =>
      cases hx'
      exact absurd h.symm (hfinite y).ne
  | finite x =>
    cases y with
    | nan => exact absurd rfl hy
    | infinity b =>
      cases hy'
      exact absurd h (hfinite x).ne
    | finite y =>
      have hsign : x.negative = y.negative := hx'.trans hy'.symm
      obtain rfl | ⟨negative, rfl, rfl⟩ := Finite.eq_or_zeros_of_toInt h
      · rfl
      · exact absurd hsign (by simp [Finite.zero])

/-- Two even numbers are no neighbours: the one behind the lesser stands between them. -/
theorem exists_between (hx : x ≠ .nan) (hy : y ≠ .nan) (hx' : x.isNegative = false)
    (hy' : y.isNegative = false) (hex : x.isEven = true) (hey : y.isEven = true)
    (hlt : x.position < y.position) :
    ∃ z : Binary64, z ≠ .nan ∧ x.position < z.position ∧ z.position < y.position := by
  cases x with
  | nan => exact absurd rfl hx
  | infinity a =>
    cases hx'
    exact absurd (position_le y) (not_le.2 hlt)
  | finite x =>
    have heven : x.significand % 2 = 0 := of_decide_eq_true hex
    have hs := x.significand_lt
    have hp : 0 < Nat.pow 2 x.scale := Nat.two_pow_pos _
    obtain ⟨z, hz, hsucc⟩ :
        ∃ z : Binary64, z ≠ .nan ∧ z.position = (x.units + Nat.pow 2 x.scale : Nat) :=
      ⟨finite ⟨false, x.significand + 1, x.scale, by omega, x.scale_le,
        x.normal.imp_right fun h => by omega⟩, by simp, congrArg Nat.cast (Nat.succ_mul ..)⟩
    refine ⟨z, hz, by rw [hsucc, position_finite hx']; omega, ?_⟩
    rw [hsucc]
    cases y with
    | nan => exact absurd rfl hy
    | infinity b =>
      cases hy'
      have htop : (x.significand + 1) * Nat.pow 2 x.scale < 0x20000000000000 * 2 ^ x.scale :=
        Nat.mul_lt_mul_of_pos_right (by omega) hp
      rw [Nat.succ_mul] at htop
      exact lt_of_lt_of_le (by exact_mod_cast htop) (scale_le_top x.scale_le)
    | finite y =>
      rw [position_finite hx', position_finite hy'] at hlt
      rw [position_finite hy']
      exact Int.ofNat_lt.2 (Finite.units_add_lt heven (of_decide_eq_true hey) (Int.ofNat_lt.1 hlt))

def greatest : Finite := ⟨false, 0x1FFFFFFFFFFFFF, 2045, by decide, by decide, .inr (by decide)⟩

theorem position_greatest : (finite greatest).position = 0x1FFFFFFFFFFFFF * 2 ^ 2045 := by
  rw [greatest, position_mk, Nat.cast_ofNat]

theorem position_le_greatest (hy : y ≠ .nan) (hy' : y ≠ .infinity false) :
    y.position ≤ (finite greatest).position := by
  have hgreatest : 0 ≤ (finite greatest).position := Int.natCast_nonneg _
  cases y with
  | nan => exact absurd rfl hy
  | infinity negative =>
    cases negative with
    | false => exact absurd rfl hy'
    | true => exact (neg_nonpos.2 (by positivity)).trans hgreatest
  | finite y =>
    have hpow {c : Nat} (h : y.scale ≤ c) : Nat.pow 2 y.scale ≤ Nat.pow 2 c :=
      Nat.pow_le_pow_right (by decide) h
    exact (toInt_le_units y).trans
      (Int.ofNat_le.2 (Nat.mul_le_mul (Nat.le_of_lt_succ y.significand_lt) (hpow y.scale_le)))

theorem point_le_point (h : x.position ≤ y.position) : x.point ≤ y.point :=
  div_le_div_of_nonneg_right (Int.cast_le.2 h) (by positivity)

theorem point_lt_point (h : x.position < y.position) : x.point < y.point :=
  div_lt_div_of_pos_right (Int.cast_lt.2 h) (by positivity)

theorem Nearest.position_le (hx : Nearest v x) (hy : Nearest v y) (hx' : x.isNegative = false)
    (hy' : y.isNegative = false) : y.position ≤ x.position := by
  have hsame : |v - y.point| = |v - x.point| :=
    le_antisymm (hy.least x hx.number) (hx.least y hy.number)
  by_contra hlt
  have hlt := point_lt_point (not_le.1 hlt)
  obtain ⟨z, hz, hxz, hzy⟩ := exists_between hx.number hy.number hx' hy'
    (hx.even y hy.number hsame hlt.ne') (hy.even x hx.number hsame.symm hlt.ne) (not_le.1 ‹_›)
  refine absurd (hx.least z hz) (not_le.2 (abs_lt.2 ⟨?_, ?_⟩))
  · have := neg_abs_le (v - y.point)
    have := point_lt_point hzy
    linarith
  · have := le_abs_self (v - x.point)
    have := point_lt_point hxz
    linarith

theorem Nearest.unique (hx : Nearest v x) (hy : Nearest v y) (hx' : x.isNegative = false)
    (hy' : y.isNegative = false) : x = y :=
  eq_of_position hx.number hy.number hx' hy'
    (le_antisymm (hy.position_le hx hy' hx') (hx.position_le hy hx' hy'))

/-! ## Beyond the finite numbers, and below them -/

theorem point_infinity : (infinity false).point = 2 ^ 1024 := by
  have hu : (2 : Rat) ^ 1074 ≠ 0 := by positivity
  have h : (2 : Rat) ^ 2098 = 2 ^ 1024 * 2 ^ 1074 := pow_add 2 1024 1074
  rw [point, div_eq_iff hu, ← h, position, if_neg Bool.false_ne_true, Int.cast_pow, Int.cast_ofNat]

/-- The greatest finite number is one unit of its scale below `2 ^ 1024`. -/
theorem point_greatest : (finite greatest).point + 2 ^ 971 = 2 ^ 1024 := by
  have hu : (2 : Rat) ^ 1074 ≠ 0 := by positivity
  have hstep (p : Int) : 0x1FFFFFFFFFFFFF * p + p = 0x20000000000000 * p := by ring
  have hposition : (finite greatest).position + 2 ^ 2045 = (infinity false).position := by
    rw [position_greatest, hstep]
    exact top_eq_significand.symm
  have h : (2 : Rat) ^ 971 = (2 ^ 2045 : Int) / 2 ^ 1074 := by
    rw [eq_div_iff hu, Int.cast_pow, Int.cast_ofNat]
    exact (pow_add 2 971 1074).symm
  rw [← point_infinity, point, point, h, ← add_div, ← Int.cast_add, hposition]

/-- From halfway between the greatest finite number and `2 ^ 1024` on the infinity is the nearest.
-/
theorem nearest_infinity (hv : 2 ^ 1024 - 2 ^ 970 ≤ v) : Nearest v (.infinity false) := by
  refine ⟨by simp, fun y hy => ?_, fun _ _ _ _ => rfl⟩
  by_cases hy' : y = .infinity false
  · rw [hy']
  · have hle := point_le_point (position_le_greatest hy hy')
    have hgreatest := point_greatest
    rw [pow_succ' 2 970] at hgreatest
    have hb : (0 : Rat) < 2 ^ 970 := by positivity
    rw [point_infinity]
    generalize (2 : Rat) ^ 1024 = top at *
    generalize (2 : Rat) ^ 970 = half at *
    exact (abs_le.2 ⟨by linarith, by linarith⟩).trans (le_abs_self _)

/-- A number overflows exactly from there on. -/
theorem Nearest.eq_infinity_iff (hx : Nearest v x) (hx' : x.isNegative = false) :
    x = .infinity false ↔ 2 ^ 1024 - 2 ^ 970 ≤ v := by
  refine ⟨?_, fun h => hx.unique (nearest_infinity h) hx' rfl⟩
  rintro rfl
  by_contra hlt
  have hleast := hx.least (finite greatest) (by simp)
  have hgreatest := point_greatest
  rw [pow_succ' 2 970] at hgreatest
  have hb : (0 : Rat) < 2 ^ 970 := by positivity
  rw [point_infinity] at hleast
  generalize (2 : Rat) ^ 1024 = top at *
  generalize (2 : Rat) ^ 970 = half at *
  have hfar : |v - (finite greatest).point| < top - v := abs_lt.2 ⟨by linarith, by linarith⟩
  have := neg_abs_le (v - top)
  linarith

/-- Up to half the least unit zero is the nearest. -/
theorem nearest_zero (h0 : 0 ≤ v) (hv : 2 * v ≤ 1 / 2 ^ 1074) :
    Nearest v (.finite (.zero false)) := by
  have hu : (0 : Rat) < 2 ^ 1074 := by positivity
  have hzero : (finite (.zero false)).point = 0 := by
    show ((0 : Int) : Rat) / _ = 0
    rw [Int.cast_zero, zero_div]
  refine ⟨by simp, fun y _ => ?_, fun _ _ _ _ => rfl⟩
  rw [hzero, sub_zero, abs_of_nonneg h0]
  rcases Int.lt_trichotomy y.position 0 with hy | hy | hy
  · have hp : y.point ≤ 0 := div_nonpos_of_nonpos_of_nonneg (by exact_mod_cast hy.le) hu.le
    rw [abs_of_nonneg (by linarith)]
    linarith
  · rw [point, hy, Int.cast_zero, zero_div, sub_zero, abs_of_nonneg h0]
  · have hone : (1 : Rat) ≤ y.position := by exact_mod_cast hy
    have hp : 2 * v ≤ y.point := hv.trans (div_le_div_of_nonneg_right hone hu.le)
    rw [abs_sub_comm, abs_of_nonneg (by linarith only [h0, hp])]
    linarith only [hp]

end Binary64

end FeatureFilter
