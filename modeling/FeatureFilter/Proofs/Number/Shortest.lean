import FeatureFilter.Proofs.Number.Digits
import FeatureFilter.Proofs.Number.Rounding
import Mathlib.Tactic.NormNum

/-!
# Shortest digits read back

The search for the shortest decimal ends on a grid that has a point in the interval of the number,
so that the decimal it finds rounds to the number (`toBinary64_shortest`). A decimal with zeros at
its end is the same number as the one without them (`toBinary64_mul_pow`).
-/

namespace FeatureFilter

/-- Quarters of the least unit, and the least unit itself. -/
theorem quarters_eq : Nat.pow 2 1076 = 4 * Nat.pow 2 1074 := by decide +kernel

namespace Finite

variable {x : Finite}

theorem interval_eq (x : Finite) :
    x.interval = (4 * x.units - x.reach, 4 * x.units, 4 * x.units + 2 * Nat.pow 2 x.scale) := by
  simp only [interval, units, reach, Nat.mul_assoc]

/-- A decimal that the search accepts lies in the interval of the number. -/
theorem near_of_admits {t : Nat} {k : Int} (h : x.admits t k = true) :
    x.Near (t * Nat.pow 10 k.toNat * Nat.pow 2 1074) (Nat.pow 10 (-k).toNat) := by
  unfold admits at h
  rw [interval_eq, quarters_eq] at h
  generalize Nat.pow 2 1074 = u at *
  have e : t * Nat.pow 10 k.toNat * (4 * u) = 4 * (t * Nat.pow 10 k.toNat * u) := by ring
  simp only [e, Nat.sub_mul, Nat.add_mul, Nat.mul_assoc 4, Nat.mul_assoc 2] at h
  generalize t * Nat.pow 10 k.toNat * u = n at *
  split at h
  · rename_i he
    simp only [Bool.and_eq_true, decide_eq_true_eq] at h
    exact ⟨by omega, by omega, by omega, by omega⟩
  · simp only [Bool.and_eq_true, decide_eq_true_eq] at h
    exact ⟨by omega, by omega, by omega, by omega⟩

theorem admits_of_onGrid {t : Nat} {k : Int} (h : x.onGrid k = some t) : x.admits t k = true := by
  unfold onGrid at h
  generalize Nat.pow 2 1076 = u at h
  simp only at h
  split at h
  · rename_i h1 h2
    split at h <;> cases h
    · exact h1
    · exact h2
  · rename_i h1 _
    cases h
    exact h1
  · rename_i _ h2
    cases h
    exact h2
  · cases h

/-- A grid no coarser than a quarter of the number's own unit has a point that rounds to it; `c` is
1076. -/
theorem onGrid_isSome {c : Nat} {k : Int} (hc : c = 1076) (hs : 0 < x.significand)
    (h : Nat.pow 10 k.toNat * Nat.pow 2 c ≤ Nat.pow 2 x.scale * Nat.pow 10 (-k).toNat) :
    (x.onGrid k).isSome := by
  rw [hc] at h
  have hd : 0 < Nat.pow 10 (-k).toNat := Nat.pow_pos (by decide)
  have hk : 0 < Nat.pow 10 k.toNat := Nat.pow_pos (by decide)
  have hu : 0 < Nat.pow 2 1076 := by decide +kernel
  have hadm :
      x.admits (4 * x.units * Nat.pow 10 (-k).toNat / (Nat.pow 10 k.toNat * Nat.pow 2 1076)) k =
        true := by
    unfold admits
    rw [interval_eq]
    generalize Nat.pow 2 1076 = u at *
    have hr := Nat.mul_le_mul_right (Nat.pow 10 (-k).toNat) x.le_reach
    have hp : 0 < Nat.pow 2 x.scale * Nat.pow 10 (-k).toNat :=
      Nat.mul_pos (Nat.two_pow_pos _) hd
    have hv := Nat.div_add_mod' (4 * x.units * Nat.pow 10 (-k).toNat) (Nat.pow 10 k.toNat * u)
    have hm := Nat.mod_lt (4 * x.units * Nat.pow 10 (-k).toNat) (Nat.mul_pos hk hu)
    generalize 4 * x.units * Nat.pow 10 (-k).toNat / (Nat.pow 10 k.toNat * u) = t at *
    rw [← Nat.mul_assoc] at hv
    have hun : Nat.pow 2 x.scale ≤ x.units := Nat.le_mul_of_pos_left _ hs
    have hrs : x.reach * Nat.pow 10 (-k).toNat ≤ 4 * x.units * Nat.pow 10 (-k).toNat :=
      Nat.mul_le_mul_right _ (by have := x.reach_le; omega)
    simp only [Nat.sub_mul, Nat.add_mul, Nat.mul_assoc 2]
    split <;> simp only [Bool.and_eq_true, decide_eq_true_eq] <;> omega
  unfold onGrid
  rw [interval_eq]
  generalize Nat.pow 2 1076 = u at *
  simp only [hadm]
  split
  · split <;> rfl
  · rfl
  · rfl
  · rename_i h1 _
    cases h1

/-! ## The grids of the search -/

/-- `10 ^ k` is no more than a quarter of the unit of a number of `size` bits; `c` is 1076. -/
theorem grid_le {k size : Int} {scale c : Nat} (hc : c = 1076)
    (hk : k = size * 30103 / 100000 + 2 - 22) (h1 : size ≤ scale - 1022)
    (h2 : scale - 1074 ≤ size) (h3 : scale ≤ 2045) :
    Nat.pow 10 k.toNat * Nat.pow 2 c ≤ Nat.pow 2 scale * Nat.pow 10 (-k).toNat := by
  by_cases hn : 0 ≤ k
  · -- from `10 ^ 3 ≤ 2 ^ 10`
    obtain ⟨m, rfl⟩ : ∃ m, scale = m + c := ⟨scale - c, by omega⟩
    have h10 : (10 ^ k.toNat) ^ 3 ≤ (2 ^ m) ^ 3 := calc
      (10 ^ k.toNat) ^ 3 = (10 ^ 3) ^ k.toNat := by rw [← pow_mul, ← pow_mul, Nat.mul_comm]
      _ ≤ (2 ^ 10) ^ k.toNat := Nat.pow_le_pow_left (by norm_num) _
      _ = 2 ^ (10 * k.toNat) := by rw [← pow_mul]
      _ ≤ 2 ^ (m * 3) := Nat.pow_le_pow_right (by norm_num) (by omega)
      _ = (2 ^ m) ^ 3 := by rw [← pow_mul]
    have h10' : 10 ^ k.toNat ≤ 2 ^ m := (Nat.pow_le_pow_iff_left (by norm_num)).1 h10
    have hz : (-k).toNat = 0 := by omega
    have hs : Nat.pow 2 (m + c) = 2 ^ m * Nat.pow 2 c := Nat.pow_add 2 m c
    rw [hz, hs]
    exact (Nat.mul_le_mul_right _ h10').trans_eq (Nat.mul_one _).symm
  · -- from `2 ^ 33 ≤ 10 ^ 10`
    have hz : k.toNat = 0 := by omega
    have h10 : (2 ^ (c - scale)) ^ 10 ≤ (10 ^ (-k).toNat) ^ 10 := calc
      (2 ^ (c - scale)) ^ 10 = 2 ^ ((c - scale) * 10) := by rw [← pow_mul]
      _ ≤ 2 ^ (33 * (-k).toNat) := Nat.pow_le_pow_right (by norm_num) (by omega)
      _ = (2 ^ 33) ^ (-k).toNat := by rw [← pow_mul]
      _ ≤ (10 ^ 10) ^ (-k).toNat := Nat.pow_le_pow_left (by norm_num) _
      _ = (10 ^ (-k).toNat) ^ 10 := by rw [← pow_mul, ← pow_mul, Nat.mul_comm]
    have h10' : 2 ^ (c - scale) ≤ 10 ^ (-k).toNat := (Nat.pow_le_pow_iff_left (by norm_num)).1 h10
    have h2s : Nat.pow 2 c ≤ Nat.pow 2 scale * 2 ^ (c - scale) := calc
      Nat.pow 2 c ≤ 2 ^ (scale + (c - scale)) := Nat.pow_le_pow_right (by norm_num) (by omega)
      _ = Nat.pow 2 scale * 2 ^ (c - scale) := Nat.pow_add 2 scale (c - scale)
    rw [hz]
    exact (Nat.one_mul _).trans_le (h2s.trans (Nat.mul_le_mul_left _ h10'))

/-- The search finds a point as soon as its last grid has one. -/
theorem admits_onGrids {n : Nat} {k : Int} (h : (x.onGrid (k - n)).isSome) :
    ∃ t j, x.onGrids k n = ⟨x.negative, t, j⟩ ∧ x.admits t j = true := by
  induction n generalizing k with
  | zero =>
    obtain ⟨t, ht⟩ := Option.isSome_iff_exists.1 h
    rw [Int.natCast_zero, Int.sub_zero] at ht
    exact ⟨t, k, by rw [onGrids, ht]; rfl, admits_of_onGrid ht⟩
  | succ n ih =>
    unfold onGrids
    split
    · rename_i t ht
      exact ⟨t, k, rfl, admits_of_onGrid ht⟩
    · exact ih (by rwa [show k - 1 - n = k - (n + 1 : Nat) by omega])

/-- The digits of a number other than zero round to it. -/
theorem admits_shortest (hs : 0 < x.significand) :
    ∃ t k, x.shortest = ⟨x.negative, t, k⟩ ∧ x.admits t k = true := by
  have hlog : x.significand.log2 ≤ 52 := by
    have := (Nat.log2_lt (by omega : x.significand ≠ 0) (k := 53)).2 x.significand_lt
    omega
  have hsc := x.scale_le
  obtain ⟨c, hc⟩ : ∃ c, c = 1076 := ⟨_, rfl⟩
  unfold shortest
  rw [if_neg (by omega)]
  refine admits_onGrids (onGrid_isSome hc hs (grid_le hc rfl ?_ ?_ hsc)) <;> omega

/-! ## Reading back -/

theorem units_pos (hs : 0 < x.significand) : Nat.pow 2 x.scale ≤ x.units :=
  Nat.le_mul_of_pos_left _ hs

/-- `2 ^ 1024` and `2 ^ 1075` against powers of ten. -/
theorem range_bounds {a b c : Nat} (ha : a = 309) (hb : b = 324) (hc : c = 2045) :
    Nat.pow 2 53 * Nat.pow 2 c < Nat.pow 10 a * Nat.pow 2 1074 ∧
      2 * Nat.pow 2 1074 < Nat.pow 10 b := by
  subst ha hb hc
  decide +kernel

theorem units_le {c : Nat} (hc : x.scale ≤ c) :
    x.units + Nat.pow 2 x.scale ≤ Nat.pow 2 53 * Nat.pow 2 c := calc
  x.units + Nat.pow 2 x.scale = (x.significand + 1) * Nat.pow 2 x.scale := (Nat.succ_mul ..).symm
  _ ≤ Nat.pow 2 53 * Nat.pow 2 c :=
    Nat.mul_le_mul x.significand_lt (Nat.pow_le_pow_right (by decide) hc)

/-- A decimal near a number other than zero has digits, and its size is within the range in which
digits matter. -/
theorem size_bounds {t : Nat} {k : Int} (hs : 0 < x.significand)
    (h : x.Near (t * Nat.pow 10 k.toNat * Nat.pow 2 1074) (Nat.pow 10 (-k).toNat)) :
    t ≠ 0 ∧ -330 ≤ (Decimal.digitCount t : Int) + k ∧ (Decimal.digitCount t : Int) + k ≤ 310 := by
  obtain ⟨hl, hu, -, -⟩ := h
  obtain ⟨a, ha⟩ : ∃ a, a = 309 := ⟨_, rfl⟩
  obtain ⟨b, hb⟩ : ∃ b, b = 324 := ⟨_, rfl⟩
  obtain ⟨c, hc⟩ : ∃ c, c = 2045 := ⟨_, rfl⟩
  obtain ⟨hb1, hb2⟩ := range_bounds ha hb hc
  have hsc : x.scale ≤ c := hc ▸ x.scale_le
  have hd : 0 < Nat.pow 10 (-k).toNat := Nat.pow_pos (by decide)
  have hle := Nat.mul_le_mul_right (Nat.pow 10 (-k).toNat) (units_le hsc)
  have hpos := Nat.mul_le_mul_right (Nat.pow 10 (-k).toNat) (units_pos hs)
  have hstep : Nat.pow 10 (-k).toNat ≤ Nat.pow 2 x.scale * Nat.pow 10 (-k).toNat :=
    Nat.le_mul_of_pos_left _ (Nat.two_pow_pos _)
  have hr : x.reach * Nat.pow 10 (-k).toNat ≤ 2 * (Nat.pow 2 x.scale * Nat.pow 10 (-k).toNat) := by
    rw [← Nat.mul_assoc]
    exact Nat.mul_le_mul_right _ x.reach_le
  rw [Nat.add_mul] at hle
  generalize Nat.pow 2 53 * Nat.pow 2 c = top at *
  generalize Nat.pow 2 1074 = u at *
  have ht : t ≠ 0 := by
    rintro rfl
    simp only [Nat.zero_mul] at hl
    omega
  have hcount := Decimal.lt_pow_digitCount t
  have hcount' := Decimal.pow_digitCount_le ht
  refine ⟨ht, ?_, ?_⟩
  · -- otherwise the decimal is less than half the least unit
    by_contra hlt
    have hexp : b + (Decimal.digitCount t + k.toNat) ≤ (-k).toNat := by omega
    have hp : 10 ^ (b + (Decimal.digitCount t + k.toNat)) ≤ 10 ^ (-k).toNat :=
      Nat.pow_le_pow_right (by decide) hexp
    have ht1 : t * Nat.pow 10 k.toNat ≤ 10 ^ (Decimal.digitCount t + k.toNat) := by
      rw [Nat.pow_add]
      exact Nat.mul_le_mul_right _ hcount.le
    have h2 : 2 * u * (t * Nat.pow 10 k.toNat) < 10 ^ (-k).toNat := calc
      2 * u * (t * Nat.pow 10 k.toNat) ≤ 2 * u * 10 ^ (Decimal.digitCount t + k.toNat) :=
        Nat.mul_le_mul_left _ ht1
      _ < Nat.pow 10 b * 10 ^ (Decimal.digitCount t + k.toNat) :=
        Nat.mul_lt_mul_of_pos_right hb2 (Nat.pow_pos (by decide))
      _ = 10 ^ (b + (Decimal.digitCount t + k.toNat)) := (Nat.pow_add ..).symm
      _ ≤ 10 ^ (-k).toNat := hp
    have h3 : 2 * (t * Nat.pow 10 k.toNat * u) < Nat.pow 10 (-k).toNat := by
      calc
        2 * (t * Nat.pow 10 k.toNat * u) = 2 * u * (t * Nat.pow 10 k.toNat) := by ring
        _ < Nat.pow 10 (-k).toNat := h2
    omega
  · -- otherwise the decimal is more than half a unit above the greatest number
    by_contra hlt
    have hexp : a + (-k).toNat ≤ Decimal.digitCount t - 1 + k.toNat := by omega
    have hp : 10 ^ (a + (-k).toNat) ≤ 10 ^ (Decimal.digitCount t - 1 + k.toNat) :=
      Nat.pow_le_pow_right (by decide) hexp
    have h2 : top * Nat.pow 10 (-k).toNat < t * Nat.pow 10 k.toNat * u := calc
      top * Nat.pow 10 (-k).toNat < Nat.pow 10 a * u * Nat.pow 10 (-k).toNat :=
        Nat.mul_lt_mul_of_pos_right hb1 hd
      _ = Nat.pow 10 a * Nat.pow 10 (-k).toNat * u := by ring
      _ = 10 ^ (a + (-k).toNat) * u := congrArg (· * u) (Nat.pow_add ..).symm
      _ ≤ 10 ^ (Decimal.digitCount t - 1 + k.toNat) * u := Nat.mul_le_mul_right _ hp
      _ = 10 ^ (Decimal.digitCount t - 1) * 10 ^ k.toNat * u := by rw [Nat.pow_add]
      _ ≤ t * Nat.pow 10 k.toNat * u := Nat.mul_le_mul_right _ (Nat.mul_le_mul_right _ hcount')
    omega

end Finite

namespace Decimal

theorem toBinary64_zero (negative : Bool) (k : Int) :
    (⟨negative, 0, k⟩ : Decimal).toBinary64 = .finite (.zero negative) := by
  simp only [toBinary64, true_or, if_true]

/-- The shortest decimal of a number reads back as the number. -/
theorem toBinary64_shortest (x : Finite) : x.shortest.toBinary64 = .finite x := by
  by_cases hs : x.significand = 0
  · obtain ⟨negative, significand, scale, _, _, hn⟩ := x
    obtain rfl : significand = 0 := hs
    obtain rfl : scale = 0 := hn.resolve_right (by decide)
    rfl
  · obtain ⟨t, k, he, ha⟩ := Finite.admits_shortest (Nat.pos_of_ne_zero hs)
    have hnear := Finite.near_of_admits ha
    obtain ⟨ht, h1, h2⟩ := Finite.size_bounds (Nat.pos_of_ne_zero hs) hnear
    rw [he, toBinary64]
    simp only
    rw [if_neg (by omega), if_neg (by omega)]
    exact Binary64.ofRatio_eq (Nat.pow_pos (by decide)) hnear

/-- A zero moved from the digits to the exponent does not change the number. -/
theorem toBinary64_mul_pow (negative : Bool) {n : Nat} (hn : n ≠ 0) (m : Nat) (k : Int) :
    (⟨negative, n * 10 ^ m, k⟩ : Decimal).toBinary64 =
    (⟨negative, n, k + m⟩ : Decimal).toBinary64 := by
  have hp : 10 ^ m ≠ 0 := (Nat.pow_pos (by decide)).ne'
  simp only [toBinary64, digitCount_mul_pow hn, Nat.mul_eq_zero, hn, hp, false_or,
    show ((digitCount n + m : Nat) : Int) + k = digitCount n + (k + m) by push_cast; ring]
  split
  · rfl
  · split
    · rfl
    · refine Binary64.ofRatio_congr (Nat.pow_pos (by decide)) (Nat.pow_pos (by decide)) ?_
      have he : m + k.toNat + (-(k + m)).toNat = (k + m).toNat + (-k).toNat := by omega
      have h10 : (10 : Nat) ^ m * (10 ^ k.toNat * 10 ^ (-(k + m)).toNat) =
          10 ^ (k + m).toNat * 10 ^ (-k).toNat := by
        rw [← Nat.pow_add, ← Nat.pow_add, ← Nat.pow_add, ← he, Nat.add_assoc]
      calc
        n * 10 ^ m * Nat.pow 10 k.toNat * Nat.pow 10 (-(k + m)).toNat
            = n * (10 ^ m * (10 ^ k.toNat * 10 ^ (-(k + m)).toNat)) := by
              simp only [Nat.mul_assoc]; rfl
        _ = n * (10 ^ (k + m).toNat * 10 ^ (-k).toNat) := by rw [h10]
        _ = n * Nat.pow 10 (k + m).toNat * Nat.pow 10 (-k).toNat := (Nat.mul_assoc ..).symm

end Decimal

end FeatureFilter
