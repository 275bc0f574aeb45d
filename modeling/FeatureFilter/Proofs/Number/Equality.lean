import FeatureFilter.Number.Binary64

/-!
# Equal numbers

A finite number has one significand and one scale, so a number equals no other number, except that
the two zeros equal each other (`Binary64.eq_or_zeros_of_beq`).
-/

namespace FeatureFilter

namespace Finite

variable {x y : Finite}

theorem units_eq_zero_iff : x.units = 0 ↔ x.significand = 0 := by
  have hpos : 0 < Nat.pow 2 x.scale := Nat.pow_pos (by decide)
  rw [units, Nat.mul_eq_zero]
  exact ⟨fun h => h.resolve_right (Nat.ne_of_gt hpos), .inl⟩

theorem eq_zero_of_significand (h : x.significand = 0) : x = zero x.negative := by
  obtain ⟨negative, significand, scale, hlt, hle, hn⟩ := x
  cases h
  cases hn.resolve_right (by decide)
  rfl

/-- A greater scale would need a significand of one bit more on the other side. -/
theorem scale_le_of_units (h : x.units = y.units) : x.scale ≤ y.scale := by
  refine Nat.le_of_not_lt fun hlt => ?_
  obtain ⟨k, hk⟩ := Nat.exists_eq_add_of_lt hlt
  have hlarge : 0x10000000000000 ≤ x.significand := x.normal.resolve_left (by omega)
  have hpos : 0 < 2 ^ y.scale := Nat.pow_pos (by decide)
  have hsignificand : x.significand * 2 ^ (k + 1) = y.significand := by
    refine Nat.eq_of_mul_eq_mul_right hpos ?_
    calc x.significand * 2 ^ (k + 1) * 2 ^ y.scale
        = x.significand * 2 ^ (y.scale + k + 1) := by
          rw [Nat.mul_assoc, ← Nat.pow_add, Nat.add_comm (k + 1), Nat.add_assoc]
      _ = y.significand * 2 ^ y.scale := by
          rw [← hk]
          exact h
  have hy := y.significand_lt
  have htwo : 2 ≤ 2 ^ (k + 1) := Nat.le_self_pow (Nat.succ_ne_zero k) 2
  have := Nat.mul_le_mul hlarge htwo
  omega

theorem eq_of_units (h : x.units = y.units) (hs : x.negative = y.negative) : x = y := by
  have hscale := Nat.le_antisymm (scale_le_of_units h) (scale_le_of_units h.symm)
  have hpos : 0 < Nat.pow 2 y.scale := Nat.pow_pos (by decide)
  have hsignificand : x.significand = y.significand := by
    rw [units, units, hscale] at h
    exact Nat.eq_of_mul_eq_mul_right hpos h
  obtain ⟨⟩ := x
  obtain ⟨⟩ := y
  cases hs
  cases hscale
  cases hsignificand
  rfl

/-- The only different numbers in one place are the zeros. -/
theorem eq_or_zeros_of_toInt (h : x.toInt = y.toInt) :
    x = y ∨ ∃ negative, x = zero negative ∧ y = zero (!negative) := by
  by_cases hs : x.negative = y.negative
  · refine .inl (eq_of_units ?_ hs)
    unfold toInt at h
    rw [hs] at h
    split at h <;> omega
  · -- What has both signs is zero.
    have hy : y.negative = !x.negative := Bool.eq_not.2 (Ne.symm hs)
    have hunits : x.units = 0 ∧ y.units = 0 := by
      simp only [toInt, hy] at h
      cases hx : x.negative <;> rw [hx] at h <;> simp at h <;> omega
    refine .inr ⟨x.negative, eq_zero_of_significand (units_eq_zero_iff.1 hunits.1), ?_⟩
    rw [← hy]
    exact eq_zero_of_significand (units_eq_zero_iff.1 hunits.2)

end Finite

/-- Numbers that are equal are the same number, or zeros of different signs. -/
theorem Binary64.eq_or_zeros_of_beq {x y : Binary64} (h : (x == y) = true) :
    x = y ∨ ∃ negative, x = .finite (.zero negative) ∧ y = .finite (.zero !negative) := by
  cases x with
  | finite x =>
    cases y with
    | finite y =>
      obtain rfl | ⟨negative, rfl, rfl⟩ :=
        Finite.eq_or_zeros_of_toInt (beq_iff_eq.1 (show (x.toInt == y.toInt) = true from h))
      · exact .inl rfl
      · exact .inr ⟨negative, rfl, rfl⟩
    | _ => cases h
  | infinity a =>
    cases y with
    | infinity b => exact .inl (congrArg infinity (beq_iff_eq.1 (show (a == b) = true from h)))
    | _ => cases h
  | nan => cases h

end FeatureFilter
