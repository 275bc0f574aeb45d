import FeatureFilter.Number.Shortest
import Mathlib.Tactic.Linarith
import Mathlib.Tactic.Ring

/-!
# Rounding to the nearest number

`Finite.interval` is the interval of the reals that round to a number: whatever ratio lies in it is
turned into that number by `Binary64.ofRatio`. Rounding depends on the ratio alone, not on its
numerator and denominator.
-/

namespace FeatureFilter

namespace Binary64

/-- A quotient no more than half a unit away from `s` is rounded to `s`; the halves themselves are
when `s` is even. -/
theorem divRound_eq {n d s : Nat} (hd : 0 < d) (hl : 2 * (s * d) ≤ 2 * n + d)
    (hu : 2 * n ≤ 2 * (s * d) + d)
    (hodd : s % 2 = 1 → 2 * (s * d) < 2 * n + d ∧ 2 * n < 2 * (s * d) + d) :
    divRound n d = s := by
  have hn : n = n / d * d + n % d := by rw [Nat.div_add_mod']
  have hr : n % d < d := Nat.mod_lt n hd
  unfold divRound
  simp only
  generalize n / d = q at *
  generalize n % d = r at *
  have hqs : q ≤ s := by
    by_contra h
    have : (s + 1) * d ≤ q * d := Nat.mul_le_mul_right d (by omega)
    rw [Nat.succ_mul] at this
    omega
  have hsq : s ≤ q + 1 := by
    by_contra h
    have : (q + 2) * d ≤ s * d := Nat.mul_le_mul_right d (by omega)
    rw [Nat.add_mul] at this
    omega
  have hq1 : (q + 1) * d = q * d + d := Nat.succ_mul q d
  obtain rfl | rfl : s = q ∨ s = q + 1 := by omega
  · rw [if_neg]
    rintro (h | ⟨h, ho⟩)
    · omega
    · have := hodd ho
      omega
  · rw [if_pos]
    by_cases h : d < 2 * r
    · exact .inl h
    · refine .inr ⟨by omega, ?_⟩
      by_contra ho
      have := hodd (by omega)
      omega

theorem divRound_mul_right (n d c : Nat) (hc : 0 < c) :
    divRound (n * c) (d * c) = divRound n d := by
  have h1 : d * c < 2 * (n % d * c) ↔ d < 2 * (n % d) := by
    rw [← Nat.mul_assoc]
    exact Nat.mul_lt_mul_right hc
  have h2 : d * c = 2 * (n % d * c) ↔ d = 2 * (n % d) := by
    rw [← Nat.mul_assoc]
    exact Nat.mul_left_inj (by omega)
  simp only [divRound, Nat.mul_div_mul_right n d hc, Nat.mul_mod_mul_right, h1, h2]

theorem ofRatio_mul_right (negative : Bool) (n d c : Nat) (hc : 0 < c) :
    ofRatio negative (n * c) (d * c) = ofRatio negative n d := by
  have h1 (m : Nat) : n * c * m = n * m * c := by ring
  have h2 (m : Nat) : d * c * m = d * m * c := by ring
  simp only [ofRatio, h1, h2, Nat.mul_div_mul_right _ d hc, divRound_mul_right _ _ c hc]

/-- Equal ratios are rounded alike. -/
theorem ofRatio_congr {negative : Bool} {n d n' d' : Nat} (hd : 0 < d) (hd' : 0 < d')
    (h : n * d' = n' * d) : ofRatio negative n d = ofRatio negative n' d' := by
  rw [← ofRatio_mul_right negative n d d' hd', ← ofRatio_mul_right negative n' d' d hd, h,
    Nat.mul_comm d d']

theorem ofParts_eq (x : Finite) :
    ofParts x.negative x.significand x.scale = .finite x := by
  rw [ofParts, dif_pos ⟨x.significand_lt, x.scale_le, x.normal⟩]

end Binary64

namespace Finite

/-- How far the interval of a number reaches down, in quarters of the least unit. -/
def reach (x : Finite) : Nat :=
  if x.significand = 0x10000000000000 ∧ 0 < x.scale then Nat.pow 2 x.scale
  else 2 * Nat.pow 2 x.scale

variable {x : Finite}

theorem reach_le (x : Finite) : x.reach ≤ 2 * Nat.pow 2 x.scale := by
  unfold reach
  split <;> omega

theorem le_reach (x : Finite) : Nat.pow 2 x.scale ≤ x.reach := by
  unfold reach
  split <;> omega

/-- Whether the ratio of `n` to `d` units lies in the interval of the reals that round to `x`: no
further below than its reach, no further above than half its own unit, and not at the ends when the
significand is odd. -/
structure Near (x : Finite) (n d : Nat) : Prop where
  lower : 4 * (x.units * d) ≤ 4 * n + x.reach * d
  upper : 4 * n ≤ 4 * (x.units * d) + 2 * (Nat.pow 2 x.scale * d)
  lower_lt : x.significand % 2 = 1 → 4 * (x.units * d) < 4 * n + x.reach * d
  upper_lt : x.significand % 2 = 1 → 4 * n < 4 * (x.units * d) + 2 * (Nat.pow 2 x.scale * d)

/-- Scaled to `x`'s own unit, a ratio near `x` is within half a unit of its significand. -/
theorem Near.divRound_eq {n d : Nat} (hd : 0 < d) (h : x.Near n d) :
    Binary64.divRound n (d * Nat.pow 2 x.scale) = x.significand := by
  have hp : 0 < Nat.pow 2 x.scale := Nat.two_pow_pos x.scale
  have hr := Nat.mul_le_mul_right d x.reach_le
  obtain ⟨hl, hu, hlo, huo⟩ := h
  have e1 : x.units * d = x.significand * (d * Nat.pow 2 x.scale) := by
    rw [units]; ring
  have e2 : Nat.pow 2 x.scale * d = d * Nat.pow 2 x.scale := Nat.mul_comm _ d
  rw [Nat.mul_assoc, e2] at hr
  rw [e1] at hl hu hlo huo
  rw [e2] at hu huo
  refine Binary64.divRound_eq (Nat.mul_pos hd hp) (by omega) (by omega) fun ho => ?_
  have := hlo ho
  have := huo ho
  omega

/-- Below a power of two the unit is half as large, and a ratio near the power from below is within
half such a unit of twice its significand. -/
theorem Near.divRound_eq_below {n d k : Nat} (hd : 0 < d) (h : x.Near n d)
    (hk : x.scale = k + 1) (hs : x.significand = 0x10000000000000)
    (hn : n < x.units * d) :
    Binary64.divRound n (d * Nat.pow 2 k) = 0x20000000000000 := by
  have hp : 0 < Nat.pow 2 k := Nat.two_pow_pos k
  have hk2 : Nat.pow 2 x.scale = 2 * Nat.pow 2 k := by rw [hk]; exact Nat.pow_succ'
  have hr : x.reach = 2 * Nat.pow 2 k := by rw [reach, if_pos ⟨hs, by omega⟩, hk2]
  have e1 : x.units * d = 0x20000000000000 * (d * Nat.pow 2 k) := by
    rw [units, hk2, hs]; ring
  have e2 : 2 * Nat.pow 2 k * d = 2 * (d * Nat.pow 2 k) := by ring
  have hl := h.lower
  rw [hr, e1, e2] at hl
  rw [e1] at hn
  exact Binary64.divRound_eq (Nat.mul_pos hd hp) (by omega) (by omega) (by omega)

/-- The bits of a quotient, from bounds on it. -/
theorem log2_div_eq {n d k m : Nat} (hd : 0 < d) (hl : 0x10000000000000 * (Nat.pow 2 k * d) ≤ n)
    (hu : n < 0x20000000000000 * (Nat.pow 2 k * d)) (hm : m = k) : (n / d).log2 - 52 = m := by
  have e1 : 2 ^ (52 + k) = 0x10000000000000 * Nat.pow 2 k := Nat.pow_add 2 52 k
  have e2 : 2 ^ (52 + k + 1) = 0x20000000000000 * Nat.pow 2 k := by
    rw [Nat.pow_succ, e1]; ring
  have hq1 : 2 ^ (52 + k) ≤ n / d := by
    rw [Nat.le_div_iff_mul_le hd, e1, Nat.mul_assoc]
    exact hl
  have hq2 : n / d < 2 ^ (52 + k + 1) := by
    rw [Nat.div_lt_iff_lt_mul hd, e2, Nat.mul_assoc]
    exact hu
  have h0 : n / d ≠ 0 := by
    have := Nat.two_pow_pos (52 + k)
    omega
  have hlog : (n / d).log2 = 52 + k := (Nat.log2_eq_iff h0).2 ⟨hq1, hq2⟩
  omega

/-- The number of whole units of a ratio near `x` has as many bits as `x` itself, unless `x` is a
power of two and the ratio is below it. -/
theorem Near.log2_div {n d : Nat} (hd : 0 < d) (h : x.Near n d) :
    (n / d).log2 - 52 = x.scale ∨
      ∃ k, x.scale = k + 1 ∧ x.significand = 0x10000000000000 ∧ n < x.units * d ∧
        (n / d).log2 - 52 = k := by
  have hs := x.significand_lt
  have hpd : 0 < Nat.pow 2 x.scale * d := Nat.mul_pos (Nat.two_pow_pos _) hd
  have hu := h.upper
  have hr : x.reach * d ≤ 2 * (Nat.pow 2 x.scale * d) := by
    rw [← Nat.mul_assoc]
    exact Nat.mul_le_mul_right d x.reach_le
  have hl := h.lower
  have e : x.units * d = x.significand * (Nat.pow 2 x.scale * d) := Nat.mul_assoc ..
  have hsu : x.significand * (Nat.pow 2 x.scale * d) + Nat.pow 2 x.scale * d ≤
      0x20000000000000 * (Nat.pow 2 x.scale * d) := by
    rw [← Nat.succ_mul]
    exact Nat.mul_le_mul_right _ hs
  rw [e] at hl hu ⊢
  by_cases hk : x.scale = 0
  · -- the least unit: fewer than `2 ^ 53` of them have at most 53 bits
    rw [hk, show Nat.pow 2 0 * d = d from Nat.one_mul d] at hu hsu hpd
    have hq : n / d < 2 ^ 53 := (Nat.div_lt_iff_lt_mul hd).2 (by omega)
    left
    by_cases h0 : n / d = 0
    · simp [h0, hk]
    · have := (Nat.log2_lt h0).2 hq
      omega
  · have hn := x.normal.resolve_left hk
    obtain ⟨k, hk'⟩ : ∃ k, x.scale = k + 1 := ⟨x.scale - 1, by omega⟩
    by_cases hb : n < 0x10000000000000 * (Nat.pow 2 x.scale * d)
    · have hs52 : x.significand = 0x10000000000000 := by
        by_contra hne
        have : 0x10000000000001 * (Nat.pow 2 x.scale * d) ≤
            x.significand * (Nat.pow 2 x.scale * d) := Nat.mul_le_mul_right _ (by omega)
        omega
      have e2 : Nat.pow 2 x.scale * d = 2 * (Nat.pow 2 k * d) := by
        rw [hk', ← Nat.mul_assoc]
        exact congrArg (· * d) Nat.pow_succ'
      rw [hs52, e2] at hl ⊢
      rw [e2] at hb hr
      exact .inr ⟨k, hk', rfl, hb, log2_div_eq hd (by omega) (by omega) rfl⟩
    · exact .inl (log2_div_eq hd (by omega) (by omega) rfl)

end Finite

namespace Binary64

theorem ofRatio_eq {x : Finite} {n d : Nat} (hd : 0 < d)
    (h : x.Near (n * Nat.pow 2 1074) d) : ofRatio x.negative n d = .finite x := by
  unfold ofRatio
  simp only
  rcases h.log2_div hd with hk | ⟨k, hk, hs, hn, hlog⟩
  · rw [hk, h.divRound_eq hd, if_neg (by have := x.significand_lt; omega), ofParts_eq]
  · rw [hlog, h.divRound_eq_below hd hk hs hn, if_pos rfl, ← hk, ← hs, ofParts_eq]

end Binary64

end FeatureFilter
