import FeatureFilter.Number.Decimal
import Mathlib.Algebra.Order.Ring.Nat
import Mathlib.Tactic.Ring

/-!
# Decimal digits

What runs of decimal digits are worth, how many of them a natural number has, and how they are told
apart from what follows them.
-/

namespace FeatureFilter

/-! ## Values -/

theorem digitsValue_eq (n : Nat) (cs : List Char) : digitsValue n cs = Nat.ofDigitChars 10 cs n :=
  rfl

theorem digitsValue_append (n : Nat) (a b : List Char) :
    digitsValue n (a ++ b) = digitsValue (digitsValue n a) b := by
  simp only [digitsValue_eq, Nat.ofDigitChars_append]

@[simp] theorem digitsValue_nil (n : Nat) : digitsValue n [] = n := rfl

@[simp] theorem digitsValue_toDigits (n : Nat) : digitsValue 0 (Nat.toDigits 10 n) = n := by
  rw [digitsValue_eq, Nat.ofDigitChars_ten_toDigits]

@[simp] theorem digitsValue_zeros (n k : Nat) :
    digitsValue n (List.replicate k '0') = n * 10 ^ k := by
  rw [digitsValue_eq, Nat.ofDigitChars_replicate_zero, Nat.mul_comm]

theorem digitsValue_lt {n : Nat} {cs : List Char} (h : cs.all Char.isDigit = true) :
    digitsValue n cs < (n + 1) * 10 ^ cs.length := by
  induction cs generalizing n with
  | nil => simp
  | cons c cs ih =>
    simp only [List.all_cons, Bool.and_eq_true] at h
    have hc : c.toNat ≤ '9'.toNat := by
      simp only [Char.isDigit, Bool.and_eq_true, decide_eq_true_eq] at h
      exact h.1.2
    have hstep : digitsValue n (c :: cs) = digitsValue (10 * n + (c.toNat - '0'.toNat)) cs := rfl
    rw [hstep]
    refine (ih h.2).trans_le ?_
    rw [List.length_cons, Nat.pow_succ, Nat.mul_comm (10 ^ _), ← Nat.mul_assoc]
    simp only [Char.reduceToNat] at hc ⊢
    exact Nat.mul_le_mul_right _ (by omega)

/-! ## Runs of digits -/

theorem all_isDigit_toDigits (n : Nat) : (Nat.toDigits 10 n).all Char.isDigit = true :=
  List.all_eq_true.2 fun _ hc => Nat.isDigit_of_mem_toDigits (by decide) (by decide) hc

theorem all_isDigit_zeros (k : Nat) : (List.replicate k '0').all Char.isDigit = true := by
  rw [List.all_eq_true]
  intro c hc
  rw [List.eq_of_mem_replicate hc]
  rfl

/-- What follows a run of digits does not start with one. -/
def NoDigit (cs : List Char) : Prop := ∀ c, cs.head? = some c → c.isDigit = false

theorem noDigit_nil : NoDigit [] := by
  intro c hc
  cases hc

theorem noDigit_cons {c : Char} {cs : List Char} : NoDigit (c :: cs) ↔ c.isDigit = false := by
  simp [NoDigit]

theorem takeWhile_digits {ds rest : List Char} (h : ds.all Char.isDigit = true)
    (hr : NoDigit rest) : (ds ++ rest).takeWhile Char.isDigit = ds := by
  rw [List.takeWhile_append_of_pos (List.all_eq_true.1 h)]
  cases rest with
  | nil => simp
  | cons c cs => simp [noDigit_cons.1 hr]

theorem dropWhile_digits {ds rest : List Char} (h : ds.all Char.isDigit = true)
    (hr : NoDigit rest) : (ds ++ rest).dropWhile Char.isDigit = rest := by
  rw [List.dropWhile_append_of_pos (List.all_eq_true.1 h)]
  cases rest with
  | nil => rfl
  | cons c cs => simp [noDigit_cons.1 hr]

/-! ## How many digits -/

namespace Decimal

theorem digitCount_eq {n : Nat} (h : n ≠ 0) : digitCount n = (Nat.toDigits 10 n).length := by
  rw [digitCount, if_neg h]

theorem lt_pow_digitCount (n : Nat) : n < 10 ^ digitCount n := by
  by_cases h : n = 0
  · simp [h, digitCount]
  · rw [digitCount_eq h, ← Nat.length_toDigits_le_iff (by decide) Nat.length_toDigits_pos]

theorem pow_digitCount_le {n : Nat} (h : n ≠ 0) : 10 ^ (digitCount n - 1) ≤ n := by
  rw [digitCount_eq h]
  by_contra hlt
  by_cases h1 : (Nat.toDigits 10 n).length = 1
  · rw [h1] at hlt
    omega
  · have hpos : 0 < (Nat.toDigits 10 n).length := Nat.length_toDigits_pos
    have := (Nat.length_toDigits_le_iff (by decide) (by omega)).2 (Nat.lt_of_not_le hlt)
    omega

theorem digitCount_pos {n : Nat} (h : n ≠ 0) : 0 < digitCount n := by
  rw [digitCount_eq h]
  exact Nat.length_toDigits_pos

/-- The number of digits, from bounds on the number. -/
theorem digitCount_unique {n k : Nat} (hl : 10 ^ k ≤ n) (hu : n < 10 ^ (k + 1)) :
    digitCount n = k + 1 := by
  have h0 : n ≠ 0 := by
    have : 0 < 10 ^ k := Nat.pow_pos (by decide)
    omega
  have h1 := pow_digitCount_le h0
  have h2 := lt_pow_digitCount n
  have hk : k < digitCount n := (Nat.pow_lt_pow_iff_right (by decide)).1 (hl.trans_lt h2)
  have hk' : digitCount n - 1 < k + 1 := (Nat.pow_lt_pow_iff_right (by decide)).1 (h1.trans_lt hu)
  omega

/-- Zeros at the end are further digits. -/
theorem digitCount_mul_pow {n : Nat} (h : n ≠ 0) (m : Nat) :
    digitCount (n * 10 ^ m) = digitCount n + m := by
  have hc := digitCount_pos h
  have hp : 0 < 10 ^ m := Nat.pow_pos (by decide)
  have hl : 10 ^ (digitCount n - 1 + m) ≤ n * 10 ^ m := by
    rw [Nat.pow_add]
    exact Nat.mul_le_mul_right _ (pow_digitCount_le h)
  have hu : n * 10 ^ m < 10 ^ (digitCount n - 1 + m + 1) := by
    rw [show digitCount n - 1 + m + 1 = digitCount n + m by omega, Nat.pow_add]
    exact Nat.mul_lt_mul_of_pos_right (lt_pow_digitCount n) hp
  rw [digitCount_unique hl hu]
  omega

end Decimal

end FeatureFilter
