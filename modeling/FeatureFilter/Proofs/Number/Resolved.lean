import FeatureFilter.Proofs.Number.Rounded
import FeatureFilter.Proofs.Number.Text
import Mathlib.Tactic.FieldSimp

/-!
# What numerals resolve to

`Numeral.toRat` is the exact value of a numeral. Digits alone whose value has a place among the
64-bit whole numbers resolve to it; every other numeral resolves to the nearest double
(`Literal.readNumber_ok_iff`). A numeral always resolves, and never to a number below zero, so that
its opposite is a 64-bit number as well.
-/

namespace FeatureFilter

theorem digitsValue_add (n : Nat) (cs : List Char) :
    digitsValue n cs = n * 10 ^ cs.length + digitsValue 0 cs := by
  induction cs generalizing n with
  | nil => simp
  | cons c cs ih =>
    have hstep (n : Nat) :
        digitsValue n (c :: cs) = digitsValue (10 * n + (c.toNat - '0'.toNat)) cs := rfl
    rw [hstep, hstep, ih, ih (10 * 0 + _), List.length_cons, Nat.pow_succ]
    ring

namespace Numeral

variable (n : Numeral)

/-- The exact value that is written. -/
def toRat : Rat :=
  (digitsValue 0 n.whole +
      (n.fraction.map fun ds => (digitsValue 0 ds / 10 ^ ds.length : Rat)).getD 0) *
    10 ^ (n.exponent.map Exponent.value).getD 0

/-- Digits alone, whose value is no greater than the greatest 64-bit number. -/
def IsInt64 : Prop := n.chars.all Char.isDigit = true ∧ n.toRat ≤ 0x7FFFFFFFFFFFFFFF

/-- The literal that the numeral resolves to. -/
def Denotes : Literal → Prop
  | .integer v => n.IsInt64 ∧ (v.toInt : Rat) = n.toRat
  | .double x => ¬ n.IsInt64 ∧ x.Nearest n.toRat ∧ x.isNegative = false
  | _ => False

theorem value_false : (⟨false, (n.value false).digits, (n.value false).exponent⟩ : Decimal) =
    n.value false := by
  unfold value
  cases n.fraction <;> rfl

/-- The decimal that is written has the exact value. -/
theorem value_toRat (negative : Bool) :
    ((n.value negative).digits : Rat) * 10 ^ (n.value negative).exponent = n.toRat := by
  unfold value toRat
  cases n.fraction with
  | none => simp
  | some ds =>
    have hten : (10 : Rat) ≠ 0 := by norm_num
    simp only [digitsValue_add (digitsValue 0 n.whole), Option.map_some, Option.getD_some]
    rw [zpow_sub₀ hten, zpow_natCast]
    push_cast
    field_simp

theorem toRat_nonneg : 0 ≤ n.toRat := by
  rw [← n.value_toRat false]
  exact mul_nonneg (Nat.cast_nonneg _) (zpow_nonneg (by norm_num) _)

theorem nearest_value : (n.value false).toBinary64.Nearest n.toRat := by
  rw [← n.value_toRat false, ← n.value_false]
  exact Decimal.nearest_toBinary64 ..

theorem isNegative_value : (n.value false).toBinary64.isNegative = false := by
  rw [← n.value_false]
  exact Decimal.isNegative_toBinary64 ..

variable {n}

theorem toRat_of_whole (h : Layout.showsDouble n = false) : n.toRat = digitsValue 0 n.whole := by
  obtain ⟨hf, hx⟩ := Bool.or_eq_false_iff.1 h
  have hf : n.fraction = none := by simpa using hf
  have hx : n.exponent = none := by simpa using hx
  simp [toRat, hf, hx]

theorem isInt64_iff : n.IsInt64 ↔
    Layout.showsDouble n = false ∧ digitsValue 0 n.whole ≤ 0x7FFFFFFFFFFFFFFF := by
  rw [IsInt64, Literal.all_digits_iff]
  refine and_congr_right fun h => ?_
  rw [toRat_of_whole h]
  norm_cast

end Numeral

namespace Literal

variable {n : Numeral} {l l' : Literal}

theorem readNumber_integer (h : n.IsInt64) :
    readNumber (String.ofList n.chars) = .ok (.integer (Int64.ofInt (digitsValue 0 n.whole))) := by
  obtain ⟨hw, hle⟩ := Numeral.isInt64_iff.1 h
  exact readNumber_whole hw hle

theorem readNumber_double (h : ¬ n.IsInt64) :
    readNumber (String.ofList n.chars) = .ok (.double (n.value false).toBinary64) := by
  cases hw : Layout.showsDouble n with
  | true => exact readNumber_chars n hw
  | false => exact readNumber_wide hw fun hle => h (Numeral.isInt64_iff.2 ⟨hw, hle⟩)

theorem exists_readNumber (n : Numeral) :
    ∃ l, readNumber (String.ofList n.chars) = .ok l ∧ n.Denotes l := by
  by_cases h : n.IsInt64
  · obtain ⟨hw, hle⟩ := Numeral.isInt64_iff.1 h
    refine ⟨_, readNumber_integer h, h, ?_⟩
    rw [Numeral.toRat_of_whole hw, Int64.toInt_ofInt_of_le (by omega) (by omega), Int.cast_natCast]
  · exact ⟨_, readNumber_double h, h, n.nearest_value, n.isNegative_value⟩

theorem denotes_unique (h : n.Denotes l) (h' : n.Denotes l') : l = l' := by
  cases l with
  | integer v =>
    cases l' with
    | integer v' =>
      have hv : v.toInt = v'.toInt := by exact_mod_cast h.2.trans h'.2.symm
      exact congrArg integer (Int64.toInt_inj.1 hv)
    | double => exact absurd h.1 h'.1
    | _ => cases h'
  | double x =>
    cases l' with
    | integer => exact absurd h'.1 h.1
    | double x' => exact congrArg double (h.2.1.unique h'.2.1 h.2.2 h'.2.2)
    | _ => cases h'
  | _ => cases h

/-- A numeral resolves to the literal that it denotes and to no other. -/
theorem readNumber_ok_iff (n : Numeral) (l : Literal) :
    readNumber (String.ofList n.chars) = .ok l ↔ n.Denotes l := by
  obtain ⟨l', hread, hdenotes⟩ := exists_readNumber n
  constructor
  · intro h
    cases hread.symm.trans h
    exact hdenotes
  · intro h
    rw [hread, denotes_unique h hdenotes]

example : readNumber "007" = .ok (.integer 7) := by decide +kernel

example : readNumber "1e999" = .ok (.double (.infinity false)) := by decide +kernel

/-- The opposite of a whole number that is written without a sign is a 64-bit number. -/
theorem toInt_neg_of_denotes {v : Int64} (h : n.Denotes (.integer v)) :
    0 ≤ v.toInt ∧ (-v).toInt = -v.toInt := by
  have h0 : 0 ≤ v.toInt := by
    have := n.toRat_nonneg
    rw [← h.2] at this
    exact_mod_cast this
  have hlt := v.toInt_lt
  refine ⟨h0, ?_⟩
  rw [Int64.toInt_neg, Int.bmod_eq_of_le (by omega) (by omega)]

end Literal

end FeatureFilter
