import FeatureFilter.Proofs.Number.Numeral

/-!
# Numbers as text

The text of a number is a sign and a numeral, and reading the numeral and giving it the sign leads
back to the number: for the doubles and whole numbers of literals, and for ordinates.
-/

namespace FeatureFilter

/-! ## Signs -/

namespace Binary64

theorem ofParts_true (s k : Nat) : ofParts true s k = (ofParts false s k).neg := by
  unfold ofParts
  split <;> rfl

theorem ofRatio_true (n d : Nat) : ofRatio true n d = (ofRatio false n d).neg := by
  unfold ofRatio
  simp only
  generalize divRound _ _ = s
  split
  · exact ofParts_true ..
  · exact ofParts_true ..

end Binary64

theorem Decimal.toBinary64_true (t : Nat) (k : Int) :
    (⟨true, t, k⟩ : Decimal).toBinary64 = (⟨false, t, k⟩ : Decimal).toBinary64.neg := by
  unfold toBinary64
  simp only
  split
  · rfl
  · split
    · rfl
    · exact Binary64.ofRatio_true ..

theorem Numeral.value_true (n : Numeral) :
    (n.value true).toBinary64 = (n.value false).toBinary64.neg := by
  unfold Numeral.value
  cases n.fraction with
  | none => exact Decimal.toBinary64_true ..
  | some ds => exact Decimal.toBinary64_true ..

/-- A number with a sign that is true for minus. -/
def Binary64.signed (negative : Bool) (x : Binary64) : Binary64 := if negative then x.neg else x

theorem Numeral.signed_value (n : Numeral) (negative : Bool) :
    (n.value false).toBinary64.signed negative = (n.value negative).toBinary64 := by
  cases negative with
  | false => rw [Binary64.signed, if_neg Bool.false_ne_true]
  | true => rw [Binary64.signed, if_pos rfl, n.value_true]

/-! ## Doubles -/

def Layout.bodyText (l : Layout) (x : Decimal) : List Char :=
  l.decimalText { x with negative := false }

theorem Layout.decimalText_eq (l : Layout) (x : Decimal) :
    l.decimalText x = (if x.negative then ['-'] else []) ++ l.bodyText x := by
  unfold bodyText decimalText
  simp only
  cases x.negative <;> rfl

theorem Finite.shortest_negative (x : Finite) : x.shortest.negative = x.negative := by
  by_cases hs : x.significand = 0
  · rw [shortest, if_pos hs]
  · obtain ⟨t, k, he, -⟩ := admits_shortest (Nat.pos_of_ne_zero hs)
    rw [he]

/-- The body of the text of a finite number is a numeral that is worth the number without its
sign. -/
theorem Layout.exists_body (l : Layout) (x : Finite) :
    ∃ n : Numeral, l.bodyText x.shortest = n.chars ∧
      (n.value false).toBinary64.signed x.negative = .finite x ∧
      (l.keepsPoint = true → showsDouble n = true) := by
  have hx := x.shortest_negative
  obtain ⟨n, hn, hv, hd⟩ := l.exists_numeral { x.shortest with negative := false }
  refine ⟨n, ?_, ?_, hd⟩
  · simpa [bodyText, signChars] using hn
  · rw [hv, ← Decimal.toBinary64_shortest x, ← hx]
    obtain ⟨negative, t, k⟩ := x.shortest
    cases negative with
    | false => rw [Binary64.signed, if_neg Bool.false_ne_true]
    | true => rw [Binary64.signed, if_pos rfl, ← Decimal.toBinary64_true]

namespace Literal

theorem any_letter (n : Numeral) (h : Layout.showsDouble n = true) :
    (n.chars.any fun c => c = '.' || c = 'e' || c = 'E') = true := by
  rw [List.any_eq_true]
  cases hf : n.fraction with
  | some ds => exact ⟨'.', by simp [Numeral.chars, hf], rfl⟩
  | none =>
    cases hx : n.exponent with
    | none => simp [Layout.showsDouble, hf, hx] at h
    | some x =>
      refine ⟨x.letter, by simp [Numeral.chars, Numeral.exponentChars, hf, hx, Exponent.chars], ?_⟩
      rcases x.letter_eq with h | h <;> simp [h]

/-- A numeral with a point or an exponent is read as a double. -/
theorem readNumber_chars (n : Numeral) (h : Layout.showsDouble n = true) :
    readNumber (String.ofList n.chars) = .ok (.double (n.value false).toBinary64) := by
  have hr : Binary64.read? n.chars = some (n.value false).toBinary64 := by
    simpa [signChars] using n.read?_chars none
  simp only [readNumber, String.toList_ofList, any_letter n h, if_true, hr]

/-! ## Whole numbers -/

section Whole

variable {n : Numeral}

/-- Digits alone are a numeral without a point and an exponent. -/
theorem chars_of_whole (h : Layout.showsDouble n = false) : n.chars = n.whole := by
  obtain ⟨hf, hx⟩ := Bool.or_eq_false_iff.1 h
  have hf : n.fraction = none := by simpa using hf
  have hx : n.exponent = none := by simpa using hx
  simp [Numeral.chars, Numeral.exponentChars, hf, hx]

theorem all_digits_iff : n.chars.all Char.isDigit = true ↔ Layout.showsDouble n = false := by
  constructor
  · intro h
    by_contra hd
    obtain ⟨c, hc, hletter⟩ := List.any_eq_true.1 (any_letter n (by simpa using hd))
    have hdigit := List.all_eq_true.1 h c hc
    have hne (d : Char) (hd : d.isDigit = false) : ¬ c = d := isDigit_ne hdigit hd
    simp [hne '.' rfl, hne 'e' rfl, hne 'E' rfl] at hletter
  · intro h
    rw [chars_of_whole h]
    exact n.whole_digits

theorem no_letter (h : Layout.showsDouble n = false) :
    (n.chars.any fun c => c = '.' || c = 'e' || c = 'E') = false := by
  rw [List.any_eq_false]
  intro c hc
  have hd := List.all_eq_true.1 (all_digits_iff.2 h) c hc
  simp [isDigit_ne hd (d := '.') rfl, isDigit_ne hd (d := 'e') rfl, isDigit_ne hd (d := 'E') rfl]

theorem readInt64?_whole (h : Layout.showsDouble n = false) :
    readInt64? n.chars =
      if digitsValue 0 n.whole ≤ 0x7FFFFFFFFFFFFFFF then some (Int64.ofInt (digitsValue 0 n.whole))
      else none := by
  have hs : Decimal.splitSign n.chars = (false, n.chars) := by
    simpa [signChars] using n.splitSign_chars none
  have hne : n.chars.isEmpty = false := by
    obtain ⟨c, cs, hc, -⟩ := n.chars_eq_cons
    rw [hc]
    rfl
  have hw := n.whole_digits
  rw [chars_of_whole h] at hs hne ⊢
  simp only [readInt64?, hs, hne, hw, Bool.not_true, Bool.or_self, Bool.false_eq_true, if_false]
  split <;> split <;> first | rfl | omega

/-- Digits alone are read as a whole number as long as it fits. -/
theorem readNumber_whole (h : Layout.showsDouble n = false)
    (hle : digitsValue 0 n.whole ≤ 0x7FFFFFFFFFFFFFFF) :
    readNumber (String.ofList n.chars) = .ok (.integer (Int64.ofInt (digitsValue 0 n.whole))) := by
  simp only [readNumber, String.toList_ofList, no_letter h, Bool.false_eq_true, if_false,
    readInt64?_whole h, if_pos hle]

/-- And as a double when it does not. -/
theorem readNumber_wide (h : Layout.showsDouble n = false)
    (hle : ¬ digitsValue 0 n.whole ≤ 0x7FFFFFFFFFFFFFFF) :
    readNumber (String.ofList n.chars) = .ok (.double (n.value false).toBinary64) := by
  have hr : Binary64.read? n.chars = some (n.value false).toBinary64 := by
    simpa [signChars] using n.read?_chars none
  simp only [readNumber, String.toList_ofList, no_letter h, Bool.false_eq_true, if_false,
    readInt64?_whole h, if_neg hle, hr]

end Whole

theorem readNumber_digits {n : Nat} (h : n ≤ 0x7FFFFFFFFFFFFFFF) :
    readNumber (String.ofList (Nat.toDigits 10 n)) = .ok (.integer (Int64.ofInt n)) := by
  have hv : digitsValue 0 (Layout.wholeNumeral n).whole = n := digitsValue_toDigits n
  have hread := readNumber_whole (n := Layout.wholeNumeral n) rfl (by rwa [hv])
  rwa [hv, Layout.wholeNumeral_chars] at hread

end Literal

/-- The text of a whole number: a sign and the digits of its absolute value. -/
theorem toList_toString_int (n : Int) :
    (toString n).toList = (if n < 0 then ['-'] else []) ++ Nat.toDigits 10 n.natAbs := by
  cases n with
  | ofNat n =>
    have hn : ¬ (Int.ofNat n < 0) := Int.not_lt.2 (Int.natCast_nonneg n)
    rw [if_neg hn]
    exact Nat.toList_repr
  | negSucc n =>
    rw [if_pos (Int.negSucc_lt_zero n)]
    show ("-" ++ (n + 1).repr).toList = _
    rw [String.toList_append, Nat.toList_repr]
    rfl

/-- The absolute value of a 64-bit number is one itself, except for the least one. -/
theorem Int64.natAbs_le {n : Int64} (h : -0x8000000000000000 < n.toInt) :
    n.toInt.natAbs ≤ 0x7FFFFFFFFFFFFFFF := by
  have := n.toInt_lt
  omega

theorem Int64.ofInt_natAbs (n : Int64) :
    (if n.toInt < 0 then -Int64.ofInt n.toInt.natAbs else Int64.ofInt n.toInt.natAbs) = n := by
  split
  · rw [← Int64.ofInt_neg, Int.ofNat_natAbs_of_nonpos (by omega), Int.neg_neg, Int64.ofInt_toInt]
  · rw [Int.natAbs_of_nonneg (by omega), Int64.ofInt_toInt]

/-! ## Numbers that equal themselves -/

namespace Binary64

theorem ofParts_beq_self (negative : Bool) (s k : Nat) :
    (ofParts negative s k == ofParts negative s k) = true := by
  unfold ofParts
  split
  · exact beq_self_eq_true (Finite.toInt _)
  · exact beq_self_eq_true negative

theorem ofRatio_beq_self (negative : Bool) (n d : Nat) :
    (ofRatio negative n d == ofRatio negative n d) = true := by
  unfold ofRatio
  simp only
  split <;> exact ofParts_beq_self _ _ _

theorem ofInt_beq_self (n : Int) : (ofInt n == ofInt n) = true := ofRatio_beq_self ..

theorem toBinary64_beq_self (x : Decimal) : (x.toBinary64 == x.toBinary64) = true := by
  unfold Decimal.toBinary64
  simp only
  split
  · exact beq_self_eq_true (Finite.toInt _)
  · split
    · exact beq_self_eq_true x.negative
    · exact ofRatio_beq_self _ _ _

theorem neg_beq_self {x : Binary64} (h : (x == x) = true) : (x.neg == x.neg) = true := by
  cases x with
  | finite x => exact beq_self_eq_true (Finite.toInt _)
  | infinity negative => exact beq_self_eq_true (!negative)
  | nan => exact h

/-- Only not-a-number differs from itself. -/
theorem beq_self_iff {x : Binary64} : (x == x) = true ↔ x ≠ .nan := by
  cases x with
  | finite x => exact iff_of_true (beq_self_eq_true (Finite.toInt _)) (by simp)
  | infinity negative => exact iff_of_true (beq_self_eq_true negative) (by simp)
  | nan => exact iff_of_false (by decide) (by simp)

/-- Only the word for not-a-number is read as a number that differs from itself. -/
theorem beq_self_of_read? {cs : List Char} {x : Binary64}
    (hcs : (Decimal.splitSign cs).2.map Char.toLower ≠ "nan".toList) (h : read? cs = some x) :
    (x == x) = true := by
  unfold read? at h
  simp only [hcs, if_false] at h
  split at h
  · cases h
    exact beq_self_eq_true (Decimal.splitSign cs).1
  · obtain ⟨d, -, rfl⟩ := Option.map_eq_some_iff.1 h
    exact toBinary64_beq_self d

end Binary64

end FeatureFilter
