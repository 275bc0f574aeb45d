import FeatureFilter.Geometry.Wkt
import FeatureFilter.Phrase.Literal
import FeatureFilter.Proofs.Number.Shortest
import FeatureFilter.Token.Lexer

/-!
# Numerals

A numeral is digits with a point and an exponent. The lexer, the readers of numbers and the reader
of well-known text all take the same numerals off the front of a text and give them the same value.
What a layout writes is a numeral that is worth the number (`Layout.exists_numeral`).
-/

namespace FeatureFilter

/-- An exponent as it is written; the sign is true for minus. -/
structure Exponent where
  letter : Char
  sign : Option Bool
  digits : List Char
  letter_eq : letter = 'e' ∨ letter = 'E'
  digits_ne_nil : digits ≠ []
  all_digits : digits.all Char.isDigit = true

/-- A number as it is written, without a sign. -/
structure Numeral where
  whole : List Char
  /-- The digits behind the point, if there is one. -/
  fraction : Option (List Char)
  exponent : Option Exponent
  whole_digits : whole.all Char.isDigit = true
  fraction_digits : ∀ ds, fraction = some ds → ds.all Char.isDigit = true
  some_digit : whole ≠ [] ∨ ∃ ds, fraction = some ds ∧ ds ≠ []

/-- The sign of a number; true for minus. -/
def signChars : Option Bool → List Char
  | none => []
  | some true => ['-']
  | some false => ['+']

namespace Exponent

def chars (x : Exponent) : List Char := x.letter :: (signChars x.sign ++ x.digits)

def value (x : Exponent) : Int :=
  if x.sign = some true then -(digitsValue 0 x.digits : Int) else digitsValue 0 x.digits

end Exponent

/-- Whether a numeral can end in front of the text. -/
def EndsNumeral (cs : List Char) : Prop :=
  ∀ c, cs.head? = some c → c.isDigit = false ∧ c ≠ '.' ∧ c ≠ 'e' ∧ c ≠ 'E'

theorem endsNumeral_nil : EndsNumeral [] := by
  intro c hc
  cases hc

theorem EndsNumeral.noDigit {cs : List Char} (h : EndsNumeral cs) : NoDigit cs :=
  fun c hc => (h c hc).1

namespace Numeral

/-- The exponent with its letter; nothing if there is none. -/
def exponentChars (n : Numeral) : List Char := (n.exponent.map Exponent.chars).getD []

def chars (n : Numeral) : List Char :=
  match n.fraction with
  | none => n.whole ++ n.exponentChars
  | some ds => n.whole ++ '.' :: (ds ++ n.exponentChars)

def value (n : Numeral) (negative : Bool) : Decimal :=
  let power := (n.exponent.map Exponent.value).getD 0
  match n.fraction with
  | none => ⟨negative, digitsValue 0 n.whole, power⟩
  | some ds => ⟨negative, digitsValue (digitsValue 0 n.whole) ds, power - ds.length⟩

end Numeral

/-! ## In the lexer -/

theorem isDigit_ne {c d : Char} (h : c.isDigit = true) (hd : d.isDigit = false) : c ≠ d := by
  rintro rfl
  rw [h] at hd
  cases hd

theorem splitSign_digits {ds rest : List Char} (hne : ds ≠ []) (h : ds.all Char.isDigit = true) :
    splitSign (ds ++ rest) = ([], ds ++ rest) := by
  obtain ⟨d, ds, rfl⟩ := List.exists_cons_of_ne_nil hne
  have hd := List.all_eq_true.1 h d (List.mem_cons_self ..)
  unfold splitSign
  split
  · rename_i heq
    simp only [List.cons_append, List.cons.injEq] at heq
    exact absurd heq.1 (isDigit_ne hd (by decide))
  · rename_i heq
    simp only [List.cons_append, List.cons.injEq] at heq
    exact absurd heq.1 (isDigit_ne hd (by decide))
  · rfl

theorem splitSign_signChars (sign : Option Bool) {ds rest : List Char} (hne : ds ≠ [])
    (h : ds.all Char.isDigit = true) :
    splitSign (signChars sign ++ ds ++ rest) = (signChars sign, ds ++ rest) := by
  match sign with
  | none => exact splitSign_digits hne h
  | some true => rfl
  | some false => rfl

theorem splitExponent_chars (x : Exponent) {rest : List Char} (hr : NoDigit rest) :
    splitExponent (x.chars ++ rest) = (x.chars, rest) := by
  have hl : (x.letter = 'e' || x.letter = 'E') = true := by simpa using x.letter_eq
  have hne : x.digits.isEmpty = false := by simpa using x.digits_ne_nil
  simp only [Exponent.chars, List.cons_append, splitExponent,
    splitSign_signChars x.sign x.digits_ne_nil x.all_digits, takeWhile_digits x.all_digits hr,
    dropWhile_digits x.all_digits hr, hl, hne, Bool.not_false, Bool.and_true, if_true]

theorem splitExponent_ends {rest : List Char} (hr : EndsNumeral rest) :
    splitExponent rest = ([], rest) := by
  cases rest with
  | nil => rfl
  | cons c cs =>
    obtain ⟨-, -, he, hE⟩ := hr c rfl
    simp [splitExponent, he, hE]

namespace Numeral

theorem noDigit_exponentChars (n : Numeral) {rest : List Char} (hr : EndsNumeral rest) :
    NoDigit (n.exponentChars ++ rest) := by
  unfold exponentChars
  cases n.exponent with
  | none => exact hr.noDigit
  | some x =>
    refine noDigit_cons.2 ?_
    rcases x.letter_eq with h | h <;> rw [h] <;> rfl

theorem splitExponent_exponentChars (n : Numeral) {rest : List Char} (hr : EndsNumeral rest) :
    splitExponent (n.exponentChars ++ rest) = (n.exponentChars, rest) := by
  unfold exponentChars
  cases n.exponent with
  | none => exact splitExponent_ends hr
  | some x => exact splitExponent_chars x hr.noDigit

/-- What follows the digits in front is no point, unless there is a fraction. -/
theorem exponentChars_ne_point (n : Numeral) {rest cs : List Char} (hr : EndsNumeral rest) :
    n.exponentChars ++ rest ≠ '.' :: cs := by
  unfold exponentChars
  cases n.exponent with
  | none =>
    rintro rfl
    exact (hr '.' rfl).2.1 rfl
  | some x =>
    intro h
    simp only [Option.map_some, Option.getD_some, Exponent.chars, List.cons_append,
      List.cons.injEq] at h
    rcases x.letter_eq with hx | hx <;> rw [hx] at h <;> exact absurd h.1 (by decide)

/-- The lexer takes exactly the numeral. -/
theorem splitNumber?_chars (n : Numeral) {rest : List Char} (hr : EndsNumeral rest) :
    splitNumber? (n.chars ++ rest) = some (n.chars, rest) := by
  have hx := n.splitExponent_exponentChars hr
  have hnd := n.noDigit_exponentChars hr
  cases hf : n.fraction with
  | none =>
    have hw : n.whole.isEmpty = false := by
      rcases n.some_digit with h | ⟨ds, h, -⟩
      · simpa using h
      · rw [hf] at h
        cases h
    simp only [chars, hf, splitNumber?, List.append_assoc, takeWhile_digits n.whole_digits hnd,
      dropWhile_digits n.whole_digits hnd]
    split
    · rename_i heq
      exact absurd heq (n.exponentChars_ne_point hr)
    · simp [hw, hx]
  | some ds =>
    have hds := n.fraction_digits ds hf
    have hpoint : NoDigit ('.' :: (ds ++ n.exponentChars ++ rest)) := noDigit_cons.2 rfl
    have hw : (n.whole.isEmpty && ds.isEmpty) = false := by
      rcases n.some_digit with h | ⟨ds', h, h'⟩
      · simp [h]
      · rw [hf] at h
        cases h
        simp [h']
    simp only [chars, hf, splitNumber?, List.append_assoc, List.cons_append] at hpoint ⊢
    simp only [takeWhile_digits n.whole_digits hpoint, dropWhile_digits n.whole_digits hpoint,
      takeWhile_digits hds hnd, dropWhile_digits hds hnd, hw, hx, Bool.false_eq_true, if_false]

/-! ## In the readers of numbers -/

theorem readExponent_chars (x : Exponent) :
    Decimal.readExponent (signChars x.sign ++ x.digits) = some x.value := by
  have hne : x.digits.isEmpty = false := by simpa using x.digits_ne_nil
  have hs : Decimal.splitSign (signChars x.sign ++ x.digits) =
      (decide (x.sign = some true), x.digits) := by
    match x.sign with
    | some true => rfl
    | some false => rfl
    | none =>
      obtain ⟨d, ds, hd⟩ := List.exists_cons_of_ne_nil x.digits_ne_nil
      have hd' := List.all_eq_true.1 x.all_digits d (by rw [hd]; exact List.mem_cons_self ..)
      rw [hd]
      simp only [signChars, List.nil_append, Decimal.splitSign]
      split
      · rename_i heq
        exact absurd (List.cons.inj heq).1 (isDigit_ne hd' (by decide))
      · rename_i heq
        exact absurd (List.cons.inj heq).1 (isDigit_ne hd' (by decide))
      · rfl
  simp only [Decimal.readExponent, hs, hne, x.all_digits, Exponent.value, decide_eq_true_eq]
  rfl

theorem readTail_exponentChars (n : Numeral) :
    Decimal.readTail n.exponentChars = some ((n.exponent.map Exponent.value).getD 0) := by
  unfold exponentChars
  cases n.exponent with
  | none => rfl
  | some x =>
    simp only [Option.map_some, Option.getD_some, Exponent.chars, Decimal.readTail,
      if_pos x.letter_eq, readExponent_chars]

theorem readUnsigned_chars (n : Numeral) (negative : Bool) :
    Decimal.readUnsigned negative n.chars = some (n.value negative) := by
  have hnd := n.noDigit_exponentChars endsNumeral_nil
  rw [List.append_nil] at hnd
  have ht := n.readTail_exponentChars
  cases hf : n.fraction with
  | none =>
    have hw : n.whole.isEmpty = false := by
      rcases n.some_digit with h | ⟨ds, h, -⟩
      · simpa using h
      · rw [hf] at h
        cases h
    simp only [chars, value, hf, Decimal.readUnsigned, takeWhile_digits n.whole_digits hnd,
      dropWhile_digits n.whole_digits hnd]
    split
    · rename_i heq
      exact absurd (by simpa using heq) (n.exponentChars_ne_point endsNumeral_nil)
    · simp [hw, ht]
  | some ds =>
    have hds := n.fraction_digits ds hf
    have hpoint : NoDigit ('.' :: (ds ++ n.exponentChars)) := noDigit_cons.2 rfl
    have hw : (n.whole.isEmpty && ds.isEmpty) = false := by
      rcases n.some_digit with h | ⟨ds', h, h'⟩
      · simp [h]
      · rw [hf] at h
        cases h
        simp [h']
    simp only [chars, value, hf, Decimal.readUnsigned, takeWhile_digits n.whole_digits hpoint,
      dropWhile_digits n.whole_digits hpoint, takeWhile_digits hds hnd, dropWhile_digits hds hnd,
      hw, ht, Bool.false_eq_true, if_false, Option.map_some]

theorem chars_eq_cons (n : Numeral) :
    ∃ c cs, n.chars = c :: cs ∧ (c.isDigit = true ∨ c = '.') := by
  cases hw : n.whole with
  | nil =>
    rcases n.some_digit with h | ⟨ds, h, -⟩
    · exact absurd hw h
    · exact ⟨'.', ds ++ n.exponentChars, by simp [chars, h, hw], .inr rfl⟩
  | cons c cs =>
    have hc := List.all_eq_true.1 n.whole_digits c (by rw [hw]; exact List.mem_cons_self ..)
    cases hf : n.fraction with
    | none => exact ⟨c, cs ++ n.exponentChars, by simp [chars, hf, hw], .inl hc⟩
    | some ds => exact ⟨c, cs ++ '.' :: (ds ++ n.exponentChars), by simp [chars, hf, hw], .inl hc⟩

end Numeral

theorem toLower_ne {c : Char} (h : c.isDigit = true ∨ c = '.') :
    c.toLower ≠ 'i' ∧ c.toLower ≠ 'n' := by
  have hl : c.toLower = c := by
    rcases h with h | rfl
    · simp only [Char.isDigit, Bool.and_eq_true, decide_eq_true_eq] at h
      have h1 : c.val ≤ 57 := h.2
      refine dif_neg fun h' => ?_
      have h2 : 65 ≤ c.val := h'.1
      exact absurd (UInt32.le_trans h2 h1) (by decide)
    · rfl
  rw [hl]
  rcases h with h | rfl
  · exact ⟨isDigit_ne h (by decide), isDigit_ne h (by decide)⟩
  · exact ⟨by decide, by decide⟩

namespace Numeral

theorem splitSign_chars (n : Numeral) (sign : Option Bool) :
    Decimal.splitSign (signChars sign ++ n.chars) = (decide (sign = some true), n.chars) := by
  match sign with
  | some true => rfl
  | some false => rfl
  | none =>
    obtain ⟨c, cs, he, hc⟩ := n.chars_eq_cons
    have hm : c ≠ '-' := by
      rcases hc with hc | rfl
      · exact isDigit_ne hc (by decide)
      · decide
    have hp : c ≠ '+' := by
      rcases hc with hc | rfl
      · exact isDigit_ne hc (by decide)
      · decide
    rw [he]
    simp only [signChars, List.nil_append, Decimal.splitSign]
    split
    · rename_i heq
      exact absurd (List.cons.inj heq).1 hm
    · rename_i heq
      exact absurd (List.cons.inj heq).1 hp
    · rfl

/-- A numeral with or without a sign is read as the number nearest to the decimal that it writes. -/
theorem read?_chars (n : Numeral) (sign : Option Bool) :
    Binary64.read? (signChars sign ++ n.chars) =
      some (n.value (decide (sign = some true))).toBinary64 := by
  obtain ⟨c, cs, he, hc⟩ := n.chars_eq_cons
  obtain ⟨hi, hn⟩ := toLower_ne hc
  have hword (d : Char) (ds : List Char) (h : c.toLower ≠ d) :
      n.chars.map Char.toLower ≠ d :: ds := by
    rw [he, List.map_cons]
    intro h'
    exact h (List.cons.inj h').1
  have h1 : n.chars.map Char.toLower ≠ "inf".toList := hword 'i' _ hi
  have h2 : n.chars.map Char.toLower ≠ "infinity".toList := hword 'i' _ hi
  have h3 : n.chars.map Char.toLower ≠ "nan".toList := hword 'n' _ hn
  simp only [Binary64.read?, splitSign_chars, h1, h2, h3, or_self, if_false, readUnsigned_chars,
    Option.map_some]

/-! ## In well-known text -/

theorem numberRun_digits (signed : Bool) {ds : List Char} (rest : List Char) (hne : ds ≠ [])
    (h : ds.all Char.isDigit = true) :
    Wkt.numberRun signed (ds ++ rest) = ds ++ Wkt.numberRun false rest := by
  induction ds generalizing signed with
  | nil => exact absurd rfl hne
  | cons d ds ih =>
    rw [List.all_cons, Bool.and_eq_true] at h
    simp only [List.cons_append, Wkt.numberRun, h.1, Bool.true_or, if_true]
    cases ds with
    | nil => rfl
    | cons e es => rw [ih false (by simp) h.2]

theorem numberRun_digits' {ds : List Char} (rest : List Char) (h : ds.all Char.isDigit = true) :
    Wkt.numberRun false (ds ++ rest) = ds ++ Wkt.numberRun false rest := by
  by_cases hne : ds = []
  · rw [hne, List.nil_append, List.nil_append]
  · exact numberRun_digits false rest hne h

theorem numberRun_ends {rest : List Char} (hr : EndsNumeral rest) :
    Wkt.numberRun false rest = [] := by
  cases rest with
  | nil => rfl
  | cons c cs =>
    obtain ⟨hd, hp, he, hE⟩ := hr c rfl
    simp [Wkt.numberRun, hd, hp, he, hE]

theorem numberRun_exponentChars (n : Numeral) {rest : List Char} (hr : EndsNumeral rest) :
    Wkt.numberRun false (n.exponentChars ++ rest) = n.exponentChars := by
  unfold exponentChars
  cases n.exponent with
  | none => exact numberRun_ends hr
  | some x =>
    have hd : x.letter.isDigit = false := by rcases x.letter_eq with h | h <;> rw [h] <;> rfl
    have hp : x.letter ≠ '.' := by rcases x.letter_eq with h | h <;> rw [h] <;> decide
    have hl : (x.letter = 'e' || x.letter = 'E') = true := by simpa using x.letter_eq
    have hds : Wkt.numberRun true (signChars x.sign ++ x.digits ++ rest) =
        signChars x.sign ++ x.digits := by
      have h0 (b : Bool) : Wkt.numberRun b (x.digits ++ rest) = x.digits := by
        rw [numberRun_digits b rest x.digits_ne_nil x.all_digits, numberRun_ends hr,
          List.append_nil]
      match x.sign with
      | none => exact h0 true
      | some true => exact congrArg ('-' :: ·) (h0 false)
      | some false => exact congrArg ('+' :: ·) (h0 false)
    simp only [Option.map_some, Option.getD_some, Exponent.chars, List.cons_append,
      Wkt.numberRun, hd, hp, decide_false, Bool.or_false, Bool.false_eq_true, if_false, hl, if_true,
      hds]

theorem numberRun_point (signed : Bool) (cs : List Char) :
    Wkt.numberRun signed ('.' :: cs) = '.' :: Wkt.numberRun false cs := by
  simp [Wkt.numberRun]

theorem numberRun_unsigned (n : Numeral) (signed : Bool) {rest : List Char}
    (hr : EndsNumeral rest) : Wkt.numberRun signed (n.chars ++ rest) = n.chars := by
  have hx := n.numberRun_exponentChars hr
  cases hf : n.fraction with
  | none =>
    have hw : n.whole ≠ [] := by
      rcases n.some_digit with h | ⟨ds, h, -⟩
      · exact h
      · rw [hf] at h
        cases h
    simp only [chars, hf, List.append_assoc, numberRun_digits signed _ hw n.whole_digits, hx]
  | some ds =>
    have hds := n.fraction_digits ds hf
    simp only [chars, hf, List.append_assoc, List.cons_append]
    by_cases hw : n.whole = []
    · rw [hw, List.nil_append, List.nil_append, numberRun_point, numberRun_digits' _ hds, hx]
    · rw [numberRun_digits signed _ hw n.whole_digits, numberRun_point, numberRun_digits' _ hds, hx]

/-- The reader of well-known text takes exactly the numeral with its sign. -/
theorem numberRun_chars (n : Numeral) (sign : Option Bool) {rest : List Char}
    (hr : EndsNumeral rest) :
    Wkt.numberRun true (signChars sign ++ n.chars ++ rest) = signChars sign ++ n.chars := by
  match sign with
  | none => exact n.numberRun_unsigned true hr
  | some true => exact congrArg ('-' :: ·) (n.numberRun_unsigned false hr)
  | some false => exact congrArg ('+' :: ·) (n.numberRun_unsigned false hr)

end Numeral

/-! ## In what a layout writes -/

namespace Layout

def numeral (ds : List Char) (fraction : Option (List Char)) (exponent : Option Exponent)
    (hne : ds ≠ []) (h : ds.all Char.isDigit = true)
    (h' : ∀ es, fraction = some es → es.all Char.isDigit = true) : Numeral :=
  ⟨ds, fraction, exponent, h, h', .inl hne⟩

def wholeNumeral (n : Nat) : Numeral :=
  numeral (Nat.toDigits 10 n) none none Nat.toDigits_ne_nil (all_isDigit_toDigits n) (by simp)

theorem wholeNumeral_chars (n : Nat) : (wholeNumeral n).chars = Nat.toDigits 10 n := by
  simp [wholeNumeral, numeral, Numeral.chars, Numeral.exponentChars]

def exponentOf (power : Int) : Exponent where
  letter := 'e'
  sign := if power < 0 then some true else none
  digits := Nat.toDigits 10 power.natAbs
  letter_eq := .inl rfl
  digits_ne_nil := Nat.toDigits_ne_nil
  all_digits := all_isDigit_toDigits _

theorem exponentOf_chars (power : Int) :
    (exponentOf power).chars = 'e' :: (toString power).toList := by
  cases power with
  | ofNat n =>
    have hn : ¬ (Int.ofNat n < 0) := Int.not_lt.2 (Int.natCast_nonneg n)
    have ht : (toString (Int.ofNat n)).toList = Nat.toDigits 10 n := Nat.toList_repr
    simp only [Exponent.chars, exponentOf, if_neg hn, signChars, ht]
    rfl
  | negSucc n =>
    have ht : (toString (Int.negSucc n)).toList = '-' :: Nat.toDigits 10 (n + 1) := by
      show ("-" ++ (n + 1).repr).toList = _
      rw [String.toList_append, Nat.toList_repr]
      rfl
    simp only [Exponent.chars, exponentOf, if_pos (Int.negSucc_lt_zero n), signChars, ht]
    rfl

theorem exponentOf_value (power : Int) : (exponentOf power).value = power := by
  simp only [Exponent.value, exponentOf, digitsValue_toDigits]
  by_cases h : power < 0
  · rw [if_pos (by rw [if_pos h]), Int.ofNat_natAbs_of_nonpos (by omega)]
    omega
  · rw [if_neg (by rw [if_neg h]; simp), Int.natAbs_of_nonneg (by omega)]

def showsDouble (n : Numeral) : Bool := n.fraction.isSome || n.exponent.isSome

variable (l : Layout) (negative : Bool)

/-- Zeros between the digits and the point do not change what is written. -/
theorem exists_zeros {t : Nat} (ht : t ≠ 0) (m : Nat) :
    ∃ n : Numeral, Nat.toDigits 10 t ++ List.replicate m '0' ++
        (if l.keepsPoint then ['.', '0'] else []) = n.chars ∧
      (n.value negative).toBinary64 = (⟨negative, t, m⟩ : Decimal).toBinary64 ∧
      (l.keepsPoint = true → showsDouble n = true) := by
  have hne : Nat.toDigits 10 t ++ List.replicate m '0' ≠ [] := by
    simp [Nat.toDigits_ne_nil]
  have hall : (Nat.toDigits 10 t ++ List.replicate m '0').all Char.isDigit = true := by
    rw [List.all_append, all_isDigit_toDigits, all_isDigit_zeros]
    rfl
  have hv : digitsValue 0 (Nat.toDigits 10 t ++ List.replicate m '0') = t * 10 ^ m := by
    rw [digitsValue_append, digitsValue_toDigits, digitsValue_zeros]
  cases hk : l.keepsPoint with
  | false =>
    refine ⟨numeral _ none none hne hall (by simp), by simp [numeral, Numeral.chars,
      Numeral.exponentChars], ?_, by simp⟩
    simp only [numeral, Numeral.value, hv, Option.map_none, Option.getD_none]
    rw [Decimal.toBinary64_mul_pow negative ht, Int.zero_add]
  | true =>
    refine ⟨numeral _ (some ['0']) none hne hall (by rintro _ ⟨⟩; rfl), by simp [numeral,
      Numeral.chars, Numeral.exponentChars], ?_, fun _ => rfl⟩
    have h0 : digitsValue (t * 10 ^ m) ['0'] = t * 10 ^ (m + 1) := by
      rw [← List.replicate_one, digitsValue_zeros, Nat.mul_assoc, ← Nat.pow_add]
    simp only [numeral, Numeral.value, hv, Option.map_none, Option.getD_none, h0]
    rw [Decimal.toBinary64_mul_pow negative ht]
    congr 2
    simp

theorem exists_positional {t : Nat} (ht : t ≠ 0) (k : Int) :
    ∃ n : Numeral, l.positionalText (Nat.toDigits 10 t) ((Nat.toDigits 10 t).length + k) = n.chars ∧
      (n.value negative).toBinary64 = (⟨negative, t, k⟩ : Decimal).toBinary64 ∧
      (l.keepsPoint = true → showsDouble n = true) := by
  have hall := all_isDigit_toDigits t
  have hv := digitsValue_toDigits t
  have hpos : 0 < (Nat.toDigits 10 t).length := Nat.length_toDigits_pos
  unfold positionalText
  split
  · -- all digits stand behind the point
    rename_i hp
    generalize hz : (-((Nat.toDigits 10 t).length + k)).toNat = z
    have hfr : (List.replicate z '0' ++ Nat.toDigits 10 t).all Char.isDigit = true := by
      rw [List.all_append, all_isDigit_zeros, hall]
      rfl
    refine ⟨numeral ['0'] (some (List.replicate z '0' ++ Nat.toDigits 10 t)) none (by simp) rfl
      (by rintro _ ⟨⟩; exact hfr), by simp [numeral, Numeral.chars, Numeral.exponentChars], ?_,
      fun _ => rfl⟩
    have h0 : digitsValue 0 ['0'] = 0 := rfl
    have hd : digitsValue 0 (List.replicate z '0' ++ Nat.toDigits 10 t) = t := by
      rw [digitsValue_append, digitsValue_zeros, Nat.zero_mul, hv]
    simp only [numeral, Numeral.value, h0, hd, Option.map_none, Option.getD_none,
      List.length_append, List.length_replicate]
    congr 2
    omega
  · rename_i hp
    simp only
    split
    · -- the point stands behind the last digit or further
      rename_i hle
      obtain ⟨m, rfl⟩ : ∃ m : Nat, k = m := ⟨k.toNat, by omega⟩
      have hm :
          ((Nat.toDigits 10 t).length + (m : Int)).toNat - (Nat.toDigits 10 t).length = m := by
        omega
      rw [hm]
      exact exists_zeros l negative ht m
    · rename_i hle
      generalize hn : ((Nat.toDigits 10 t).length + k).toNat = n at *
      have hne : (Nat.toDigits 10 t).take n ≠ [] := by
        rw [← List.length_pos_iff, List.length_take]
        omega
      have htake : ((Nat.toDigits 10 t).take n).all Char.isDigit = true :=
        List.all_eq_true.2 fun c hc => List.all_eq_true.1 hall c (List.mem_of_mem_take hc)
      have hdrop : ((Nat.toDigits 10 t).drop n).all Char.isDigit = true :=
        List.all_eq_true.2 fun c hc => List.all_eq_true.1 hall c (List.mem_of_mem_drop hc)
      refine ⟨numeral _ (some ((Nat.toDigits 10 t).drop n)) none hne htake
        (by rintro _ ⟨⟩; exact hdrop), by simp [numeral, Numeral.chars, Numeral.exponentChars], ?_,
        fun _ => rfl⟩
      simp only [numeral, Numeral.value, ← digitsValue_append, List.take_append_drop, hv,
        Option.map_none, Option.getD_none, List.length_drop]
      congr 2
      omega

theorem exists_exponent {t : Nat} (k : Int) :
    ∃ n : Numeral,
      exponentText (Nat.toDigits 10 t) ((Nat.toDigits 10 t).length + k - 1) = n.chars ∧
      n.value negative = ⟨negative, t, k⟩ ∧ showsDouble n = true := by
  have hall := all_isDigit_toDigits t
  have hv := digitsValue_toDigits t
  have hpos : 0 < (Nat.toDigits 10 t).length := Nat.length_toDigits_pos
  generalize Nat.toDigits 10 t = ds at *
  match ds with
  | [d] =>
    refine ⟨numeral [d] none (some (exponentOf k)) (by simp) hall (by simp), ?_, ?_, rfl⟩
    · simp [numeral, Numeral.chars, Numeral.exponentChars, exponentText, exponentOf_chars,
        show (1 : Int) + k - 1 = k by omega]
    · simp only [numeral, Numeral.value, hv, Option.map_some, Option.getD_some, exponentOf_value]
  | d :: e :: es =>
    rw [List.all_cons, Bool.and_eq_true] at hall
    generalize hp : ((d :: e :: es).length + k - 1 : Int) = power
    have hd : [d].all Char.isDigit = true := by rw [List.all_cons, hall.1]; rfl
    refine ⟨numeral [d] (some (e :: es)) (some (exponentOf power)) (by simp) hd
      (by rintro _ ⟨⟩; exact hall.2), ?_, ?_, rfl⟩
    · simp [numeral, Numeral.chars, Numeral.exponentChars, exponentText, exponentOf_chars]
    · simp only [numeral, Numeral.value, ← digitsValue_append, List.singleton_append, hv,
        Option.map_some, Option.getD_some, exponentOf_value, Decimal.mk.injEq, true_and]
      simp only [List.length_cons] at hp ⊢
      omega

/-- What a layout writes is a numeral behind the sign, and it is worth the decimal. -/
theorem exists_numeral (x : Decimal) :
    ∃ n : Numeral,
      l.decimalText x = signChars (if x.negative then some true else none) ++ n.chars ∧
      (n.value x.negative).toBinary64 = x.toBinary64 ∧
      (l.keepsPoint = true → showsDouble n = true) := by
  suffices h : ∃ n : Numeral,
      l.decimalText x = (if x.negative then '-' :: n.chars else n.chars) ∧
      (n.value x.negative).toBinary64 = x.toBinary64 ∧
      (l.keepsPoint = true → showsDouble n = true) by
    obtain ⟨n, hn, hv, hd⟩ := h
    refine ⟨n, ?_, hv, hd⟩
    rw [hn]
    cases x.negative <;> rfl
  obtain ⟨negative, t, k⟩ := x
  unfold decimalText
  simp only
  by_cases ht : t = 0
  · subst ht
    rw [if_pos rfl]
    cases hk : l.keepsPoint with
    | false =>
      refine ⟨numeral ['0'] none none (by simp) rfl (by simp), rfl, ?_, by simp⟩
      exact (Decimal.toBinary64_zero ..).trans (Decimal.toBinary64_zero ..).symm
    | true =>
      refine ⟨numeral ['0'] (some ['0']) none (by simp) rfl (by rintro _ ⟨⟩; rfl), rfl, ?_,
        fun _ => rfl⟩
      exact (Decimal.toBinary64_zero ..).trans (Decimal.toBinary64_zero ..).symm
  · rw [if_neg ht]
    obtain ⟨n, hn, hv, hd⟩ := l.exists_positional negative ht k
    cases hp : l.positional with
    | none => exact ⟨n, by simp only [hn], hv, hd⟩
    | some range =>
      obtain ⟨first, last⟩ := range
      by_cases hr : first ≤ (Nat.toDigits 10 t).length + k - 1 ∧
          (Nat.toDigits 10 t).length + k - 1 ≤ last
      · exact ⟨n, by simp only [if_pos hr, hn], hv, hd⟩
      · obtain ⟨n, hn, hv, hd⟩ := exists_exponent negative (t := t) k
        exact ⟨n, by simp only [if_neg hr, hn], by rw [hv], fun _ => hd⟩

end Layout

end FeatureFilter
