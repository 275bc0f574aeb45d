import FeatureFilter.Color
import Mathlib.Algebra.Order.Ring.Nat

/-!
# Colours read back

The text of a colour is read as the colour when its number has no more than 24 bits, and then the
components are its digits to base 256. A text that is read is that of the colour up to the case of
letters.
-/

namespace FeatureFilter

theorem readHex_append (n : Nat) (a b : List Char) :
    readHex n (a ++ b) = (readHex n a).bind fun m => readHex m b := by
  induction a generalizing n with
  | nil => rfl
  | cons c cs ih =>
    simp only [List.cons_append, readHex]
    cases hexDigitValue? c with
    | none => rfl
    | some d => exact ih (16 * n + d)

theorem readHex_zeros (k : Nat) : readHex 0 (List.replicate k '0') = some 0 := by
  induction k with
  | zero => rfl
  | succ k ih => exact ih

theorem hexDigitValue?_digitChar : ∀ d < 16, hexDigitValue? (Nat.digitChar d).toUpper = some d := by
  decide

/-- Digits in capitals are worth the number. -/
theorem readHex_toDigits (n : Nat) : readHex 0 ((Nat.toDigits 16 n).map Char.toUpper) = some n := by
  induction n using Nat.strong_induction_on with
  | _ n ih =>
    by_cases h : n < 16
    · rw [Nat.toDigits_of_lt_base h]
      simp [readHex, hexDigitValue?_digitChar n h]
    · have hd := hexDigitValue?_digitChar (n % 16) (Nat.mod_lt _ (by decide))
      rw [Nat.toDigits_of_base_le (by decide) (by omega), List.map_append, readHex_append,
        ih (n / 16) (by omega)]
      simp only [Option.bind_some, List.map_cons, List.map_nil, readHex, hd, Option.some.injEq]
      omega

theorem hexDigitValue?_lt {c : Char} {d : Nat} (h : hexDigitValue? c = some d) : d < 16 := by
  unfold hexDigitValue? at h
  split at h
  · rename_i hc
    have : c.toNat ≤ '9'.toNat := hc.2
    cases h
    simp only [Char.reduceToNat] at *
    omega
  · split at h
    · rename_i hc
      have : c.toNat ≤ 'f'.toNat := hc.2
      cases h
      simp only [Char.reduceToNat] at *
      omega
    · split at h
      · rename_i hc
        have : c.toNat ≤ 'F'.toNat := hc.2
        cases h
        simp only [Char.reduceToNat] at *
        omega
      · cases h

/-- Digits are worth no more than there is room for. -/
theorem readHex_lt {n m : Nat} {cs : List Char} (h : readHex n cs = some m) :
    m < (n + 1) * 16 ^ cs.length := by
  induction cs generalizing n with
  | nil =>
    cases h
    simp
  | cons c cs ih =>
    obtain ⟨d, hd, hm⟩ := Option.bind_eq_some_iff.1 h
    have hlt := hexDigitValue?_lt hd
    refine (ih hm).trans_le ?_
    rw [List.length_cons, Nat.pow_succ, Nat.mul_comm (16 ^ _), ← Nat.mul_assoc]
    exact Nat.mul_le_mul_right _ (by omega)

/-- A hexadecimal digit in either case. -/
def IsHexDigit (c : Char) : Prop :=
  ('0' ≤ c ∧ c ≤ '9') ∨ ('a' ≤ c ∧ c ≤ 'f') ∨ ('A' ≤ c ∧ c ≤ 'F')

theorem hexDigitValue?_isSome_iff {c : Char} : (hexDigitValue? c).isSome = true ↔ IsHexDigit c := by
  unfold hexDigitValue? IsHexDigit
  split
  · simp [*]
  · split
    · simp [*]
    · split <;> simp [*]

theorem readHex_isSome_iff {n : Nat} {cs : List Char} :
    (readHex n cs).isSome = true ↔ ∀ c ∈ cs, IsHexDigit c := by
  induction cs generalizing n with
  | nil => simp [readHex]
  | cons c cs ih =>
    rw [readHex, List.forall_mem_cons, ← hexDigitValue?_isSome_iff]
    cases hexDigitValue? c with
    | none => simp
    | some d => simp [ih]

theorem toUpper_toUpper (c : Char) : c.toUpper.toUpper = c.toUpper := by
  have hall : ∀ n < 128, (Char.ofNat n).toUpper.toUpper = (Char.ofNat n).toUpper := by decide
  by_cases h : 'a' ≤ c ∧ c ≤ 'z'
  · have hle : c.toNat ≤ 122 := h.2
    have hchar := hall c.toNat (by omega)
    rwa [Char.ofNat_toNat] at hchar
  · have hc : c.toUpper = c := dif_neg h
    rw [hc, hc]

theorem toUpper_of_hexDigitValue? {c : Char} {d : Nat} (h : hexDigitValue? c = some d) :
    c.toUpper = (Nat.digitChar d).toUpper := by
  have hall : ∀ n < 128, ∀ d ∈ hexDigitValue? (Char.ofNat n),
      (Char.ofNat n).toUpper = (Nat.digitChar d).toUpper := by decide
  have hascii : c.toNat < 128 := by
    rcases hexDigitValue?_isSome_iff.1 (Option.isSome_of_eq_some h) with hc | hc | hc
    all_goals
      have hle := Nat.le_trans (show c.toNat ≤ _ from hc.2) (show _ ≤ 102 by decide)
      omega
  have hchar := hall c.toNat hascii d
  rw [Char.ofNat_toNat] at hchar
  exact hchar h

/-- Runs of digits of one length and one value differ in the case of letters only. -/
theorem readHex_unique {n n' m : Nat} {cs cs' : List Char} (h : readHex n cs = some m)
    (h' : readHex n' cs' = some m) (hlength : cs.length = cs'.length) :
    n = n' ∧ cs.map Char.toUpper = cs'.map Char.toUpper := by
  induction cs generalizing n n' cs' with
  | nil =>
    obtain rfl := List.length_eq_zero_iff.1 hlength.symm
    exact ⟨Option.some.inj (h.trans h'.symm), rfl⟩
  | cons c cs ih =>
    obtain ⟨c', cs', rfl⟩ := List.exists_cons_of_length_eq_add_one hlength.symm
    obtain ⟨d, hd, hm⟩ := Option.bind_eq_some_iff.1 h
    obtain ⟨d', hd', hm'⟩ := Option.bind_eq_some_iff.1 h'
    -- what is read on from is the same behind the first digits, so both digits are
    obtain ⟨hn, hcs⟩ := ih hm hm' (Nat.succ.inj hlength)
    have hlt := hexDigitValue?_lt hd
    have hlt' := hexDigitValue?_lt hd'
    obtain ⟨rfl, rfl⟩ : n = n' ∧ d = d' := by omega
    refine ⟨rfl, ?_⟩
    rw [List.map_cons, List.map_cons, hcs, toUpper_of_hexDigitValue? hd,
      toUpper_of_hexDigitValue? hd']

/-- Digits in capitals stay as they are in capitals. -/
theorem map_toUpper_hexDigits (width n : Nat) :
    (hexDigits Char.toUpper width n).map Char.toUpper = hexDigits Char.toUpper width n := by
  have hzero : ('0' : Char).toUpper = '0' := by decide
  simp only [hexDigits, List.map_append, List.map_replicate, hzero, List.map_map,
    Function.comp_def, toUpper_toUpper]

theorem readHex_hexDigits (width n : Nat) :
    readHex 0 (hexDigits Char.toUpper width n) = some n := by
  rw [hexDigits, readHex_append, readHex_zeros, Option.bind_some, readHex_toDigits]

namespace Color

/-- The text of a colour: a number sign and six hexadecimal digits. -/
def IsText (cs : List Char) : Prop :=
  ∃ ds, cs = '#' :: ds ∧ ds.length = 6 ∧ ∀ d ∈ ds, IsHexDigit d

theorem read?_isSome_iff {cs : List Char} : (read? cs).isSome = true ↔ IsText cs := by
  unfold read?
  split
  · rename_i ds
    constructor
    · intro h
      split at h
      · rename_i hlength
        rw [Option.isSome_map, readHex_isSome_iff] at h
        exact ⟨ds, rfl, hlength, h⟩
      · cases h
    · rintro ⟨_, he, hlength, hds⟩
      cases he
      rw [if_pos hlength, Option.isSome_map]
      exact readHex_isSome_iff.2 hds
  · rename_i hcs
    refine iff_of_false (by simp) ?_
    rintro ⟨ds, he, -⟩
    exact hcs ds he

theorem lt_of_read? {cs : List Char} {c : Color} (h : read? cs = some c) : c.rgb < 0x1000000 := by
  unfold read? at h
  split at h
  · split at h
    · rename_i ds hds
      obtain ⟨n, hn, rfl⟩ := Option.map_eq_some_iff.1 h
      have hlt : n < 16 ^ 6 := by simpa [hds] using readHex_lt hn
      rw [UInt32.lt_iff_toNat_lt]
      simp only [Nat.toUInt32, UInt32.toNat_ofNat']
      exact (Nat.mod_le _ _).trans_lt hlt
    · cases h
  · cases h

theorem length_hexDigits {c : Color} (h : c.rgb < 0x1000000) :
    (hexDigits Char.toUpper 6 c.rgb.toNat).length = 6 := by
  have hn : c.rgb.toNat < 16 ^ 6 := h
  have hl : ((Nat.toDigits 16 c.rgb.toNat).map Char.toUpper).length ≤ 6 := by
    rw [List.length_map]
    exact (Nat.length_toDigits_le_iff (by decide) (by decide)).2 hn
  simp only [hexDigits, List.length_append, List.length_replicate]
  omega

theorem read?_text {c : Color} (h : c.rgb < 0x1000000) : read? c.text.toList = some c := by
  simp only [text, String.toList_ofList, read?, length_hexDigits h, readHex_hexDigits, if_true,
    Option.map_some]
  simp

/-- Only colours of 24 bits are read. -/
theorem read?_text_iff {c : Color} : read? c.text.toList = some c ↔ c.rgb < 0x1000000 :=
  ⟨lt_of_read?, read?_text⟩

theorem text_of_read? {cs : List Char} {c : Color} (h : read? cs = some c) :
    c.text.toList = cs.map Char.toUpper := by
  have hlt := lt_of_read? h
  unfold read? at h
  split at h
  · split at h
    · rename_i ds hds
      obtain ⟨n, hn, rfl⟩ := Option.map_eq_some_iff.1 h
      have hrgb : n.toUInt32.toNat = n := by
        have hsix : n < 16 ^ 6 := by simpa [hds] using readHex_lt hn
        simp only [Nat.toUInt32, UInt32.toNat_ofNat']
        omega
      have hdigits := readHex_hexDigits 6 n
      have hcaps := (readHex_unique hn hdigits (hds.trans (hrgb ▸ length_hexDigits hlt).symm)).2
      have hsign : ('#' : Char).toUpper = '#' := by decide
      rw [text, String.toList_ofList, hrgb, List.map_cons, hsign, hcaps, map_toUpper_hexDigits]
    · cases h
  · cases h

/-- The components are the digits of the number to base 256. -/
theorem toNat_ofRgb (red green blue : UInt8) :
    (ofRgb red green blue).rgb.toNat = (red.toNat * 256 + green.toNat) * 256 + blue.toNat := by
  have hr := red.toNat_lt
  have hg := green.toNat_lt
  have hb := blue.toNat_lt
  have hlow : green.toNat <<< 8 ||| blue.toNat = green.toNat * 256 + blue.toNat := by
    rw [← Nat.shiftLeft_add_eq_or_of_lt hb, Nat.shiftLeft_eq]
  have hred : (red.toUInt32 <<< 16).toNat = red.toNat <<< 16 := by
    rw [UInt32.toNat_shiftLeft]
    refine Nat.mod_eq_of_lt ?_
    simp [Nat.shiftLeft_eq]
    omega
  have hgreen : (green.toUInt32 <<< 8).toNat = green.toNat <<< 8 := by
    rw [UInt32.toNat_shiftLeft]
    refine Nat.mod_eq_of_lt ?_
    simp [Nat.shiftLeft_eq]
    omega
  rw [ofRgb, UInt32.toNat_or, UInt32.toNat_or, hred, hgreen, UInt8.toNat_toUInt32, Nat.or_assoc,
    hlow, ← Nat.shiftLeft_add_eq_or_of_lt (by omega), Nat.shiftLeft_eq]
  omega

/-- A colour of 24 bits is made of its components. -/
theorem ofRgb_components {c : Color} (h : c.rgb < 0x1000000) :
    ofRgb c.red c.green c.blue = c := by
  have hn : c.rgb.toNat < 256 * 256 * 256 := h
  have hred : c.red.toNat = c.rgb.toNat / 65536 := by
    simp [red, Nat.shiftRight_eq_div_pow]
    omega
  have hgreen : c.green.toNat = c.rgb.toNat / 256 % 256 := by
    simp [green, Nat.shiftRight_eq_div_pow]
  have hblue : c.blue.toNat = c.rgb.toNat % 256 := by
    simp [blue]
  have hrgb : (ofRgb c.red c.green c.blue).rgb = c.rgb := by
    rw [← UInt32.toNat_inj, toNat_ofRgb]
    omega
  exact congrArg Color.mk hrgb

end Color

end FeatureFilter
