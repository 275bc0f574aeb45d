import FeatureFilter.Proofs.Token.Gluing

/-!
# Texts cut off behind a lexeme

A lexeme at the front of a text is there, too, when the text is cut off somewhere behind it
(`splitLexeme_cut`): nothing is taken because of what comes later. Only the kind of a reserved word
can change, which is an ordinary word in front of a point.
-/

namespace FeatureFilter

section Cut

variable {a b r s w : List Char}

theorem eq_nil_of_append_append (h : s ++ (r ++ b) = b) : s = [] ∧ r = [] := by
  have := congrArg List.length h
  simp only [List.length_append] at this
  exact ⟨List.eq_nil_of_length_eq_zero (by omega), List.eq_nil_of_length_eq_zero (by omega)⟩

theorem dropWhile_cut {p : Char → Bool} (h : (a ++ b).dropWhile p = r ++ b) :
    a.dropWhile p = r ∧ a.takeWhile p = (a ++ b).takeWhile p := by
  induction a with
  | nil =>
    have hb : b.takeWhile p ++ (r ++ b) = b := by
      rw [← h, List.nil_append, List.takeWhile_append_dropWhile]
    obtain ⟨ht, rfl⟩ := eq_nil_of_append_append hb
    exact ⟨rfl, ht.symm⟩
  | cons c a ih =>
    rw [List.cons_append, List.dropWhile_cons] at h
    rw [List.cons_append, List.dropWhile_cons, List.takeWhile_cons, List.takeWhile_cons]
    cases hc : p c with
    | true =>
      rw [hc, if_pos rfl] at h
      obtain ⟨hd, ht⟩ := ih h
      exact ⟨hd, by simp only [if_true, ht]⟩
    | false =>
      rw [hc, if_neg Bool.false_ne_true, ← List.cons_append] at h
      exact ⟨List.append_cancel_right h, rfl⟩

/-- A run at the front of a text that is cut off behind it. -/
theorem run_cut {p : Char → Bool} {cs : List Char} (h : cs.dropWhile p = r ++ b) :
    (cs.takeWhile p ++ r).dropWhile p = r ∧ (cs.takeWhile p ++ r).takeWhile p = cs.takeWhile p ∧
      cs = cs.takeWhile p ++ r ++ b := by
  have hcs : cs = cs.takeWhile p ++ r ++ b := by
    rw [List.append_assoc, ← h, List.takeWhile_append_dropWhile]
  obtain ⟨hd, ht⟩ := dropWhile_cut (hcs ▸ h)
  exact ⟨hd, ht.trans (congrArg _ hcs.symm), hcs⟩

/-! ## Numbers -/

theorem splitSign_cut (h : splitSign (a ++ b) = (s, r ++ b)) : splitSign a = (s, r) := by
  cases a with
  | nil =>
    have happ := splitSign_append b
    rw [List.nil_append] at h
    rw [h] at happ
    obtain ⟨rfl, rfl⟩ := eq_nil_of_append_append happ
    rfl
  | cons c a =>
    rw [splitSign_cons_append] at h
    obtain ⟨hs, hr⟩ := Prod.mk.inj h
    exact Prod.ext hs (List.append_cancel_right hr)

theorem splitExponent_cut (h : splitExponent (a ++ b) = (s, r ++ b)) :
    splitExponent a = (s, r) := by
  cases a with
  | nil =>
    have happ := splitExponent_append b
    rw [List.nil_append] at h
    rw [h] at happ
    obtain ⟨rfl, rfl⟩ := eq_nil_of_append_append happ
    rfl
  | cons c a =>
    rw [List.cons_append, splitExponent] at h
    rw [splitExponent]
    simp only at h ⊢
    split at h
    · rename_i hexp
      obtain ⟨rfl, hr⟩ := Prod.mk.inj h
      obtain ⟨hd, ht, hbody⟩ := run_cut hr
      have hsign :=
        splitSign_cut (a := a) (b := b) (s := (splitSign (a ++ b)).1) (Prod.ext rfl hbody)
      rw [hsign]
      simp only [ht, hd]
      rw [if_pos hexp]
    · rename_i hexp
      obtain ⟨rfl, hr⟩ := Prod.mk.inj h
      have hr : c :: a = r := List.append_cancel_right hr
      rw [← hr]
      refine if_neg fun h' => hexp ?_
      -- digits in the shorter text are digits in the longer one
      cases a with
      | nil => simp [splitSign] at h'
      | cons d a =>
        rw [splitSign_cons_append]
        cases hx : (splitSign (d :: a)).2 with
        | nil => simp [hx] at h'
        | cons e x =>
          rw [hx] at h'
          simp only [List.cons_append, List.takeWhile_cons] at h' ⊢
          split at h'
          · rename_i he
            simpa [he] using h'
          · simp at h'

/-- An exponent at the front of a text that is cut off behind it. -/
theorem exponent_cut {cs : List Char} (h : (splitExponent cs).2 = r ++ b) :
    splitExponent ((splitExponent cs).1 ++ r) = ((splitExponent cs).1, r) ∧
      cs = (splitExponent cs).1 ++ r ++ b := by
  have hcs : cs = (splitExponent cs).1 ++ r ++ b := by
    rw [List.append_assoc, ← h, splitExponent_append]
  exact ⟨splitExponent_cut (b := b) (hcs ▸ Prod.ext rfl h), hcs⟩

theorem splitNumber?_cut (h : splitNumber? (a ++ b) = some (w, r ++ b)) :
    splitNumber? a = some (w, r) := by
  unfold splitNumber? at h ⊢
  simp only at h ⊢
  split at h
  · rename_i rest hrest
    split at h
    · cases h
    · rename_i hne
      obtain ⟨rfl, hr⟩ := Prod.mk.inj (Option.some.inj h)
      obtain ⟨hexp, htail⟩ := exponent_cut hr
      obtain ⟨hd, ht, hfrac⟩ := run_cut htail
      rw [hfrac, ← List.cons_append] at hrest
      obtain ⟨hwhole, hdigits⟩ := dropWhile_cut hrest
      rw [hwhole, hdigits]
      simp only [ht, hd, hexp]
      exact if_neg hne
  · rename_i hpoint
    split at h
    · cases h
    · rename_i hne
      obtain ⟨rfl, hr⟩ := Prod.mk.inj (Option.some.inj h)
      obtain ⟨hexp, htail⟩ := exponent_cut hr
      obtain ⟨hwhole, hdigits⟩ := dropWhile_cut htail
      rw [hwhole, hdigits]
      split
      · rename_i heq
        rw [heq] at htail
        exact absurd htail (hpoint _)
      · simp only [hexp]
        exact if_neg hne

/-! ## Other lexemes -/

theorem read_cut {q : Char} (h : Quoted.read q (a ++ b) = some (s, r ++ b)) :
    Quoted.read q a = some (s, r) := by
  have heq : a ++ b = (Quoted.double q s ++ q :: r) ++ b := by
    rw [Quoted.eq_of_read h, List.append_assoc, List.cons_append]
  have hr : r.head? ≠ some q := by
    have := head?_ne_of_read h
    cases r with
    | nil => simp
    | cons c r => exact this
  rw [List.append_cancel_right heq]
  exact Quoted.read_double s r hr

theorem splitWords_cut (h : splitWords (a ++ b) = (w, r ++ b)) : splitWords a = (w, r) := by
  fun_induction splitWords a generalizing w with
  | case1 =>
    have happ := splitWords_append b
    rw [List.nil_append] at h
    rw [h] at happ
    obtain ⟨rfl, rfl⟩ := eq_nil_of_append_append happ
    rfl
  | case2 c cs hc word rest hs ih =>
    rw [List.cons_append, splitWords.eq_def] at h
    simp only [hc, if_true] at h
    obtain ⟨rfl, hr⟩ := Prod.mk.inj h
    obtain ⟨rfl, rfl⟩ := Prod.mk.inj (hs.symm.trans (ih (Prod.ext rfl hr)))
    rfl
  | case3 c hc d ds hd word rest hs ih =>
    rw [List.cons_append, List.cons_append, splitWords.eq_def] at h
    simp only [hc, hd, Bool.false_eq_true, if_false, if_true] at h
    obtain ⟨rfl, hr⟩ := Prod.mk.inj h
    obtain ⟨rfl, rfl⟩ := Prod.mk.inj (hs.symm.trans (ih (Prod.ext rfl hr)))
    rfl
  | case4 c hc d ds hd =>
    rw [List.cons_append, List.cons_append, splitWords.eq_def] at h
    simp only [hc, hd, Bool.false_eq_true, if_false] at h
    obtain ⟨rfl, hr⟩ := Prod.mk.inj h
    have hr : c :: d :: ds = r := List.append_cancel_right hr
    exact Prod.ext rfl hr
  | case5 c hc =>
    rw [List.singleton_append, splitWords.eq_def] at h
    simp only [hc, Bool.false_eq_true, if_false] at h
    cases b with
    | nil =>
      obtain ⟨rfl, hr⟩ := Prod.mk.inj h
      exact Prod.ext rfl (hr.trans (List.append_nil r))
    | cons d ds =>
      simp only at h
      split at h
      · -- the word behind the point is no longer there
        have hlen := congrArg List.length (Prod.mk.inj h).2
        have happ := congrArg List.length (splitWords_append ds)
        simp only [List.length_append, List.length_cons] at hlen happ
        omega
      · obtain ⟨rfl, hr⟩ := Prod.mk.inj h
        have hr : [c] = r := List.append_cancel_right hr
        exact Prod.ext rfl hr

theorem splitMark?_cut {m : Mark} (h : splitMark? (a ++ b) = some (m, w))
    (hw : w.length ≤ a.length) : splitMark? a = some (m, w) := by
  obtain ⟨⟨v, n⟩, hf, he⟩ := Option.map_eq_some_iff.1 h
  cases he
  obtain ⟨hp, before, behind, hl, hnone⟩ := List.find?_eq_some_iff_append.1 hf
  refine Option.map_eq_some_iff.2 ⟨(w, m), List.find?_eq_some_iff_append.2
    ⟨?_, before, behind, hl, fun y hy => ?_⟩, rfl⟩
  · exact List.isPrefixOf_iff_prefix.2 (List.prefix_of_prefix_length_le
      (List.isPrefixOf_iff_prefix.1 hp) (List.prefix_append a b) hw)
  · have hlong := hnone y hy
    simp only [Bool.not_eq_true', ← Bool.not_eq_true, List.isPrefixOf_iff_prefix] at hlong ⊢
    exact fun hshort => hlong (hshort.trans (List.prefix_append a b))

/-- The lexeme at the front of a text is there when the text is cut off behind it. -/
theorem splitLexeme_cut {k : TokenKind} (h : splitLexeme (a ++ b) = .ok (k, w, r ++ b)) :
    ∃ k', splitLexeme a = .ok (k', w, r) := by
  obtain ⟨happ, hne⟩ := eq_append_of_splitLexeme h
  rw [← List.append_assoc] at happ
  have ha : a = w ++ r := List.append_cancel_right happ
  simp only [splitLexeme_eq_ok] at h ⊢
  cases a with
  | nil => exact absurd (List.append_eq_nil_iff.1 ha.symm).1 hne
  | cons c cs =>
    cases h with
    | number hn => exact ⟨_, .number (splitNumber?_cut hn)⟩
    | string hr => exact ⟨_, .string (read_cut hr)⟩
    | quoted hr => exact ⟨_, .quoted (read_cut hr)⟩
    | word hc hw => exact ⟨_, .word hc (splitWords_cut hw)⟩
    | mark hn hc hc' hs hm _ =>
      have hp : c ≠ '.' := by
        rintro rfl
        cases hm
      have hlen : w.length ≤ (c :: cs).length := by simp [ha]
      exact ⟨_, .mark (splitNumber?_none (isDigit_of_splitNumber?_none hn) hp) hc hc' hs
        (splitMark?_cut (a := c :: cs) hm hlen) ha⟩

end Cut

end FeatureFilter
