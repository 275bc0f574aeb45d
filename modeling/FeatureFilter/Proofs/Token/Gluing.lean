import FeatureFilter.Proofs.Text.Slice
import FeatureFilter.Proofs.Token.Piece
import Mathlib.Data.List.Find
import Mathlib.Data.List.Forall2

/-!
# Texts one behind the other

When a text is split into tokens, so is every longer text that goes on with a blank, a comma or a
parenthesis: no lexeme reaches across (`Scans.append`). The tokens do not depend on where the text
stands, but for their places (`Scans.moved`).
-/

namespace FeatureFilter

/-! ## Lexemes of longer texts -/

theorem takeWhile_append_stop {p : Char → Bool} {x : List Char}
    (hx : ∀ c, x.head? = some c → p c = false) (cs : List Char) :
    (cs ++ x).takeWhile p = cs.takeWhile p := by
  induction cs with
  | nil =>
    cases x with
    | nil => rfl
    | cons c x => simp [hx c rfl]
  | cons c cs ih => simp only [List.cons_append, List.takeWhile_cons, ih]

theorem dropWhile_append_stop {p : Char → Bool} {x : List Char}
    (hx : ∀ c, x.head? = some c → p c = false) (cs : List Char) :
    (cs ++ x).dropWhile p = cs.dropWhile p ++ x := by
  induction cs with
  | nil =>
    cases x with
    | nil => rfl
    | cons c x => simp [hx c rfl]
  | cons c cs ih =>
    simp only [List.cons_append, List.dropWhile_cons, ih]
    split <;> rfl

section Stops

variable {cs x w rest : List Char}

theorem splitSign_cons_append (c : Char) (cs x : List Char) :
    splitSign (c :: cs ++ x) = ((splitSign (c :: cs)).1, (splitSign (c :: cs)).2 ++ x) := by
  rw [List.cons_append]
  unfold splitSign
  split
  · simp_all
  · simp_all
  · rename_i hp hm
    split
    · simp_all
    · simp_all
    · rfl

theorem splitSign_append_stop (hx : Stops x) (cs : List Char) :
    splitSign (cs ++ x) = ((splitSign cs).1, (splitSign cs).2 ++ x) := by
  cases cs with
  | nil =>
    cases x with
    | nil => rfl
    | cons c x => rcases stops_cons.1 hx with rfl | rfl | rfl | rfl <;> rfl
  | cons c cs => exact splitSign_cons_append c cs x

theorem splitExponent_append_stop (hx : Stops x) (cs : List Char) :
    splitExponent (cs ++ x) = ((splitExponent cs).1, (splitExponent cs).2 ++ x) := by
  cases cs with
  | nil => exact splitExponent_ends hx.endsNumeral
  | cons c cs =>
    have hd := hx.endsNumeral.noDigit
    simp only [List.cons_append, splitExponent, splitSign_append_stop hx, takeWhile_append_stop hd,
      dropWhile_append_stop hd]
    split <;> rfl

theorem splitNumber?_append_stop (hx : Stops x) (cs : List Char) :
    splitNumber? (cs ++ x) = (splitNumber? cs).map fun r => (r.1, r.2 ++ x) := by
  have hd := hx.endsNumeral.noDigit
  have hxp : ∀ rest, x ≠ '.' :: rest :=
    fun rest he => (hx.endsNumeral '.' (by rw [he]; rfl)).2.1 rfl
  unfold splitNumber?
  simp only [takeWhile_append_stop hd, dropWhile_append_stop hd]
  cases hcs : cs.dropWhile Char.isDigit with
  | nil =>
    rw [List.nil_append]
    split
    · exact absurd rfl (hxp _)
    · simp only [splitExponent_ends hx.endsNumeral]
      split <;> rfl
  | cons c rest =>
    rw [List.cons_append]
    by_cases hc : c = '.'
    · subst hc
      simp only [takeWhile_append_stop hd, dropWhile_append_stop hd, splitExponent_append_stop hx]
      split <;> rfl
    · have he := splitExponent_append_stop hx (c :: rest)
      rw [List.cons_append] at he
      split
      · rename_i heq
        exact absurd (List.cons.inj heq).1 hc
      · simp only [he]
        split
        · split
          · rename_i heq
            exact absurd (List.cons.inj heq).1 hc
          · rfl
        · split
          · rename_i heq
            exact absurd (List.cons.inj heq).1 hc
          · rfl

/-- What stands behind a closing quote does not start with one. -/
theorem head?_ne_of_read {q : Char} {s : List Char} (h : Quoted.read q cs = some (s, rest)) :
    rest.head? ≠ some q := by
  fun_induction Quoted.read q cs generalizing s with
  | case1 => cases h
  | case2 ds ih =>
    obtain ⟨⟨s', rest'⟩, hr, he⟩ := Option.map_eq_some_iff.1 h
    cases he
    exact ih hr
  | case3 d ds hd =>
    cases h
    simpa using hd
  | case4 =>
    cases h
    simp
  | case5 c cs hc ih =>
    obtain ⟨⟨s', rest'⟩, hr, he⟩ := Option.map_eq_some_iff.1 h
    cases he
    exact ih hr

theorem read_append_stop {q : Char} {s : List Char} (hq : x.head? ≠ some q)
    (h : Quoted.read q cs = some (s, rest)) : Quoted.read q (cs ++ x) = some (s, rest ++ x) := by
  have hrest : (rest ++ x).head? ≠ some q := by
    have hr := head?_ne_of_read h
    cases rest with
    | nil => exact hq
    | cons c rest => exact hr
  rw [Quoted.eq_of_read h, List.append_assoc, List.cons_append]
  exact Quoted.read_double s (rest ++ x) hrest

theorem Stops.startsWord {c : Char} {cs : List Char} (h : Stops (c :: cs)) :
    startsWord c = false := by
  rcases stops_cons.1 h with rfl | rfl | rfl | rfl <;> decide

theorem splitWords_append_stop (hx : Stops x) (cs : List Char) :
    splitWords (cs ++ x) = ((splitWords cs).1, (splitWords cs).2 ++ x) := by
  have hnil : splitWords x = ([], x) := splitWords_stops (w := []) rfl hx
  fun_induction splitWords cs with
  | case1 => exact hnil
  | case2 c cs hc word rest' he ih =>
    rw [List.cons_append, splitWords.eq_def]
    simp only [hc, if_true, ih, he]
  | case3 c hc d ds hd word rest' he ih =>
    rw [List.cons_append, List.cons_append, splitWords.eq_def]
    simp only [hc, hd, if_true, ih, he, Bool.false_eq_true, if_false]
  | case4 c hc d ds hd =>
    rw [List.cons_append, List.cons_append, splitWords.eq_def]
    simp only [hc, hd, Bool.false_eq_true, if_false]
  | case5 c hc =>
    rw [List.cons_append, splitWords.eq_def]
    simp only [hc, Bool.false_eq_true, if_false, List.nil_append]
    cases x with
    | nil => rfl
    | cons d ds => simp [hx.startsWord]

theorem wordKind_append_stop (hx : Stops x) (w rest : List Char) :
    wordKind w (rest ++ x) = wordKind w rest := by
  have hhead : (rest ++ x).head? = some '.' ↔ rest.head? = some '.' := by
    cases rest with
    | nil =>
      refine ⟨fun h => ?_, nofun⟩
      exact absurd rfl (hx.endsNumeral '.' h).2.1
    | cons c rest => rfl
  unfold wordKind
  simp only [hhead]

theorem stop_notMem_markSpellings :
    ∀ p ∈ markSpellings, ∀ c ∈ p.1.tail, c ≠ ' ' ∧ c ≠ ',' ∧ c ≠ '(' ∧ c ≠ ')' := by
  simp [markSpellings]

theorem isPrefixOf_append_stop (hx : Stops x) (hne : cs ≠ []) {spelling : List Char} {m : Mark}
    (hm : (spelling, m) ∈ markSpellings) :
    spelling.isPrefixOf (cs ++ x) = spelling.isPrefixOf cs := by
  obtain ⟨c, cs, rfl⟩ := List.exists_cons_of_ne_nil hne
  have htail := stop_notMem_markSpellings _ hm
  cases spelling with
  | nil => rfl
  | cons a spelling =>
    simp only [List.cons_append, List.isPrefixOf_cons_cons]
    congr 1
    clear hm hne
    change ∀ c ∈ spelling, _ at htail
    induction spelling generalizing cs with
    | nil => simp
    | cons b spelling ih =>
      cases cs with
      | nil =>
        cases x with
        | nil => rfl
        | cons d x =>
          have hb := htail b (List.mem_cons_self ..)
          have hd := stops_cons.1 hx
          have hbd : (b == d) = false := by
            refine beq_eq_false_iff_ne.2 fun h => ?_
            subst h
            rcases hd with h | h | h | h
            · exact hb.1 h
            · exact hb.2.1 h
            · exact hb.2.2.1 h
            · exact hb.2.2.2 h
          show ((b == d) && _) = false
          rw [hbd]
          rfl
      | cons d cs =>
        simp only [List.cons_append, List.isPrefixOf_cons_cons]
        rw [ih cs fun c hc => htail c (List.mem_cons_of_mem _ hc)]

theorem splitMark?_append_stop (hx : Stops x) (hne : cs ≠ []) :
    splitMark? (cs ++ x) = splitMark? cs := by
  unfold splitMark?
  exact congrArg _ (List.find?_congr fun p hp => isPrefixOf_append_stop hx hne (m := p.2) hp)

/-- The lexeme at the front of a text is the one at the front of the longer text. -/
theorem splitLexeme_append_stop {k : TokenKind} (hx : Stops x)
    (h : splitLexeme cs = .ok (k, w, rest)) :
    splitLexeme (cs ++ x) = .ok (k, w, rest ++ x) := by
  refine splitLexeme_eq_ok.2 ?_
  cases LexemeAt.of_splitLexeme h with
  | number hn => exact .number (by rw [splitNumber?_append_stop hx, hn]; rfl)
  | string hr => exact .string (read_append_stop (hx.noQuote (.inl rfl)) hr)
  | quoted hr => exact .quoted (read_append_stop (hx.noQuote (.inr rfl)) hr)
  | @word c r w rest hc hw =>
    have hwords : splitWords (r ++ x) = (w, rest ++ x) := by rw [splitWords_append_stop hx, hw]
    rw [← wordKind_append_stop hx]
    exact .word hc hwords
  | @mark c r w rest m hn hc hc' hs hm hrest =>
    have hnumber : splitNumber? (c :: r ++ x) = none := by
      rw [splitNumber?_append_stop hx, hn]
      rfl
    have hmark : splitMark? (c :: r ++ x) = some (m, w) := by
      rw [splitMark?_append_stop hx (List.cons_ne_nil c r), hm]
    have happ : c :: r ++ x = w ++ (rest ++ x) := by rw [hrest, List.append_assoc]
    exact .mark hnumber hc hc' hs hmark happ

end Stops

/-! ## Tokens further behind -/

/-- The same token of another text: `place` says which places of that text are which of this one. -/
structure Token.Matches (place : Nat → Nat → Prop) (t' t : Token) : Prop where
  kind : t'.kind = t.kind
  start : place t'.span.start t.span.start
  stop : place t'.span.stop t.span.stop

abbrev Token.AllMatch (place : Nat → Nat → Prop) : List Token → List Token → Prop :=
  List.Forall₂ (Token.Matches place)

/-- The same tokens, `k` bytes further behind. -/
abbrev Token.AllMoved (k : Nat) : List Token → List Token → Prop :=
  Token.AllMatch fun a' a => a' = a + k

theorem Token.AllMoved.refl (ts : List Token) : AllMoved 0 ts ts :=
  List.forall₂_same.2 fun _ _ => ⟨rfl, rfl, rfl⟩

/-- The tokens of a text of so many bytes, in front of where they stand in another text. -/
theorem Token.AllMoved.back {k size : Nat} {ts' ts : List Token} (h : AllMoved k ts' ts)
    (hsize : ∀ t ∈ ts, t.span.start ≤ size ∧ t.span.stop ≤ size) :
    AllMatch (fun a a' => a' = a + k ∧ a ≤ size) ts ts' := by
  induction h with
  | nil => exact .nil
  | cons ht _ ih =>
    obtain ⟨⟨hstart, hstop⟩, hsize⟩ := List.forall_mem_cons.1 hsize
    exact .cons ⟨ht.kind.symm, ⟨ht.start, hstart⟩, ht.stop, hstop⟩ (ih hsize)

theorem Token.AllMatch.split {place : Nat → Nat → Prop} {ts' us₁ us₂ : List Token}
    (h : AllMatch place ts' (us₁ ++ us₂)) :
    ∃ ts₁ ts₂, ts' = ts₁ ++ ts₂ ∧ AllMatch place ts₁ us₁ ∧ AllMatch place ts₂ us₂ :=
  ⟨_, _, (List.take_append_drop us₁.length ts').symm, List.forall₂_take_append _ _ _ h,
    List.forall₂_drop_append _ _ _ h⟩

/-! ## Parts of texts -/

/-- The characters from a position on are split into the tokens, up to another position. -/
inductive Scans : Position → List Char → List Token → Position → Prop where
  | nil {p : Position} : Scans p [] [] p
  | blank {p q : Position} {c : Char} {cs : List Char} {ts : List Token} (hc : isBlank c = true)
    (h : Scans (p.advance c) cs ts q) : Scans p (c :: cs) ts q
  | lexeme {p q : Position} {kind : TokenKind} {w cs : List Char} {ts : List Token}
    (hw : splitLexeme (w ++ cs) = .ok (kind, w, cs)) (h : Scans (p.after w) cs ts q) :
    Scans p (w ++ cs) (⟨kind, String.ofList w, .between p (p.after w)⟩ :: ts) q

namespace Scans

variable {p q r : Position} {cs x : List Char} {ts us : List Token}

theorem scanFrom_eq (h : Scans p cs ts q) : scanFrom p cs = ⟨ts ++ [.finishAt q], none⟩ := by
  induction h with
  | nil => rw [scanFrom, List.nil_append]
  | blank hc _ ih => rw [scanFrom_blank hc, ih]
  | lexeme hw _ ih => rw [scanFrom_lexeme hw, ih, List.cons_append]

theorem of_scanFrom (h : (scanFrom p cs).error = none) : ∃ ts q, Scans p cs ts q := by
  induction p, cs using scanFrom.induct with
  | case1 p => exact ⟨[], p, .nil⟩
  | case2 p c r hb ih =>
    rw [scanFrom_blank hb] at h
    obtain ⟨ts, q, hts⟩ := ih h
    exact ⟨ts, q, .blank hb hts⟩
  | case3 p c r hb problem hs =>
    rw [scanFrom, if_neg hb] at h
    split at h
    · cases h
    · rename_i hs'
      rw [hs] at hs'
      cases hs'
  | case4 p c r hb kind w rest hs ih =>
    rw [scanFrom_lexeme hs] at h
    obtain ⟨ts, q, hts⟩ := ih h
    obtain ⟨he, -⟩ := eq_append_of_splitLexeme hs
    rw [he] at hs ⊢
    exact ⟨_, q, .lexeme hs hts⟩

/-- A part of a text in front of another part that its last lexeme cannot reach into. -/
theorem append (h : Scans p cs ts q) (hx : Stops x) (h' : Scans q x us r) :
    Scans p (cs ++ x) (ts ++ us) r := by
  induction h with
  | nil => exact h'
  | blank hc _ ih => exact .blank hc (ih h')
  | lexeme hw _ ih =>
    have hw' := splitLexeme_append_stop hx hw
    rw [List.append_assoc] at hw' ⊢
    exact .lexeme hw' (ih h')

/-- A part of a text in front of characters that its last lexeme cannot reach into, whatever becomes
of these. -/
theorem scanFrom_append (h : Scans p cs ts q) (hx : Stops x) :
    scanFrom p (cs ++ x) = { scanFrom q x with tokens := ts ++ (scanFrom q x).tokens } := by
  induction h with
  | nil => rfl
  | blank hc _ ih => rw [List.cons_append, scanFrom_blank hc, ih]
  | lexeme hw _ ih =>
    have hw' := splitLexeme_append_stop hx hw
    rw [List.append_assoc] at hw' ⊢
    rw [scanFrom_lexeme hw', ih]
    rfl

/-- None of the tokens is the end of the text. -/
theorem ne_finish (h : Scans p cs ts q) : ∀ t ∈ ts, t.kind ≠ .finish := by
  induction h with
  | nil => exact nofun
  | blank _ _ ih => exact ih
  | lexeme hw _ ih => exact List.forall_mem_cons.2 ⟨kind_of_splitLexeme hw, ih⟩

theorem offset_eq (h : Scans p cs ts q) : q.offset = p.offset + Wkt.byteLength cs := by
  induction h with
  | nil => rfl
  | blank _ _ ih =>
    rw [ih, Position.offset_advance, Wkt.byteLength]
    omega
  | lexeme _ _ ih =>
    rw [ih, Position.offset_after, byteLength_append]
    omega

/-- Elsewhere the same characters are split into the same tokens. -/
theorem moved (h : Scans p cs ts q) {p' : Position} {k : Nat} (hp : p'.offset = p.offset + k) :
    ∃ ts' q', Scans p' cs ts' q' ∧ Token.AllMoved k ts' ts := by
  induction h generalizing p' with
  | nil => exact ⟨[], p', .nil, .nil⟩
  | @blank p q c cs ts hc _ ih =>
    have hp' : (p'.advance c).offset = (p.advance c).offset + k := by
      rw [Position.offset_advance, Position.offset_advance]
      omega
    obtain ⟨ts', q', hts, hm⟩ := ih hp'
    exact ⟨ts', q', .blank hc hts, hm⟩
  | @lexeme p q kind w cs ts hw _ ih =>
    have hp' : (p'.after w).offset = (p.after w).offset + k := by
      rw [Position.offset_after, Position.offset_after]
      omega
    obtain ⟨ts', q', hts, hm⟩ := ih hp'
    exact ⟨_, q', .lexeme hw hts, .cons ⟨rfl, hp, hp'⟩ hm⟩

end Scans

/-- A text is split into the tokens of its characters and its end. -/
theorem tokenize_eq_ok {text : String} {tokens : List Token} :
    tokenize text = .ok tokens ↔
      ∃ ts q, tokens = ts ++ [.finishAt q] ∧ Scans .start text.toList ts q := by
  rw [tokenize, scan]
  constructor
  · intro h
    cases hs : scanFrom .start text.toList with
    | mk found error =>
      rw [hs] at h
      cases error with
      | some e => cases h
      | none =>
        cases h
        have hnone : (scanFrom .start text.toList).error = none := by rw [hs]
        obtain ⟨ts, q, hts⟩ := Scans.of_scanFrom hnone
        have heq := hts.scanFrom_eq.symm.trans hs
        cases heq
        exact ⟨ts, q, rfl, hts⟩
  · rintro ⟨ts, q, rfl, hts⟩
    rw [hts.scanFrom_eq]

end FeatureFilter
