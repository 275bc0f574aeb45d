import FeatureFilter.Proofs.Geometry.Drawn
import FeatureFilter.Proofs.Geometry.Rules
import FeatureFilter.Proofs.Syntax.Taking
import FeatureFilter.Proofs.Token.Spaced

/-!
# Tokens of well-known text

What stands at the front of a text by the rules of well-known text is split into tokens, whatever
stands behind it, as long as white space is made of blanks (`lexes_geometry`). The tokens of a
geometry are its type and an outline that the reader of tokens passes over: tags and `EMPTY`, or
parentheses of which as many are closed as are opened (`exists_outline`).
-/

namespace FeatureFilter.Wkt

open Grammar (Closes IsTag ShapeRest)

/-! ## Lexemes -/

theorem toNat_lt_of_isAlpha {c : Char} (h : c.isAlpha = true) : c.toNat < 0x7B := by
  rcases Bool.or_eq_true_iff.1 h with h | h
  · have h : 65 ≤ c.val ∧ c.val ≤ 90 := of_decide_eq_true h
    have : c.toNat ≤ 90 := h.2
    omega
  · have : c.toNat ≤ 122 := of_decide_eq_true (Bool.and_eq_true_iff.1 h).2
    omega

theorem startsWord_of_isAlpha {c : Char} (h : c.isAlpha = true) : startsWord c = true := by
  have hascii : c.toNat < 0x80 := (toNat_lt_of_isAlpha h).trans (by decide)
  rw [startsWord, isWordLetter_of_ascii hascii, h, Bool.true_or, Bool.true_or]

theorem continuesWord_of_isAlpha {c : Char} (h : c.isAlpha = true) : continuesWord c = true := by
  rw [continuesWord, startsWord_of_isAlpha h, Bool.true_or, Bool.true_or]

/-- White space, a comma or a parenthesis, or nothing at all. -/
def EndsWord (cs : List Char) : Prop :=
  ∀ c, cs.head? = some c → isBlank c = true ∨ c = ',' ∨ c = '(' ∨ c = ')'

theorem splitWords_ends {cs : List Char} (h : EndsWord cs) : splitWords cs = ([], cs) := by
  cases cs with
  | nil => rfl
  | cons c cs =>
    have hc : continuesWord c = false ∧ c ≠ '.' := by
      rcases h c rfl with hb | rfl | rfl | rfl
      · simp only [isBlank, Bool.or_eq_true, decide_eq_true_eq] at hb
        rcases hb with ((rfl | rfl) | rfl) | rfl <;> decide
      all_goals decide
    rw [splitWords.eq_def]
    cases cs with
    | nil => simp [hc.1]
    | cons d ds => simp [hc.1, hc.2]

/-- Letters are taken together, and are an ordinary word if they are not reserved. -/
theorem splitLexeme_letters {w rest : List Char} (hne : w ≠ []) (hw : ∀ c ∈ w, c.isAlpha = true)
    (hk : Keyword.ofWord? (String.ofList w) = none) (hr : EndsWord rest) :
    splitLexeme (w ++ rest) = .ok (.identifier (String.ofList w), w, rest) := by
  obtain ⟨c, cs, rfl⟩ := List.exists_cons_of_ne_nil hne
  obtain ⟨hc, hcs⟩ := List.forall_mem_cons.1 hw
  have hstart := startsWord_of_isAlpha hc
  have hrest : (splitWords (cs ++ rest)).2 = rest := by
    rw [splitWords_append_of_continues fun d hd => continuesWord_of_isAlpha (hcs d hd),
      splitWords_ends hr]
  have hsplit : splitWords (cs ++ rest) = (cs, rest) := by
    refine Prod.ext ?_ hrest
    have happ := splitWords_append (cs ++ rest)
    rw [hrest] at happ
    exact List.append_cancel_right happ
  have hword := splitLexeme_eq_ok.2 (.word hstart hsplit)
  rw [wordKind, hk] at hword
  exact hword

theorem toLower_toUpper {c : Char} (h : c.isAlpha = true) : c.toUpper.toLower = c.toLower := by
  have hall : ∀ n < 0x7B, (Char.ofNat n).toUpper.toLower = (Char.ofNat n).toLower := by decide
  have hc := hall c.toNat (toNat_lt_of_isAlpha h)
  rwa [Char.ofNat_toNat] at hc

/-- A word in any letter case is the same word for the lexer. -/
theorem map_toLower_of_map_toUpper {w : List Char} {name : String} (hw : ∀ c ∈ w, c.isAlpha = true)
    (h : w.map Char.toUpper = name.toList) : w.map Char.toLower = name.toList.map Char.toLower := by
  rw [← h, List.map_map]
  exact List.map_congr_left fun c hc => (toLower_toUpper (hw c hc)).symm

/-! ## Tokens at the front of a text -/

section Front

variable {d m : Nat} {p q r : Position} {cs mid rest s w : List Char} {ts us : List Token}
  {kind : TokenKind}

theorem scans_blanks (hs : ∀ c ∈ s, isBlank c = true) (h : Scans (p.after s) cs ts q) :
    Scans p (s ++ cs) ts q := by
  induction s generalizing p with
  | nil => exact h
  | cons c s ih =>
    obtain ⟨hc, hs⟩ := List.forall_mem_cons.1 hs
    exact .blank hc (ih hs h)

/-- The tokens from a position up to another one, where `rest` is left of the text. -/
structure Front (p : Position) (cs : List Char) (ts : List Token) (q : Position)
    (rest : List Char) : Prop where
  text : ∃ u, cs = u ++ rest ∧ q = p.after u
  scans : ∀ ⦃us r⦄, Scans q rest us r → Scans p cs (ts ++ us) r
  stop : stopOf p.offset ts = q.offset

theorem Front.nil : Front p cs [] p cs := ⟨⟨[], rfl, rfl⟩, fun _ _ h => h, rfl⟩

theorem Front.append (h : Front p cs ts q mid) (h' : Front q mid us r rest) :
    Front p cs (ts ++ us) r rest := by
  obtain ⟨u, rfl, rfl⟩ := h.text
  obtain ⟨v, rfl, rfl⟩ := h'.text
  refine ⟨⟨u ++ v, (List.append_assoc ..).symm, (Position.after_append ..).symm⟩, ?_, ?_⟩
  · intro vs r hr
    rw [List.append_assoc]
    exact h.scans (h'.scans hr)
  · rw [stopOf_append, h.stop, h'.stop]

/-- White space is made of blanks, and no more than `m` parentheses are open at a time, `d` being
open in front. -/
structure Fit (d m : Nat) (cs : List Char) : Prop where
  blank : ∀ c ∈ cs, isWhiteSpace c = true → isBlank c = true
  opened : Open d m cs

/-- The part of a text in front of its first character that is no white space. -/
def spaceOf (cs : List Char) : List Char := cs.takeWhile isWhiteSpace

theorem spaceOf_append_trimStart (cs : List Char) : spaceOf cs ++ trimStart cs = cs :=
  List.takeWhile_append_dropWhile

theorem Fit.blanks (h : Fit d m cs) : ∀ c ∈ spaceOf cs, isBlank c = true := by
  intro c hc
  have hspace := List.all_eq_true.1 List.all_takeWhile c hc
  refine h.blank c ?_ hspace
  rw [← spaceOf_append_trimStart cs]
  exact List.mem_append_left _ hc

theorem Fit.trimStart (h : Fit d m cs) : Fit d m (trimStart cs) := by
  have hcs := spaceOf_append_trimStart cs
  refine ⟨fun c hc => h.blank c ?_, ?_⟩
  · rw [← hcs]
    exact List.mem_append_right _ hc
  · have hopen := h.opened
    rw [← hcs] at hopen
    refine hopen.of_append fun c hc => ?_
    have hspace := List.all_eq_true.1 List.all_takeWhile c hc
    refine ⟨?_, ?_, ?_⟩ <;> rintro rfl <;> exact absurd hspace (by decide)

theorem exists_front (h : Fit d m cs) (hcs : trimStart cs = w ++ rest)
    (hw : splitLexeme (w ++ rest) = .ok (kind, w, rest)) (p : Position) :
    ∃ q t, Front p cs [t] q rest ∧ t.kind = kind ∧
      t.span.start = (p.after (spaceOf cs)).offset := by
  have htext := spaceOf_append_trimStart cs
  rw [hcs] at htext
  refine ⟨(p.after (spaceOf cs)).after w,
    ⟨kind, String.ofList w, .between (p.after (spaceOf cs)) ((p.after (spaceOf cs)).after w)⟩,
    ⟨⟨spaceOf cs ++ w, ?_, ?_⟩, ?_, rfl⟩, rfl, rfl⟩
  · rw [List.append_assoc, htext]
  · rw [Position.after_append]
  · intro us r hr
    have hs := scans_blanks h.blanks (.lexeme hw hr)
    rwa [htext] at hs

/-! ## Tokens that leave parentheses as they are -/

/-- Behind the tokens as many parentheses are open as in front of them. -/
def Passes (m d : Nat) (ts : List Token) : Prop := ∀ ⦃us⦄, Closes m d us → Closes m d (ts ++ us)

theorem Passes.nil : Passes m d [] := fun _ h => h

theorem Passes.append (h : Passes m d ts) (h' : Passes m d us) : Passes m d (ts ++ us) := by
  intro vs hvs
  rw [List.append_assoc]
  exact h (h' hvs)

theorem Passes.single {t : Token} (hl : t.kind ≠ .mark .leftParen)
    (hr : t.kind ≠ .mark .rightParen) : Passes m d [t] := fun _ h => .other hl hr h

/-- Parentheses and what stands inside them, one level deeper. -/
theorem Passes.group {t t' : Token} (ht : t.kind = .mark .leftParen) (hm : d + 2 ≤ m)
    (h : Passes m (d + 2) ts) (ht' : t'.kind = .mark .rightParen) :
    Passes m (d + 1) (t :: (ts ++ [t'])) := by
  intro us hus
  refine .deepen ht hm ?_
  show Closes m (d + 2) (ts ++ [t'] ++ us)
  rw [List.append_assoc]
  exact h (.close ht' hus)

/-- The tokens of a part of a text in which as many parentheses are closed as are opened. -/
structure Passage (d m : Nat) (p : Position) (cs : List Char) (ts : List Token) (q : Position)
    (rest : List Char) : Prop where
  front : Front p cs ts q rest
  passes : Passes m d ts
  fit : Fit d m rest

theorem Passage.nil (h : Fit d m cs) : Passage d m p cs [] p cs := ⟨.nil, .nil, h⟩

theorem Passage.append (h : Passage d m p cs ts q mid) (h' : Passage d m q mid us r rest) :
    Passage d m p cs (ts ++ us) r rest :=
  ⟨h.front.append h'.front, h.passes.append h'.passes, h'.fit⟩

theorem exists_passage (h : Fit d m cs) (hcs : trimStart cs = w ++ rest)
    (hw : splitLexeme (w ++ rest) = .ok (kind, w, rest)) (hclose : ∀ c ∈ w, ClosesNone c)
    (hl : kind ≠ .mark .leftParen) (hr : kind ≠ .mark .rightParen) (p : Position) :
    ∃ q t, Passage d m p cs [t] q rest ∧ t.kind = kind ∧
      t.span.start = (p.after (spaceOf cs)).offset := by
  obtain ⟨q, t, hfront, rfl, hstart⟩ := exists_front h hcs hw p
  have hfit := h.trimStart
  rw [hcs] at hfit
  have hrest : Fit d m rest :=
    ⟨fun c hc => hfit.blank c (List.mem_append_right w hc), hfit.opened.of_append hclose⟩
  exact ⟨q, t, ⟨hfront, .single hl hr, hrest⟩, rfl, hstart⟩

/-- The text starts with white space, a comma or a parenthesis, or is at its end. -/
def Delimited (cs : List Char) : Prop :=
  ∀ c, cs.head? = some c → isWhiteSpace c = true ∨ c = ',' ∨ c = '(' ∨ c = ')'

/-- Inside of at least one parenthesis, what stands in front by the rule is tokens that leave
parentheses as they are. -/
def Lexes (m : Nat) (R : Rule α) : Prop := ∀ ⦃d cs a rest⦄, 1 ≤ d → R cs a rest → Fit d m cs →
  Delimited rest → ∀ p, ∃ q ts, Passage d m p cs ts q rest

/-! ## Marks and words -/

/-- A text without white space in front has to start with one of the marks. -/
theorem delimited_of_head (h : ∀ c, cs.head? = some c → FeatureFilter.trimStart cs = cs →
    c = ',' ∨ c = '(' ∨ c = ')') : Delimited cs := by
  intro c hc
  by_cases hspace : isWhiteSpace c = true
  · exact .inl hspace
  · obtain ⟨ds, rfl⟩ := List.head?_eq_some_iff.1 hc
    exact .inr (h c rfl (trimStart_of_noSpace (noSpace_cons.2 (Bool.eq_false_iff.2 hspace))))

theorem delimited_of_mark {c : Char} (h : IsMark c cs rest) (hc : c = ',' ∨ c = '(' ∨ c = ')') :
    Delimited cs := by
  refine delimited_of_head fun e he htrim => ?_
  rw [← htrim, show FeatureFilter.trimStart cs = c :: rest from h] at he
  cases he
  exact hc

theorem exists_comma (h : Fit d m cs) (hc : IsMark ',' cs rest) (p : Position) :
    ∃ q ts, Passage d m p cs ts q rest := by
  obtain ⟨q, t, ht, -⟩ := exists_passage (w := [',']) h hc rfl (by simp [ClosesNone]) nofun nofun p
  exact ⟨q, [t], ht⟩

theorem exists_leftParen (h : Fit d m cs) (hc : IsMark '(' cs rest) (p : Position) :
    ∃ q t, Front p cs [t] q rest ∧ t.kind = .mark .leftParen ∧ Fit (d + 1) m rest := by
  obtain ⟨q, t, ht, hk, -⟩ := exists_front (w := ['(']) h hc rfl p
  have hfit := h.trimStart
  rw [show FeatureFilter.trimStart cs = _ from hc] at hfit
  exact ⟨q, t, ht, hk, fun c hc => hfit.blank c (List.mem_cons_of_mem _ hc), hfit.opened.leftParen⟩

theorem exists_rightParen (h : Fit (d + 1) m cs) (hc : IsMark ')' cs rest) (p : Position) :
    ∃ q t, Front p cs [t] q rest ∧ t.kind = .mark .rightParen ∧ Fit d m rest := by
  obtain ⟨q, t, ht, hk, -⟩ := exists_front (w := [')']) h hc rfl p
  have hfit := h.trimStart
  rw [show FeatureFilter.trimStart cs = _ from hc] at hfit
  exact ⟨q, t, ht, hk, fun c hc => hfit.blank c (List.mem_cons_of_mem _ hc), hfit.opened.rightParen⟩

theorem exists_name {name : String} (h : Fit d m cs) (hname : IsName name cs rest)
    (hrest : Delimited rest) (hk : Keyword.ofWord? name = none) (p : Position) :
    ∃ q t w, Passage d m p cs [t] q rest ∧ t.kind = .identifier w ∧ sameWord name w = true ∧
      t.span.start = (p.after (spaceOf cs)).offset := by
  obtain ⟨w, hw, hupper⟩ := hname
  have hlower := map_toLower_of_map_toUpper hw.letters hupper
  have hreserved : Keyword.ofWord? (String.ofList w) = none := by
    rw [Keyword.ofWord?_ofList, hlower, ← Keyword.ofWord?_ofList, String.ofList_toList, hk]
  have hends : EndsWord rest := by
    intro c hc
    refine (hrest c hc).imp_left fun hspace => h.trimStart.blank c ?_ hspace
    rw [hw.text]
    exact List.mem_append_right w (List.mem_of_mem_head? hc)
  have hclose : ∀ c ∈ w, ClosesNone c := by
    intro c hc
    refine ⟨?_, ?_, ?_⟩ <;> rintro rfl <;> exact absurd (hw.letters _ hc) (by decide)
  obtain ⟨q, t, ht, hkind, hstart⟩ := exists_passage h hw.text
    (splitLexeme_letters hw.ne_nil hw.letters hreserved hends) hclose nofun nofun p
  refine ⟨q, t, _, ht, hkind, ?_, hstart⟩
  rw [sameWord_iff, String.toList_ofList, hlower]

/-! ## Numbers and coordinates -/

theorem trimStart_numeral (n : Numeral) (rest : List Char) :
    trimStart (n.chars ++ rest) = n.chars ++ rest := by
  obtain ⟨c, cs, hc, hd⟩ := n.chars_eq_cons
  refine trimStart_of_noSpace ?_
  rw [hc, List.cons_append, noSpace_cons]
  rcases hd with hd | rfl
  · exact isWhiteSpace_of_isDigit hd
  · rfl

/-- A number is the token of its sign, if it has one, and that of its numeral. -/
theorem exists_number {x : Binary64} (h : Fit d m cs) (hx : IsNumber cs x rest) (p : Position) :
    ∃ q ts, Passage d m p cs ts q rest := by
  obtain ⟨htext, hread⟩ := isNumber_iff.1 hx
  obtain ⟨sign, n, hn⟩ := exists_numeral hread
  have hends : EndsNumeral rest := endsNumeral_of_numberRun (congrArg _ htext.symm)
  have hclose : ∀ c ∈ signChars sign ++ n.chars, ClosesNone c :=
    fun c hc => closesNone_of_mem_numberRun (hn ▸ hc)
  have hnumeral {cs : List Char} (h : Fit d m cs)
      (hcs : FeatureFilter.trimStart cs = n.chars ++ rest)
      (p : Position) : ∃ q ts, Passage d m p cs ts q rest := by
    have hw : splitLexeme (n.chars ++ rest) =
        .ok (.number (String.ofList n.chars), n.chars, rest) :=
      splitLexeme_eq_ok.2 (.number (n.splitNumber?_chars hends))
    obtain ⟨q, t, ht, -⟩ := exists_passage h hcs hw
      (fun c hc => hclose c (List.mem_append_right _ hc)) (by simp) (by simp) p
    exact ⟨q, [t], ht⟩
  rw [hn, List.append_assoc] at htext
  cases sign with
  | none => exact hnumeral h htext p
  | some negative =>
    obtain ⟨kind, hw, hl, hr⟩ :
        ∃ kind, splitLexeme (signChars (some negative) ++ (n.chars ++ rest)) =
        .ok (kind, signChars (some negative), n.chars ++ rest) ∧
          kind ≠ .mark .leftParen ∧ kind ≠ .mark .rightParen := by
      cases negative with
      | true => exact ⟨.mark .minus, rfl, by simp, by simp⟩
      | false => exact ⟨.mark .plus, rfl, by simp, by simp⟩
    obtain ⟨q, t, ht, -⟩ := exists_passage h htext hw
      (fun c hc => hclose c (List.mem_append_left _ hc)) hl hr p
    obtain ⟨r, ts, hts⟩ := hnumeral ht.fit (trimStart_numeral n rest) q
    exact ⟨r, _, ht.append hts⟩

theorem lexes_coord : Lexes m IsCoord := by
  intro d cs c rest _ hc h _ p
  cases hc with
  | plane hx hy _ =>
    obtain ⟨q, ts, hts⟩ := exists_number h hx p
    obtain ⟨r, us, hus⟩ := exists_number hts.fit hy q
    exact ⟨r, _, hts.append hus⟩
  | space hx hy hz =>
    obtain ⟨q, ts, hts⟩ := exists_number h hx p
    obtain ⟨r, us, hus⟩ := exists_number hts.fit hy q
    obtain ⟨s, vs, hvs⟩ := exists_number hus.fit hz r
    exact ⟨s, _, (hts.append hus).append hvs⟩

/-! ## Lists -/

variable {R : Rule α}

/-- What stands in parentheses is one level deeper. -/
theorem exists_group (hR : Lexes m R) {a : α} (h : Fit d m cs) (ha : InParentheses R cs a rest)
    (p : Position) : ∃ q t ts t', Front p cs (t :: (ts ++ [t'])) q rest ∧
      t.kind = .mark .leftParen ∧ d + 1 ≤ m ∧ Passes m (d + 1) ts ∧ t'.kind = .mark .rightParen ∧
        Fit d m rest := by
  obtain ⟨hl, ha, hr⟩ := ha
  obtain ⟨q, t, ht, hk, hfit⟩ := exists_leftParen h hl p
  obtain ⟨q', ts, hts⟩ :=
    hR (Nat.le_add_left 1 d) ha hfit (delimited_of_mark hr (.inr (.inr rfl))) q
  obtain ⟨q'', t', ht', hk', hfit'⟩ := exists_rightParen hts.fit hr q'
  exact ⟨q'', t, ts, t', ht.append (hts.front.append ht'), hk, hfit.opened.le, hts.passes, hk',
    hfit'⟩

theorem InParentheses.delimited {a : α} (h : InParentheses R cs a rest) : Delimited cs := by
  obtain ⟨hl, -, -⟩ := h
  exact delimited_of_mark hl (.inr (.inl rfl))

theorem lexes_inParentheses (hR : Lexes m R) : Lexes m (InParentheses R) := by
  intro d cs a rest hd ha h _ p
  obtain ⟨q, t, ts, t', hfront, hk, hm, hts, hk', hfit⟩ := exists_group hR h ha p
  obtain ⟨d, rfl⟩ := Nat.exists_eq_add_of_le' hd
  exact ⟨q, _, hfront, .group hk hm hts hk', hfit⟩

theorem Further.delimited {as : List α} (h : Further R cs as rest) (hrest : Delimited rest) :
    Delimited cs := by
  cases h with
  | nil => exact hrest
  | cons comma _ _ => exact delimited_of_mark comma (.inl rfl)

theorem lexes_further (hR : Lexes m R) : Lexes m (Further R) := by
  intro d cs as rest hd has h hrest p
  induction has generalizing p with
  | nil => exact ⟨p, [], .nil h⟩
  | cons comma head tail ih =>
    obtain ⟨q, ts, hts⟩ := exists_comma h comma p
    obtain ⟨r, us, hus⟩ := hR hd head hts.fit (tail.delimited hrest) q
    obtain ⟨s, vs, hvs⟩ := ih hus.fit hrest r
    exact ⟨s, _, (hts.append hus).append hvs⟩

theorem lexes_commaList (hR : Lexes m R) : Lexes m (CommaList R) := by
  rintro d cs as rest hd ⟨head, tail⟩ h hrest p
  obtain ⟨q, ts, hts⟩ := hR hd head h (tail.delimited hrest) p
  obtain ⟨r, us, hus⟩ := lexes_further hR hd tail hts.fit hrest q
  exact ⟨r, _, hts.append hus⟩

theorem lexes_line : Lexes m IsLine := lexes_inParentheses (lexes_commaList lexes_coord)

theorem lexes_rings : Lexes m IsRings := lexes_inParentheses (lexes_commaList lexes_line)

theorem lexes_memberPoint : Lexes m IsMemberPoint := by
  rintro d cs c rest hd (hc | hc) h hrest p
  · exact lexes_inParentheses lexes_coord hd hc h hrest p
  · exact lexes_coord hd hc h hrest p

/-! ## Geometries -/

theorem lexes_contents {M : Rule Geometry} (hM : Lexes m M) (t : GeometryType) :
    Lexes m (Contents M t) := by
  intro d cs g rest hd hg h hrest p
  cases hg with
  | point hc => exact lexes_coord hd hc h hrest p
  | lineString hc => exact lexes_commaList lexes_coord hd hc h hrest p
  | polygon hc => exact lexes_commaList lexes_line hd hc h hrest p
  | multiPoint hc => exact lexes_commaList lexes_memberPoint hd hc h hrest p
  | multiLineString hc => exact lexes_commaList lexes_line hd hc h hrest p
  | multiPolygon hc => exact lexes_commaList lexes_rings hd hc h hrest p
  | collection hc => exact lexes_commaList hM hd hc h hrest p

/-- The tokens behind the type of a geometry, `d` parentheses being open in front. -/
inductive Outline (m d : Nat) : List Token → Prop where
  | empty {tags : List Token} {t : Token} {w : String} (htags : ∀ t ∈ tags, IsTag t)
    (ht : t.kind = .identifier w) (hw : sameWord w "EMPTY" = true) : Outline m d (tags ++ [t])
  | full {tags ts : List Token} {t t' : Token} (htags : ∀ t ∈ tags, IsTag t)
    (ht : t.kind = .mark .leftParen) (hm : d + 1 ≤ m) (h : Passes m (d + 1) ts)
    (ht' : t'.kind = .mark .rightParen) : Outline m d (tags ++ t :: (ts ++ [t']))

theorem Outline.shapeRest (h : Outline m 0 ts) : ShapeRest m ts := by
  cases h with
  | empty htags ht hw => exact .empty htags ht hw
  | full htags ht _ h ht' => exact .full htags ht (h (.last ht'))

theorem passes_tags (h : ∀ t ∈ ts, IsTag t) : Passes m d ts := by
  induction ts with
  | nil => exact .nil
  | cons t ts ih =>
    obtain ⟨⟨w, hk, -⟩, hts⟩ := List.forall_mem_cons.1 h
    have ht : Passes m d [t] := .single (by rw [hk]; nofun) (by rw [hk]; nofun)
    exact ht.append (ih hts)

theorem Outline.passes (h : Outline m (d + 1) ts) : Passes m (d + 1) ts := by
  cases h with
  | empty htags ht hw =>
    exact (passes_tags htags).append (.single (by rw [ht]; nofun) (by rw [ht]; nofun))
  | full htags ht hm h ht' =>
    exact (passes_tags htags).append (.group ht hm h ht')

/-- The words of well-known text are not reserved. -/
theorem ofWord?_eq_none {name : String} (h : (Keyword.all.any fun k =>
    k.text.toList.map Char.toLower == name.toList.map Char.toLower) = false) :
    Keyword.ofWord? name = none := by
  rw [← String.ofList_toList (s := name), Keyword.ofWord?_ofList, List.find?_eq_none]
  intro k hk hsame
  exact Bool.eq_false_iff.1 h (List.any_eq_true.2 ⟨k, hk, hsame⟩)

theorem GeometryType.ofWord?_name (t : GeometryType) : Keyword.ofWord? t.name = none := by
  cases t <;> exact ofWord?_eq_none (by decide)

theorem GeometryType.isGeometryWord (t : GeometryType) {w : String} (h : sameWord t.name w = true) :
    isGeometryWord w = true := by
  refine List.any_eq_true.2 ⟨t.name, ?_, h⟩
  cases t <;> decide

/-- Between two words there is white space. -/
theorem IsName.delimited {name name' : String} (h : IsName name cs mid)
    (h' : IsName name' mid rest) : Delimited mid := by
  obtain ⟨_, hw, -⟩ := h
  obtain ⟨w, hw', -⟩ := h'
  refine delimited_of_head fun c hc htrim => ?_
  obtain ⟨b, w, rfl⟩ := List.exists_cons_of_ne_nil hw'.ne_nil
  have hhead : mid.head? = some b := by
    rw [← htrim, hw'.text]
    rfl
  have halpha := hw'.letters b (List.mem_cons_self ..)
  rw [hw.ends b hhead] at halpha
  cases halpha

theorem isTag_z {t : Token} {w : String} (ht : t.kind = .identifier w)
    (hw : sameWord "Z" w = true) : IsTag t := by
  have hlower : "Z".toLower = w.toLower := by simpa [sameWord] using hw
  refine ⟨w, ht, List.any_eq_true.2 ⟨"Z", by simp, hw⟩, ?_⟩
  rw [sameWord, ← hlower]
  decide +kernel

theorem exists_type {t : GeometryType} {mid' : List Char} (h : Fit d m cs)
    (type : IsName t.name cs mid) (tag : Tagged mid mid')
    (hnext : ∀ {name ds}, IsName name ds mid' → Delimited mid') (p : Position) :
    ∃ q t tags w, Passage d m p cs (t :: tags) q mid' ∧ t.kind = .identifier w ∧
      isGeometryWord w = true ∧ t.span.start = (p.after (spaceOf cs)).offset ∧
        ∀ t ∈ tags, IsTag t := by
  cases tag with
  | plain =>
    obtain ⟨q, u, w, hu, hk, hw, hstart⟩ := exists_name h type (hnext type) t.ofWord?_name p
    exact ⟨q, u, [], w, hu, hk, t.isGeometryWord hw, hstart, nofun⟩
  | z hz =>
    obtain ⟨q, u, w, hu, hk, hw, hstart⟩ := exists_name h type (type.delimited hz) t.ofWord?_name p
    obtain ⟨r, v, w', hv, hk', hw', -⟩ :=
      exists_name hu.fit hz (hnext hz) (ofWord?_eq_none (by decide)) q
    exact ⟨r, u, [v], w, hu.append hv, hk, t.isGeometryWord hw, hstart,
      List.forall_mem_singleton.2 (isTag_z hk' hw')⟩

theorem exists_outline {M : Rule Geometry} (hM : Lexes m M) {g : Geometry} (h : Fit d m cs)
    (hg : Typed M cs g rest) (hrest : Delimited rest) (p : Position) :
    ∃ q t ts w, Front p cs (t :: ts) q rest ∧ t.kind = .identifier w ∧ isGeometryWord w = true ∧
      t.span.start = (p.after (spaceOf cs)).offset ∧ Outline m d ts ∧ Fit d m rest := by
  cases hg with
  | empty type tag he =>
    obtain ⟨q, t, tags, w, ht, hk, hw, hstart, htags⟩ :=
      exists_type h type tag (fun hname => hname.delimited he) p
    obtain ⟨r, u, w', hu, hk', hw', -⟩ :=
      exists_name ht.fit he hrest (ofWord?_eq_none (by decide)) q
    have hempty : sameWord w' "EMPTY" = true := sameWord_comm .. ▸ hw'
    exact ⟨r, t, _, w, ht.front.append hu.front, hk, hw, hstart, .empty htags hk' hempty, hu.fit⟩
  | full type tag hgroup =>
    have hnext := hgroup.delimited
    obtain ⟨q, t, tags, w, ht, hk, hw, hstart, htags⟩ := exists_type h type tag (fun _ => hnext) p
    obtain ⟨r, l, ts, l', hfront, hl, hm, hts, hl', hfit⟩ :=
      exists_group (lexes_contents hM _) ht.fit hgroup q
    exact ⟨r, t, _, w, ht.front.append hfront, hk, hw, hstart, .full htags hl hm hts hl', hfit⟩

theorem lexes_typed {M : Rule Geometry} (hM : Lexes m M) : Lexes m (Typed M) := by
  intro d cs g rest hd hg h hrest p
  obtain ⟨q, t, ts, w, hfront, hk, -, -, hts, hfit⟩ := exists_outline hM h hg hrest p
  obtain ⟨d, rfl⟩ := Nat.exists_eq_add_of_le' hd
  have ht : Passes m (d + 1) [t] := .single (by rw [hk]; nofun) (by rw [hk]; nofun)
  exact ⟨q, t :: ts, hfront, ht.append hts.passes, hfit⟩

theorem lexes_geometry (n : Nat) : Lexes m (IsGeometry n) := by
  induction n with
  | zero => exact lexes_typed fun _ _ _ _ _ h => h.elim
  | succ n ih => exact lexes_typed ih

end Front

end FeatureFilter.Wkt
