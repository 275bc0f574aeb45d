import FeatureFilter.Proofs.Syntax.Texts
import FeatureFilter.Proofs.Token.Cutting
import FeatureFilter.Proofs.Token.Lexed

/-!
# Tokens written down again

The tokens of a text are written one after the other with blanks between them, and this text is
split in turn. Each lexeme is firm when it is written by itself, so that no token is lost and none
joins another. The kinds are the same, with one exception: a reserved word in front of a number that
starts with a point, as in `and.5`, is an ordinary word for that point, and written by itself it is
reserved (`tokenize_spaced`).
-/

namespace FeatureFilter

namespace TokenKind

/-- What the token is taken for when it is written by itself. -/
def alone : TokenKind → TokenKind
  | identifier name =>
    match Keyword.ofWord? name with
    | some k => keyword k
    | none => identifier name
  | kind => kind

theorem alone_eq_self_iff {kind : TokenKind} :
    kind.alone = kind ↔ ∀ name, kind = identifier name → Keyword.ofWord? name = none := by
  cases kind with
  | identifier name =>
    unfold alone
    cases hk : Keyword.ofWord? name with
    | none => simp [hk]
    | some k => simp [hk]
  | _ => simp [alone]

end TokenKind

def spaced (kinds : List TokenKind) : String := joined " " (kinds.map TokenKind.text)

theorem Keyword.ofWord?_ofList (w : List Char) :
    Keyword.ofWord? (String.ofList w) = Keyword.all.find? fun k =>
      k.text.toList.map Char.toLower == w.map Char.toLower := by
  unfold ofWord?
  congr 1
  funext k
  rw [Bool.eq_iff_iff, sameWord_iff, beq_iff_eq, String.toList_ofList]

/-! ## Lexemes by themselves -/

section Lexemes

variable {cs w rest : List Char} {kind : TokenKind}

theorem firm_of_splitNumber? (h : splitNumber? cs = some (w, rest)) :
    Firm (.number (String.ofList w)) w := by
  intro x hx
  have hcs : cs = w ++ rest := (eq_append_of_splitNumber? h).1
  rw [hcs] at h
  have hw : splitNumber? w = some (w, []) := splitNumber?_cut (b := rest) (by rwa [List.nil_append])
  have hx : splitNumber? (w ++ x) = some (w, x) := by
    rw [splitNumber?_append_stop hx, hw, Option.map_some, List.nil_append]
  exact splitLexeme_eq_ok.2 (.number hx)

/-- A word by itself is reserved or not, whatever it was in front of. -/
theorem firm_wordKind {c : Char} (hc : startsWord c = true) (hw : (splitWords w).2 = []) :
    Firm (wordKind (c :: w) rest).alone (wordKind (c :: w) rest).text.toList := by
  unfold wordKind
  cases hk : Keyword.ofWord? (String.ofList (c :: w)) with
  | none =>
    have hword : isIdentifier (c :: w) = true := by
      simp only [isIdentifier, hc, hw, hk, List.isEmpty_nil, Option.isNone_none, Bool.and_self]
    simp only [TokenKind.alone, TokenKind.text, hk, String.toList_ofList]
    exact firm_word hword
  | some k =>
    simp only
    split
    · intro x hx
      simp only [TokenKind.alone, TokenKind.text, hk, String.toList_ofList]
      rw [splitLexeme_word hc hw hx, wordKind_stops hx, hk]
    · exact firm_keyword k

/-- What is taken off the front of a text is firm when it is written by itself. -/
theorem firm_of_splitLexeme (h : splitLexeme cs = .ok (kind, w, rest)) :
    Firm kind.alone kind.text.toList := by
  cases LexemeAt.of_splitLexeme h with
  | number hn =>
    rw [TokenKind.text, String.toList_ofList]
    exact firm_of_splitNumber? hn
  | string =>
    rw [TokenKind.text, Quoted.writeText, String.toList_ofList]
    exact firm_string _
  | quoted =>
    rw [TokenKind.text, Quoted.writeText, String.toList_ofList]
    exact firm_quoted _
  | word hc hw => exact firm_wordKind hc (splitWords_fst hw)
  | mark => exact firm_mark _

/-- Behind a word in front of a point stands a number that starts with the point. -/
theorem number_of_splitLexeme_point (h : splitLexeme ('.' :: cs) = .ok (kind, w, rest)) :
    kind = .number (String.ofList w) ∧ w.head? = some '.' := by
  have hw : w.head? = some '.' := by
    obtain ⟨happ, hne⟩ := eq_append_of_splitLexeme h
    obtain ⟨c, w, rfl⟩ := List.exists_cons_of_ne_nil hne
    rw [List.head?_cons, (List.cons.inj happ).1]
  refine ⟨?_, hw⟩
  cases LexemeAt.of_splitLexeme h with
  | number => rfl
  | word hc => exact absurd hc (by decide +kernel)
  | mark _ _ _ _ hm => cases hm

end Lexemes

/-! ## Texts -/

/-- The word of the token is reserved, and what follows is a number that starts with a point and
stands right behind it. -/
def Token.InFrontOfPoint (t : Token) (behind : List Token) : Prop :=
  ∃ u us numeral, behind = u :: us ∧ u.kind = .number numeral ∧ numeral.toList.head? = some '.' ∧
    u.span.start = t.span.stop

namespace Scans

variable {p q : Position} {cs : List Char} {ts : List Token}

theorem firm (h : Scans p cs ts q) : ∀ t ∈ ts, Firm t.kind.alone t.kind.text.toList := by
  induction h with
  | nil => exact nofun
  | blank _ _ ih => exact ih
  | lexeme hw _ ih => exact List.forall_mem_cons.2 ⟨firm_of_splitLexeme hw, ih⟩

/-- Only a number right behind it keeps a reserved word from being one. -/
theorem inFrontOfPoint (h : Scans p cs ts q) {before behind : List Token} {t : Token}
    (hts : ts = before ++ t :: behind) {name : String} (ht : t.kind = .identifier name)
    (hname : Keyword.ofWord? name ≠ none) : t.InFrontOfPoint behind := by
  induction h generalizing before with
  | nil => simp at hts
  | blank _ _ ih => exact ih hts
  | @lexeme p q kind w cs ts hw hs ih =>
    cases before with
    | cons u before => exact ih (List.cons.inj hts).2
    | nil =>
      obtain ⟨rfl, rfl⟩ := List.cons.inj hts
      obtain rfl : kind = .identifier name := ht
      have hpoint : cs.head? = some '.' := by
        refine (isIdentifier_of_splitLexeme hw).resolve_left fun hid => hname ?_
        cases hn : name.toList with
        | nil => simp [isIdentifier, hn] at hid
        | cons c r =>
          simp only [isIdentifier, hn, Bool.and_eq_true, Option.isNone_iff_eq_none] at hid
          rw [← String.ofList_toList (s := name), hn]
          exact hid.2
      obtain ⟨cs, rfl⟩ : ∃ cs', cs = '.' :: cs' := by
        cases cs with
        | nil => cases hpoint
        | cons c cs => exact ⟨cs, by rw [Option.some.inj hpoint]⟩
      -- no blank is a point, so that a lexeme starts at it
      generalize hcs : '.' :: cs = cs' at hs
      cases hs with
      | nil => cases hcs
      | blank hc _ =>
        cases hcs
        cases hc
      | @lexeme _ _ kind' w' _ _ hw' _ =>
        rw [← hcs] at hw'
        obtain ⟨rfl, hhead⟩ := number_of_splitLexeme_point hw'
        exact ⟨_, _, _, rfl, rfl, by rwa [String.toList_ofList], rfl⟩

end Scans

/-- Firm lexemes with blanks between them are taken one by one. -/
theorem scans_spaced {kinds : List TokenKind}
    (h : ∀ kind ∈ kinds, Firm kind.alone kind.text.toList) (p : Position) :
    ∃ ts q, Scans p (spaced kinds).toList ts q ∧ ts.map Token.kind = kinds.map TokenKind.alone := by
  induction kinds generalizing p with
  | nil => exact ⟨[], p, .nil, rfl⟩
  | cons kind kinds ih =>
    obtain ⟨hkind, hkinds⟩ := List.forall_mem_cons.1 h
    cases kinds with
    | nil =>
      have hw := hkind [] stops_nil
      have hs : Scans p (kind.text.toList ++ []) _ _ := .lexeme hw .nil
      rw [List.append_nil] at hs
      exact ⟨_, _, hs, rfl⟩
    | cons next kinds =>
      obtain ⟨ts, q, hts, hk⟩ := ih hkinds ((p.after kind.text.toList).advance ' ')
      have hblank :
          Scans (p.after kind.text.toList) (' ' :: (spaced (next :: kinds)).toList) ts q :=
        .blank (by decide) hts
      have hw := hkind (' ' :: (spaced (next :: kinds)).toList) (stops_cons.2 (.inl rfl))
      have htext : (spaced (kind :: next :: kinds)).toList =
          kind.text.toList ++ ' ' :: (spaced (next :: kinds)).toList := by
        simp [spaced, joined]
      rw [htext]
      exact ⟨_, q, .lexeme hw hblank, by rw [List.map_cons, hk]; rfl⟩

/-- The tokens of a text, written with blanks between them, are split into as many tokens. Each has
the kind that it had, but for reserved words that are ordinary ones in the text; and such a word
stands right in front of a number that starts with a point. So the kinds are all the same exactly
when no ordinary word of the text is reserved. -/
theorem tokenize_spaced {text : String} {tokens : List Token} (h : tokenize text = .ok tokens) :
    ∃ kinds again, tokens.map Token.kind = kinds ++ [.finish] ∧
      tokenize (spaced kinds) = .ok again ∧
      again.map Token.kind = kinds.map TokenKind.alone ++ [.finish] ∧
      (again.map Token.kind = tokens.map Token.kind ↔
        ∀ name, .identifier name ∈ kinds → Keyword.ofWord? name = none) ∧
      ∀ before t behind name, tokens = before ++ t :: behind → t.kind = .identifier name →
        Keyword.ofWord? name ≠ none → t.InFrontOfPoint behind := by
  obtain ⟨ts, q, rfl, hts⟩ := tokenize_eq_ok.1 h
  have hfirm : ∀ kind ∈ ts.map Token.kind, Firm kind.alone kind.text.toList := by
    intro kind hkind
    obtain ⟨t, ht, rfl⟩ := List.mem_map.1 hkind
    exact hts.firm t ht
  obtain ⟨us, q', hus, hkinds⟩ := scans_spaced hfirm .start
  have hagain : (us ++ [Token.finishAt q']).map Token.kind =
      (ts.map Token.kind).map TokenKind.alone ++ [.finish] := by
    rw [List.map_append, hkinds]
    rfl
  refine ⟨ts.map Token.kind, us ++ [.finishAt q'], List.map_append,
    tokenize_eq_ok.2 ⟨us, q', rfl, hus⟩, hagain, ?_, ?_⟩
  · rw [hagain, List.map_append]
    constructor
    · intro he name hname
      have halone : (ts.map Token.kind).map TokenKind.alone = (ts.map Token.kind).map id := by
        rw [List.map_id]
        exact (List.append_inj' he rfl).1
      exact TokenKind.alone_eq_self_iff.1 (List.map_inj_left.1 halone _ hname) name rfl
    · intro hnone
      have halone : (ts.map Token.kind).map TokenKind.alone = ts.map Token.kind := by
        rw [← List.map_id (ts.map Token.kind), List.map_map, List.map_congr_left]
        intro kind hkind
        refine TokenKind.alone_eq_self_iff.2 fun name hn => hnone name ?_
        rw [← hn]
        exact hkind
      rw [halone]
      rfl
  · intro before t behind name he ht hname
    rcases List.eq_nil_or_concat behind with rfl | ⟨behind, u, rfl⟩
    · -- the end of the text is no word
      obtain ⟨-, hfin⟩ := List.append_inj' he rfl
      obtain ⟨rfl, -⟩ := List.cons.inj hfin
      cases ht
    · rw [List.concat_eq_append, ← List.cons_append, ← List.append_assoc] at he
      obtain ⟨he, hfin⟩ := List.append_inj' he rfl
      obtain ⟨v, vs, numeral, hv, hnum⟩ := hts.inFrontOfPoint he ht hname
      exact ⟨v, vs ++ [u], numeral, by rw [hv, List.concat_eq_append, List.cons_append], hnum⟩

theorem tokenize_spaced_words : ∃ tokens kinds again,
    tokenize "not(.5e1<=1.)and a.b:c in\"q\"!='it''s' Or.5" = .ok tokens ∧
    tokens.map Token.kind = kinds ++ [.finish] ∧ tokenize (spaced kinds) = .ok again ∧
    again.map Token.kind = kinds.map TokenKind.alone ++ [.finish] := by
  obtain ⟨tokens, h⟩ :=
    exists_ok (x := tokenize "not(.5e1<=1.)and a.b:c in\"q\"!='it''s' Or.5") (by decide +kernel)
  obtain ⟨kinds, again, hkinds, hagain, halone, -⟩ := tokenize_spaced h
  exact ⟨tokens, kinds, again, h, hkinds, hagain, halone⟩

/-- Written down again, the tokens of a text are not always of the same kinds. -/
theorem tokenize_spaced_glued : ¬ ∀ text tokens, tokenize text = .ok tokens →
    ∃ kinds again, tokens.map Token.kind = kinds ++ [.finish] ∧
    tokenize (spaced kinds) = .ok again ∧
      again.map Token.kind = kinds ++ [.finish] := by
  intro hall
  have hglued :
      tokenize "and.5" = .ok (tokensAt .start [.word "and".toList, .number ".5".toList]) := by
    refine @tokenize_charsOf [.word "and".toList, .number ".5".toList] ⟨?_, rfl, trivial⟩
    show Except.ok (wordKind "and".toList ['.', '5'], "and".toList, ['.', '5']) = _
    rw [wordKind, Keyword.ofWord?_ofList]
    rfl
  have hspaced : tokenize (spaced [.identifier "and", .number ".5"]) =
      .ok (tokensAt .start
        [.lexeme (.keyword .and) "and".toList, .blank, .number ".5".toList]) := by
    have htext : spaced [.identifier "and", .number ".5"] = "and .5" := by
      rw [← String.toList_inj]
      simp [spaced, joined, TokenKind.text]
    rw [htext]
    refine @tokenize_charsOf [.lexeme (.keyword .and) "and".toList, .blank, .number ".5".toList]
      ⟨?_, rfl, trivial⟩
    show Except.ok (wordKind "and".toList [' ', '.', '5'], "and".toList, [' ', '.', '5']) = _
    rw [wordKind, Keyword.ofWord?_ofList]
    rfl
  obtain ⟨kinds, again, hkinds, hagain, hsame⟩ := hall _ _ hglued
  have hkinds : [.identifier "and", .number ".5"] ++ [.finish] = kinds ++ [.finish] := hkinds
  obtain ⟨rfl, -⟩ := List.append_inj' hkinds rfl
  obtain rfl := Except.ok.inj (hspaced.symm.trans hagain)
  cases hsame

end FeatureFilter
