import FeatureFilter.Proofs.Compiler.Composition
import FeatureFilter.Proofs.Compiler.Furthest
import FeatureFilter.Proofs.Geometry.Tokens
import FeatureFilter.Proofs.Token.Quoting

/-!
# Words of older dialects

Behind an operand a word of an older dialect is refused where it stands, with the advice for that
word (`Compiler.legacy_word`). In front of the operand parentheses may be open. At each of them both
readings fail at the word; the advice comes with the reading as a group, which is kept because the
other one gets no further. At an innermost parenthesis that belongs to the operand the group may be
read or fail inside the parentheses, and the advice comes with the predicate.
-/

namespace FeatureFilter

open Reader

/-! ## The words -/

section Words

variable {word w hint : String}

theorem sameWord_right (hw : sameWord word w = true) (other : String) :
    sameWord other w = sameWord other word := by
  rw [sameWord_comm, ← Operand.sameWord_of_sameWord hw, sameWord_comm]

/-- In any letter case a word has the advice of the table. -/
theorem legacyHint?_eq (h : (word, hint) ∈ legacyHints) (hw : sameWord word w = true) :
    legacyHint? w = some hint := by
  have hall : ∀ p ∈ legacyHints, legacyHint? p.1 = some p.2 := by decide +kernel
  have hword := hall _ h
  rw [legacyHint?] at hword ⊢
  simp only [sameWord_right hw]
  exact hword

theorem legacy_plain (h : (word, hint) ∈ legacyHints) (hw : sameWord word w = true) :
    isGeometryTag w = false ∧ Keyword.ofWord? w = none := by
  have hall : ∀ p ∈ legacyHints, isGeometryTag p.1 = false ∧ Keyword.ofWord? p.1 = none := by
    decide +kernel
  have hword := hall _ h
  rw [isGeometryTag, Keyword.ofWord?] at hword ⊢
  simp only [sameWord_right hw]
  exact hword

theorem isAlpha_of_toLower {c : Char} (h : c.toLower.isAlpha = true) : c.isAlpha = true := by
  by_cases hc : c.isUpper = true
  · exact Bool.or_eq_true_iff.2 (.inl hc)
  · have hlower : c.toLower = c := dif_neg fun hu => hc (decide_eq_true hu)
    rwa [hlower] at h

theorem legacy_letters (h : (word, hint) ∈ legacyHints) (hw : sameWord word w = true) :
    w.toList ≠ [] ∧ ∀ c ∈ w.toList, c.isAlpha = true := by
  have hall : ∀ p ∈ legacyHints, p.1.toList ≠ [] ∧
      (p.1.toList.map Char.toLower).all Char.isAlpha = true := by decide +kernel
  obtain ⟨hne, halpha⟩ := hall _ h
  have hlower := sameWord_iff.1 hw
  rw [hlower, List.all_eq_true] at halpha
  refine ⟨fun he => hne ?_, fun c hc => isAlpha_of_toLower (halpha _ (List.mem_map_of_mem hc))⟩
  rwa [he, List.map_nil, List.map_eq_nil_iff] at hlower

theorem splitLexeme_legacy (h : (word, hint) ∈ legacyHints) (hw : sameWord word w = true) :
    splitLexeme (w.toList ++ []) = .ok (.identifier w, w.toList, []) := by
  obtain ⟨hne, halpha⟩ := legacy_letters h hw
  have hplain : Keyword.ofWord? (String.ofList w.toList) = none := by
    rw [String.ofList_toList]
    exact (legacy_plain h hw).2
  have hend : Wkt.EndsWord [] := nofun
  have hsplit := Wkt.splitLexeme_letters hne halpha hplain hend
  rwa [String.ofList_toList] at hsplit

end Words

/-! ## Errors at a token -/

namespace Reader

variable {α β : Type} {s s₁ : Cursor} {hint : String} {x : Reader α} {f : α → Reader β}

/-- Nothing is read. The error is that of the token at the cursor. -/
def FailsAt (s₁ : Cursor) (r : Except SyntaxError (α × Cursor)) : Prop :=
  ∃ e, r = .error e ∧ e.span = (s₁.token 0).span

/-- Nothing is read. The error is that of the token at the cursor, with an advice. -/
def Advises (s₁ : Cursor) (hint : String) (r : Except SyntaxError (α × Cursor)) : Prop :=
  ∃ e, r = .error e ∧ e.span = (s₁.token 0).span ∧ e.hint = some hint

theorem FailsAt.bind (h : FailsAt s₁ (x s)) : FailsAt s₁ ((x >>= f) s) :=
  let ⟨e, he, hspan⟩ := h
  ⟨e, bind_of_error he, hspan⟩

theorem Advises.bind (h : Advises s₁ hint (x s)) : Advises s₁ hint ((x >>= f) s) :=
  let ⟨e, he, hspan, hhint⟩ := h
  ⟨e, bind_of_error he, hspan, hhint⟩

end Reader

/-! ## Behind an operand -/

variable {g : Grammar} {s s₁ : Cursor} {ps ys : List Token} {y : Operand} {n : Nat}
  {w hint : String}

namespace Condition

variable {below : Option (Reader Operand)} {group predicate : Reader Condition}

/-- Of two errors at the same token the first is kept. -/
theorem advises_group (hg : Advises s₁ hint (group s)) (hp : FailsAt s₁ (predicate s)) :
    Advises s₁ hint (orPredicate group predicate s) := by
  obtain ⟨e, he, hspan, hhint⟩ := hg
  obtain ⟨e', he', hspan'⟩ := hp
  have hkept : e.furthest e' = e := if_neg (by rw [hspan, hspan']; exact Nat.lt_irrefl _)
  refine ⟨e, ?_, hspan, hhint⟩
  rw [orPredicate, he, he']
  show Except.error (e.furthest e') = Except.error e
  rw [hkept]

/-- The error of the predicate is kept where the group fails before it, or an operator follows. -/
theorem advises_predicate (hp : Advises s₁ hint (predicate s))
    (hg : Outcome (fun _ s' => atOperator s' = true) (fun e => e.span.start < s₁.start) (group s)) :
    Advises s₁ hint (orPredicate group predicate s) := by
  obtain ⟨e', he', hspan, hhint⟩ := hp
  rw [orPredicate]
  cases hr : group s with
  | ok r =>
    rw [hr] at hg
    refine ⟨e', ?_, hspan, hhint⟩
    have hop : atOperator r.2 = true := hg
    show (if atOperator r.2 = true then predicate s else .ok r) = .error e'
    rw [if_pos hop, he']
  | error e =>
    rw [hr] at hg
    have hkept : e.furthest e' = e' := if_pos (by rw [hspan]; exact hg)
    refine ⟨e', ?_, hspan, hhint⟩
    rw [he']
    show Except.error (e.furthest e') = Except.error e'
    rw [hkept]

/-- The cursor stands at a word of an older dialect that is none of this one. -/
structure AtLegacy (g : Grammar) (s : Cursor) (hint : String) : Prop where
  word : ∃ w, s.kind 0 = .identifier w ∧ legacyHint? w = some hint ∧ isGeometryTag w = false
  noIlike : g.dialect.allows .ilike = false

namespace AtLegacy

theorem endsOperand (h : AtLegacy g s hint) : s.EndsOperand := by
  obtain ⟨w, hk, -, htag⟩ := h.word
  exact Cursor.endsOperand_of hk htag nofun rfl rfl

theorem atOperator (h : AtLegacy g s hint) : atOperator s = true := by
  obtain ⟨w, hk, hhint, -⟩ := h.word
  rw [Condition.atOperator, hk]
  show (legacyHint? w).isSome = true
  rw [hhint]
  rfl

theorem advises_rest (h : AtLegacy g s hint) {x : Reader Operand} {start : Token}
    {value : Operand} : Advises s hint (readRest g x below start value s) := by
  obtain ⟨w, hk, hhint, -⟩ := h.word
  have hrest : readRest g x below start value s = readNegatable g x below start value false s := by
    rw [readRest, peekKind_bind, hk]
    rfl
  have hstarts : startsNegatable g (s.kind 0) = false := by
    rw [hk]
    show (sameWord w "ILIKE" && g.dialect.allows .ilike) = false
    rw [h.noIlike, Bool.and_false]
  refine ⟨_, hrest.trans (readNegatable_error hstarts), rfl, ?_⟩
  rw [hk]
  exact hhint

end AtLegacy

theorem advises_readPredicate (hy : g.IsOperand n ys y) (hys : s.Takes ys s₁)
    (h₁ : AtLegacy g s₁ hint) :
    Advises s₁ hint (readPredicate g (Operand.read g n) below s) := by
  have hstart : Operand.mayStart g (s.kind 0) = true := by
    obtain ⟨t, us, rfl, ht⟩ := Grammar.IsOperand.startsWith n hy
    exact hys.kind_cons ▸ ht
  have hword (w : String) (hw : s.kind 0 = .identifier w) : endsPredicate (s.kind 1) = false := by
    rcases Grammar.IsOperand.second_word hy hys hw with h | ⟨h, -⟩
    · exact h
    · obtain ⟨w', hk, -⟩ := h₁.word
      rw [h, hk]
      rfl
  obtain ⟨value, hv, -⟩ := (Operand.fits_read g n).complete hys hy h₁.endsOperand
  rw [readPredicate_eq, bind_of_ok (refuseRemoved_eq hstart hword), peek_bind, bind_of_ok hv]
  exact h₁.advises_rest

/-- The parentheses in front of an operand may be read as a group. That fails inside them, or what
follows them is an operator or the word. -/
theorem group_of_operand {m : Mark} (ho : s.Ordered) (hy : g.IsOperand n ys y)
    (hys : s.Takes ys s₁) (h₁ : AtLegacy g s₁ hint) (hm : g.close? (s.kind 0) = some m) :
    Outcome (fun _ s' => atOperator s' = true) (fun e => e.span.start < s₁.start)
      (readGroup g ((Reader.below (readNegation g) n).map readChains) m s) := by
  obtain ⟨k, zs, z, s₃, s₂, rfl, hz, hzs, hclose, hlast, hend⟩ :=
    Grammar.IsOperand.first_group hy hys hm
  obtain ⟨t, us, rfl, -⟩ := Grammar.IsOperand.startsWith _ hy
  have hnext := hys.ordered_next ho
  have h₃ : s₃.Ordered := hzs.ordered hnext
  obtain ⟨hlt, hop⟩ : s₃.start < s₁.start ∧ atOperator s₂ = true := by
    rcases hend with ⟨rfl, -⟩ | ⟨hop, ⟨us, hus⟩, -⟩
    · exact ⟨hlast.start_lt h₃, h₁.atOperator⟩
    · exact ⟨Nat.lt_of_lt_of_le (hlast.start_lt h₃) (hus.start_le (hlast.ordered h₃)),
        atOperator_of_isOperator hop⟩
  have hread := upTo_read hnext hz hzs ⟨_, m, hm, hclose⟩
  refine Outcome.mono (upTo_group hread hclose) (fun c s' hs => ?_) fun e he => ?_
  · obtain ⟨rfl, -⟩ := hs
    exact hlast.next_single ▸ hop
  · exact Nat.lt_of_le_of_lt he hlt

theorem advises_readNegation (h : Advises s₁ hint (readNegation g n s)) :
    Advises s₁ hint (read g n s) := by
  have hall : Advises s₁ hint (readChain .and .all (readNegation g n) s) := by
    rw [readChain_eq]
    exact h.bind
  rw [read, readChains, readChain_eq]
  exact hall.bind

/-- A predicate that stops at a word of an older dialect. -/
theorem advises_operand (ho : s.Ordered) (hy : g.IsOperand n ys y) (hys : s.Takes ys s₁)
    (h₁ : AtLegacy g s₁ hint) : Advises s₁ hint (read g n s) := by
  obtain ⟨t, us, rfl, hstart⟩ := Grammar.IsOperand.startsWith n hy
  rw [← hys.kind_cons] at hstart
  have hnot : s.kind 0 ≠ .keyword .not := fun hk => by
    rw [hk] at hstart
    cases hstart
  have hpredicate : Advises s₁ hint
      (readPredicate g (Operand.read g n) (Reader.below (Operand.read g) n) s) :=
    advises_readPredicate hy hys h₁
  refine advises_readNegation ?_
  rw [readNegation_eq, readNegationOver_eq, if_neg hnot, readPrimary,
    bind_of_ok (groupClose_of_mayStart hstart)]
  cases hm : g.close? (s.kind 0) with
  | none => exact hpredicate
  | some m => exact advises_predicate hpredicate (group_of_operand ho hy hys h₁ hm)

end Condition

/-! ## Behind open parentheses -/

open Condition (AtLegacy)

theorem Operand.failsAt_open (hps : ∀ p ∈ ps, p.kind = .mark .leftParen) (hne : ps ≠ [])
    (hy : g.IsOperand n ys y) (hys : s.Takes (ps ++ ys) s₁) (h₁ : s₁.EndsOperand)
    (hk : s₁.kind 0 ≠ .mark .rightParen) : FailsAt s₁ (read g (n + ps.length) s) := by
  induction ps generalizing s with
  | nil => exact absurd rfl hne
  | cons p ps ih =>
    obtain ⟨hp, hps⟩ := List.forall_mem_cons.1 hps
    have hm : g.close? (s.kind 0) = some .rightParen := by
      rw [hys.kind_cons, hp]
      rfl
    obtain ⟨e, he, hspan⟩ :
        FailsAt s₁ (readGroup g (some (read g (n + ps.length))) .rightParen s) := by
      rw [readGroup, advance_bind]
      show FailsAt s₁ ((read g (n + ps.length) >>= _) s.next)
      by_cases hnil : ps = []
      · subst hnil
        obtain ⟨o, ho, -⟩ := (fits_read g n).complete hys.next_cons hy h₁
        refine ⟨mismatch (s₁.token 0) ("'" ++ Mark.rightParen.text ++ "'") none,
          (bind_of_ok ho).trans ?_, rfl⟩
        rw [expect, expectKind_bind, if_neg hk]
      · exact (ih hps hnil hys.next_cons).bind
    exact ⟨e, readSum_of_error ((readFactor_group hm).trans he), hspan⟩

namespace Condition

/-- The advice comes through all open parentheses. -/
theorem advises_open (hps : ∀ p ∈ ps, p.kind = .mark .leftParen) (ho : s.Ordered)
    (hy : g.IsOperand n ys y) (hys : s.Takes (ps ++ ys) s₁) (h₁ : AtLegacy g s₁ hint) :
    Advises s₁ hint (read g (n + ps.length) s) := by
  induction ps generalizing s with
  | nil => exact advises_operand ho hy hys h₁
  | cons p ps ih =>
    have hk : s.kind 0 = .mark .leftParen := hys.kind_cons.trans (hps p (List.mem_cons_self ..))
    have hgroup : Advises s₁ hint (groupAt g (n + (p :: ps).length) s) := by
      rw [groupAt, readGroup, advance_bind]
      have hinner := ih (fun q hq => hps q (List.mem_cons_of_mem _ hq)) (hys.ordered_next ho)
        hys.next_cons
      exact hinner.bind
    have hpredicate : FailsAt s₁ (predicateAt g (n + (p :: ps).length) s) := by
      have hclose : s₁.kind 0 ≠ .mark .rightParen := by
        obtain ⟨w, hw, -⟩ := h₁.word
        intro hclose
        cases hw.symm.trans hclose
      rw [predicateAt_eq hk]
      exact (Operand.failsAt_open hps (List.cons_ne_nil _ _) hy hys h₁.endsOperand hclose).bind
    refine advises_readNegation ?_
    have hnot : s.kind 0 ≠ .keyword .not := fun hnot => by cases hk.symm.trans hnot
    rw [readNegation_eq, readNegationOver_eq, if_neg hnot]
    show Advises s₁ hint (primaryAt g _ s)
    rw [primaryAt_eq hk]
    exact advises_group hgroup hpredicate

end Condition

/-! ## Whole texts -/

def openText (k : Nat) (parts : List String) : String := joined " " (List.replicate k "(" ++ parts)

/-- Open parentheses, with a blank behind each. -/
def openChars (k : Nat) : List Char := (List.replicate k ['(', ' ']).flatten

theorem toList_openText (k : Nat) (E : String) (parts : List String) :
    (openText k (E :: parts)).toList = openChars k ++ (joined " " (E :: parts)).toList := by
  induction k with
  | zero => rfl
  | succ k ih =>
    rw [openText] at ih ⊢
    rw [List.replicate_succ, List.cons_append]
    cases hL : List.replicate k "(" ++ E :: parts with
    | nil => simp at hL
    | cons t rest =>
      rw [hL] at ih
      simp [joined, ih, openChars, List.replicate_succ]

namespace Grammar.Spells

theorem opened {cs : List Char} {P : List Token → Prop} (h : g.Spells cs P) (k : Nat) :
    g.Spells (openChars k ++ cs) fun ts => ∃ ps us, ts = ps ++ us ∧ ps.length = k ∧
      (∀ p ∈ ps, p.kind = .mark .leftParen) ∧ P us := by
  induction k with
  | zero => exact h.imp fun ts hts => ⟨[], ts, rfl, rfl, nofun, hts⟩
  | succ k ih =>
    have hchars : openChars (k + 1) ++ cs = '(' :: ' ' :: (openChars k ++ cs) := by
      simp [openChars, List.replicate_succ]
    rw [hchars]
    refine ih.blank.leftParen.imp ?_
    rintro _ ⟨t, _, rfl, ht, ps, us, rfl, rfl, hps, hP⟩
    exact ⟨t :: ps, us, rfl, rfl, List.forall_mem_cons.2 ⟨ht, hps⟩, hP⟩

end Grammar.Spells

namespace Compiler

variable {c : Compiler} {E R word : String} {k : Nat} {o : Operand} {tokens : List Token}

/-- The tokens up to the word. -/
theorem exists_legacy_token (hE : (c.withLevels n).operand E = .ok o) {m : Nat} (hn : n ≤ m)
    (hm : m ≤ c.dialect.maxDepth) (hword : (word, hint) ∈ legacyHints) (hw : sameWord word w = true)
    (htokens : tokenize (openText k [E, w, R]) = .ok tokens) :
    ∃ ps ys t behind, tokens = ps ++ ys ++ t :: behind ∧ ps.length = k ∧
      (∀ p ∈ ps, p.kind = .mark .leftParen) ∧ (∀ u ∈ ps ++ ys, u.kind ≠ .finish) ∧
      (c.grammar (openText k [E, w, R])).IsOperand m ys o.bare ∧ t.kind = .identifier w ∧
      t.span = .between (.behind (openText k [E, ""]).toList)
        (.behind ((openText k [E, ""]).toList ++ w.toList)) := by
  have hfront : (openText k [E, ""]).toList = openChars k ++ E.toList ++ [' '] := by
    simp [toList_openText, joined]
  have htext : (openText k [E, w, R]).toList =
      openChars k ++ E.toList ++ ' ' :: (w.toList ++ []) ++ ' ' :: R.toList := by
    simp [toList_openText, joined]
  have hpermits : c.Permits (c.withLevels n) :=
    permits_withLevels (c := c.withLevels n) (hn.trans hm)
  have hspells := (spells_same hpermits rfl (openText k [E, w, R]) hn hE).opened k
  have hplace : (c.grammar (openText k [E, w, R])).source.toList =
      [] ++ (openChars k ++ E.toList ++ (' ' :: (w.toList ++ []) ++ ' ' :: R.toList)) := by
    show (openText k [E, w, R]).toList = _
    rw [htext]
    simp
  obtain ⟨ts, q, hts, ps, ys, rfl, hlength, hps, hy⟩ :=
    hspells hplace (show Position.start.offset = Wkt.byteLength [] from rfl)
  have hq : q.advance ' ' = .behind (openText k [E, ""]).toList := by
    rw [hts.after_eq, after_start, hfront, Position.behind_concat]
  have hscans := hts.append (Grammar.Spells.stops_blank _)
    (.blank (by decide) (.lexeme (splitLexeme_legacy hword hw) .nil))
  rw [hq, ← Position.behind_append, String.ofList_toList] at hscans
  -- what stands behind the word may be split into any tokens
  obtain ⟨ts, p, rfl, hall⟩ := tokenize_eq_ok.1 htokens
  have hsplit := hall.scanFrom_eq
  rw [htext, hscans.scanFrom_append (Grammar.Spells.stops_blank _)] at hsplit
  have hbehind := (congrArg Scan.tokens hsplit).symm.trans (List.append_assoc (ps ++ ys) _ _)
  exact ⟨ps, ys, _, _, hbehind, hlength, hps, hts.ne_finish, hy, rfl, rfl⟩

/-- Behind any number of open parentheses and an expression, a word of an older dialect is refused
where it stands, with the advice for that word, whatever follows. -/
theorem legacy_word (hilike : c.dialect.allows .ilike = false)
    (hE : (c.withLevels n).operand E = .ok o) (hword : (word, hint) ∈ legacyHints)
    (hw : sameWord word w = true) (hk : k + n ≤ c.dialect.maxDepth)
    (htokens : tokenize (openText k [E, w, R]) = .ok tokens) :
    ∃ t ∈ tokens, t.kind = .identifier w ∧
      t.span = .between (.behind (openText k [E, ""]).toList)
        (.behind ((openText k [E, ""]).toList ++ w.toList)) ∧
      ∃ e, c.condition (openText k [E, w, R]) = .error (.syntactic e) ∧
        c.filter (openText k [E, w, R]) = .error (.syntactic e) ∧ e.span = t.span ∧
        e.hint = some hint := by
  obtain ⟨m, hm⟩ : ∃ m, c.dialect.maxDepth = m + k := ⟨c.dialect.maxDepth - k, by omega⟩
  obtain ⟨ps, ys, t, behind, rfl, rfl, hps, hfinish, hy, hkind, hspan⟩ :=
    exists_legacy_token hE (m := m) (by omega) (by omega) hword hw htokens
  let g := c.grammar (openText ps.length [E, w, R])
  let s := Cursor.ofTokens (openText ps.length [E, w, R]) (ps ++ ys ++ t :: behind)
  let s₁ : Cursor := ⟨t :: behind, stopOf 0 (ps ++ ys), s.finish⟩
  have ho : s.Ordered :=
    ordered_of_tokenize htokens (List.suffix_refl _) (by simp [s, Cursor.ofTokens])
  have hys : s.Takes (ps ++ ys) s₁ := ⟨rfl, rfl, rfl, rfl, hfinish⟩
  have h₁ : AtLegacy g s₁ hint :=
    ⟨⟨w, hkind, legacyHint?_eq hword hw, (legacy_plain hword hw).1⟩, hilike⟩
  obtain ⟨e, he, hespan, hhint⟩ := Condition.advises_open hps ho hy hys h₁
  have hcondition : c.condition (openText ps.length [E, w, R]) = .error (.syntactic e) := by
    refine phrase_eq_error.2 (.inr ⟨_, e, htokens, ?_, rfl⟩)
    rw [← hm] at he
    rw [Grammar.condition, run'_eq]
    exact congrArg _ (bind_of_error he)
  exact ⟨t, by simp, hkind, hspan, e, hcondition, filter_eq_error.2 (.inl hcondition), hespan,
    hhint⟩

/-- A call in parentheses, which is read as a group first, behind two more that are never closed. -/
theorem legacy_word_group : ∃ tokens, tokenize "( ( (f(a)) Exists 1" = .ok tokens ∧
    ∃ t ∈ tokens, t.kind = .identifier "Exists" ∧ t.span = ⟨11, 17, 1, 12⟩ ∧
      ∃ e, standard.condition "( ( (f(a)) Exists 1" = .error (.syntactic e) ∧
        standard.filter "( ( (f(a)) Exists 1" = .error (.syntactic e) ∧ e.span = t.span ∧
        e.hint = some "EXISTS is not part of CQL2; use PropertyExists()" := by
  obtain ⟨o, ho⟩ := exists_ok (x := (standard.withLevels 2).operand "(f(a))") (by decide +kernel)
  obtain ⟨tokens, htokens⟩ :=
    exists_ok (x := tokenize (openText 2 ["(f(a))", "Exists", "1"])) (by decide +kernel)
  have hword : ("exists", "EXISTS is not part of CQL2; use PropertyExists()") ∈ legacyHints := by
    simp [legacyHints]
  have hspan : Span.between (.behind (openText 2 ["(f(a))", ""]).toList)
      (.behind ((openText 2 ["(f(a))", ""]).toList ++ "Exists".toList)) = ⟨11, 17, 1, 12⟩ := by
    decide +kernel
  have htext : openText 2 ["(f(a))", "Exists", "1"] = "( ( (f(a)) Exists 1" := by decide +kernel
  rw [← hspan, ← htext]
  exact ⟨tokens, htokens,
    legacy_word (by decide) ho hword (by decide +kernel) (by decide) htokens⟩

end Compiler

end FeatureFilter
