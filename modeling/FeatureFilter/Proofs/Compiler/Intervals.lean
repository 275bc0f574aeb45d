import FeatureFilter.Proofs.Compiler.Composition
import FeatureFilter.Proofs.Token.Places

/-!
# Strings as bounds of intervals

A string as a bound of an interval is the open bound, or means what it means in `TIMESTAMP` or in
`DATE`, whichever takes it first; any other string is refused (`Compiler.interval_string`). The
other bound may be any text that can be one. That it fits in there, with one level of nesting less,
is known from one interval that it stands in; so the tokens of a text are shown to be the same
operands wherever the text stands (`Compiler.spells_tokens`).
-/

namespace FeatureFilter

open Reader
open Span (nowhere)

/-! ## Tokens of an interval -/

namespace Grammar

variable {g : Grammar} {n d : Nat} {as bs : List Token} {a b o : Operand}

/-- The tokens of an interval, the bounds being tokens with properties. -/
inductive OfInterval (P Q : List Token → Prop) : List Token → Prop where
  | intro {t p c p' : Token} {as bs : List Token} (ht : t.kind = .identifier "INTERVAL")
    (hp : p.kind = .mark .leftParen) (has : P as) (hc : c.kind = .mark .comma) (hbs : Q bs)
    (hp' : p'.kind = .mark .rightParen) : OfInterval P Q (t :: p :: (as ++ c :: (bs ++ [p'])))

theorem IsOperand.noBound : NoBound (g.IsOperand n) := (IsFactor.noBound n).operators.operators

theorem Bound.mono (hn : n ≤ d) (h : Bound g (g.IsOperand n) as a) :
    Bound g (g.IsOperand d) as a := by
  cases h with
  | string ht ho => exact .string ht ho
  | operand h hs => exact .operand (h.mono hn) hs

theorem Bound.of_isOperand (h : g.IsOperand n as a) (ha : a.IsBound) :
    Bound g (g.IsOperand n) as a :=
  .operand h fun t content ht hk => absurd ha ((IsOperand.noBound h).2 ⟨t, content, ht, hk⟩)

/-- What can stand as a bound and is also an operand is no string that is a bound by itself. -/
theorem Bound.isOperand (h : Bound g (g.IsOperand n) as a) (hd : g.IsOperand d as b)
    (hb : b.IsBound) : g.IsOperand n as a := by
  cases h with
  | string ht _ => exact absurd hb ((IsOperand.noBound hd).2 ⟨_, _, rfl, ht⟩)
  | operand h _ => exact h

theorem fits_readBound (g : Grammar) (n : Nat) :
    Fits Cursor.EndsOperand Operand.bare (Bound g (g.IsOperand n))
      (Operand.readBound g (Operand.read g n)) :=
  Operand.fits_bound (Operand.fits_read g n) (IsOperand.startsWith n)

/-- Any tokens may stand in front of the end of a text. -/
theorem exists_takes (h : ∀ t ∈ as, t.kind ≠ .finish) :
    ∃ s s' : Cursor, s.Takes as s' ∧ s'.kind 0 = .finish :=
  ⟨⟨as ++ [.finishAt .start], 0, .finishAt .start⟩, ⟨[.finishAt .start], stopOf 0 as, _⟩,
    ⟨rfl, rfl, rfl, rfl, h⟩, rfl⟩

/-- The tokens in front of the end are an operand in one way. -/
theorem IsOperand.unique_all (h : ∀ t ∈ as, t.kind ≠ .finish) (ha : g.IsOperand n as a)
    (hb : g.IsOperand n as b) : a = b := by
  obtain ⟨s, s', hs, hk⟩ := exists_takes h
  have hend : s'.EndsOperand := (endsPredicate_of_finish hk).endsOperand
  exact (IsOperand.unique ha hb hs hs hend hend).2.1

/-- What starts like an interval is read as one, with a level less for the bounds. -/
theorem bounds_of_read {s s' : Cursor} (hk : s.kind 0 = .identifier "INTERVAL")
    (hp : s.next.kind 0 = .mark .leftParen) (h : Operand.read g d s = .ok (o, s')) :
    ∃ k a s₁ b s₂, d = k + 1 ∧ Operand.readBound g (Operand.read g k) s.next.next = .ok (a, s₁) ∧
      s₁.kind 0 = .mark .comma ∧ Operand.readBound g (Operand.read g k) s₁.next = .ok (b, s₂) ∧
      s₂.kind 0 = .mark .rightParen := by
  obtain ⟨_, s₁, hproduct, -⟩ := bind_eq_ok.1 h
  obtain ⟨o', s₂, hfactor, -⟩ := bind_eq_ok.1 hproduct
  have hsign : Operand.sign? (s.kind 0) = none := by
    rw [hk]
    rfl
  have hword : sameWord "INTERVAL" "INTERVAL" = true := beq_self_eq_true _
  obtain ⟨k, rfl, hinterval⟩ : ∃ k, d = k + 1 ∧
      Operand.readInterval g (some (Operand.read g k)) s = .ok (o', s₂) := by
    cases d with
    | zero =>
      rw [Operand.readFactor, Operand.readFactorOver_unsigned hsign,
        Operand.readPrimary_interval hk hp hword, Operand.readInterval, advance_bind] at hfactor
      obtain ⟨-, hfactor⟩ := expect_bind_eq_ok.1 hfactor
      obtain ⟨_, hnone, -⟩ := deeper_eq_ok.1 hfactor
      cases hnone
    | succ k =>
      rw [Operand.readFactor, Operand.readFactorOver_unsigned hsign,
        Operand.readPrimary_interval hk hp hword] at hfactor
      exact ⟨k, rfl, hfactor⟩
  rw [Operand.readInterval, advance_bind] at hinterval
  obtain ⟨-, hinterval⟩ := expect_bind_eq_ok.1 hinterval
  obtain ⟨_, hlevel, hinterval⟩ := deeper_eq_ok.1 hinterval
  cases hlevel
  obtain ⟨a, s₃, ha, hinterval⟩ := bind_eq_ok.1 hinterval
  obtain ⟨hcomma, hinterval⟩ := expect_bind_eq_ok.1 hinterval
  obtain ⟨b, s₄, hb, hinterval⟩ := bind_eq_ok.1 hinterval
  obtain ⟨hclose, -⟩ := expect_bind_eq_ok.1 hinterval
  exact ⟨k, a, s₃, b, s₄, rfl, ha, hcomma, hb, hclose⟩

theorem IsOperand.bounds {t p c p' : Token} (ht : t.kind = .identifier "INTERVAL")
    (hp : p.kind = .mark .leftParen) (ha : Bound g (g.IsOperand d) as a)
    (hc : c.kind = .mark .comma)
    (hb : Bound g (g.IsOperand d) bs b) (hp' : p'.kind = .mark .rightParen)
    (hkinds : ∀ u ∈ t :: p :: (as ++ c :: (bs ++ [p'])), u.kind ≠ .finish)
    (h : g.IsOperand d (t :: p :: (as ++ c :: (bs ++ [p']))) o) :
    ∃ k, d = k + 1 ∧ Bound g (g.IsOperand k) as a ∧ Bound g (g.IsOperand k) bs b := by
  obtain ⟨s, s', htakes, hk⟩ := exists_takes hkinds
  obtain ⟨_, hread, -⟩ :=
    (Operand.fits_read g d).complete htakes h (endsPredicate_of_finish hk).endsOperand
  have hnext := htakes.next_cons
  obtain ⟨k, a', s₁, b', s₂, rfl, hra, hcomma, hrb, hclose⟩ :=
    bounds_of_read (htakes.kind_cons.trans ht) (hnext.kind_cons.trans hp) hread
  refine ⟨k, rfl, ?_⟩
  -- the bounds that the reader gives are the ones in the tokens
  obtain ⟨s₃, has, hrest⟩ := hnext.next_cons.split
  obtain ⟨s₄, hbs, hlast⟩ := hrest.next_cons.split
  obtain ⟨as', has', ha'⟩ := (fits_readBound g k).sound (by simpa using htakes.finish) hra
  obtain ⟨rfl, rfl, rfl⟩ := (fits_readBound g (k + 1)).unique ha (ha'.mono (Nat.le_succ k)) has has'
    (Cursor.endsOperand_comma (hrest.kind_cons.trans hc)) (Cursor.endsOperand_comma hcomma)
  obtain ⟨bs', hbs', hb'⟩ := (fits_readBound g k).sound (by simpa using has.finish') hrb
  obtain ⟨rfl, rfl, -⟩ := (fits_readBound g (k + 1)).unique hb (hb'.mono (Nat.le_succ k)) hbs hbs'
    (Cursor.endsOperand_rightParen (hlast.kind_cons.trans hp'))
    (Cursor.endsOperand_rightParen hclose)
  exact ⟨ha', hb'⟩

theorem OfInterval.bounds {P Q : List Token → Prop} {ts : List Token} (hts : OfInterval P Q ts)
    (hP : ∀ us, P us → ∃ a, Bound g (g.IsOperand d) us a)
    (hQ : ∀ us, Q us → ∃ b, Bound g (g.IsOperand d) us b) (hkinds : ∀ t ∈ ts, t.kind ≠ .finish)
    (h : g.IsOperand d ts o) : ∃ k us vs a b, d = k + 1 ∧ P us ∧ Q vs ∧
      Bound g (g.IsOperand k) us a ∧ Bound g (g.IsOperand k) vs b := by
  obtain ⟨ht, hp, has, hc, hbs, hp'⟩ := hts
  obtain ⟨a, ha⟩ := hP _ has
  obtain ⟨b, hb⟩ := hQ _ hbs
  obtain ⟨k, rfl, ha', hb'⟩ := IsOperand.bounds ht hp ha hc hb hp' hkinds h
  exact ⟨k, _, _, a, b, rfl, has, hbs, ha', hb'⟩

/-! ## Strings that are bounds -/

section Strings

variable {content : String} (hopen : content ≠ openMarker)

include hopen

theorem stringBound?_of_timestamp {i : Timestamp}
    (h : Literal.readTimestamp (g.dialect.allows .naiveTimestamps) content = .ok i) :
    g.stringBound? nowhere content = some (.literal nowhere (.timestamp i)) := by
  rw [stringBound?, if_neg hopen, h]

variable (hno : ∀ i, Literal.readTimestamp (g.dialect.allows .naiveTimestamps) content ≠ .ok i)

include hno

theorem stringBound?_of_date {day : Date} (h : Literal.readDate content = .ok day) :
    g.stringBound? nowhere content = some (.literal nowhere (.date day)) := by
  rw [stringBound?, if_neg hopen]
  split
  · exact absurd ‹_› (hno _)
  · rw [h]

theorem stringBound?_eq_none (h : ∀ day, Literal.readDate content ≠ .ok day) :
    g.stringBound? nowhere content = none := by
  rw [stringBound?, if_neg hopen]
  split
  · exact absurd ‹_› (hno _)
  · split
    · exact absurd ‹_› (h _)
    · rfl

end Strings

/-! ## Characters of an interval -/

namespace Spells

variable {xs : List Char} {A B : String} {P Q : List Token → Prop}

theorem interval (hP : g.Spells A.toList P) (hQ : g.Spells B.toList Q) :
    g.Spells ("INTERVAL(" ++ A ++ ", " ++ B ++ ")").toList (OfInterval P Q) := by
  have htext : ("INTERVAL(" ++ A ++ ", " ++ B ++ ")").toList =
      "INTERVAL".toList ++ '(' :: (A.toList ++ ',' :: ' ' :: (B.toList ++ [')'])) := by simp
  have hclose := hQ.append (stops_cons.2 (by decide)) rightParen
  have hcomma := hP.append (stops_cons.2 (by decide)) (hclose.blank.mark .comma (stops_blank _))
  rw [htext]
  refine (hcomma.opening (by decide +kernel)).imp ?_
  rintro _ ⟨t, _, rfl, ht, p, _, rfl, hp, as, _, rfl, has, c, _, rfl, hc, bs, _, rfl, hbs, p', _,
    rfl, hp', rfl⟩
  exact .intro ht hp has hc hbs hp'

theorem instant (word : String) {front : String} (hfront : front.toList = word.toList ++ ['('])
    (hword : isIdentifier word.toList = true) (s : String) :
    g.Spells (front ++ stringText s ++ ")").toList fun ts =>
      ∃ t p u p', ts = [t, p, u, p'] ∧ t.kind = .identifier word ∧ p.kind = .mark .leftParen ∧
        u.kind = .string s ∧ p'.kind = .mark .rightParen := by
  have htext : (front ++ stringText s ++ ")").toList =
      word.toList ++ '(' :: ((stringText s).toList ++ [')']) := by simp [hfront]
  rw [htext]
  have hclose := (string (g := g) s).append (stops_cons.2 (by decide)) rightParen
  refine (hclose.opening hword).imp ?_
  rintro _ ⟨t, _, rfl, ht, p, _, rfl, hp, _, _, rfl, ⟨u, _, rfl, hu, rfl⟩, p', _, rfl, hp', rfl⟩
  exact ⟨t, p, u, p', rfl, ht, hp, hu, hp'⟩

section Bounds

variable {item : Category Operand} {content : String}

theorem stringBound (h : g.stringBound? nowhere content = some a) :
    g.Spells (stringText content).toList (Bound g item · a) := by
  refine (string content).imp ?_
  rintro _ ⟨t, _, rfl, ht, rfl⟩
  exact .string ht h

/-- Any other string is a literal there. -/
theorem literalBound (h : g.stringBound? nowhere content = none) :
    g.Spells (stringText content).toList
      (Bound g (g.IsOperand n) · (.literal nowhere (Operand.stringLiteral g content))) := by
  refine (string content).imp ?_
  rintro _ ⟨t, _, rfl, ht, rfl⟩
  refine .operand (IsOperand.primary fun _ => .string ht) ?_
  rintro _ content' ⟨⟩ hk
  cases ht.symm.trans hk
  exact h

theorem timestampBound {i : Timestamp}
    (h : Literal.readTimestamp (g.dialect.allows .naiveTimestamps) content = .ok i) :
    g.Spells ("TIMESTAMP(" ++ stringText content ++ ")").toList
      (Bound g (g.IsOperand n) · (.literal nowhere (.timestamp i))) := by
  refine (instant "TIMESTAMP" (by simp) (by decide +kernel) content).imp ?_
  rintro _ ⟨t, p, u, p', rfl, ht, hp, hu, hp'⟩
  have hoperand : g.IsOperand n [t, p, u, p'] (.literal nowhere (.timestamp i)) :=
    IsOperand.primary fun _ => .timestamp ht (beq_self_eq_true _) hp hu h hp'
  exact Bound.of_isOperand hoperand trivial

theorem dateBound {day : Date} (h : Literal.readDate content = .ok day) :
    g.Spells ("DATE(" ++ stringText content ++ ")").toList
      (Bound g (g.IsOperand n) · (.literal nowhere (.date day))) := by
  refine (instant "DATE" (by simp) (by decide +kernel) content).imp ?_
  rintro _ ⟨t, p, u, p', rfl, ht, hp, hu, hp'⟩
  have hoperand : g.IsOperand n [t, p, u, p'] (.literal nowhere (.date day)) :=
    IsOperand.primary fun _ => .date ht (beq_self_eq_true _) hp hu h hp'
  exact Bound.of_isOperand hoperand trivial

end Bounds

end Spells

end Grammar

/-! ## Intervals with a bound in either place -/

/-- An interval from one text to another, or the other way around. -/
def intervalText (exchanged : Bool) (A B : String) : String :=
  if exchanged then "INTERVAL(" ++ B ++ ", " ++ A ++ ")" else "INTERVAL(" ++ A ++ ", " ++ B ++ ")"

def Operand.intervalOf (exchanged : Bool) (a b : Operand) : Operand :=
  if exchanged then .interval nowhere b a else .interval nowhere a b

def Expression.intervalOf (exchanged : Bool) (a b : Expression) : Expression :=
  .literal (if exchanged then .interval b a else .interval a b)

namespace Operand

variable {v : Vocabulary} {a b o : Operand} {e x y : Expression} {exchanged : Bool} {s : Span}

theorem isBound_of_denotes (h : o.Denotes v e) (he : e.IsBound) (hne : e ≠ .openBound) :
    o.IsBound := by
  cases o with
  | literal s l =>
    rw [denotes_literal.1 h] at he hne
    cases l with
    | date | timestamp => trivial
    | string content => exact absurd (congrArg (Expression.literal ∘ Value.string) he) hne
    | _ => exact he.elim
  | property | call => trivial
  | arithmetic s op l r =>
    obtain ⟨_, _, -, -, rfl⟩ := denotes_arithmetic.1 h
    exact he.elim
  | interval s l r =>
    obtain ⟨_, _, -, -, rfl⟩ := denotes_interval.1 h
    exact he.elim
  | openBound s => exact absurd h not_denotes_openBound
  | geometry s g srid =>
    obtain ⟨-, rfl⟩ := denotes_geometry.1 h
    exact he.elim

theorem denotes_intervalOf (ha : a.DenotesBound v x) (hb : b.DenotesBound v y) :
    (intervalOf exchanged a b).Denotes v (.intervalOf exchanged x y) := by
  cases exchanged with
  | false => exact (denotes_interval (s := nowhere)).2 ⟨x, y, ha, hb, rfl⟩
  | true => exact (denotes_interval (s := nowhere)).2 ⟨y, x, hb, ha, rfl⟩

/-- Work that fails because an operand is no bound. -/
def RefusesBound (made : ExceptT MeaningError Id Expression) : Prop :=
  ∃ found span, (found = "string" ∨ found = "color") ∧ made = throw ⟨.invalidBound found, span⟩

/-- A string as a literal is no bound, colour or not. -/
theorem refusesBound_stringLiteral {g : Grammar} {content : String}
    (ho : o.bare = .literal nowhere (stringLiteral g content)) :
    RefusesBound (o.asBound .tree (o.make v .tree)) := by
  cases o with
  | literal s l =>
    rw [bare] at ho
    obtain rfl : l = stringLiteral g content := (literal.inj ho).2
    unfold stringLiteral
    split
    · split
      · exact ⟨"color", s, .inr rfl, rfl⟩
      · exact ⟨"string", s, .inl rfl, rfl⟩
    · exact ⟨"string", s, .inl rfl, rfl⟩
  | _ => cases ho

theorem refusesBound_intervalOf {g : Grammar} {content : String}
    (ho : o.bare = intervalOf exchanged (.literal nowhere (stringLiteral g content)) b)
    (hb : b.DenotesBound v y) : RefusesBound (o.make v .tree) := by
  cases o with
  | interval s start stop =>
    rw [bare, intervalOf] at ho
    rw [make]
    cases exchanged with
    | false =>
      obtain ⟨-, hstart, -⟩ := interval.inj ho
      obtain ⟨found, span, hfound, hthrow⟩ := refusesBound_stringLiteral (v := v) hstart
      exact ⟨found, span, hfound, by rw [hthrow]; rfl⟩
    | true =>
      obtain ⟨-, rfl, hstop⟩ := interval.inj ho
      obtain ⟨found, span, hfound, hthrow⟩ := refusesBound_stringLiteral (v := v) hstop
      have hstart : Gives (start.asBound .tree (start.make v .tree)) y :=
        gives_asBound.2 ((denotesBound_bare denotes_bare).1 hb)
      exact ⟨found, span, hfound, by rw [hstart, pure_bind, hthrow]; rfl⟩
  | _ => cases exchanged <;> cases ho

end Operand

namespace Compiler

variable {c : Compiler} {A B : String} {ts : List Token} {p : Position} {a b o : Operand} {n : Nat}
  {e x y : Expression} {exchanged : Bool} {v : Vocabulary}

/-- The tokens of a text are the same operands wherever the text stands. -/
theorem spells_tokens (c : Compiler) (source : String)
    (h : tokenize B = .ok (ts ++ [.finishAt p])) :
    (c.grammar source).Spells B.toList fun us =>
      ∀ n o, (c.grammar source).IsOperand n us o ↔ (c.grammar B).IsOperand n ts o := by
  have hsize : ∀ t ∈ ts, t.span.start ≤ Wkt.byteLength B.toList ∧
      t.span.stop ≤ Wkt.byteLength B.toList := by
    obtain ⟨us, q, heq, hus⟩ := tokenize_eq_ok.1 h
    obtain ⟨rfl, -⟩ := List.append_inj' heq rfl
    have hq : q.offset = Wkt.byteLength B.toList := hus.offset_eq.trans (Nat.zero_add _)
    intro t ht
    have hstop := hq ▸ (hus.bounds t ht).2
    exact ⟨(hus.covers.exact t ht).nonempty.le.trans hstop, hstop⟩
  refine Grammar.Spells.of_tokenize h fun hsource hm n o => ⟨fun ho => ?_, fun ho => ?_⟩
  · have hwidens := Permits.widensAt_part c hsource
    exact hwidens.isOperand_same rfl (Nat.le_refl n) (hm.back hsize) trivial ho
  · exact ((Permits.refl c).widens hsource).isOperand_same rfl (Nat.le_refl n) hm trivial ho

theorem spells_interval {g : Grammar}
    (ha : g.Spells A.toList (Grammar.Bound g (g.IsOperand n) · a))
    (hb : g.Spells B.toList (Grammar.Bound g (g.IsOperand n) · b)) :
    g.Spells (intervalText exchanged A B).toList
      (g.IsOperand (n + 1) · (.intervalOf exchanged a b)) := by
  have hinterval {X Y : String} {x y : Operand}
      (hx : g.Spells X.toList (Grammar.Bound g (g.IsOperand n) · x))
      (hy : g.Spells Y.toList (Grammar.Bound g (g.IsOperand n) · y)) :
      g.Spells ("INTERVAL(" ++ X ++ ", " ++ Y ++ ")").toList
        (g.IsOperand (n + 1) · (.interval nowhere x y)) := by
    refine (hx.interval hy).imp ?_
    rintro _ ⟨ht, hp, has, hc, hbs, hp'⟩
    have hfactor : g.IsFactor (n + 1) _ _ :=
      .primary (.interval ht (beq_self_eq_true _) hp rfl has hc hbs hp')
    exact hfactor.isOperand
  cases exchanged with
  | false => exact hinterval ha hb
  | true => exact hinterval hb ha

theorem tokens_of_spells {source : String} {P : List Token → Prop} {q : Position}
    (h : (c.grammar source).Spells source.toList P)
    (ht : tokenize source = .ok (ts ++ [.finishAt q])) : P ts := by
  obtain ⟨us, q', hus, hP⟩ := Grammar.Spells.tokenize (g := c.grammar source) h
  obtain ⟨rfl, -⟩ := List.append_inj' (Except.ok.inj (hus.symm.trans ht)) rfl
  exact hP

/-- A text that is the bound of one interval fits with a level less than there are. -/
theorem exists_level (hB : tokenize B = .ok (ts ++ [.finishAt p]))
    (hb : (c.grammar B).IsOperand c.dialect.maxDepth ts b) (hbound : b.IsBound)
    (h : c.operand (intervalText exchanged (stringText openMarker) B) = .ok o) :
    ∃ k, c.dialect.maxDepth = k + 1 ∧ (c.grammar B).IsOperand k ts b := by
  let g := c.grammar (intervalText exchanged (stringText openMarker) B)
  let bound := Grammar.Bound g (g.IsOperand c.dialect.maxDepth)
  let P (us : List Token) : Prop := bound us (.openBound nowhere)
  let Q (us : List Token) : Prop := ∀ n o, g.IsOperand n us o ↔ (c.grammar B).IsOperand n ts o
  have hP : g.Spells (stringText openMarker).toList P := Grammar.Spells.stringBound (if_pos rfl)
  have hQ : g.Spells B.toList Q := spells_tokens c _ hB
  have hopen (us : List Token) (hus : P us) : ∃ a, bound us a := ⟨_, hus⟩
  have hbounds (us : List Token) (hus : Q us) : ∃ b, bound us b :=
    ⟨b, .of_isOperand ((hus _ b).2 hb) hbound⟩
  obtain ⟨tokens, htokens, hread⟩ := phrase_eq_ok.1 h
  obtain ⟨us, q, rfl, hus⟩ := tokenize_finish htokens
  have ho : g.IsOperand c.dialect.maxDepth us o.bare :=
    (Grammar.operand_iff hus (Token.kind_finishAt q)).1 ⟨o, hread, rfl⟩
  -- the tokens of the other text in the interval are a bound there
  obtain ⟨k, vs, b', hk, hvs, hb'⟩ : ∃ k vs b', c.dialect.maxDepth = k + 1 ∧ Q vs ∧
      Grammar.Bound g (g.IsOperand k) vs b' := by
    cases exchanged with
    | false =>
      obtain ⟨k, _, vs, _, b', hk, -, hvs, -, hb'⟩ :=
        (tokens_of_spells (hP.interval hQ) htokens).bounds hopen hbounds hus ho
      exact ⟨k, vs, b', hk, hvs, hb'⟩
    | true =>
      obtain ⟨k, vs, _, b', _, hk, hvs, -, hb', -⟩ :=
        (tokens_of_spells (hQ.interval hP) htokens).bounds hbounds hopen hus ho
      exact ⟨k, vs, b', hk, hvs, hb'⟩
  have hb' := (hvs k b').1 (hb'.isOperand ((hvs _ b).2 hb) hbound)
  obtain rfl : b = b' := Grammar.IsOperand.unique_all (ne_finish_of_tokenize hB) hb
    (hb'.mono (show k ≤ c.dialect.maxDepth by omega))
  exact ⟨k, hk, hb'⟩

/-- A text that stands as a bound is one with the same meaning in every interval. -/
theorem exists_bound (hB : c.expression B = .ok e) (he : e.IsBound) (hne : e ≠ .openBound)
    {t : Expression}
    (h : c.expression (intervalText exchanged (stringText openMarker) B) = .ok t) :
    ∃ k b, c.dialect.maxDepth = k + 1 ∧ b.DenotesBound c.vocabulary e ∧ ∀ source,
      (c.grammar source).Spells B.toList
        (Grammar.Bound (c.grammar source) ((c.grammar source).IsOperand k) · b) := by
  obtain ⟨ts, p, b, htokens, hb, hd⟩ := expression_iff.1 hB
  obtain ⟨o, ho, -⟩ := expression_eq_ok.1 h
  have hbound := Operand.isBound_of_denotes hd he hne
  obtain ⟨k, hk, hb'⟩ := exists_level htokens hb hbound ho
  refine ⟨k, b, hk, .inr ⟨hbound, hd⟩, fun source => ?_⟩
  exact (spells_tokens c source htokens).imp fun us hus => .of_isOperand ((hus k b).2 hb') hbound

section Bounds

variable {k : Nat} (hk : c.dialect.maxDepth = k + 1) (hb : b.DenotesBound c.vocabulary e)
  (hB : ∀ source, (c.grammar source).Spells B.toList
    (Grammar.Bound (c.grammar source) ((c.grammar source).IsOperand k) · b))

include hk hb hB

/-- A bound with a meaning in front of the other one, or behind it. -/
theorem expression_of_bounds (ha : a.DenotesBound c.vocabulary x)
    (hA : ∀ source, (c.grammar source).Spells A.toList
      (Grammar.Bound (c.grammar source) ((c.grammar source).IsOperand k) · a)) :
    c.expression (intervalText exchanged A B) = .ok (.intervalOf exchanged x e) := by
  let source := intervalText exchanged A B
  have hspells : (c.grammar source).Spells source.toList
      ((c.grammar source).IsOperand (k + 1) · (.intervalOf exchanged a b)) :=
    spells_interval (hA source) (hB source)
  exact expression_of_spells (hk ▸ hspells) (Operand.denotes_intervalOf ha hb)

theorem expression_of_literalBound {content : String}
    (hcontent : ∀ source, (c.grammar source).stringBound? nowhere content = none) :
    ∃ found span, (found = "string" ∨ found = "color") ∧
      c.expression (intervalText exchanged (stringText content) B) =
        .error (.semantic ⟨.invalidBound found, span⟩) := by
  let source := intervalText exchanged (stringText content) B
  have hspells : (c.grammar source).Spells source.toList ((c.grammar source).IsOperand (k + 1) ·
      (.intervalOf exchanged
        (.literal nowhere (Operand.stringLiteral (c.grammar source) content)) b)) :=
    spells_interval (.literalBound (hcontent source)) (hB source)
  obtain ⟨ts, p, htokens, hts⟩ := hspells.tokenize
  obtain ⟨o, hread, ho⟩ :=
    (Grammar.operand_iff (ne_finish_of_tokenize htokens) (Token.kind_finishAt p)).2
      (show (c.grammar source).IsOperand c.dialect.maxDepth ts _ from hk ▸ hts)
  obtain ⟨found, span, hfound, hmake⟩ := Operand.refusesBound_intervalOf ho hb
  exact ⟨found, span, hfound, expression_eq_error.2
    (.inr ⟨o, _, phrase_eq_ok.2 ⟨_, htokens, hread⟩, hmake, rfl⟩)⟩

end Bounds

/-- A string as a bound of an interval, the other bound being any text that is compiled to a
property, a call, a date or a timestamp and fits into an interval: it is the open bound, or means
what it means in `TIMESTAMP`, or else what it means in `DATE`, or it is refused. -/
theorem interval_string {given : Bool} {t : Expression} (hB : c.expression B = .ok e)
    (he : e.IsBound)
    (hne : e ≠ .openBound) (h : c.expression (intervalText given (stringText openMarker) B) = .ok t)
    (s : String) (exchanged : Bool) :
    (s = openMarker →
      c.expression (intervalText exchanged (stringText s) B) =
        .ok (.intervalOf exchanged .openBound e)) ∧
    (s ≠ openMarker →
      (∀ i, Literal.readTimestamp (c.dialect.allows .naiveTimestamps) s = .ok i →
        c.expression (intervalText exchanged (stringText s) B) =
          .ok (.intervalOf exchanged (.literal (.timestamp i)) e) ∧
        c.expression (intervalText exchanged ("TIMESTAMP(" ++ stringText s ++ ")") B) =
          .ok (.intervalOf exchanged (.literal (.timestamp i)) e)) ∧
      ((∀ i, Literal.readTimestamp (c.dialect.allows .naiveTimestamps) s ≠ .ok i) →
        (∀ d, Literal.readDate s = .ok d →
          c.expression (intervalText exchanged (stringText s) B) =
            .ok (.intervalOf exchanged (.literal (.date d)) e) ∧
          c.expression (intervalText exchanged ("DATE(" ++ stringText s ++ ")") B) =
            .ok (.intervalOf exchanged (.literal (.date d)) e)) ∧
        ((∀ d, Literal.readDate s ≠ .ok d) → ∃ found span, (found = "string" ∨ found = "color") ∧
          c.expression (intervalText exchanged (stringText s) B) =
            .error (.semantic ⟨.invalidBound found, span⟩)))) := by
  obtain ⟨k, b, hk, hb, hspells⟩ := exists_bound hB he hne h
  refine ⟨fun hs => ?_, fun hs => ⟨fun i hi => ?_, fun hno => ⟨fun d hd => ?_, fun hno' => ?_⟩⟩⟩
  · refine expression_of_bounds hk hb hspells (.inl ⟨nowhere, rfl, rfl⟩) fun source => ?_
    exact .stringBound (if_pos hs)
  · have hbound : (Operand.literal nowhere (.timestamp i)).DenotesBound c.vocabulary
        (.literal (.timestamp i)) := .inr ⟨trivial, Operand.denotes_literal.2 rfl⟩
    exact ⟨expression_of_bounds hk hb hspells hbound fun _ =>
        .stringBound (Grammar.stringBound?_of_timestamp hs hi),
      expression_of_bounds hk hb hspells hbound fun _ => .timestampBound hi⟩
  · have hbound : (Operand.literal nowhere (.date d)).DenotesBound c.vocabulary
        (.literal (.date d)) := .inr ⟨trivial, Operand.denotes_literal.2 rfl⟩
    exact ⟨expression_of_bounds hk hb hspells hbound fun _ =>
        .stringBound (Grammar.stringBound?_of_date hs hno hd),
      expression_of_bounds hk hb hspells hbound fun _ => .dateBound hd⟩
  · exact expression_of_literalBound hk hb hspells fun _ => Grammar.stringBound?_eq_none hs hno hno'

/-- The day of a start in front of a property, and a colour behind it. -/
theorem interval_string_landing : ∃ d,
    standard.expression "INTERVAL('1969-07-16', (landing))" =
      .ok (.literal (.interval (.literal (.date d)) (.property "landing"))) ∧
    standard.expression "INTERVAL(DATE('1969-07-16'), (landing))" =
      .ok (.literal (.interval (.literal (.date d)) (.property "landing"))) ∧
    ∃ found span, (found = "string" ∨ found = "color") ∧
      standard.expression "INTERVAL((landing), '#FF0000')" =
        .error (.semantic ⟨.invalidBound found, span⟩) := by
  have hproperty : (standard.expression "(landing)").toOption.bind Expression.asProperty? =
      some "landing" := by decide +kernel
  obtain ⟨e, he, hlanding⟩ := Option.bind_eq_some_iff.1 hproperty
  obtain rfl : e = .property "landing" := by
    cases e with
    | property path => exact congrArg _ (Option.some.inj hlanding)
    | _ => cases hlanding
  obtain ⟨t, ht⟩ :=
    exists_ok (x := standard.expression (intervalText false (stringText openMarker) "(landing)"))
      (by decide +kernel)
  obtain ⟨d, hd⟩ := exists_ok (x := Literal.readDate "1969-07-16") (by decide +kernel)
  have hstring := interval_string (ok_of_toOption he) trivial nofun ht
  have hday := hstring "1969-07-16" false |>.2 (by decide)
    |>.2 (ne_ok (by decide +kernel)) |>.1 d hd
  have hcolor := hstring "#FF0000" true |>.2 (by decide)
    |>.2 (ne_ok (by decide +kernel)) |>.2 (ne_ok (by decide +kernel))
  exact ⟨d, hday.1, hday.2, hcolor⟩

end Compiler

end FeatureFilter
