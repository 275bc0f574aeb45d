import FeatureFilter.Compiler
import FeatureFilter.Proofs.Syntax.Conditions
import FeatureFilter.Proofs.Syntax.Denotation
import FeatureFilter.Proofs.Token.Gluing

/-!
# Whole texts

The tokens of a text are read as a phrase when they are one by the rules of the grammar
(`Grammar.condition_iff`, `Grammar.operand_iff`), and the text is compiled to what the phrase
denotes (`Compiler.filter_iff`, `Compiler.expression_iff`).
-/

namespace FeatureFilter

open Reader

/-- What gives a value gives some value. -/
theorem exists_ok {ε α : Type} {x : Except ε α} (h : x.toOption.isSome = true) :
    ∃ a, x = .ok a := by
  cases x with
  | ok a => exact ⟨a, rfl⟩
  | error e => cases h

/-- What gives no value gives an error. -/
theorem exists_error {ε α : Type} {x : Except ε α} (h : x.toOption.isNone = true) :
    ∃ e, x = .error e := by
  cases x with
  | ok a => cases h
  | error e => exact ⟨e, rfl⟩

theorem ne_ok {ε α : Type} {x : Except ε α} (h : x.toOption.isNone = true) (a : α) : x ≠ .ok a := by
  rintro rfl
  cases h

theorem ok_of_toOption {ε α : Type} {x : Except ε α} {a : α} (h : x.toOption = some a) :
    x = .ok a := by
  cases x with
  | ok b => exact congrArg _ (Option.some.inj h)
  | error e => cases h

/-! ## Tokens of texts -/

theorem tokenize_finish {text : String} {tokens : List Token} (h : tokenize text = .ok tokens) :
    ∃ ts p, tokens = ts ++ [.finishAt p] ∧ ∀ t ∈ ts, t.kind ≠ .finish := by
  obtain ⟨ts, p, rfl, hts⟩ := tokenize_eq_ok.1 h
  exact ⟨ts, p, rfl, hts.ne_finish⟩

theorem ne_finish_of_tokenize {text : String} {ts : List Token} {p : Position}
    (h : tokenize text = .ok (ts ++ [.finishAt p])) : ∀ t ∈ ts, t.kind ≠ .finish := by
  obtain ⟨us, q, he, hus⟩ := tokenize_finish h
  obtain ⟨rfl, -⟩ := List.append_inj' he rfl
  exact hus

theorem Token.kind_finishAt (p : Position) : (Token.finishAt p).kind = .finish := rfl

/-! ## Reading all tokens -/

namespace Grammar

variable {α β : Type} {s s' : Cursor} {ts : List Token} {fin : Token}

theorem expectFinish_eq_ok {u : Unit} : expectFinish s = .ok (u, s') ↔
    s.kind 0 = .finish ∧ s' = s := by
  rw [expectFinish, peekKind_bind]
  by_cases h : s.kind 0 = .finish
  · simp only [h, ne_eq, not_true_eq_false, if_false, true_and]
    exact pure_eq_ok.trans ⟨fun h => h.2.symm, fun h => ⟨rfl, h.symm⟩⟩
  · simp only [h, ne_eq, not_false_eq_true, if_true, false_and, iff_false]
    exact failHere_ne_ok

theorem run'_eq_ok {x : Reader α} {a : α} : x.run' s = .ok a ↔ ∃ s', x s = .ok (a, s') := by
  rw [run'_eq]
  cases hx : x s with
  | ok r =>
    constructor
    · intro h
      cases h
      exact ⟨r.2, rfl⟩
    · rintro ⟨s', h⟩
      cases h
      rfl
  | error e => exact ⟨nofun, fun ⟨_, h⟩ => nomatch h⟩

/-- Where tokens are taken up to an end, the tokens in front of the first end are taken. -/
theorem takes_all {us : List Token} (hts : ∀ t ∈ ts, t.kind ≠ .finish) (hfin : fin.kind = .finish)
    (h : s.Takes us s') (hs : s.ahead = ts ++ [fin]) (hk : s'.kind 0 = .finish) : us = ts := by
  have hus := h.kinds
  have ha : ts ++ [fin] = us ++ s'.ahead := hs.symm.trans h.ahead
  clear h hs
  induction us generalizing ts with
  | nil =>
    cases ts with
    | nil => rfl
    | cons t ts =>
      have ht : s'.kind 0 = t.kind := by
        rw [Cursor.kind, Cursor.token, ← List.nil_append s'.ahead, ← ha]
        rfl
      exact absurd (ht.symm.trans hk) (hts t (List.mem_cons_self ..))
  | cons u us ih =>
    cases ts with
    | nil =>
      obtain ⟨rfl, -⟩ := List.cons.inj ha
      exact absurd hfin (hus fin (List.mem_cons_self ..))
    | cons t ts =>
      obtain ⟨rfl, htail⟩ := List.cons.inj ha
      rw [ih (fun t' ht => hts t' (List.mem_cons_of_mem _ ht))
        (fun t' ht => hus t' (List.mem_cons_of_mem _ ht)) htail]

variable {g : Grammar} {category : Category β} {ends : Cursor → Prop} {shape : α → β}
  {x : Reader α} {b : β}

theorem fits_all (hx : Fits ends shape category x) (hends : ∀ s, s.kind 0 = .finish → ends s)
    (source : String) (hts : ∀ t ∈ ts, t.kind ≠ .finish) (hfin : fin.kind = .finish) :
    (∃ a, (do let a ← x; expectFinish; return a : Reader α).run'
        (.ofTokens source (ts ++ [fin])) = .ok a ∧ shape a = b) ↔ category ts b := by
  constructor
  · rintro ⟨a, h, rfl⟩
    obtain ⟨s', hrun⟩ := run'_eq_ok.1 h
    obtain ⟨a', s₁, ha, hrest⟩ := bind_eq_ok.1 hrun
    obtain ⟨u, s₂, hu, hend⟩ := bind_eq_ok.1 hrest
    obtain ⟨rfl, rfl⟩ := pure_eq_ok.1 hend
    obtain ⟨hk, rfl⟩ := expectFinish_eq_ok.1 hu
    obtain ⟨us, hus, hc⟩ := hx.sound rfl ha
    exact takes_all hts hfin hus rfl hk ▸ hc
  · intro hb
    let s' : Cursor := { Cursor.ofTokens source [fin] with lastStop := stopOf 0 ts }
    have hk : s'.kind 0 = .finish := hfin
    have ht : (Cursor.ofTokens source (ts ++ [fin])).Takes ts s' := ⟨rfl, rfl, rfl, rfl, hts⟩
    obtain ⟨a, ha, rfl⟩ := hx.complete ht hb (hends _ hk)
    have hu : expectFinish s' = .ok ((), s') := expectFinish_eq_ok.2 ⟨hk, rfl⟩
    exact ⟨a, run'_eq_ok.2 ⟨s', bind_eq_ok.2 ⟨a, s', ha, bind_eq_ok.2 ⟨(), s', hu, rfl⟩⟩⟩, rfl⟩

theorem endsPredicate_of_finish (h : s.kind 0 = .finish) : s.EndsPredicate := by
  rw [Cursor.EndsPredicate, h]
  rfl

/-- Tokens are read as a condition when they are one. -/
theorem condition_iff {b : Condition} (hts : ∀ t ∈ ts, t.kind ≠ .finish)
    (hfin : fin.kind = .finish) :
    (∃ c, g.condition (ts ++ [fin]) = .ok c ∧ c.bare = b) ↔
      g.IsCondition g.dialect.maxDepth ts b :=
  fits_all (Condition.fits_read g _)
    (fun s h => ⟨⟨endsPredicate_of_finish h, by rw [h]; rfl⟩, by rw [h]; rfl⟩) g.source hts hfin

/-- The tokens of a text are read as a condition when those before the end are one by the rules of
the grammar, with no more levels of nesting than the dialect allows. They are one condition at most,
and that is the one read. -/
theorem condition_ok_iff (g : Grammar) {tokens : List Token}
    (h : tokenize g.source = .ok tokens) :
    ((∃ c, g.condition tokens = .ok c) ↔
      ∃ b, g.IsCondition g.dialect.maxDepth tokens.dropLast b) ∧
    ∀ c b, g.condition tokens = .ok c →
      (g.IsCondition g.dialect.maxDepth tokens.dropLast b ↔ b = c.bare) := by
  obtain ⟨ts, p, rfl, hts⟩ := tokenize_finish h
  rw [List.dropLast_concat]
  have hread {b : Condition} : (∃ c, g.condition (ts ++ [.finishAt p]) = .ok c ∧ c.bare = b) ↔
      g.IsCondition g.dialect.maxDepth ts b := condition_iff hts (Token.kind_finishAt p)
  constructor
  · constructor
    · rintro ⟨c, hc⟩
      exact ⟨c.bare, hread.1 ⟨c, hc, rfl⟩⟩
    · rintro ⟨b, hb⟩
      obtain ⟨c, hc, -⟩ := hread.2 hb
      exact ⟨c, hc⟩
  · intro c b hc
    constructor
    · intro hb
      obtain ⟨c', hc', rfl⟩ := hread.2 hb
      cases hc.symm.trans hc'
      rfl
    · rintro rfl
      exact hread.1 ⟨c, hc, rfl⟩

/-- A text with a parenthesis that is tried as a group first and turns out to be an operand. -/
theorem condition_ok_iff_not_group : ∃ tokens, tokenize "NOT (a) = 1" = .ok tokens ∧
    ((∃ c, Grammar.condition ⟨.cql2, Wkt.read, "NOT (a) = 1"⟩ tokens = .ok c) ↔
      ∃ b, Grammar.IsCondition ⟨.cql2, Wkt.read, "NOT (a) = 1"⟩ 100 tokens.dropLast b) ∧
    ∀ c b, Grammar.condition ⟨.cql2, Wkt.read, "NOT (a) = 1"⟩ tokens = .ok c →
      (Grammar.IsCondition ⟨.cql2, Wkt.read, "NOT (a) = 1"⟩ 100 tokens.dropLast b ↔
        b = c.bare) := by
  obtain ⟨tokens, h⟩ := exists_ok (x := tokenize "NOT (a) = 1") (by decide +kernel)
  exact ⟨tokens, h, condition_ok_iff ⟨.cql2, Wkt.read, "NOT (a) = 1"⟩ h⟩

/-- Tokens are read as an operand when they are one. -/
theorem operand_iff {b : Operand} (hts : ∀ t ∈ ts, t.kind ≠ .finish) (hfin : fin.kind = .finish) :
    (∃ o, g.operand (ts ++ [fin]) = .ok o ∧ o.bare = b) ↔
      g.IsOperand g.dialect.maxDepth ts b :=
  fits_all (Operand.fits_read g _) (fun _ h => (endsPredicate_of_finish h).endsOperand) g.source hts
    hfin

end Grammar

/-! ## Compiling -/

section Errors

variable {ε ε' α : Type} {f : ε → ε'} {x : Except ε α}

theorem mapError_eq_ok {a : α} : x.mapError f = .ok a ↔ x = .ok a := by
  cases x <;> simp [Except.mapError]

theorem mapError_eq_error {e' : ε'} : x.mapError f = .error e' ↔ ∃ e, x = .error e ∧ e' = f e := by
  cases x <;> simp [Except.mapError, eq_comm]

end Errors

namespace Compiler

section Steps

variable {α β : Type} {c : Compiler} {text : String}
  {read : Grammar → List Token → Except SyntaxError α}

theorem phrase_eq_ok {a : α} : c.phrase read text = .ok a ↔
    ∃ tokens, tokenize text = .ok tokens ∧ read (c.grammar text) tokens = .ok a := by
  rw [phrase]
  cases tokenize text with
  | error e => exact ⟨nofun, fun ⟨_, h, _⟩ => nomatch h⟩
  | ok tokens => simp [mapError_eq_ok]

theorem phrase_eq_error {e : CompileError} : c.phrase read text = .error e ↔
    (∃ e', tokenize text = .error e' ∧ e = .lexical e') ∨
      ∃ tokens e', tokenize text = .ok tokens ∧ read (c.grammar text) tokens = .error e' ∧
        e = .syntactic e' := by
  rw [phrase]
  cases tokenize text with
  | error e' => simp [eq_comm]
  | ok tokens => simp [mapError_eq_error]

/-- What compiling comes to, from the phrase of a text and what making its nodes comes to. -/
def meant (phrase : Except CompileError β) (make : β → ExceptT MeaningError Id α) :
    Except CompileError α :=
  phrase.bind fun o => Except.mapError .semantic (make o)

variable {phrase : Except CompileError β} {make : β → ExceptT MeaningError Id α}

theorem meant_eq_ok {a : α} :
    meant phrase make = .ok a ↔ ∃ o, phrase = .ok o ∧ make o = pure a := by
  cases phrase with
  | error e => exact ⟨nofun, fun ⟨_, h, _⟩ => nomatch h⟩
  | ok o =>
    refine mapError_eq_ok.trans ⟨fun h => ⟨o, rfl, h⟩, ?_⟩
    rintro ⟨_, ho, h⟩
    cases ho
    exact h

theorem meant_eq_error {e : CompileError} : meant phrase make = .error e ↔
    phrase = .error e ∨ ∃ o e', phrase = .ok o ∧ make o = throw e' ∧ e = .semantic e' := by
  cases phrase with
  | error e' => simp [meant, Except.bind]
  | ok o =>
    refine mapError_eq_error.trans ⟨fun ⟨e', h, he⟩ => .inr ⟨o, e', rfl, h, he⟩, ?_⟩
    rintro (h | ⟨_, e', ho, h, he⟩)
    · exact nomatch h
    · cases ho
      exact ⟨e', h, he⟩

theorem filter_eq_meant :
    c.filter text = meant (c.condition text) fun o => o.make c.vocabulary .tree := by
  rw [filter, filterWith]
  cases c.condition text <;> rfl

theorem expression_eq_meant :
    c.expression text = meant (c.operand text) fun o => o.make c.vocabulary .tree := by
  rw [expression, expressionWith]
  cases c.operand text <;> rfl

end Steps

variable {c : Compiler} {text : String} {f : Filter} {e : Expression}

theorem filter_eq_ok : c.filter text = .ok f ↔
    ∃ o, c.condition text = .ok o ∧ o.Denotes c.vocabulary f :=
  filter_eq_meant ▸ meant_eq_ok

theorem expression_eq_ok : c.expression text = .ok e ↔
    ∃ o, c.operand text = .ok o ∧ o.Denotes c.vocabulary e :=
  expression_eq_meant ▸ meant_eq_ok

theorem filter_eq_error {e : CompileError} : c.filter text = .error e ↔
    c.condition text = .error e ∨ ∃ o e', c.condition text = .ok o ∧
      (o.make c.vocabulary .tree : ExceptT MeaningError Id Filter) = throw e' ∧ e = .semantic e' :=
  filter_eq_meant ▸ meant_eq_error

theorem expression_eq_error {e : CompileError} : c.expression text = .error e ↔
    c.operand text = .error e ∨ ∃ o e', c.operand text = .ok o ∧
      (o.make c.vocabulary .tree : ExceptT MeaningError Id Expression) = throw e' ∧
        e = .semantic e' :=
  expression_eq_meant ▸ meant_eq_error

/-- A text has a phrase with a property when its tokens are such a phrase by the rules of the
grammar, where the property does not depend on the places of the phrase. -/
theorem phrase_iff {α : Type} {read : Grammar → List Token → Except SyntaxError α} {bare : α → α}
    {isPhrase : List Token → α → Prop} {p : α → Prop}
    (hread : ∀ {ts fin b}, (∀ t ∈ ts, t.kind ≠ .finish) → fin.kind = .finish →
      ((∃ o, read (c.grammar text) (ts ++ [fin]) = .ok o ∧ bare o = b) ↔ isPhrase ts b))
    (hbare : ∀ o, p (bare o) ↔ p o) :
    (∃ o, c.phrase read text = .ok o ∧ p o) ↔
      ∃ ts at' b, tokenize text = .ok (ts ++ [.finishAt at']) ∧ isPhrase ts b ∧ p b := by
  constructor
  · rintro ⟨o, ho, hp⟩
    obtain ⟨tokens, ht, hr⟩ := phrase_eq_ok.1 ho
    obtain ⟨ts, at', rfl, hts⟩ := tokenize_finish ht
    exact ⟨ts, at', bare o, ht, (hread hts rfl).1 ⟨o, hr, rfl⟩, (hbare o).2 hp⟩
  · rintro ⟨ts, at', b, ht, hb, hp⟩
    obtain ⟨o, hr, rfl⟩ := (hread (ne_finish_of_tokenize ht) (Token.kind_finishAt at')).2 hb
    exact ⟨o, phrase_eq_ok.2 ⟨_, ht, hr⟩, (hbare o).1 hp⟩

/-- A text is compiled to a filter when its tokens are a condition that denotes it. -/
theorem filter_iff : c.filter text = .ok f ↔ ∃ ts p b, tokenize text = .ok (ts ++ [.finishAt p]) ∧
    (c.grammar text).IsCondition c.dialect.maxDepth ts b ∧ b.Denotes c.vocabulary f :=
  filter_eq_ok.trans (phrase_iff Grammar.condition_iff fun _ => Condition.denotes_bare)

/-- A text is compiled to an expression when its tokens are an operand that denotes it. -/
theorem expression_iff : c.expression text = .ok e ↔
    ∃ ts p b, tokenize text = .ok (ts ++ [.finishAt p]) ∧
      (c.grammar text).IsOperand c.dialect.maxDepth ts b ∧ b.Denotes c.vocabulary e :=
  expression_eq_ok.trans (phrase_iff Grammar.operand_iff fun _ => Operand.denotes_bare)

end Compiler

end FeatureFilter
