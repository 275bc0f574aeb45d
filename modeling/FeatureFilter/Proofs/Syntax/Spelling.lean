import FeatureFilter.Filter.Text
import FeatureFilter.Proofs.Filter.Pieces
import FeatureFilter.Proofs.Syntax.Rules
import FeatureFilter.Proofs.Token.Gluing

/-!
# Spelling phrases

Characters spell tokens with a property when they are split into such tokens wherever they stand in
the text of a grammar. Spellings are put together like the phrases they spell, with blanks between
them (`Spells.append`), so that there is one lemma for each form of a phrase.
-/

namespace FeatureFilter

open Span (nowhere)

namespace Grammar

/-- Wherever the characters stand in the text of the grammar, they are split into tokens with the
property. -/
def Spells (g : Grammar) (cs : List Char) (P : List Token → Prop) : Prop :=
  ∀ ⦃pre rest p⦄, g.source.toList = pre ++ (cs ++ rest) → p.offset = Wkt.byteLength pre →
    ∃ ts q, Scans p cs ts q ∧ P ts

/-- A token of a kind, and behind it tokens with a property. -/
def Leads (kind : TokenKind) (P : List Token → Prop) (ts : List Token) : Prop :=
  ∃ t us, ts = t :: us ∧ t.kind = kind ∧ P us

namespace Spells

variable {g : Grammar} {cs x w : List Char} {P Q : List Token → Prop} {kind : TokenKind}

theorem imp (h : g.Spells cs P) (hPQ : ∀ ts, P ts → Q ts) : g.Spells cs Q := by
  intro pre rest p hsource hp
  obtain ⟨ts, q, hts, hP⟩ := h hsource hp
  exact ⟨ts, q, hts, hPQ ts hP⟩

theorem nil : g.Spells [] (· = []) := fun _ _ p _ _ => ⟨[], p, .nil, rfl⟩

theorem blank (h : g.Spells cs P) : g.Spells (' ' :: cs) P := by
  intro pre rest p hsource hp
  have hp' : (p.advance ' ').offset = Wkt.byteLength (pre ++ [' ']) := by
    rw [Position.offset_advance, byteLength_append, hp]
    rfl
  have hinside : g.source.toList = pre ++ [' '] ++ (cs ++ rest) := by rw [hsource]; simp
  obtain ⟨ts, q, hts, hP⟩ := h hinside hp'
  exact ⟨ts, q, .blank (by decide) hts, hP⟩

theorem append (h : g.Spells cs P) (hx : Stops x) (h' : g.Spells x Q) :
    g.Spells (cs ++ x) fun ts => ∃ us vs, ts = us ++ vs ∧ P us ∧ Q vs := by
  intro pre rest p hsource hp
  rw [List.append_assoc] at hsource
  obtain ⟨us, q, hus, hP⟩ := h hsource hp
  have hq : q.offset = Wkt.byteLength (pre ++ cs) := by
    rw [hus.offset_eq, byteLength_append, hp]
  have hinside : g.source.toList = pre ++ cs ++ (x ++ rest) := by rw [hsource]; simp
  obtain ⟨vs, r, hvs, hQ⟩ := h' hinside hq
  exact ⟨us ++ vs, r, hus.append hx hvs, us, vs, rfl, hP, hQ⟩

theorem lexeme (hw : splitLexeme (w ++ cs) = .ok (kind, w, cs)) (h : g.Spells cs P) :
    g.Spells (w ++ cs) (Leads kind P) := by
  intro pre rest p hsource hp
  rw [List.append_assoc] at hsource
  have hq : (p.after w).offset = Wkt.byteLength (pre ++ w) := by
    rw [Position.offset_after, byteLength_append, hp]
  have hinside : g.source.toList = pre ++ w ++ (cs ++ rest) := by rw [hsource]; simp
  obtain ⟨ts, q, hts, hP⟩ := h hinside hq
  exact ⟨_, q, .lexeme hw hts, _, ts, rfl, rfl, hP⟩

theorem keyword (k : Keyword) (hx : Stops cs) (h : g.Spells cs P) :
    g.Spells (k.text.toList ++ cs) (Leads (.keyword k) P) := lexeme (firm_keyword k cs hx) h

theorem mark (m : Mark) (hx : Stops cs) (h : g.Spells cs P) :
    g.Spells (m.text.toList ++ cs) (Leads (.mark m) P) := lexeme (firm_mark m cs hx) h

theorem leftParen (h : g.Spells cs P) : g.Spells ('(' :: cs) (Leads (.mark .leftParen) P) :=
  lexeme (solid_leftParen cs) h

theorem opening {word : String} (hword : isIdentifier word.toList = true) (h : g.Spells cs P) :
    g.Spells (word.toList ++ '(' :: cs)
      (Leads (.identifier word) (Leads (.mark .leftParen) P)) := by
  have hsplit := firm_word hword ('(' :: cs) (stops_cons.2 (.inr (.inr (.inl rfl))))
  rw [String.ofList_toList] at hsplit
  exact lexeme hsplit h.leftParen

theorem rightParen : g.Spells [')'] (Leads (.mark .rightParen) (· = [])) :=
  lexeme (solid_rightParen []) nil

theorem string (s : String) : g.Spells (stringText s).toList (Leads (.string s) (· = [])) := by
  have h : g.Spells (Quoted.write '\'' s.toList ++ []) (Leads (.string s) (· = [])) :=
    lexeme (firm_string s [] stops_nil) nil
  rw [List.append_nil] at h
  rwa [stringText, Quoted.writeText, String.toList_ofList]

theorem grouped (h : g.Spells cs P) : g.Spells ('(' :: (cs ++ [')'])) fun ts =>
    ∃ t us t', ts = t :: (us ++ [t']) ∧ t.kind = .mark .leftParen ∧ P us ∧
      t'.kind = .mark .rightParen := by
  refine (h.append (stops_cons.2 (by decide)) rightParen).leftParen.imp ?_
  rintro _ ⟨t, _, rfl, ht, us, _, rfl, hP, t', _, rfl, ht', rfl⟩
  exact ⟨t, us, t', rfl, ht, hP, ht'⟩

/-- A text that is split into tokens spells what they are, further behind as well. -/
theorem of_tokenize {text : String} {ts : List Token} {behind : Position}
    (h : FeatureFilter.tokenize text = .ok (ts ++ [.finishAt behind]))
    (hP : ∀ {pre rest us}, g.source.toList = pre ++ (text.toList ++ rest) →
      Token.AllMoved (Wkt.byteLength pre) us ts → P us) : g.Spells text.toList P := by
  obtain ⟨us, q, heq, hus⟩ := tokenize_eq_ok.1 h
  obtain ⟨rfl, -⟩ := List.append_inj' heq rfl
  intro pre rest p hsource hp
  have hp' : p.offset = Position.start.offset + Wkt.byteLength pre := by
    rw [hp]
    exact (Nat.zero_add _).symm
  obtain ⟨ts', q', hts', hm⟩ := hus.moved hp'
  exact ⟨ts', q', hts', hP hsource hm⟩

theorem tokenize (h : g.Spells g.source.toList P) :
    ∃ ts p, tokenize g.source = .ok (ts ++ [.finishAt p]) ∧ P ts := by
  have hwhole : g.source.toList = [] ++ (g.source.toList ++ []) := by simp
  obtain ⟨ts, q, hts, hP⟩ := h hwhole (show Position.start.offset = Wkt.byteLength [] from rfl)
  exact ⟨ts, q, tokenize_eq_ok.2 ⟨ts, q, rfl, hts⟩, hP⟩

theorem stops_blank (cs : List Char) : Stops (' ' :: cs) := stops_cons.2 (.inl rfl)

/-! ## Operands -/

section Operands

variable {n : Nat} {xs ys : List Char} {x y : Operand}

theorem groupedOperand (h : g.Spells xs (g.IsOperand n · x)) :
    g.Spells ('(' :: (xs ++ [')'])) (g.IsFactor (n + 1) · x) := by
  refine h.grouped.imp ?_
  rintro _ ⟨t, us, t', rfl, ht, hx, ht'⟩
  exact .primary (.group (by rw [ht]; rfl) rfl hx ht')

theorem factor (h : g.Spells xs (g.IsFactor n · x)) : g.Spells xs (g.IsOperand n · x) :=
  h.imp fun _ h => h.isOperand

theorem arithmetic (op : ArithmeticOp) (hx : g.Spells xs (g.IsFactor n · x))
    (hy : g.Spells ys (g.IsFactor n · y)) :
    g.Spells (xs ++ ' ' :: (op.mark.text.toList ++ ' ' :: ys))
      (g.IsOperand n · (.arithmetic nowhere op x y)) := by
  refine (hx.append (stops_blank _) (hy.blank.mark op.mark (stops_blank _)).blank).imp ?_
  rintro _ ⟨us, _, rfl, hus, t, vs, rfl, ht, hvs⟩
  have hsum (hop : Operand.sumOp? t.kind = some op) :
      g.IsOperand n (us ++ t :: vs) (.arithmetic nowhere op x y) :=
    Category.Sequence.pair (Category.Sequence.single hus) hop (Category.Sequence.single hvs)
  have hproduct (hop : Operand.productOp? t.kind = some op) :
      g.IsOperand n (us ++ t :: vs) (.arithmetic nowhere op x y) :=
    Category.Sequence.single (Category.Sequence.pair hus hop hvs)
  cases op with
  | add => exact hsum (by rw [ht]; rfl)
  | sub => exact hsum (by rw [ht]; rfl)
  | mul => exact hproduct (by rw [ht]; rfl)
  | div => exact hproduct (by rw [ht]; rfl)

end Operands

/-! ## Lists -/

theorem linked {α β : Type} {link? : TokenKind → Option β} {item : Category α} {sep : List Char}
    {b : β} (hsep : ∀ {cs P}, g.Spells cs P → g.Spells (sep ++ cs) fun ts =>
      ∃ t us, ts = t :: us ∧ link? t.kind = some b ∧ P us)
    (hstop : ∀ cs, Stops (sep ++ cs)) {css : List (List Char)} {as : List α}
    (h : List.Forall₂ (fun cs a => g.Spells cs (item · a)) css as) :
    g.Spells (css.flatMap (sep ++ ·)) (Category.Linked link? item · (as.map (b, ·))) := by
  induction h with
  | nil =>
    refine nil.imp ?_
    rintro _ rfl
    exact .nil
  | @cons cs a css as hcs _ ih =>
    have hnext : Stops (css.flatMap (sep ++ ·)) := by
      cases css with
      | nil => exact stops_nil
      | cons cs css =>
        rw [List.flatMap_cons, List.append_assoc]
        exact hstop _
    rw [List.flatMap_cons, List.append_assoc]
    refine (hsep (hcs.append hnext ih)).imp ?_
    rintro _ ⟨t, _, rfl, ht, us, vs, rfl, hus, hvs⟩
    exact .cons ht hus hvs

theorem sequence {α β γ : Type} {link? : TokenKind → Option β} {item : Category α}
    (build : α → List (β × α) → γ) {sep cs : List Char} {b : β} {a : α}
    (hsep : ∀ {cs P}, g.Spells cs P → g.Spells (sep ++ cs) fun ts =>
      ∃ t us, ts = t :: us ∧ link? t.kind = some b ∧ P us)
    (hstop : ∀ cs, Stops (sep ++ cs)) {css : List (List Char)} {as : List α}
    (hcs : g.Spells cs (item · a)) (h : List.Forall₂ (fun cs a => g.Spells cs (item · a)) css as) :
    g.Spells (cs ++ css.flatMap (sep ++ ·))
      (Category.Sequence link? item build · (build a (as.map (b, ·)))) := by
  have hnext : Stops (css.flatMap (sep ++ ·)) := by
    cases css with
    | nil => exact stops_nil
    | cons cs css =>
      rw [List.flatMap_cons, List.append_assoc]
      exact hstop _
  refine (hcs.append hnext (linked hsep hstop h)).imp ?_
  rintro _ ⟨us, vs, rfl, hus, hvs⟩
  exact .intro hus hvs

theorem commaList {α : Type} {item : Category α} {a : α} {css : List (List Char)} {as : List α}
    (hcs : g.Spells cs (item · a)) (h : List.Forall₂ (fun cs a => g.Spells cs (item · a)) css as) :
    g.Spells (cs ++ css.flatMap fun cs => ',' :: ' ' :: cs) (item.CommaList · (a :: as)) := by
  have hlink {cs : List Char} {P : List Token → Prop} (h : g.Spells cs P) :
      g.Spells ([',', ' '] ++ cs) fun ts =>
        ∃ t us, ts = t :: us ∧ linkOf (.mark .comma) t.kind = some () ∧ P us := by
    refine (h.blank.mark .comma (stops_blank _)).imp ?_
    rintro _ ⟨t, us, rfl, ht, hP⟩
    exact ⟨t, us, rfl, if_pos ht, hP⟩
  have hs := sequence (fun a links => a :: links.map (·.2)) hlink
    (fun _ => stops_cons.2 (.inr (.inl rfl))) hcs h
  simp only [List.map_map, Function.comp_def, List.map_id'] at hs
  exact hs

/-! ## Predicates -/

section Predicates

variable {operand : Category Operand} {inner : Option (Category Operand)} {x y z : Operand}
  {xs ys zs : List Char} {c : Condition} {negated : Bool} {item : Category Operand}

/-- `NOT` where it is asked for, and a blank in front of it. -/
def notChars (negated : Bool) : List Char := if negated then " NOT".toList else []

theorem not_startsNotIlike {ns us : List Token} {t : Token} {k : Keyword} (hn : Nots negated ns)
    (ht : t.kind = .keyword k) (hk : k ≠ .not) : ¬ StartsNotIlike (ns ++ t :: us) := by
  rintro ⟨n, i, _, w, he, hnot, hi, -⟩
  cases hn with
  | no =>
    obtain ⟨rfl, -⟩ := List.cons.inj he
    exact hk (TokenKind.keyword.inj (ht.symm.trans hnot))
  | yes _ =>
    obtain ⟨-, he⟩ := List.cons.inj he
    obtain ⟨rfl, -⟩ := List.cons.inj he
    cases ht.symm.trans hi

/-- A keyword behind a blank, with `NOT` in front of it where it is asked for. -/
theorem negatable (negated : Bool) (k : Keyword) (hx : Stops cs) (h : g.Spells cs P) :
    g.Spells (notChars negated ++ ' ' :: (k.text.toList ++ cs)) fun ts =>
      ∃ ns t us, ts = ns ++ t :: us ∧ Nots negated ns ∧ t.kind = .keyword k ∧ P us := by
  cases negated with
  | false =>
    refine (h.keyword k hx).blank.imp ?_
    rintro _ ⟨t, us, rfl, ht, hP⟩
    exact ⟨[], t, us, rfl, .no, ht, hP⟩
  | true =>
    refine ((h.keyword k hx).blank.keyword .not (stops_blank _)).blank.imp ?_
    rintro _ ⟨n, _, rfl, hn, t, us, rfl, ht, hP⟩
    exact ⟨[n], t, us, rfl, .yes hn, ht, hP⟩

/-- What is said about a value, but for `NOT ILIKE`. -/
def Tail (g : Grammar) (operand : Category Operand) (inner : Option (Category Operand))
    (x : Operand) (c : Condition) (ts : List Token) : Prop :=
  Said g operand inner x ts c ∧ ¬ StartsNotIlike ts

theorem compare (op : ComparisonOp) (hy : g.Spells ys (operand · y)) :
    g.Spells (' ' :: (op.mark.text.toList ++ ' ' :: ys))
      (Tail g operand inner x (.compare nowhere op x y)) := by
  refine (hy.blank.mark op.mark (stops_blank _)).blank.imp ?_
  rintro _ ⟨t, us, rfl, ht, hus⟩
  refine ⟨.compare (by rw [ht]; cases op <;> rfl) hus, ?_⟩
  rintro ⟨_, _, _, _, he, hnot, -⟩
  obtain ⟨rfl, -⟩ := List.cons.inj he
  cases ht.symm.trans hnot

theorem between (negated : Bool) (hy : g.Spells ys (operand · y)) (hz : g.Spells zs (operand · z)) :
    g.Spells (notChars negated ++ ' ' :: (Keyword.between.text.toList ++
        ' ' :: (ys ++ ' ' :: (Keyword.and.text.toList ++ ' ' :: zs))))
      (Tail g operand inner x (.between nowhere negated x y z)) := by
  have hand := (hz.blank.keyword .and (stops_blank _)).blank
  refine ((hy.append (stops_blank _) hand).blank.negatable negated .between (stops_blank _)).imp ?_
  rintro _ ⟨ns, t, _, rfl, hn, ht, us, _, rfl, hus, t', vs, rfl, ht', hvs⟩
  exact ⟨.between hn ht hus ht' hvs, not_startsNotIlike hn ht nofun⟩

theorem like (negated : Bool) (pattern : String) :
    g.Spells (notChars negated ++ ' ' :: (Keyword.like.text.toList ++
        ' ' :: (stringText pattern).toList))
      (Tail g operand inner x (.like nowhere negated x pattern true)) := by
  refine ((string pattern).blank.negatable negated .like (stops_blank _)).imp ?_
  rintro _ ⟨ns, t, _, rfl, hn, ht, p, _, rfl, hp, rfl⟩
  exact ⟨.like hn ht hp, not_startsNotIlike hn ht nofun⟩

theorem isNull (negated : Bool) :
    g.Spells (' ' :: (Keyword.is.text.toList ++
        (notChars negated ++ ' ' :: Keyword.null.text.toList)))
      (Tail g operand inner x (.isNull nowhere negated x)) := by
  have hnull := nil.negatable (g := g) negated .null stops_nil
  have hstop : Stops (notChars negated ++ ' ' :: (Keyword.null.text.toList ++ [])) := by
    cases negated <;> exact stops_blank _
  rw [← List.append_nil Keyword.null.text.toList]
  refine (hnull.keyword .is hstop).blank.imp ?_
  rintro _ ⟨t, _, rfl, ht, ns, n, _, rfl, hn, hnull, rfl⟩
  exact ⟨.isNull ht hn hnull, not_startsNotIlike .no ht nofun⟩

theorem inList (negated : Bool) {choices : List Operand}
    (h : g.Spells ys (item.CommaList · choices)) :
    g.Spells (notChars negated ++ ' ' :: (Keyword.inList.text.toList ++
        ' ' :: '(' :: (ys ++ [')'])))
      (Tail g operand (some item) x (.inList nowhere negated x choices)) := by
  refine (h.grouped.blank.negatable negated .inList (stops_blank _)).imp ?_
  rintro _ ⟨ns, t, _, rfl, hn, ht, p, us, p', rfl, hp, hus, hp'⟩
  exact ⟨.inList hn ht hp rfl hus hp', not_startsNotIlike hn ht nofun⟩

theorem predicate (hx : g.Spells xs (operand · x)) (hstop : Stops cs)
    (h : g.Spells cs (Tail g operand inner x c)) :
    g.Spells (xs ++ cs) (Predicate g operand inner · c) := by
  refine (hx.append hstop h).imp ?_
  rintro _ ⟨us, vs, rfl, hus, hsaid, hno⟩
  exact .intro hus hsaid fun h => absurd h hno

end Predicates

/-! ## Conditions -/

section Conditions

variable {n : Nat} {c : Condition} {item : Category Condition}

theorem groupedCondition (h : g.Spells cs (g.IsCondition n · c)) :
    g.Spells ('(' :: (cs ++ [')'])) (g.IsNegation (n + 1) · c) := by
  refine h.grouped.imp ?_
  rintro _ ⟨t, us, t', rfl, ht, hus, ht'⟩
  exact .group (by rw [ht]; rfl) rfl hus ht'

theorem negation (h : g.Spells cs (g.IsNegation n · c)) :
    g.Spells (Keyword.not.text.toList ++ ' ' :: cs)
      (g.IsNegation (n + 1) · (.negation nowhere c)) := by
  refine (h.blank.keyword .not (stops_blank _)).imp ?_
  rintro _ ⟨t, us, rfl, ht, hus⟩
  exact .not ht rfl hus

theorem clauses (k : Keyword) (join : Span → List Condition → Condition) {css : List (List Char)}
    {conditions : List Condition} (hne : conditions ≠ []) (hc : g.Spells cs (item · c))
    (h : List.Forall₂ (fun cs c => g.Spells cs (item · c)) css conditions) :
    g.Spells (cs ++ css.flatMap fun cs => ' ' :: (k.text.toList ++ ' ' :: cs))
      (Clauses k join item · (join nowhere (c :: conditions))) := by
  have hlink {cs : List Char} {P : List Token → Prop} (h : g.Spells cs P) :
      g.Spells (' ' :: (k.text.toList ++ [' ']) ++ cs) fun ts =>
        ∃ t us, ts = t :: us ∧ linkOf (.keyword k) t.kind = some () ∧ P us := by
    rw [List.cons_append, List.append_assoc, List.singleton_append]
    refine (h.blank.keyword k (stops_blank _)).blank.imp ?_
    rintro _ ⟨t, us, rfl, ht, hP⟩
    exact ⟨t, us, rfl, if_pos ht, hP⟩
  have hs := sequence (fun c links =>
    if links.isEmpty then c else join nowhere (c :: links.map (·.2))) hlink
    (fun _ => stops_blank _) hc h
  obtain ⟨c', conditions, rfl⟩ := List.exists_cons_of_ne_nil hne
  simp only [List.map_cons, List.map_map, Function.comp_def, List.map_id', List.isEmpty_cons,
    Bool.false_eq_true, if_false, List.cons_append, List.append_assoc, List.nil_append] at hs
  exact hs

theorem single (h : g.Spells cs (item · c)) : g.Spells cs (Disjunction item · c) :=
  h.imp fun _ => Disjunction.single

end Conditions

end Spells

end Grammar

end FeatureFilter
