import FeatureFilter.Proofs.Filter.Spine
import FeatureFilter.Proofs.Phrase.Factor

/-!
# Reading operands

The text of an expression is read as its verdict announces (`reads_operand`). Factors are read with
the levels that nesting leaves them, and products and sums are chains of factors and of products.
-/

namespace FeatureFilter

variable {g : Grammar} {v : Vocabulary} {lo room : Nat} {s : Cursor} {qs : List Piece}
  {e : Expression}

/-! ## First tokens -/

def startsFactor : TokenKind → Bool
  | .number _ | .string _ | .identifier _ | .quotedIdentifier _ => true
  | .keyword .isTrue | .keyword .isFalse | .mark .minus => true
  | _ => false

def startsOperand (kind : TokenKind) : Bool := startsFactor kind || kind = .mark .leftParen

theorem startsFactor_typed {n : Nat} {ps : List Piece} (h : Geometry.Typed n ps) (qs : List Piece) :
    startsFactor (kindAt (ps ++ qs) 0) = true := by
  cases h <;> rfl

theorem startsFactor_sign (negative : Bool) {ps : List Piece}
    (h : startsFactor (kindAt ps 0) = true) :
    startsFactor (kindAt (signPieces negative ++ ps) 0) = true := by
  cases negative with
  | false => exact h
  | true => rfl

theorem startsFactor_double (l : Layout) (x : Binary64) (qs : List Piece) :
    startsFactor (kindAt (l.pieces x ++ qs) 0) = true := by
  cases x with
  | finite x =>
    rw [Layout.pieces, List.append_assoc]
    exact startsFactor_sign _ rfl
  | infinity negative =>
    rw [Layout.pieces, List.append_assoc]
    exact startsFactor_sign _ rfl
  | nan => rfl

theorem startsFactor_property (path : String) (qs : List Piece) :
    startsFactor (kindAt (propertyPieces path ++ qs) 0) = true := by
  unfold propertyPieces
  split <;> rfl

theorem startsFactor_value (x : Value) (qs : List Piece) :
    startsFactor (kindAt (x.pieces ++ qs) 0) = true := by
  cases x with
  | long n =>
    rw [Value.pieces, longPieces, List.append_assoc]
    exact startsFactor_sign _ rfl
  | double x => exact startsFactor_double _ x qs
  | boolean b => cases b <;> rfl
  | geometry shape => exact startsFactor_typed shape.typed_pieces qs
  | _ => rfl

theorem startsOperand_pieces : ∀ (e : Expression) (qs : List Piece),
    startsOperand (kindAt (e.pieces ++ qs) 0) = true
  | .literal x, qs => by rw [startsOperand, Expression.pieces, startsFactor_value, Bool.true_or]
  | .property path, qs => by
    rw [startsOperand, Expression.pieces, startsFactor_property, Bool.true_or]
  | .call _ _, _ => rfl
  | .arithmetic op left right, qs => by
    rw [Expression.pieces, infixPieces, List.append_assoc]
    split
    · rfl
    · exact startsOperand_pieces left _

theorem startsFactor_piecesAt {e : Expression} (h : e.groupedAt 2 = false) (qs : List Piece) :
    startsFactor (kindAt (e.piecesAt 2 ++ qs) 0) = true := by
  rw [Expression.piecesAt, h, if_neg Bool.false_ne_true]
  cases e with
  | literal x => exact startsFactor_value x qs
  | property path => exact startsFactor_property path qs
  | call _ _ => rfl
  | arithmetic op left right => cases op <;> cases h

/-- The token behind a number or a word that an expression starts with, whatever can be said of it:
an operator, an opening parenthesis, the word `EMPTY`, or the first token behind the expression. -/
theorem second_pieces {R : TokenKind → Prop} (hop : ∀ op : ArithmeticOp, R (.mark op.mark))
    (hparen : R (.mark .leftParen)) (hempty : R (.identifier "EMPTY")) :
    ∀ (e : Expression) (qs : List Piece), R (kindAt qs 0) →
      (∃ w, kindAt (e.pieces ++ qs) 0 = .number w ∨ kindAt (e.pieces ++ qs) 0 = .identifier w) →
      R (kindAt (e.pieces ++ qs) 1)
  | .literal x, qs, hq, hs => by
    have hsign (negative : Bool) (kind : TokenKind) (w : List Char)
        (hs : ∃ w', kindAt (signPieces negative ++ (.lexeme kind w :: qs)) 0 = .number w' ∨
          kindAt (signPieces negative ++ (.lexeme kind w :: qs)) 0 = .identifier w') :
        R (kindAt (signPieces negative ++ (.lexeme kind w :: qs)) 1) := by
      cases negative with
      | false => exact hq
      | true =>
        obtain ⟨w', h | h⟩ := hs
        · cases h
        · cases h
    cases x with
    | long n =>
      simp only [Expression.pieces, Value.pieces, longPieces, List.append_assoc] at hs ⊢
      exact hsign _ _ _ hs
    | double x =>
      cases x with
      | finite x =>
        simp only [Expression.pieces, Value.pieces, Layout.pieces, List.append_assoc] at hs ⊢
        exact hsign _ _ _ hs
      | infinity negative =>
        simp only [Expression.pieces, Value.pieces, Layout.pieces, List.append_assoc] at hs ⊢
        exact hsign _ _ _ hs
      | nan => exact hq
    | string s => exact hq
    | boolean b => exact hq
    | date d => exact hparen
    | timestamp t => exact hparen
    | interval a b => exact hparen
    | color c => exact hq
    | geometry shape =>
      have ht := shape.typed_pieces
      simp only [Expression.pieces, Value.pieces]
      generalize shape.nesting = n at ht
      generalize shape.pieces = ps at ht
      cases ht with
      | empty => exact hempty
      | full => exact hparen
  | .property path, qs, hq, _ => by
    unfold Expression.pieces propertyPieces
    split <;> exact hq
  | .call _ _, _, _, _ => hparen
  | .arithmetic op left right, qs, hq, hs => by
    rw [Expression.pieces, infixPieces, List.append_assoc] at hs ⊢
    split at hs
    · obtain ⟨w, h | h⟩ := hs
      · cases h
      · cases h
    · rw [if_neg ‹_›]
      exact second_pieces hop hparen hempty left _ (hop op) hs

theorem second_arithmetic {R : TokenKind → Prop} (hop : ∀ op : ArithmeticOp, R (.mark op.mark))
    (hparen : R (.mark .leftParen)) (hempty : R (.identifier "EMPTY")) (op : ArithmeticOp)
    (left right : Expression) (qs : List Piece)
    (hs : ∃ w, kindAt ((Expression.arithmetic op left right).pieces ++ qs) 0 = .number w ∨
      kindAt ((Expression.arithmetic op left right).pieces ++ qs) 0 = .identifier w) :
    R (kindAt ((Expression.arithmetic op left right).pieces ++ qs) 1) := by
  rw [Expression.pieces, infixPieces, List.append_assoc] at hs ⊢
  split at hs
  · obtain ⟨w, h | h⟩ := hs
    · cases h
    · cases h
  · rw [if_neg ‹_›]
    exact second_pieces hop hparen hempty left _ (hop op) hs

/-! ## Nesting -/

/-- What is read below: nothing when no level is left, otherwise as one level less allows. -/
inductive Below (claim : Nat → γ → Prop) : Nat → Option γ → Prop where
  | none : Below claim 0 none
  | some {room : Nat} {r : γ} (h : claim room r) : Below claim (room + 1) (some r)

theorem Grammar.Reads.deeper {γ : Type} {claim : Nat → γ → Prop} {below : Option γ}
    {body : γ → Reader β}
    {verdict : Nat → Verdict} {good : β → Prop} {ps : List Piece} (hb : Below claim room below)
    (h : s.At g lo ps)
    (hf : ∀ room r, claim room r → g.Reads lo (verdict room) qs good (body r s)) :
    g.Reads lo (Verdict.nested verdict room) qs good (Reader.deeper g below body s) := by
  cases hb with
  | none => exact deeper_none h
  | some h => exact deeper_some (hf _ _ h)

theorem Below.imp {claim claim' : Nat → γ → Prop} {below : Option γ} (h : Below claim room below)
    (hf : ∀ room r, claim room r → claim' room r) : Below claim' room below := by
  cases h with
  | none => exact .none
  | some h => exact .some (hf _ _ h)

theorem Below.map {claim : Nat → γ → Prop} {claim' : Nat → δ → Prop} {below : Option γ}
    (h : Below claim room below) {f : γ → δ} (hf : ∀ room r, claim room r → claim' room (f r)) :
    Below claim' room (below.map f) := by
  cases h with
  | none => exact .none
  | some h => exact .some (hf _ _ h)

namespace Operand

/-! ## Claims -/

/-- An operand can end in front of the pieces: no operator follows. -/
structure EndsProduct (qs : List Piece) : Prop extends EndsFactor qs where
  noProduct : productOp? (kindAt qs 0) = none

structure EndsSum (qs : List Piece) : Prop extends EndsProduct qs where
  noSum : sumOp? (kindAt qs 0) = none

/-- The reader reads legible expressions whose operators up to precedence `p` are in parentheses. -/
def ReadsAt (v : Vocabulary) (g : Grammar) (p : Nat) (ends : List Piece → Prop) (room : Nat)
    (r : Reader Operand) : Prop :=
  ∀ e : Expression, e.Legible g.dialect →
    g.ReadsItem (·.verdictAt g p room) (·.piecesAt p) (Means v g) ends r e

def ReadsAll (v : Vocabulary) (g : Grammar) (room : Nat) (r : Reader Operand) : Prop :=
  ∀ e : Expression, e.Legible g.dialect →
    g.ReadsItem (·.verdict g room) Expression.pieces (Means v g) EndsSum r e

/-! ## Lists -/

theorem endsSum_comma (ps : List Piece) : EndsSum ([.mark .comma, .blank] ++ ps) :=
  ⟨⟨⟨rfl, nofun⟩, rfl⟩, rfl⟩

theorem endsSum_rightParen (ps : List Piece) : EndsSum (.mark .rightParen :: ps) :=
  ⟨⟨⟨rfl, nofun⟩, rfl⟩, rfl⟩

theorem piecesAll_eq (es : List Expression) :
    Expression.piecesAll es = es.map Expression.pieces := by
  induction es with
  | nil => rfl
  | cons e es ih => rw [Expression.piecesAll, List.map_cons, ih]

theorem reads_commaList {r : Reader Operand} (hr : ReadsAll v g room r) {es : List Expression}
    (hne : es ≠ []) (hl : Expression.EveryOne (Expression.Plain g.dialect) es)
    (h : s.At g lo (joinedPieces [.mark .comma, .blank] (Expression.piecesAll es) ++
      .mark .rightParen :: qs)) :
    g.Reads lo (Expression.verdictAll g es room) (.mark .rightParen :: qs)
      (fun os => List.Forall₂ (Means v g) os es) (Reader.commaList r s) := by
  obtain ⟨e, es, rfl⟩ := List.exists_cons_of_ne_nil hne
  have hall := (Expression.everyOne_iff _).1 hl
  rw [piecesAll_eq, joinedPieces_map, List.append_assoc] at h
  rw [Expression.verdictAll_eq, Verdict.all, Reader.commaList]
  have hends : EndsSum (separatedPieces (fun _ => [.mark .comma, .blank]) Expression.pieces es ++
      .mark .rightParen :: qs) :=
    Grammar.ends_separated es (fun _ _ => endsSum_comma) (endsSum_rightParen qs)
  refine (hr e (hall e (List.mem_cons_self ..)) lo s _ hends h).bind fun o s₁ ho h₁ => ?_
  have hrest := Grammar.reads_many _ (fun _ => .mark .comma) _
    (fun k => if k = .mark .comma then some () else none) (fun _ => ()) (fun _ => rfl) es
    (fun _ _ => rfl) (fun _ _ => endsSum_comma) (endsSum_rightParen qs) rfl
    (fun x hx => hr x (hall x (List.mem_cons_of_mem _ hx))) h₁
  refine Grammar.Reads.map hrest fun os s₂ hos h₂ => .pure (.cons ho ?_) h₂
  exact List.forall₂_map_left_iff.2 (hos.imp fun _ _ h => h.2)

/-! ## Calls and intervals -/

theorem groupedPieces_append (ps qs : List Piece) :
    groupedPieces ps ++ qs = .mark .leftParen :: (ps ++ .mark .rightParen :: qs) := by
  simp [groupedPieces]

theorem startsOperand_list {es : List Expression} (hne : es ≠ []) (qs : List Piece) :
    startsOperand (kindAt (joinedPieces [.mark .comma, .blank] (Expression.piecesAll es) ++ qs) 0)
      = true := by
  obtain ⟨e, es, rfl⟩ := List.exists_cons_of_ne_nil hne
  rw [piecesAll_eq, joinedPieces_map, List.append_assoc]
  exact startsOperand_pieces e _

variable {below : Option (Reader Operand)} {name : String} {args : List Expression}

theorem reads_call (hb : Below (ReadsAll v g) room below)
    (hl : Expression.EveryOne (Expression.Plain g.dialect) args)
    (h : s.At g lo (callPieces name (Expression.piecesAll args) ++ qs)) :
    g.Reads lo ((Expression.call name args).verdict g room) qs (Means v g · (.call name args))
      (readCall g below name s) := by
  rw [Expression.verdict, readCall]
  cases g.dialect.rejects name with
  | true =>
    rw [if_pos rfl, if_pos rfl]
    exact .failHere h (by decide)
  | false =>
    rw [if_neg Bool.false_ne_true, if_neg Bool.false_ne_true]
    rw [callPieces, List.cons_append, groupedPieces_append] at h
    refine .advance h fun t s₁ _ h₁ => ?_
    refine .expect h₁ fun s₂ h₂ => ?_
    refine .deeper hb h₂ fun room r hr => ?_
    cases args with
    | nil =>
      refine .eat h₂ fun s₃ h₃ => ?_
      rw [if_pos rfl]
      exact .spanFrom t fun span _ => .pure (.ofCall span .nil) h₃
    | cons e es =>
      have hne : e :: es ≠ [] := List.cons_ne_nil e es
      have hs := startsOperand_list hne (.mark .rightParen :: qs)
      refine .eat_other h₂ (fun he => by rw [he] at hs; cases hs) ?_
      rw [if_neg Bool.false_ne_true]
      refine (reads_commaList hr hne hl h₂).map fun os s₃ hos h₃ => ?_
      refine .expectKind h₃ fun s₄ h₄ => ?_
      exact .spanFrom t fun span _ => .pure (.ofCall span hos) h₄

theorem reads_bound {r : Reader Operand} (hr : ReadsAll v g room r) (he : e.Legible g.dialect)
    (hb : e.IsBound) (hq : EndsSum qs) (h : s.At g lo (e.pieces ++ qs)) :
    g.Reads lo (e.verdict g room) qs (MeansBound v g · e) (readBound g r s) := by
  by_cases ho : e = .openBound
  · subst ho
    refine .peek h fun t ht => ?_
    rw [ht]
    exact .advance h fun _ s' _ h' => .pure (meansBound_openBound _) h'
  · have hstring : ∀ content, kindAt (e.pieces ++ qs) 0 ≠ .string content := by
      intro content
      match e, hb with
      | .property path, _ =>
        unfold Expression.pieces propertyPieces
        split <;> exact nofun
      | .call name args, _ => exact nofun
      | .literal (.date d), _ => exact nofun
      | .literal (.timestamp t), _ => exact nofun
      | .literal (.string content), hb =>
        have : content = openMarker := hb
        exact absurd (by rw [this]; rfl) ho
    refine .peek h fun t ht => ?_
    rw [ht]
    have hread := (hr e he lo s qs hq h).mono fun o hm => hm.meansBound hb ho
    generalize kindAt (e.pieces ++ qs) 0 = kind at hstring
    cases kind with
    | string content => exact absurd rfl (hstring content)
    | _ => exact hread

theorem reads_interval (hb : Below (ReadsAll v g) room below) {start stop : Expression}
    (hl : (Expression.literal (.interval start stop)).Legible g.dialect)
    (h : s.At g lo (callPieces "INTERVAL" [start.pieces, stop.pieces] ++ qs)) :
    g.Reads lo ((Value.interval start stop).verdict g room) qs
      (Means v g · (.literal (.interval start stop))) (readInterval g below s) := by
  rw [callPieces, List.cons_append, groupedPieces_append] at h
  have hp : joinedPieces [.mark .comma, .blank] [start.pieces, stop.pieces] ++
      .mark .rightParen :: qs =
        start.pieces ++ ([.mark .comma, .blank] ++ (stop.pieces ++ .mark .rightParen :: qs)) := by
    simp [joinedPieces]
  rw [hp] at h
  refine .advance h fun t s₁ _ h₁ => ?_
  refine .expect h₁ fun s₂ h₂ => ?_
  refine .deeper hb h₂ fun room r hr => ?_
  refine (reads_bound hr hl.2.1 hl.1.1 (endsSum_comma _) h₂).bind fun a s₃ ha h₃ => ?_
  refine .expect h₃ fun s₄ h₄ => ?_
  refine (reads_bound hr hl.2.2 hl.1.2 (endsSum_rightParen _) h₄.blank).map fun b s₅ hb h₅ => ?_
  refine .expect h₅ fun s₆ h₆ => ?_
  exact .spanFrom t fun span _ => .pure (.interval span ha hb) h₆

/-! ## Factors -/

theorem reads_group (hb : Below (ReadsAll v g) room below) {op : ArithmeticOp}
    {left right : Expression} (hl : (Expression.arithmetic op left right).Legible g.dialect)
    (h : s.At g lo (groupedPieces (Expression.arithmetic op left right).pieces ++ qs)) :
    g.Reads lo (Verdict.nested ((Expression.arithmetic op left right).verdict g) room) qs
      (Means v g · (.arithmetic op left right)) (readPrimary g below s) := by
  rw [groupedPieces_append] at h
  refine .peek h fun t ht => ?_
  rw [ht]
  refine .advance h fun t' s₁ _ h₁ => ?_
  refine .deeper hb h₁ fun room r hr => ?_
  refine (hr _ hl lo s₁ _ (endsSum_rightParen qs) h₁).map fun o s₂ ho h₂ => ?_
  refine .expect h₂ fun s₃ h₃ => ?_
  exact .spanFrom t' fun span _ => .pure (ho.withSpan span) h₃

theorem reads_long {n : Int64} (hn : -0x8000000000000000 < n.toInt)
    (h : s.At g lo (longPieces n ++ qs)) :
    g.Reads lo .fits qs (Means v g · (.literal (.long n))) (readFactorOver g below s) := by
  rw [longPieces, List.append_assoc] at h
  refine reads_factor_number (Literal.readNumber_digits (Int64.natAbs_le hn))
    (fun span => .literal span ?_ rfl) h
  have hneg := Int64.ofInt_natAbs n
  by_cases h0 : n.toInt < 0
  · rw [if_pos (decide_eq_true h0)]
    rw [if_pos h0] at hneg
    exact congrArg Value.long hneg
  · rw [if_neg (by simpa using h0)]
    rw [if_neg h0] at hneg
    exact congrArg Value.long hneg

theorem toValue_signed (negative : Bool) (x : Binary64) :
    (if negative then (Literal.double x).negated else Literal.double x).toValue =
      .double (x.signed negative) := by
  cases negative <;> rfl

theorem reads_finite {x : Finite} (h : s.At g lo (Layout.literal.pieces (.finite x) ++ qs)) :
    g.Reads lo .fits qs (Means v g · (.literal (.double (.finite x))))
      (readFactorOver g below s) := by
  obtain ⟨n, hn, hx, hd⟩ := Layout.literal.exists_body x
  rw [Layout.pieces, List.append_assoc, hn] at h
  refine reads_factor_number (Literal.readNumber_chars n (hd rfl))
    (fun span => .literal span ?_ rfl) h
  rw [toValue_signed, hx]

/-- The words that infinite numbers are written as are property names. -/
theorem path_inf (span : Span) :
    (PropertyName.ofWord (String.ofList "inf".toList) span).path = "inf" := by
  have hplain : (splitAtChar '/' "inf".toList).all isPlainName = true := by decide +kernel
  exact path_ofWord hplain span

theorem path_nan (span : Span) :
    (PropertyName.ofWord (String.ofList "NaN".toList) span).path = "NaN" := by
  have hplain : (splitAtChar '/' "NaN".toList).all isPlainName = true := by decide +kernel
  exact path_ofWord hplain span

theorem reads_infinity (hq : EndsFactor qs) (h : s.At g lo (.word "inf".toList :: qs)) :
    g.Reads lo .fits qs (Means v g · (.literal (.double (.infinity false))))
      (readPrimary g below s) :=
  reads_property (fun span => .nonfinite span (path_inf span) rfl) hq h

theorem reads_nan (hq : EndsFactor qs) (h : s.At g lo (.word "NaN".toList :: qs)) :
    g.Reads lo .fits qs (Means v g · (.literal (.double .nan))) (readPrimary g below s) :=
  reads_property (fun span => .nonfinite span (path_nan span) rfl) hq h

/-- A minus in front of a word takes a level of nesting. -/
theorem reads_negativeInfinity (hb : Below (ReadsAt v g 2 EndsFactor) room below)
    (hq : EndsFactor qs) (h : s.At g lo (.mark .minus :: .word "inf".toList :: qs)) :
    g.Reads lo (Verdict.nested (fun _ => .fits) room) qs
      (Means v g · (.literal (.double (.infinity true)))) (readFactorOver g below s) := by
  refine .peekKind h ?_
  refine .advance h fun t s₁ _ h₁ => ?_
  refine reads_atNumber h₁ fun b hn => ?_
  have hfalse : b = false := by
    rw [Bool.eq_false_iff]
    intro hb
    obtain ⟨n, hn⟩ := hn.1 hb
    cases hn
  rw [if_neg (by simp [hfalse])]
  refine .deeper hb h₁ fun room r hr => ?_
  have hp : (Expression.property "inf").piecesAt 2 = [.word "inf".toList] := by decide +kernel
  have hread := hr (.property "inf") trivial lo s₁ qs hq
  simp only [hp] at hread
  refine Grammar.Reads.map (hread h₁) fun o s₂ ho h₂ => ?_
  exact .pure (.negativeInfinity _ _ ho) h₂

theorem reads_literal {x : Value} (hb : Below (ReadsAt v g 2 EndsFactor) room below)
    (hb' : Below (ReadsAll v g) room (below.map readSum))
    (hx : (Expression.literal x).Legible g.dialect) (hq : EndsFactor qs)
    (h : s.At g lo (x.pieces ++ qs)) :
    g.Reads lo (x.verdict g room) qs (Means v g · (.literal x)) (readFactorOver g below s) := by
  cases x with
  | long n => exact reads_long hx.1 h
  | double x =>
    match x with
    | .finite x => exact reads_finite h
    | .infinity false => exact reads_unsigned rfl h (reads_infinity hq h)
    | .infinity true => exact reads_negativeInfinity hb hq h
    | .nan => exact reads_unsigned rfl h (reads_nan hq h)
  | string content =>
    refine reads_unsigned rfl h (reads_string (fun span => .literal span ?_ rfl) h)
    have hc : g.dialect.colorLiterals = true → Color.read? content.toList = none := hx.1
    unfold stringLiteral
    split
    · rename_i c hread
      split
      · rename_i hcolor
        rw [hc hcolor] at hread
        cases hread
      · rfl
    · rfl
  | boolean b =>
    refine reads_unsigned ?_ h (reads_boolean (fun span => .literal span rfl rfl) h)
    cases b <;> rfl
  | date d =>
    exact reads_unsigned rfl h (reads_date hx.1 (fun span => .literal span rfl rfl) h)
  | timestamp t =>
    exact reads_unsigned rfl h (reads_timestamp hx.1 (fun span => .literal span rfl rfl) h)
  | interval start stop =>
    refine reads_unsigned rfl h (reads_word h ?_)
    rw [readWord_paren (by decide +kernel) h, if_neg (by decide +kernel),
      if_neg (by decide +kernel), if_neg (by decide +kernel), if_pos (by decide +kernel)]
    exact reads_interval hb' hx h
  | geometry shape =>
    refine reads_unsigned ?_ h (reads_shape h)
    have ht := shape.typed_pieces
    simp only [Value.pieces]
    generalize shape.nesting = n at ht
    generalize shape.pieces = ps at ht
    cases ht <;> rfl
  | color c =>
    refine reads_unsigned rfl h (reads_string (fun span => .literal span ?_ rfl) h)
    have hc : g.dialect.colorLiterals = true ∧ c.rgb < 0x1000000 := hx.1
    rw [stringLiteral, Color.read?_text hc.2]
    simp only [hc.1, if_true]
    rfl

/-- Factors, when the factors one level deeper and the operands inside are read. -/
theorem reads_factorOver (hb : Below (ReadsAt v g 2 EndsFactor) room below)
    (hb' : Below (ReadsAll v g) room (below.map readSum)) :
    ReadsAt v g 2 EndsFactor room (readFactorOver g below) := by
  intro e he lo s qs hq h
  cases e with
  | literal x => exact reads_literal hb hb' he hq h
  | property path =>
    have hp : (Expression.property path).piecesAt 2 = propertyPieces path := rfl
    simp only [hp] at h
    unfold propertyPieces at h
    split at h
    · rename_i hplain
      exact reads_unsigned rfl h
        (reads_property (fun span => .property span (path_ofWord hplain span)) hq h)
    · exact reads_unsigned rfl h
        (reads_quoted (fun span => .property span (path_ofQuoted path span)) h)
  | call name args =>
    have hc : Callable name := he.1
    have hword := hc.noLiteral
    refine reads_unsigned rfl h (reads_word h ?_)
    have hne (w : String) (hw : w ∈ literalWords) :
        ¬ sameWord (String.ofList name.toList) w = true := by
      rw [String.ofList_toList, hword w hw]
      exact Bool.false_ne_true
    rw [readWord_paren (by rw [String.ofList_toList]; exact hc.noGeometry) h,
      if_neg (hne _ (by decide)), if_neg (hne _ (by decide)), if_neg (hne _ (by decide)),
      if_neg (hne _ (by decide)), String.ofList_toList]
    exact reads_call hb' he.2 h
  | arithmetic op left right =>
    have hg : (Expression.arithmetic op left right).groupedAt 2 = true := by cases op <;> rfl
    simp only [Expression.piecesAt, Expression.verdictAt, hg, if_true, Verdict.bracketed_true]
      at h ⊢
    exact reads_unsigned rfl h (reads_group hb' he h)

/-! ## Chains -/

variable {p : Nat} {op? : TokenKind → Option ArithmeticOp} {ends : List Piece → Prop}
  {item : Reader Operand}

/-- What stands behind the head of a chain. -/
def chainRest (p : Nat) (e : Expression) : List Piece :=
  separatedPieces Expression.linkPieces (fun x => x.2.piecesAt p) (e.links p)

variable (op?) in
theorem reads_chain (hitem : ReadsAt v g (p + 1) ends room item)
    (hop : ∀ op : ArithmeticOp, op.precedence = p + 1 → op? (.mark op.mark) = some op)
    (hends : ∀ op : ArithmeticOp, op.precedence = p + 1 →
      ∀ x ps, ends (Expression.linkPieces (op, x) ++ ps))
    (hq : ends qs) (hstop : op? (kindAt qs 0) = none) (he : e.Legible g.dialect)
    (h : g.Reads lo ((e.head (p + 1)).verdictAt g (p + 1) room) (chainRest (p + 1) e ++ qs)
      (Means v g · (e.head (p + 1))) (item s)) :
    g.Reads lo (e.verdictAt g p room) qs (Means v g · e) (readChain op? item s) := by
  obtain ⟨-, hlinks⟩ := he.head_links (p + 1)
  rw [e.verdictAt_eq p, readChain]
  refine h.bind fun o s₁ ho h₁ => ?_
  have hrest := Grammar.reads_many Expression.linkPieces (fun x => .mark x.1.mark)
    (fun o x => Means v g o x.2) op? (·.1) (fun _ => rfl)
    (e.links (p + 1)) (fun x hx => hop _ (hlinks x hx).2) (fun x hx => hends _ (hlinks x hx).2 x.2)
    hq hstop (fun x hx => hitem x.2 (hlinks x hx).1) h₁
  refine Grammar.Reads.map hrest fun os s₂ hos h₂ => .pure ?_ h₂
  have := ho.chain hos
  rwa [Expression.foldl_links] at this

/-! ## Sums of products of factors -/

def firstFactor (e : Expression) : Expression := (e.head 1).head 2

/-- What stands behind the first factor. -/
def restFactors (e : Expression) : List Piece := chainRest 2 (e.head 1) ++ chainRest 1 e

theorem pieces_firstFactor (e : Expression) :
    e.pieces = (firstFactor e).piecesAt 2 ++ restFactors e := by
  rw [← e.piecesAt_zero, e.piecesAt_eq 0, (e.head 1).piecesAt_eq 1, List.append_assoc]
  rfl

theorem legible_firstFactor {d : Dialect} (h : e.Legible d) : (firstFactor e).Legible d :=
  ((h.head_links 1).1.head_links 2).1

theorem endsFactor_link {op : ArithmeticOp} (x : Expression) (ps : List Piece) :
    EndsFactor (Expression.linkPieces (op, x) ++ ps) := by
  cases op <;> exact ⟨rfl, nofun⟩

theorem endsProduct_link {op : ArithmeticOp} (h : op.precedence = 1) (x : Expression)
    (ps : List Piece) : EndsProduct (Expression.linkPieces (op, x) ++ ps) := by
  refine ⟨endsFactor_link x ps, ?_⟩
  cases op with
  | add => rfl
  | sub => rfl
  | mul => cases h
  | div => cases h

variable {factor : Reader Operand}

theorem endsProduct_chainRest (he : e.Legible g.dialect) (hq : EndsProduct qs) :
    EndsProduct (chainRest 1 e ++ qs) :=
  Grammar.ends_separated _ (fun x hx => endsProduct_link ((he.head_links 1).2 x hx).2 x.2) hq

theorem endsFactor_chainRest (e : Expression) (hq : EndsFactor qs) :
    EndsFactor (chainRest 2 e ++ qs) :=
  Grammar.ends_separated _ (fun x _ _ => endsFactor_link x.2 _) hq

theorem reads_product (hf : ReadsAt v g 2 EndsFactor room factor) (he : e.Legible g.dialect)
    (hq : EndsProduct qs)
    (h : g.Reads lo ((e.head 2).verdictAt g 2 room) (chainRest 2 e ++ qs) (Means v g · (e.head 2))
      (factor s)) :
    g.Reads lo (e.verdictAt g 1 room) qs (Means v g · e) (readChain productOp? factor s) := by
  refine reads_chain productOp? hf (fun op hop => ?_) (fun op _ x => endsFactor_link x)
    hq.toEndsFactor hq.noProduct he h
  cases op with
  | add => cases hop
  | sub => cases hop
  | mul => rfl
  | div => rfl

theorem readsAt_product (hf : ReadsAt v g 2 EndsFactor room factor) :
    ReadsAt v g 1 EndsProduct room (readChain productOp? factor) := by
  intro e he lo s qs hq h
  simp only [e.piecesAt_eq 1, List.append_assoc] at h
  exact reads_product hf he hq (hf _ (he.head_links 2).1 lo s _
    (endsFactor_chainRest e hq.toEndsFactor) h)

theorem reads_sum (hf : ReadsAt v g 2 EndsFactor room factor) (he : e.Legible g.dialect)
    (hq : EndsSum qs)
    (h : g.Reads lo ((firstFactor e).verdictAt g 2 room) (restFactors e ++ qs)
      (Means v g · (firstFactor e)) (factor s)) :
    g.Reads lo (e.verdict g room) qs (Means v g · e) (readSum factor s) := by
  have hproduct := endsProduct_chainRest he hq.toEndsProduct
  rw [restFactors, List.append_assoc] at h
  have hsum := reads_chain sumOp? (e := e) (readsAt_product hf) (fun op hop => ?_)
    (fun op hop x => endsProduct_link hop x) hq.toEndsProduct hq.noSum he
    (reads_product hf (he.head_links 1).1 hproduct h)
  · rwa [e.verdictAt_zero] at hsum
  · cases op with
    | add => rfl
    | sub => rfl
    | mul => cases hop
    | div => cases hop

theorem readsAll_readSum (hf : ReadsAt v g 2 EndsFactor room factor) :
    ReadsAll v g room (readSum factor) := by
  intro e he lo s qs hq h
  rw [pieces_firstFactor, List.append_assoc] at h
  have hproduct := endsProduct_chainRest he hq.toEndsProduct
  refine reads_sum hf he hq (hf _ (legible_firstFactor he) lo s _ ?_ h)
  rw [restFactors, List.append_assoc]
  exact endsFactor_chainRest _ hproduct.toEndsFactor

theorem reads_factor (v : Vocabulary) (g : Grammar) (room : Nat) :
    ReadsAt v g 2 EndsFactor room (readFactor g room) := by
  induction room with
  | zero => exact reads_factorOver .none .none
  | succ room ih => exact reads_factorOver (.some ih) (.some (readsAll_readSum ih))

/-- The text of a legible expression is read as its verdict announces. -/
theorem reads_operand (v : Vocabulary) (g : Grammar) (room : Nat) :
    ReadsAll v g room (Operand.read g room) := readsAll_readSum (reads_factor v g room)

/-- Once the first factor is read errors are behind it. -/
theorem reads_operand_past {lo' : Nat} (he : e.Legible g.dialect) (hq : EndsSum qs)
    (h : s.At g lo (e.pieces ++ qs))
    (hne : (firstFactor e).verdictAt g 2 room ≠ .fits → lo' ≤ lo)
    (hfits : (firstFactor e).verdictAt g 2 room = .fits → lo' ≤ g.offset (restFactors e ++ qs)) :
    g.Reads lo' (e.verdict g room) qs (Means v g · e) (Operand.read g room s) := by
  rw [pieces_firstFactor, List.append_assoc] at h
  have hproduct := endsProduct_chainRest he hq.toEndsProduct
  refine reads_sum (reads_factor v g room) he hq ?_
  refine (reads_factor v g room _ (legible_firstFactor he) lo s _ ?_ h).raise hne hfits
  rw [restFactors, List.append_assoc]
  exact endsFactor_chainRest _ hproduct.toEndsFactor

end Operand

end FeatureFilter
