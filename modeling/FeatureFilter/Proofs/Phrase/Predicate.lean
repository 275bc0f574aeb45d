import FeatureFilter.Proofs.Phrase.Operand
import FeatureFilter.Proofs.Syntax.Predicates

/-!
# Reading predicates

A predicate is a value and what is said about it (`Said`). Reading its text reads the value as an
operand, and then what is said.
-/

namespace FeatureFilter

variable {g : Grammar} {v : Vocabulary} {lo room : Nat} {s : Cursor} {qs : List Piece}

namespace Filter

/-! ## What is said about a value -/

def comparisonRest (op : ComparisonOp) (right : Expression) : List Piece :=
  .blank :: .mark op.mark :: .blank :: right.pieces

def betweenRest (negated : Bool) (low high : Expression) : List Piece :=
  keywordPieces (negatedKeyword negated .between) ++ .blank :: (low.pieces ++
    (keywordPieces [.and] ++ .blank :: high.pieces))

def likeRest (negated : Bool) (pattern : String) (matchCase : Bool) : List Piece :=
  keywordPieces (if negated then [.not] else []) ++ .blank ::
    (if matchCase then .keyword .like else .word "ILIKE".toList) :: .blank :: [.string pattern]

def isNullRest (negated : Bool) : List Piece :=
  keywordPieces (if negated then [.is, .not, .null] else [.is, .null])

def inRest (negated : Bool) (choices : List Expression) : List Piece :=
  keywordPieces (negatedKeyword negated .inList) ++ .blank ::
    groupedPieces (joinedPieces [.mark .comma, .blank] (Expression.piecesAll choices))

/-- The filter is a predicate: its value, the pieces of what is said about it, and the verdict on
those. -/
inductive Said (g : Grammar) : Filter → Expression → List Piece → (Nat → Verdict) → Prop where
  | compare (op : ComparisonOp) (left right : Expression) :
    Said g (.compare op left right) left (comparisonRest op right) (right.verdict g)
  | between (negated : Bool) (value low high : Expression) :
    Said g (Condition.negatedIf negated (.between value low high)) value
      (betweenRest negated low high)
      fun room => (low.verdict g room).andThen (high.verdict g room)
  | like (negated : Bool) (value : Expression) (pattern : String) (matchCase : Bool) :
    Said g (Condition.negatedIf negated (.like value pattern matchCase)) value
      (likeRest negated pattern matchCase) fun _ => .fits
  | isNull (negated : Bool) (value : Expression) :
    Said g (Condition.negatedIf negated (.isNull value)) value (isNullRest negated) fun _ => .fits
  | inList (negated : Bool) {clauses : List Filter} {value : Expression}
    {choices : List Expression} (h : inList? clauses = some (value, choices)) :
    Said g (Condition.negatedIf negated (.any clauses)) value (inRest negated choices)
      (Verdict.nested (Expression.verdictAll g choices))
  | spatial (op : SpatialOp) (left right : Expression) :
    Said g (.spatial op left right) (.call op.functionName [left, right]) [] fun _ => .fits
  | temporal (op : TemporalOp) (left right : Expression) :
    Said g (.temporal op left right) (.call op.functionName [left, right]) [] fun _ => .fits

theorem callable_spatial (op : SpatialOp) : Callable op.functionName := by
  cases op <;> exact ⟨by decide +kernel, by decide +kernel, by decide +kernel⟩

theorem callable_temporal (op : TemporalOp) : Callable op.functionName := by
  cases op <;> exact ⟨by decide +kernel, by decide +kernel, by decide +kernel⟩

theorem isEmpty_of_inList? {clauses : List Filter} {p : Expression × List Expression}
    (h : inList? clauses = some p) : clauses.isEmpty = false := by
  cases clauses with
  | nil => cases h
  | cons f fs => rfl

namespace Said

variable {f : Filter} {value : Expression} {rest : List Piece} {w : Nat → Verdict} {d : Dialect}

theorem isChain_eq (h : Said g f value rest w) : f.isChain = false := by
  cases h with
  | between negated => cases negated <;> rfl
  | like negated => cases negated <;> rfl
  | isNull negated => cases negated <;> rfl
  | inList negated h =>
    cases negated with
    | false => simp [Condition.negatedIf, isChain, h]
    | true => rfl
  | _ => rfl

theorem pieces_eq (h : Said g f value rest w) : f.pieces = value.pieces ++ rest := by
  cases h with
  | between negated => cases negated <;> rfl
  | like negated => cases negated <;> rfl
  | isNull negated => cases negated <;> rfl
  | inList negated h =>
    have hne := isEmpty_of_inList? h
    cases negated <;> simp [Condition.negatedIf, pieces, negationPieces, h, hne, inPieces, inRest]
  | spatial op left right =>
    rw [List.append_nil]
    rfl
  | temporal op left right =>
    rw [List.append_nil]
    rfl
  | _ => rfl

theorem verdict_eq (h : Said g f value rest w) (room : Nat) :
    f.verdict g room = (value.verdict g room).andThen (w room) := by
  cases h with
  | between negated => cases negated <;> rfl
  | like negated => cases negated <;> exact (Verdict.andThen_fits _).symm
  | isNull negated => cases negated <;> exact (Verdict.andThen_fits _).symm
  | inList negated h =>
    cases negated <;> simp [Condition.negatedIf, verdict, negationVerdict, h, inVerdict]
  | spatial op left right => exact (Verdict.andThen_fits _).symm
  | temporal op left right => exact (Verdict.andThen_fits _).symm
  | _ => rfl

theorem legible_value (h : Said g f value rest w) (hf : f.Legible d) : value.Legible d := by
  cases h with
  | compare => exact hf.2.1
  | between negated =>
    cases negated with
    | false => exact hf.2.1
    | true => exact hf.2.2.1
  | like negated =>
    cases negated with
    | false => exact hf.2
    | true => exact hf.2.2
  | isNull negated =>
    cases negated with
    | false => exact hf.2
    | true => exact hf.2.2
  | inList negated h =>
    cases negated with
    | false => exact (every_of_inList? h hf.2).1
    | true => exact (every_of_inList? h hf.2.2).1
  | spatial op => exact ⟨callable_spatial op, hf.2.1, hf.2.2, trivial⟩
  | temporal op => exact ⟨callable_temporal op, hf.2.1, hf.2.2, trivial⟩

end Said

end Filter

namespace Condition

open Reader (peek peekKind)
open Operand (ReadsAll EndsSum reads_commaList reads_operand)

/-! ## Ends -/

def EndsClause (qs : List Piece) : Prop := endsPredicate (kindAt qs 0) = true

/-- An operand ends in front of a kind that goes on with neither a factor nor an operator. -/
theorem endsSum_of {kind : TokenKind} (hk : kindAt qs 0 = kind)
    (hg : Operand.goesOnAsGeometry kind = false) (he : kind ≠ .mark .equal)
    (hp : Operand.productOp? kind = none) (hs : Operand.sumOp? kind = none) : EndsSum qs := by
  subst hk
  exact ⟨⟨⟨hg, fun h => absurd h he⟩, hp⟩, hs⟩

theorem EndsClause.endsSum (h : EndsClause qs) : EndsSum qs := by
  rcases endsPredicate_cases h with h | h | h | h | h
  all_goals exact endsSum_of h rfl (by decide) rfl rfl

theorem EndsClause.noSemicolon (h : EndsClause qs) : kindAt qs 0 ≠ .mark .semicolon := by
  intro he
  rw [EndsClause, he] at h
  cases h

theorem endsSum_keyword (k : Keyword) (qs : List Piece) : EndsSum (.blank :: .keyword k :: qs) :=
  ⟨⟨⟨rfl, nofun⟩, rfl⟩, rfl⟩

/-- An operand ends in front of a comparison, whose right side is not the end of a prefix. -/
theorem endsSum_comparison (op : ComparisonOp) (right : Expression)
    (hq : kindAt qs 0 ≠ .mark .semicolon) : EndsSum (Filter.comparisonRest op right ++ qs) := by
  have h : Operand.goesOnAsGeometry (.mark op.mark) = false ∧
      Operand.productOp? (.mark op.mark) = none ∧ Operand.sumOp? (.mark op.mark) = none := by
    cases op <;> exact ⟨rfl, rfl, rfl⟩
  refine ⟨⟨⟨h.1, fun _ n hn => ?_⟩, h.2.1⟩, h.2.2⟩
  -- the right side starts with the number, and another token follows it
  exact second_pieces (R := (· ≠ .mark .semicolon)) (by intro op; cases op <;> exact nofun) nofun
    nofun right qs hq ⟨n, .inl hn⟩

theorem endsSum_said {f : Filter} {value : Expression} {rest : List Piece} {w : Nat → Verdict}
    (h : Filter.Said g f value rest w) (hq : EndsClause qs) : EndsSum (rest ++ qs) := by
  cases h with
  | compare op left right => exact endsSum_comparison op right hq.noSemicolon
  | between negated => cases negated <;> exact endsSum_keyword _ _
  | like negated value pattern matchCase =>
    cases negated with
    | true => exact endsSum_keyword _ _
    | false =>
      cases matchCase with
      | true => exact endsSum_keyword _ _
      | false =>
        have hw : isGeometryTag "ILIKE" = false := by decide +kernel
        exact endsSum_of rfl hw nofun rfl rfl
  | isNull negated => cases negated <;> exact endsSum_keyword _ _
  | inList negated => cases negated <;> exact endsSum_keyword _ _
  | spatial => exact hq.endsSum
  | temporal => exact hq.endsSum

/-! ## What is said -/

variable {below : Option (Reader Operand)} {operand : Reader Operand} {start : Token}
  {value : Operand}

theorem reads_comparison {op : ComparisonOp} {left right : Expression}
    (hr : ReadsAll v g room operand) (hv : Operand.Means v g value left)
    (hright : right.Legible g.dialect) (hq : EndsClause qs)
    (h : s.At g lo (Filter.comparisonRest op right ++ qs)) :
    g.Reads lo (right.verdict g room) qs (Means v g · (.compare op left right))
      (readRest g operand below start value s) := by
  have h := h.blank
  have he : endsPredicate (.mark op.mark) = false := by cases op <;> rfl
  have hc : comparisonOp? (.mark op.mark) = some op := by cases op <;> rfl
  refine .peekKind h ?_
  rw [show kindAt _ 0 = .mark op.mark from rfl, he, hc]
  refine .advance h fun _ s₁ _ h₁ => ?_
  refine (hr right hright lo s₁ qs hq.endsSum h₁.blank).map fun o s₂ ho h₂ => ?_
  exact .spanFrom start fun span _ => .pure (.compare span op hv.makes ho.makes) h₂

variable {x : Expression}

/-- `NOT` stands in front of what is denied. -/
theorem reads_not {ps : List Piece} {w : Verdict} {good : Condition → Prop}
    (h : s.At g lo (.keyword .not :: ps))
    (hf : ∀ s', s'.At g lo ps →
      g.Reads lo w qs good (readNegatable g operand below start value true s')) :
    g.Reads lo w qs good (readRest g operand below start value s) := by
  refine .peekKind h ?_
  exact .advance h fun _ s₁ _ h₁ => hf s₁ h₁

def isNegatable : TokenKind → Bool
  | .keyword .between | .keyword .like | .keyword .inList | .identifier _ => true
  | _ => false

theorem reads_affirmed {ps : List Piece} {w : Verdict} {good : Condition → Prop}
    (h : s.At g lo ps) (hk : isNegatable (kindAt ps 0) = true)
    (hf : g.Reads lo w qs good (readNegatable g operand below start value false s)) :
    g.Reads lo w qs good (readRest g operand below start value s) := by
  refine .peekKind h ?_
  revert hk
  generalize kindAt ps 0 = kind
  unfold isNegatable
  intro hk
  split at hk
  · exact hf
  · exact hf
  · exact hf
  · exact hf
  · cases hk

theorem reads_between {low high : Expression} (negated : Bool) (hr : ReadsAll v g room operand)
    (hv : Operand.Means v g value x) (hl : low.Legible g.dialect) (hh : high.Legible g.dialect)
    (hq : EndsClause qs) (h : s.At g lo (Filter.betweenRest negated low high ++ qs)) :
    g.Reads lo ((low.verdict g room).andThen (high.verdict g room)) qs
      (Means v g · (negatedIf negated (.between x low high)))
      (readRest g operand below start value s) := by
  have hbody (s' : Cursor) (h : s'.At g lo (.keyword .between :: .blank :: (low.pieces ++
      (.blank :: .keyword .and :: .blank :: (high.pieces ++ qs))))) :
      g.Reads lo ((low.verdict g room).andThen (high.verdict g room)) qs
        (Means v g · (negatedIf negated (.between x low high)))
        (readNegatable g operand below start value negated s') := by
    refine .peekKind h ?_
    refine .advance h fun _ s₁ _ h₁ => ?_
    refine (hr low hl lo s₁ _ (endsSum_keyword _ _) h₁.blank).bind fun a s₂ ha h₂ => ?_
    refine .expectKind h₂.blank fun s₃ h₃ => ?_
    refine (hr high hh lo s₃ qs hq.endsSum h₃.blank).map fun b s₄ hb h₄ => ?_
    exact .spanFrom start fun span _ =>
      .pure (.between span negated hv.makes ha.makes hb.makes) h₄
  simp only [Filter.betweenRest, Filter.keywordPieces, Filter.negatedKeyword, List.append_assoc,
    List.cons_append, List.flatMap_cons, List.flatMap_nil, List.nil_append] at h
  cases negated with
  | false => exact reads_affirmed h.blank rfl (hbody s h.blank)
  | true => exact reads_not h.blank fun s' h' => hbody s' h'.blank

theorem reads_like {pattern : String} {matchCase : Bool} (negated : Bool)
    (hv : Operand.Means v g value x) (hm : matchCase = true ∨ g.dialect.allows .ilike = true)
    (h : s.At g lo (Filter.likeRest negated pattern matchCase ++ qs)) :
    g.Reads lo .fits qs (Means v g · (negatedIf negated (.like x pattern matchCase)))
      (readRest g operand below start value s) := by
  have hpattern {s' : Cursor} (h : s'.At g lo (.blank :: .string pattern :: qs)) :
      g.Reads lo .fits qs (· = pattern) (readPattern s') := by
    refine .peekKind h.blank ?_
    exact .advance h.blank fun _ s₁ _ h₁ => .pure rfl h₁
  have hbody (s' : Cursor) (h : s'.At g lo ((if matchCase then .keyword .like
      else .word "ILIKE".toList) :: .blank :: .string pattern :: qs)) :
      g.Reads lo .fits qs (Means v g · (negatedIf negated (.like x pattern matchCase)))
        (readNegatable g operand below start value negated s') := by
    have hend (s₂ : Cursor) (text : String) (ht : text = pattern) (h₂ : s₂.At g lo qs) :
        g.Reads lo .fits qs (Means v g · (negatedIf negated (.like x pattern matchCase)))
          ((Reader.spanFrom start >>= fun span =>
            pure (.like span negated value text matchCase)) s₂) := by
      rw [ht]
      exact .spanFrom start fun span _ => .pure (.like span negated pattern matchCase hv.makes) h₂
    cases matchCase with
    | true =>
      refine .peekKind h ?_
      refine .advance h fun _ s₁ _ h₁ => ?_
      exact (hpattern h₁).map fun text s₂ ht h₂ => hend s₂ text ht h₂
    | false =>
      have hi : g.dialect.allows .ilike = true := hm.resolve_left Bool.false_ne_true
      have hw : sameWord (String.ofList "ILIKE".toList) "ILIKE" = true := by decide +kernel
      refine .peekKind h ?_
      rw [show kindAt _ 0 = .identifier (String.ofList "ILIKE".toList) from rfl]
      simp only [hw, hi, Bool.and_self, if_true]
      refine .advance h fun _ s₁ _ h₁ => ?_
      exact (hpattern h₁).map fun text s₂ ht h₂ => hend s₂ text ht h₂
  simp only [Filter.likeRest, Filter.keywordPieces] at h
  cases negated with
  | false =>
    refine reads_affirmed h.blank ?_ (hbody s h.blank)
    cases matchCase <;> rfl
  | true => exact reads_not h.blank fun s' h' => hbody s' h'.blank

theorem reads_isNull (negated : Bool) (hv : Operand.Means v g value x)
    (h : s.At g lo (Filter.isNullRest negated ++ qs)) :
    g.Reads lo .fits qs (Means v g · (negatedIf negated (.isNull x)))
      (readRest g operand below start value s) := by
  have hend (s' : Cursor) (h : s'.At g lo (.keyword .null :: qs)) :
      g.Reads lo .fits qs (Means v g · (negatedIf negated (.isNull x)))
        ((Reader.expectKind (.keyword .null) "NULL" >>= fun _ =>
          Reader.spanFrom start >>= fun span => pure (.isNull span negated value)) s') :=
    .expectKind h fun s₁ h₁ =>
      .spanFrom start fun span _ => .pure (.isNull span negated hv.makes) h₁
  cases negated with
  | false =>
    refine .peekKind h.blank ?_
    refine .advance h.blank fun _ s₁ _ h₁ => ?_
    refine .peekKind h₁.blank ?_
    exact hend s₁ h₁.blank
  | true =>
    refine .peekKind h.blank ?_
    refine .advance h.blank fun _ s₁ _ h₁ => ?_
    refine .peekKind h₁.blank ?_
    refine .advance h₁.blank fun _ s₂ _ h₂ => ?_
    exact hend s₂ h₂.blank

theorem reads_inList {clauses : List Filter} {choices : List Expression} (negated : Bool)
    (hb : Below (ReadsAll v g) room below) (hin : Filter.inList? clauses = some (x, choices))
    (hv : Operand.Means v g value x)
    (hc : Expression.EveryOne (Expression.Plain g.dialect) choices)
    (h : s.At g lo (Filter.inRest negated choices ++ qs)) :
    g.Reads lo (Verdict.nested (Expression.verdictAll g choices) room) qs
      (Means v g · (negatedIf negated (.any clauses)))
      (readRest g operand below start value s) := by
  have hne : choices ≠ [] := by
    obtain ⟨right, rest, rfl, hf⟩ := Filter.of_inList? hin
    cases hf
    exact List.cons_ne_nil _ _
  have hbody (s' : Cursor) (h : s'.At g lo (.keyword .inList :: .blank :: (groupedPieces
      (joinedPieces [.mark .comma, .blank] (Expression.piecesAll choices)) ++ qs))) :
      g.Reads lo (Verdict.nested (Expression.verdictAll g choices) room) qs
        (Means v g · (negatedIf negated (.any clauses)))
        (readNegatable g operand below start value negated s') := by
    rw [Operand.groupedPieces_append] at h
    refine .peekKind h ?_
    refine .advance h fun _ s₁ _ h₁ => ?_
    have hlist : g.Reads lo (Verdict.nested (Expression.verdictAll g choices) room) qs
        (fun os => List.Forall₂ (Operand.Means v g) os choices) (readChoices g below s₁) := by
      refine .expect h₁.blank fun s₂ h₂ => ?_
      refine .deeper hb h₂ fun room r hr => ?_
      refine (reads_commaList hr hne hc h₂).map fun os s₃ hos h₃ => ?_
      exact .expectKind h₃ fun s₄ h₄ => .pure hos h₄
    refine hlist.map fun os s₂ hos h₂ => ?_
    refine .spanFrom start fun span _ => .pure ?_ h₂
    exact .inList span negated hin hv.makes (hos.imp fun _ _ ho => ho.makes)
  simp only [Filter.inRest, Filter.keywordPieces, Filter.negatedKeyword, List.append_assoc,
    List.cons_append] at h
  cases negated with
  | false => exact reads_affirmed h.blank rfl (hbody s h.blank)
  | true => exact reads_not h.blank fun s' h' => hbody s' h'.blank

theorem reads_relation {name : String} {left right : Expression} {f : Filter}
    (hv : Operand.Means v g value (.call name [left, right]))
    (hm : ∀ span os, List.Forall₂ (Operand.Makes v g) os [left, right] →
      Means v g (.call span name os) f) (hq : EndsClause qs) (h : s.At g lo qs) :
    g.Reads lo .fits qs (Means v g · f) (readRest g operand below start value s) := by
  obtain ⟨span, os, rfl, hos⟩ := hv.call _ _ rfl
  refine .peekKind h ?_
  rw [show endsPredicate (kindAt qs 0) = true from hq]
  exact .pure (hm span os hos) h

variable {f : Filter} {rest : List Piece} {w : Nat → Verdict}

/-- What is said about a value is read as its verdict announces. -/
theorem reads_said (hsaid : Filter.Said g f x rest w) (hf : f.Legible g.dialect)
    (hr : ReadsAll v g room operand) (hb : Below (ReadsAll v g) room below)
    (hv : Operand.Means v g value x) (hq : EndsClause qs) (h : s.At g lo (rest ++ qs)) :
    g.Reads lo (w room) qs (Means v g · f) (readRest g operand below start value s) := by
  cases hsaid with
  | compare op left right => exact reads_comparison hr hv hf.2.2 hq h
  | between negated =>
    cases negated with
    | false => exact reads_between false hr hv hf.2.2.1 hf.2.2.2 hq h
    | true => exact reads_between true hr hv hf.2.2.2.1 hf.2.2.2.2 hq h
  | like negated =>
    cases negated with
    | false => exact reads_like false hv hf.1 h
    | true => exact reads_like true hv hf.2.1 h
  | isNull negated => exact reads_isNull negated hv h
  | inList negated hin =>
    cases negated with
    | false => exact reads_inList false hb hin hv (Filter.every_of_inList? hin hf.2).2 h
    | true => exact reads_inList true hb hin hv (Filter.every_of_inList? hin hf.2.2).2 h
  | spatial op left right =>
    exact reads_relation hv (fun span _ hos => .spatial span hos) hq h
  | temporal op left right =>
    exact reads_relation hv (fun span _ hos => .temporal span hos) hq h

/-! ## Whole predicates -/

theorem mayStart_of_startsOperand {k : TokenKind} (h : startsOperand k = true) :
    Operand.mayStart g k = true := by
  cases k with
  | keyword k => cases k <;> first | rfl | cases h
  | mark m => cases m <;> first | rfl | cases h
  | finish => cases h
  | _ => rfl

theorem readPredicate_of_start {ps : List Piece} (h : s.At g lo ps)
    (hs : startsOperand (kindAt ps 0) = true)
    (hw : ∀ word, kindAt ps 0 = .identifier word → endsPredicate (kindAt ps 1) = false) :
    readPredicate g operand below s =
      (operand >>= readRest g operand below (s.token 0)) s := by
  have hstart : Operand.mayStart g (s.kind 0) = true := h.kind_eq 0 ▸ mayStart_of_startsOperand hs
  have hword (w : String) (hk : s.kind 0 = .identifier w) : endsPredicate (s.kind 1) = false :=
    h.kind_eq 1 ▸ hw w ((h.kind_eq 0).symm.trans hk)
  rw [readPredicate_eq, Reader.bind_of_ok (refuseRemoved_eq hstart hword)]
  rfl

theorem second_said (hsaid : Filter.Said g f x rest w) (word : String)
    (hw : kindAt (x.pieces ++ (rest ++ qs)) 0 = .identifier word) :
    endsPredicate (kindAt (x.pieces ++ (rest ++ qs)) 1) = false := by
  have hsecond (hrest : endsPredicate (kindAt (rest ++ qs) 0) = false) :
      endsPredicate (kindAt (x.pieces ++ (rest ++ qs)) 1) = false :=
    second_pieces (R := (endsPredicate · = false)) (by intro op; cases op <;> rfl) rfl rfl x _ hrest
      ⟨word, .inr hw⟩
  cases hsaid with
  | compare op => exact hsecond (by cases op <;> rfl)
  | between negated => exact hsecond (by cases negated <;> rfl)
  | like negated value pattern matchCase =>
    exact hsecond (by cases negated <;> cases matchCase <;> rfl)
  | isNull negated => exact hsecond (by cases negated <;> rfl)
  | inList negated => exact hsecond (by cases negated <;> rfl)
  | spatial => rfl
  | temporal => rfl

/-- A predicate whose value is read is read as its verdict announces. -/
theorem reads_predicate {lo' : Nat} (hsaid : Filter.Said g f x rest w) (hf : f.Legible g.dialect)
    (hr : ReadsAll v g room operand) (hb : Below (ReadsAll v g) room below) (hq : EndsClause qs)
    (h : s.At g lo (x.pieces ++ (rest ++ qs)))
    (hx : g.Reads lo' (x.verdict g room) (rest ++ qs) (Operand.Means v g · x) (operand s)) :
    g.Reads lo' (f.verdict g room) qs (Means v g · f) (readPredicate g operand below s) := by
  rw [readPredicate_of_start h (startsOperand_pieces x _) (second_said hsaid),
    hsaid.verdict_eq]
  exact hx.bind fun o s' ho h' => reads_said hsaid hf hr hb ho hq h'

end Condition

end FeatureFilter
