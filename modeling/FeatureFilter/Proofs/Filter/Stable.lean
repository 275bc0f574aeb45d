import FeatureFilter.Proofs.Filter.RoundTrip

/-!
# Texts of trees that are read back

The text of what is read from the text of a finite filter is that text (`Filter.text_reread`),
though the filter need not be the same: an `IN` list comes back with a single left side.
-/

namespace FeatureFilter

namespace Filter

variable {g : Grammar} {d : Dialect} {f : Filter} {clauses : List Filter} {value : Expression}
  {choices : List Expression}

/-! ## Texts of lists and chains -/

theorem text_inList (h : inList? clauses = some (value, choices)) :
    (any clauses).text = inText false value choices := by
  simp [text, isEmpty_of_inList? h, h]

theorem negationText_inList (h : inList? clauses = some (value, choices)) :
    (any clauses).negationText = inText true value choices := by
  simp [negationText, isEmpty_of_inList? h, h]

/-- The equalities of an `IN` list are one with the same value and choices. -/
theorem inList?_choices (hin : inList? clauses = some (value, choices))
    (h : EveryOne (fun _ => True) Expression.Finite clauses) :
    inList? (choices.map fun choice => compare .eq value choice) = some (value, choices) := by
  obtain ⟨right, rest, rfl, hf⟩ := of_inList? hin
  refine inList?_map (Expression.beq_self (every_of_inList? hin h).1) ?_
  rintro rfl
  cases hf

/-! ## Equalities among the clauses -/

/-- An equality comes back as the same equality, and nothing else comes back as one. -/
theorem equality?_reread (hw : ReadsShapes g.readGeometry) (hl : f.Legible d) (h : f.AllFinite) :
    (f.reread g).equality? = f.equality? := by
  cases f with
  | compare op left right =>
    rw [reread, Expression.reread_eq hw h.2.1, Expression.reread_eq hw h.2.2]
  | any clauses =>
    cases hin : inList? clauses with
    | some p =>
      rw [reread_inList hw hin h.2]
      rfl
    | none =>
      rw [reread_any hin hl.1 h.2]
      rfl
  | _ => rfl

theorem choices?_rereadAll (hw : ReadsShapes g.readGeometry) (left : Expression) {fs : List Filter}
    (hl : EveryOne (Filter.Plain d) (Expression.Plain d) fs)
    (h : EveryOne (fun _ => True) Expression.Finite fs) :
    choices? left (rereadAll g fs) = choices? left fs := by
  induction fs with
  | nil => rfl
  | cons f fs ih => rw [rereadAll, choices?, choices?, equality?_reread hw hl.1 h.1, ih hl.2 h.2]

/-- The clauses of a chain come back as an `IN` list when they are one. -/
theorem inList?_rereadAll (hw : ReadsShapes g.readGeometry) {fs : List Filter}
    (hl : EveryOne (Filter.Plain d) (Expression.Plain d) fs)
    (h : EveryOne (fun _ => True) Expression.Finite fs) :
    inList? (rereadAll g fs) = inList? fs := by
  cases fs with
  | nil => rfl
  | cons f fs =>
    have hc (left : Expression) : choices? left (rereadAll g (f :: fs)) = choices? left (f :: fs) :=
      choices?_rereadAll hw left hl h
    rw [rereadAll] at hc ⊢
    simp only [inList?, equality?_reread hw hl.1 h.1, hc]

theorem isChain_reread (hw : ReadsShapes g.readGeometry) (hl : f.Legible d) (h : f.AllFinite) :
    (f.reread g).isChain = f.isChain := by
  cases f with
  | any clauses =>
    cases hin : inList? clauses with
    | some p =>
      rw [reread_inList hw hin h.2, isChain, isChain, inList?_choices hin h.2, hin]
    | none => rw [reread_any hin hl.1 h.2, isChain, isChain, inList?_rereadAll hw hl.2 h.2]
  | _ => rfl

theorem isEmpty_rereadAll (g : Grammar) (fs : List Filter) :
    (rereadAll g fs).isEmpty = fs.isEmpty := by
  cases fs <;> rfl

/-! ## Whole texts -/

def isLeaf : Filter → Bool
  | all _ | any _ | negation _ => false
  | _ => true

theorem reread_of_isLeaf (hw : ReadsShapes g.readGeometry) (hf : f.isLeaf = true)
    (h : f.AllFinite) : f.reread g = f := by
  cases f with
  | compare op left right =>
    rw [reread, Expression.reread_eq hw h.2.1, Expression.reread_eq hw h.2.2]
  | between value low high =>
    rw [reread, Expression.reread_eq hw h.2.1, Expression.reread_eq hw h.2.2.1,
      Expression.reread_eq hw h.2.2.2]
  | like value pattern matchCase => rw [reread, Expression.reread_eq hw h.2]
  | isNull value => rw [reread, Expression.reread_eq hw h.2]
  | spatial op left right =>
    rw [reread, Expression.reread_eq hw h.2.1, Expression.reread_eq hw h.2.2]
  | temporal op left right =>
    rw [reread, Expression.reread_eq hw h.2.1, Expression.reread_eq hw h.2.2]
  | all _ => cases hf
  | any _ => cases hf
  | negation _ => cases hf

mutual

/-- What is read from the text of a finite filter has the same text. -/
theorem text_reread (hw : ReadsShapes g.readGeometry) :
    ∀ {f : Filter}, f.Legible d → f.AllFinite → (f.reread g).text = f.text
  | compare _ _ _, _, h | between _ _ _, _, h | like _ _ _, _, h | isNull _, _, h
  | spatial _ _ _, _, h | temporal _ _ _, _, h => by rw [reread_of_isLeaf hw rfl h]
  | all clauses, hl, h => by
    rw [reread, text, text, isEmpty_rereadAll, clauseTexts_rereadAll hw hl.2 h.2]
  | any clauses, hl, h => by
    cases hin : inList? clauses with
    | some p =>
      rw [reread_inList hw hin h.2, text_inList hin, text_inList (inList?_choices hin h.2)]
    | none =>
      rw [reread_any hin hl.1 h.2, text, text, isEmpty_rereadAll, inList?_rereadAll hw hl.2 h.2,
        clauseTexts_rereadAll hw hl.2 h.2]
  | negation clause, hl, h => by rw [reread, text, text, negationText_reread hw hl.2 h.2]

theorem negationText_reread (hw : ReadsShapes g.readGeometry) :
    ∀ {f : Filter}, f.Legible d → f.AllFinite → (f.reread g).negationText = f.negationText
  | compare _ _ _, _, h | between _ _ _, _, h | like _ _ _, _, h | isNull _, _, h
  | spatial _ _ _, _, h | temporal _ _ _, _, h => by rw [reread_of_isLeaf hw rfl h]
  | all clauses, hl, h => by
    rw [reread, negationText, negationText, isEmpty_rereadAll, clauseTexts_rereadAll hw hl.2 h.2]
  | any clauses, hl, h => by
    cases hin : inList? clauses with
    | some p =>
      rw [reread_inList hw hin h.2, negationText_inList hin,
        negationText_inList (inList?_choices hin h.2)]
    | none =>
      rw [reread_any hin hl.1 h.2, negationText, negationText, isEmpty_rereadAll,
        inList?_rereadAll hw hl.2 h.2, clauseTexts_rereadAll hw hl.2 h.2]
  | negation clause, hl, h => by
    rw [reread, negationText, negationText, negationText_reread hw hl.2 h.2]

theorem clauseTexts_rereadAll (hw : ReadsShapes g.readGeometry) :
    ∀ {fs : List Filter}, EveryOne (Filter.Plain d) (Expression.Plain d) fs →
      EveryOne (fun _ => True) Expression.Finite fs → clauseTexts (rereadAll g fs) = clauseTexts fs
  | [], _, _ => rfl
  | f :: fs, hl, h => by
    rw [rereadAll, clauseTexts, clauseTexts, isChain_reread hw hl.1 h.1, text_reread hw hl.1 h.1,
      clauseTexts_rereadAll hw hl.2 h.2]

end

end Filter

end FeatureFilter
