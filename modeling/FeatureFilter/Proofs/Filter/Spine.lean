import FeatureFilter.Proofs.Filter.Verdict

/-!
# Chains of operators

Operators of one precedence group to the left: an expression is its head with links of operators and
operands behind it. Its text and the verdict on it follow the links, the operands of an operator
being in parentheses unless they bind stronger.
-/

namespace FeatureFilter

namespace Expression

variable {P : Expression → Prop} {g : Grammar} {p : Nat}

/-- Whether an operator at the top needs parentheses where those of precedence `p` do. -/
def groupedAt (p : Nat) : Expression → Bool
  | .arithmetic op _ _ => op.precedence ≤ p
  | _ => false

/-- The pieces of an operand where operators of precedence `p` need parentheses. -/
def piecesAt (p : Nat) (e : Expression) : List Piece :=
  if e.groupedAt p then groupedPieces e.pieces else e.pieces

/-- The verdict on an operand where operators of precedence `p` need parentheses. -/
def verdictAt (g : Grammar) (p : Nat) (e : Expression) : Nat → Verdict :=
  Verdict.bracketed (e.groupedAt p) (e.verdict g)

/-- The leftmost operand of a chain of operators of precedence `p`. -/
def head (p : Nat) : Expression → Expression
  | .arithmetic op left right =>
    if op.precedence = p then left.head p else .arithmetic op left right
  | e => e

/-- The operators of a chain with their right operands. -/
def links (p : Nat) : Expression → List (ArithmeticOp × Expression)
  | .arithmetic op left right => if op.precedence = p then left.links p ++ [(op, right)] else []
  | _ => []

/-- What stands between the operands of a chain. -/
def linkPieces (link : ArithmeticOp × Expression) : List Piece :=
  [.blank, .mark link.1.mark, .blank]

theorem needsGroup_false (op : ArithmeticOp) (e : Expression) :
    needsGroup op false e = e.groupedAt (op.precedence - 1) := by
  cases e with
  | arithmetic op' l r => cases op <;> cases op' <;> rfl
  | _ => rfl

theorem needsGroup_true (op : ArithmeticOp) (e : Expression) :
    needsGroup op true e = e.groupedAt op.precedence := by
  cases e with
  | arithmetic op' l r => rfl
  | _ => rfl

theorem groupedAt_zero (e : Expression) : e.groupedAt 0 = false := by
  cases e with
  | arithmetic op l r => cases op <;> rfl
  | _ => rfl

theorem piecesAt_zero (e : Expression) : e.piecesAt 0 = e.pieces := by
  rw [piecesAt, groupedAt_zero, if_neg Bool.false_ne_true]

theorem verdictAt_zero (e : Expression) : e.verdictAt g 0 = e.verdict g := by
  rw [verdictAt, groupedAt_zero, Verdict.bracketed_false]

theorem pieces_arithmetic (op : ArithmeticOp) (left right : Expression) :
    (arithmetic op left right).pieces =
      infixPieces op.mark (left.piecesAt (op.precedence - 1)) (right.piecesAt op.precedence) := by
  rw [pieces, needsGroup_false, needsGroup_true]
  rfl

theorem verdict_arithmetic (op : ArithmeticOp) (left right : Expression) (room : Nat) :
    (arithmetic op left right).verdict g room =
      (left.verdictAt g (op.precedence - 1) room).andThen
        (right.verdictAt g op.precedence room) := by
  simp only [verdict, needsGroup_false, needsGroup_true, verdictAt]

theorem foldl_links (p : Nat) (e : Expression) :
    (e.links p).foldl (fun left (op, right) => arithmetic op left right) (e.head p) = e := by
  cases e with
  | arithmetic op left right =>
    rw [links, head]
    split
    · rw [List.foldl_append, foldl_links p left]
      rfl
    · rfl
  | _ => rfl

theorem Every.head_links {e : Expression} (h : e.Every P) (p : Nat) :
    (e.head p).Every P ∧ ∀ x ∈ e.links p, x.2.Every P ∧ x.1.precedence = p := by
  cases e with
  | literal _ => exact ⟨h, by simp [links]⟩
  | property _ => exact ⟨h, by simp [links]⟩
  | call _ _ => exact ⟨h, by simp [links]⟩
  | arithmetic op left right =>
    rw [head, links]
    split
    · rename_i hp
      obtain ⟨hh, hl⟩ := Every.head_links h.2.1 p
      refine ⟨hh, fun x hx => ?_⟩
      rcases List.mem_append.1 hx with hx | hx
      · exact hl x hx
      · obtain rfl := List.mem_singleton.1 hx
        exact ⟨h.2.2, hp⟩
    · exact ⟨h, by simp⟩

/-- What is grouped at one precedence is no chain of a higher one. -/
theorem head_of_groupedAt {e : Expression} (h : e.groupedAt p = true) :
    e.head (p + 1) = e ∧ e.links (p + 1) = [] ∧ e.groupedAt (p + 1) = true := by
  match e with
  | .arithmetic op left right =>
    have hp : op.precedence ≤ p := of_decide_eq_true h
    rw [head, links, if_neg (by omega), if_neg (by omega)]
    exact ⟨rfl, rfl, decide_eq_true (by omega)⟩

theorem piecesAt_eq (p : Nat) (e : Expression) :
    e.piecesAt p = (e.head (p + 1)).piecesAt (p + 1) ++
      separatedPieces linkPieces (fun x => x.2.piecesAt (p + 1)) (e.links (p + 1)) := by
  by_cases hg : e.groupedAt p = true
  · obtain ⟨hh, hl, hg'⟩ := head_of_groupedAt hg
    rw [hh, hl, piecesAt, piecesAt, hg, hg', separatedPieces, List.flatMap_nil, List.append_nil]
  · rw [piecesAt, if_neg hg]
    cases e with
    | literal _ => simp [head, links, piecesAt, groupedAt, separatedPieces]
    | property _ => simp [head, links, piecesAt, groupedAt, separatedPieces]
    | call _ _ => simp [head, links, piecesAt, groupedAt, separatedPieces]
    | arithmetic op left right =>
      have hp : ¬ op.precedence ≤ p := fun h => hg (decide_eq_true h)
      rw [head, links]
      split
      · rename_i hop
        rw [pieces_arithmetic, infixPieces, hop, Nat.add_sub_cancel, piecesAt_eq p left]
        simp [separatedPieces, linkPieces]
      · rw [piecesAt, groupedAt, if_neg (by simp; omega)]
        simp [separatedPieces]

theorem verdictAt_eq (p : Nat) (e : Expression) (room : Nat) :
    e.verdictAt g p room = ((e.head (p + 1)).verdictAt g (p + 1) room).andThen
      (Verdict.all (fun x => x.2.verdictAt g (p + 1) room) (e.links (p + 1))) := by
  by_cases hg : e.groupedAt p = true
  · obtain ⟨hh, hl, hg'⟩ := head_of_groupedAt hg
    rw [hh, hl, verdictAt, verdictAt, hg, hg', Verdict.all, Verdict.andThen_fits]
  · rw [verdictAt, Bool.eq_false_iff.2 hg, Verdict.bracketed_false]
    cases e with
    | literal _ => simp [head, links, verdictAt, groupedAt, Verdict.all]
    | property _ => simp [head, links, verdictAt, groupedAt, Verdict.all]
    | call _ _ => simp [head, links, verdictAt, groupedAt, Verdict.all]
    | arithmetic op left right =>
      have hp : ¬ op.precedence ≤ p := fun h => hg (decide_eq_true h)
      rw [head, links]
      split
      · rename_i hop
        rw [verdict_arithmetic, hop, Nat.add_sub_cancel, verdictAt_eq p left, Verdict.all_append,
          Verdict.andThen_assoc]
        simp [Verdict.all]
      · have : groupedAt (p + 1) (.arithmetic op left right) = false :=
          decide_eq_false (by omega)
        simp [verdictAt, this, Verdict.all]

end Expression

end FeatureFilter
