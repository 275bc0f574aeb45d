import FeatureFilter.Proofs.Syntax.Spelling
import FeatureFilter.Proofs.Syntax.Widening

/-!
# Operators and their sides

Operators group to the left, so that an operand stands on the left of an operator without
parentheses when its own operators are as strong, and on the right when they are stronger
(`IsTight.arithmetic`). How strong the operators of an operand are shows in the one at its top
(`IsTight.of_operand`).
-/

namespace FeatureFilter

open Span (nowhere)

theorem Category.Linked.snoc {α β : Type} {link? : TokenKind → Option β} {item : Category α}
    {ts us : List Token} {t : Token} {b : β} {a : α} {links : List (β × α)}
    (h : Linked link? item ts links) (link : link? t.kind = some b) (ha : item us a) :
    Linked link? item (ts ++ t :: us) (links ++ [(b, a)]) := by
  induction h with
  | nil =>
    have hs : Linked link? item (t :: (us ++ [])) [(b, a)] := .cons link ha .nil
    rwa [List.append_nil] at hs
  | cons link' head _ ih =>
    rw [List.cons_append, List.append_assoc]
    exact .cons link' head ih

namespace Grammar

variable {g : Grammar} {n p : Nat} {ts us : List Token} {t : Token} {x y : Operand}
  {op : ArithmeticOp} {op? : TokenKind → Option ArithmeticOp} {item : Category Operand}

/-- One more item behind an operator. -/
theorem Operators.snoc (h : Operators op? item ts x) (link : op? t.kind = some op)
    (hy : item us y) : Operators op? item (ts ++ t :: us) (.arithmetic nowhere op x y) := by
  obtain ⟨head, tail⟩ := h
  have hs : Operators op? item _ _ := .intro head (tail.snoc link hy)
  rw [List.foldl_append] at hs
  rwa [List.append_assoc]

/-- Operands whose operators outside parentheses are of precedence `p` at least. -/
def IsTight (g : Grammar) (n p : Nat) : Category Operand :=
  if p ≤ 1 then g.IsOperand n else if p = 2 then Product (g.IsFactor n) else g.IsFactor n

theorem precedence_of_sumOp? {k : TokenKind} (h : Operand.sumOp? k = some op) :
    op.precedence = 1 := by
  unfold Operand.sumOp? at h
  split at h <;> cases h <;> rfl

theorem precedence_of_productOp? {k : TokenKind} (h : Operand.productOp? k = some op) :
    op.precedence = 2 := by
  unfold Operand.productOp? at h
  split at h <;> cases h <;> rfl

/-- A factor has no operators outside parentheses. -/
theorem IsTight.of_factor (h : g.IsFactor n ts x) : g.IsTight n p ts x := by
  unfold IsTight
  split
  · exact h.isOperand
  · split
    · exact Category.Sequence.single h
    · exact h

/-- The operator at the top of an operand is the weakest of those outside parentheses. -/
theorem IsTight.of_operand (h : g.IsOperand n ts x)
    (hx : ∀ op l r, x = .arithmetic nowhere op l r → p ≤ op.precedence) : g.IsTight n p ts x := by
  unfold IsTight
  split
  · exact h
  · rename_i hp
    have hproduct : Product (g.IsFactor n) ts x := by
      obtain hitem | ⟨k, op, l, r, hk, he⟩ := Operators.top h
      · exact hitem
      · have := hx op l r he
        rw [precedence_of_sumOp? hk] at this
        exact absurd this hp
    split
    · exact hproduct
    · rename_i hp'
      obtain hitem | ⟨k, op, l, r, hk, he⟩ := Operators.top hproduct
      · exact hitem
      · have := hx op l r he
        rw [precedence_of_productOp? hk] at this
        omega

/-- An operator groups to the left: its right side has to be tighter than its left one. -/
theorem IsTight.arithmetic (hx : g.IsTight n op.precedence ts x) (ht : t.kind = .mark op.mark)
    (hy : g.IsTight n (op.precedence + 1) us y) :
    g.IsOperand n (ts ++ t :: us) (.arithmetic nowhere op x y) := by
  cases op with
  | add | sub => exact Operators.snoc hx (by rw [ht]; rfl) hy
  | mul | div => exact Category.Sequence.single (Operators.snoc hx (by rw [ht]; rfl) hy)

namespace Spells

variable {xs ys : List Char}

theorem tightArithmetic (op : ArithmeticOp) (hx : g.Spells xs (g.IsTight n op.precedence · x))
    (hy : g.Spells ys (g.IsTight n (op.precedence + 1) · y)) :
    g.Spells (xs ++ ' ' :: (op.mark.text.toList ++ ' ' :: ys))
      (g.IsOperand n · (.arithmetic nowhere op x y)) := by
  refine (hx.append (stops_blank _) (hy.blank.mark op.mark (stops_blank _)).blank).imp ?_
  rintro _ ⟨us, _, rfl, hus, t, vs, rfl, ht, hvs⟩
  exact hus.arithmetic ht hvs

/-- A numeral with a sign that is true for minus. -/
theorem numeral (m : Numeral) (negative : Bool) {l : Literal}
    (hl : Literal.readNumber (String.ofList m.chars) = .ok l) :
    g.Spells ((if negative then ['-'] else []) ++ m.chars)
      (g.IsFactor n · (.literal nowhere (if negative then l.negated else l))) := by
  have hnumber : g.Spells (m.chars ++ [])
      (Leads (.number (String.ofList m.chars)) (· = [])) :=
    lexeme (firm_number m [] stops_nil) nil
  rw [List.append_nil] at hnumber
  rw [isFactor_eq]
  cases negative with
  | false =>
    refine hnumber.imp ?_
    rintro _ ⟨t, _, rfl, ht, rfl⟩
    exact .primary (.number ht hl)
  | true =>
    refine (lexeme (solid_minus m.chars) hnumber).imp ?_
    rintro _ ⟨s, _, rfl, hs, t, _, rfl, ht, rfl⟩
    have hsign : Operand.sign? s.kind = some true := by rw [hs]; rfl
    exact .number hsign ht hl

end Spells

end Grammar

end FeatureFilter
