import FeatureFilter.Proofs.Compiler.Composition
import FeatureFilter.Proofs.Syntax.Precedence

/-!
# Compiling the texts of whole numbers

The text of a 64-bit number is a sign and digits, and the digits are read before the sign is put in
front of them. So every number comes back from its text but the least one, whose digits are no
64-bit number without the sign: it comes back as a double (`expression_long`). The same holds of a
number on either side of an operator, where the operand on the other side has parentheses if it
needs them.
-/

namespace FeatureFilter

open Span (nowhere)

/-! ## Whole numbers -/

namespace Value

/-- What the text of a 64-bit number stands for: the number, but for the least one, which stands for
the double of the same value. -/
def ofLongText (n : Int64) : Value :=
  if n = Int64.minValue then .double (.ofInt n.toInt) else .long n

theorem ofLongText_eq_long_iff (n : Int64) : ofLongText n = .long n ↔ n ≠ Int64.minValue := by
  unfold ofLongText
  split <;> simp_all

end Value

theorem Literal.readNumber_long (n : Int64) : ∃ l,
    readNumber (String.ofList (Layout.wholeNumeral n.toInt.natAbs).chars) = .ok l ∧
      (if n.toInt < 0 then l.negated else l).toValue = .ofLongText n := by
  by_cases hn : n = Int64.minValue
  · subst hn
    refine ⟨_, readNumber_wide rfl (by decide +kernel), ?_⟩
    rw [Value.ofLongText, if_pos rfl]
    exact congrArg Value.double (by decide +kernel)
  · have hlt : -0x8000000000000000 < n.toInt := by
      have hmin : n.toInt ≠ Int64.minValue.toInt := fun h => hn (Int64.toInt_inj.1 h)
      have hle := n.le_toInt
      rw [Int64.toInt_minValue] at hmin
      omega
    rw [Layout.wholeNumeral_chars]
    refine ⟨_, readNumber_digits (Int64.natAbs_le hlt), ?_⟩
    rw [Value.ofLongText, if_neg hn]
    refine Eq.trans ?_ (congrArg Value.long (Int64.ofInt_natAbs n))
    split <;> rfl

/-! ## Compiling -/

namespace Compiler

variable {c : Compiler} {e e' : Expression} {op : ArithmeticOp} {onRight : Bool} {n : Int64}

def sideText (op : ArithmeticOp) (onRight : Bool) (e : Expression) : String :=
  if needsGroup op onRight e then grouped e.text else e.text

theorem text_arithmetic (op : ArithmeticOp) (left right : Expression) :
    (Expression.arithmetic op left right).text.toList =
      (sideText op false left).toList ++
        ' ' :: (op.mark.text.toList ++ ' ' :: (sideText op true right).toList) := by
  simp [Expression.text, sideText, op.toList_symbol]

/-- The text of the expression is compiled to another one that needs parentheses on the side of the
operator just if the first one does, and there is a level for these. -/
def CompilesOnSide (c : Compiler) (op : ArithmeticOp) (onRight : Bool) (e e' : Expression) : Prop :=
  ∃ m, m + (needsGroup op onRight e).toNat ≤ c.dialect.maxDepth ∧
    (c.withLevels m).expression e.text = .ok e' ∧ needsGroup op onRight e' = needsGroup op onRight e

def sideStrength (op : ArithmeticOp) (onRight : Bool) : Nat :=
  if onRight then op.precedence + 1 else op.precedence

theorem needsGroup_arithmetic {op op' : ArithmeticOp} {l r : Expression} :
    needsGroup op onRight (.arithmetic op' l r) = false ↔
    sideStrength op onRight ≤ op'.precedence := by
  cases onRight with
  | false =>
    show decide (op'.precedence < op.precedence) = false ↔ op.precedence ≤ op'.precedence
    rw [decide_eq_false_iff_not, Nat.not_lt]
  | true =>
    show decide (op'.precedence ≤ op.precedence) = false ↔ op.precedence < op'.precedence
    rw [decide_eq_false_iff_not, Nat.not_le]

/-- The text on the side of an operator spells an operand that the operator takes there. -/
theorem spells_side (h : c.CompilesOnSide op onRight e e') (source : String) :
    ∃ x, x.Denotes c.vocabulary e' ∧ (c.grammar source).Spells (sideText op onRight e).toList
      ((c.grammar source).IsTight c.dialect.maxDepth (sideStrength op onRight) · x) := by
  obtain ⟨m, hm, he, hgroup⟩ := h
  have hc : c.Permits (c.withLevels m) :=
    permits_withLevels (c := c.withLevels m) (n := c.dialect.maxDepth) (by
      show m ≤ _
      omega)
  unfold sideText
  split
  · rename_i hneeds
    rw [hneeds] at hm
    obtain ⟨k, hk⟩ : ∃ k, c.dialect.maxDepth = k + 1 :=
      ⟨c.dialect.maxDepth - 1, by simp at hm; omega⟩
    obtain ⟨x, hd, hx⟩ := spells_factor (n := k) hc source (by show m ≤ k; simp at hm; omega) he
    exact ⟨x, hd, hx.imp fun _ h => hk ▸ .of_factor h⟩
  · rename_i hneeds
    obtain ⟨x, hd, hx⟩ := spells_operand (n := c.dialect.maxDepth) hc source
      (by show m ≤ _; omega) he
    refine ⟨x, hd, hx.imp fun _ h => .of_operand h ?_⟩
    rintro op' l r rfl
    obtain ⟨l', r', -, -, rfl⟩ := Operand.denotes_arithmetic.1 hd
    exact needsGroup_arithmetic.1 (hgroup.trans (Bool.eq_false_iff.2 hneeds))

theorem expression_arithmetic {left right left' right' : Expression}
    (hl : c.CompilesOnSide op false left left') (hr : c.CompilesOnSide op true right right') :
    c.expression (Expression.arithmetic op left right).text =
      .ok (.arithmetic op left' right') := by
  obtain ⟨x, hdx, hx⟩ := spells_side hl (Expression.arithmetic op left right).text
  obtain ⟨y, hdy, hy⟩ := spells_side hr (Expression.arithmetic op left right).text
  refine expression_of_spells ?_
    ((Operand.denotes_arithmetic (s := nowhere)).2 ⟨_, _, hdx, hdy, rfl⟩)
  rw [text_arithmetic]
  exact Grammar.Spells.tightArithmetic op hx hy

theorem expression_long_text (c : Compiler) (n : Int64) :
    c.expression (Expression.literal (.long n)).text = .ok (.literal (.ofLongText n)) := by
  obtain ⟨l, hl, hvalue⟩ := Literal.readNumber_long n
  have hchars : (Expression.literal (.long n)).text.toList =
      (if decide (n.toInt < 0) then ['-'] else []) ++
        (Layout.wholeNumeral n.toInt.natAbs).chars := by
    rw [Layout.wholeNumeral_chars]
    simpa [Expression.text, Value.text] using toList_toString_int n.toInt
  refine expression_of_spells (x := .literal nowhere
    (if decide (n.toInt < 0) then l.negated else l)) ?_ (Operand.denotes_literal.2 ?_)
  · rw [hchars]
    exact (Grammar.Spells.numeral _ _ hl).factor
  · simp only [decide_eq_true_eq, hvalue]

theorem compilesOnSide_long (c : Compiler) (op : ArithmeticOp) (onRight : Bool) (n : Int64) :
    c.CompilesOnSide op onRight (.literal (.long n)) (.literal (.ofLongText n)) :=
  ⟨0, Nat.zero_le _, expression_long_text _ n, rfl⟩

/-- A 64-bit number is compiled from its text by any compiler, and comes back as itself unless it is
the least one. So it does on either side of an operator, with anything on the other side that is
compiled from its text. -/
theorem expression_long (c : Compiler) (n : Int64) :
    c.expression (Expression.literal (.long n)).text = .ok (.literal (.ofLongText n)) ∧
    (Value.ofLongText n = .long n ↔ n ≠ Int64.minValue) ∧
    ∀ op e e',
      (c.CompilesOnSide op true e e' →
        c.expression (Expression.arithmetic op (.literal (.long n)) e).text =
          .ok (.arithmetic op (.literal (.ofLongText n)) e')) ∧
      (c.CompilesOnSide op false e e' →
        c.expression (Expression.arithmetic op e (.literal (.long n))).text =
          .ok (.arithmetic op e' (.literal (.ofLongText n)))) :=
  ⟨expression_long_text c n, Value.ofLongText_eq_long_iff n, fun op _ _ =>
    ⟨fun h => expression_arithmetic (compilesOnSide_long c op false n) h,
      fun h => expression_arithmetic h (compilesOnSide_long c op true n)⟩⟩

/-- The greatest number behind a difference, which needs no parentheses there, and in front of it.
-/
theorem expression_long_greatest :
    standard.CompilesOnSide .sub false
      (.arithmetic .sub (.literal (.long 1)) (.literal (.long (-2))))
      (.arithmetic .sub (.literal (.long 1)) (.literal (.long (-2)))) ∧
    standard.expression (Expression.arithmetic .sub
        (.arithmetic .sub (.literal (.long 1)) (.literal (.long (-2))))
        (.literal (.long Int64.maxValue))).text =
      .ok (.arithmetic .sub (.arithmetic .sub (.literal (.long 1)) (.literal (.long (-2))))
        (.literal (.long Int64.maxValue))) := by
  have hside : standard.CompilesOnSide .sub false
      (.arithmetic .sub (.literal (.long 1)) (.literal (.long (-2))))
      (.arithmetic .sub (.literal (.long 1)) (.literal (.long (-2)))) :=
    ⟨100, by decide, ((expression_long standard 1).2.2 .sub _ _).1
      (compilesOnSide_long standard .sub true (-2)), rfl⟩
  exact ⟨hside, ((expression_long standard Int64.maxValue).2.2 .sub _ _).2 hside⟩

/-- The least number does not come back from its text. -/
theorem expression_long_least : ¬ ∀ n : Int64,
    standard.expression (Expression.literal (.long n)).text = .ok (.literal (.long n)) := by
  intro h
  have hleast := (expression_long_text standard Int64.minValue).symm.trans (h Int64.minValue)
  exact (Value.ofLongText_eq_long_iff Int64.minValue).1
    (Expression.literal.inj (Except.ok.inj hleast)) rfl

end Compiler

end FeatureFilter
