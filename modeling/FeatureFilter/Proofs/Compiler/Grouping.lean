import FeatureFilter.Proofs.Compiler.Composition

/-!
# A value in parentheses

The value of a predicate may stand in parentheses, with a level more: the text is compiled to the
same tree. There is one exception. A call in parentheses is read as a group first, and that is given
up only for what can follow a value; `NOT ILIKE` is not among it.
-/

namespace FeatureFilter

open Grammar (Said Spells StartsNotIlike)

namespace Compiler

/-- The text, whose tokens are `ts`, says something about the operand. -/
structure Says (c : Compiler) (text : String) (ts : List Token) (x : Operand) (b : Condition) :
    Prop where
  tokens : ∃ p, tokenize text = .ok (ts ++ [.finishAt p])
  said : Said (c.grammar text) ((c.grammar text).IsOperand c.dialect.maxDepth)
    (Category.below (c.grammar text).IsOperand c.dialect.maxDepth) x ts b
  some : ts ≠ []

variable {c' c : Compiler} {source E R : String} {ts : List Token} {x : Operand} {b : Condition}
  {f : Filter} {n : Nat}

theorem spells_said (hc : c'.Permits c) (source : String) (hn : c.dialect.maxDepth ≤ n)
    (hR : c.Says R ts x b) (hf : b.Denotes c.vocabulary f) :
    (c'.grammar source).Spells R.toList fun us =>
      Said (c'.grammar source) ((c'.grammar source).IsOperand n)
        (Category.below (c'.grammar source).IsOperand n) x us b ∧
      (StartsNotIlike us → StartsNotIlike ts) := by
  obtain ⟨p, htokens⟩ := hR.tokens
  refine Spells.of_tokenize htokens fun hsource hm => ?_
  have hw := hc.widens hsource
  exact ⟨hw.said (hw.isOperand hn) (hw.belowOperand hn) hm ⟨f, hf⟩ hR.said,
    Grammar.Widens.startsNotIlike hm⟩

/-- A value and a text that says something about it, put together. -/
theorem filter_of_says (hc : c'.Permits c) {xs : List Char} {x : Operand}
    (hx : (c'.grammar source).Spells xs
      ((c'.grammar source).IsOperand c'.dialect.maxDepth · x))
    (hsource : source.toList = xs ++ ' ' :: R.toList) (hR : c.Says R ts x b)
    (hf : b.Denotes c.vocabulary f)
    (hilike : StartsNotIlike ts → ∀ name args, x ≠ .call Span.nowhere name args) :
    c'.filter source = .ok f := by
  have hs := hx.append (Spells.stops_blank _) (spells_said hc source hc.levels hR hf).blank
  rw [← hsource] at hs
  refine filter_of_spells (hs.imp ?_) (hf.extend hc.vocabulary)
  rintro _ ⟨us, vs, rfl, hus, hsaid, hvs⟩
  have hp : Grammar.Predicate (c'.grammar source) _ _ (us ++ vs) b :=
    .intro hus hsaid fun h ⟨_, name, args, hcall⟩ => hilike (hvs h) name args hcall
  exact Grammar.Disjunction.single (Grammar.isNegation_eq _ _ ▸ .predicate hp)

/-- A value and what is said about it are compiled to the same tree with the value in parentheses
and a level more, unless the value is a call and `NOT ILIKE` follows. -/
theorem filter_grouped (c : Compiler) (hE : c.operand E = .ok x) (hR : c.Says R ts x.bare b)
    (hf : b.Denotes c.vocabulary f)
    (hilike : StartsNotIlike ts → ∀ s name args, x ≠ .call s name args) :
    c.filter (E ++ " " ++ R) = .ok f ∧
      (c.withLevels (c.dialect.maxDepth + 1)).filter (grouped E ++ " " ++ R) = .ok f := by
  have hx : x.bare.HasMeaning c.vocabulary := Grammar.Widens.hasMeaning_value hR.said ⟨f, hf⟩
  have hno : StartsNotIlike ts → ∀ name args, x.bare ≠ .call Span.nowhere name args := by
    intro h name args hcall
    cases x with
    | call s name args => exact hilike h s name args rfl
    | _ => cases hcall
  have hself : c.Permits c := permits_withLevels (Nat.le_refl _)
  have hmore := permits_withLevels (Nat.le_succ c.dialect.maxDepth)
  constructor
  · refine filter_of_says hself (spells_phrase hself _ (Nat.le_refl _) hE hx) ?_ hR hf hno
    simp
  · have hg := (spells_phrase hmore (grouped E ++ " " ++ R) (Nat.le_refl _) hE hx).groupedOperand
    refine filter_of_says hmore hg.factor ?_ hR hf hno
    simp [toList_grouped]

/-- A sum in parentheses, and a pattern. -/
theorem filter_grouped_like : ∃ f, standard.filter "a + 1 LIKE 'x'" = .ok f ∧
    (standard.withLevels 101).filter "(a + 1) LIKE 'x'" = .ok f := by
  let like : Token := ⟨.keyword .like, "LIKE", ⟨0, 4, 1, 1⟩⟩
  let pattern : Token := ⟨.string "x", "'x'", ⟨5, 8, 1, 6⟩⟩
  have htokens : tokenize "LIKE 'x'" = .ok ([like, pattern] ++ [.finishAt ⟨8, 1, 9⟩]) :=
    ok_of_toOption (by decide +kernel)
  obtain ⟨e, he⟩ := exists_ok (x := standard.expression "a + 1") (by decide +kernel)
  obtain ⟨x, hx, hd⟩ := expression_eq_ok.1 he
  have hd' := Operand.denotes_bare.2 hd
  have hsays :
      standard.Says "LIKE 'x'" [like, pattern] x.bare (.like Span.nowhere false x.bare "x" true) :=
    ⟨⟨_, htokens⟩, .like .no rfl rfl, List.cons_ne_nil _ _⟩
  refine ⟨_, filter_grouped standard hx hsays (Condition.denotes_like.2 ⟨e, hd', rfl⟩) ?_⟩
  rintro ⟨_, _, _, _, he, hnot, -⟩
  cases he
  cases hnot

def withIlike : Compiler :=
  { standard with dialect := { Dialect.cql2 with extensions := .ofList [.ilike] } }

/-- A call in parentheses is not read as the value of `NOT ILIKE`. -/
theorem filter_grouped_notIlike :
    (withIlike.filter "casei(name) NOT ILIKE 'x'").toOption.isSome = true ∧
      ((withIlike.withLevels 101).filter "(casei(name)) NOT ILIKE 'x'").toOption.isSome =
        false := by
  decide +kernel

end Compiler

end FeatureFilter
