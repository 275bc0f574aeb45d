import FeatureFilter.Proofs.Filter.Nuances
import FeatureFilter.Proofs.Filter.Stable
import FeatureFilter.Proofs.Syntax.Denotation

/-!
# Folding equalities into `IN` lists

An `any` of equalities whose left sides equal the first one is written as an `IN` list, and of the
left sides only the first is written. The others are lost where they are not the same as the first:
in the signs of their zeros and the offsets of their timestamps, and in nothing else
(`Filter.left_sides_of_inList`).
-/

namespace FeatureFilter

namespace Filter

variable {clauses : List Filter} {value : Expression} {choices : List Expression}

theorem exists_chooses {f : Filter} (h : List.Forall₂ (Chooses value) clauses choices)
    (hf : f ∈ clauses) : ∃ choice, Chooses value f choice := by
  induction h with
  | nil => cases hf
  | @cons g choice _ _ hg _ ih =>
    obtain rfl | hf := List.mem_cons.1 hf
    · exact ⟨choice, hg⟩
    · exact ih hf

/-- The equalities of the value of an `IN` list and its choices are the clauses exactly when all
left sides have the nuances of the first one. -/
theorem map_choices_iff (h : List.Forall₂ (Chooses value) clauses choices) :
    choices.map (compare .eq value) = clauses ↔
      ∀ left right, compare .eq left right ∈ clauses → left.nuances = value.nuances := by
  constructor
  · rintro rfl left right hmem
    obtain ⟨choice, -, heq⟩ := List.mem_map.1 hmem
    cases heq
    rfl
  · intro hn
    refine eq_map_of_oneSided h fun f hf => ?_
    obtain ⟨choice, left, rfl, hleft⟩ := exists_chooses h hf
    exact ⟨choice, by rw [(Expression.same_iff_nuances hleft).1.2 (hn left choice hf)]⟩

/-- Folding equalities into an `IN` list keeps everything but the nuances of the left sides. The
list is written with the left side of the first clause. The left side of every clause equals it, and
it is the same, has the same text and has the same JSON form exactly when its zeros have the same
signs and its timestamps the same offsets. What the list means are the equalities of that one left
side, and those are the clauses exactly when this is so for all of them. -/
theorem left_sides_of_inList (h : inList? clauses = some (value, choices)) :
    ((any clauses).text = inText false value choices ∧
      ∃ right rest, clauses = compare .eq value right :: rest) ∧
    List.Forall₂ (fun clause choice => ∃ left, clause = compare .eq left choice ∧
      (left == value) = true ∧ (left = value ↔ left.nuances = value.nuances) ∧
      (left.text = value.text ↔ left.nuances = value.nuances) ∧
      (left.toJson = value.toJson ↔ left.nuances = value.nuances)) clauses choices ∧
    (∀ {v : Vocabulary} {s : Span} {x : Operand} {xs : List Operand}, x.Denotes v value →
      List.Forall₂ (Operand.Denotes v) xs choices →
      (Condition.inList s false x xs).Denotes v (any (choices.map (compare .eq value)))) ∧
    (choices.map (compare .eq value) = clauses ↔
      ∀ left right, compare .eq left right ∈ clauses → left.nuances = value.nuances) := by
  obtain ⟨right, rest, hclauses, hchooses⟩ := of_inList? h
  refine ⟨⟨text_inList h, right, rest, hclauses⟩, ?_, ?_, map_choices_iff hchooses⟩
  · refine hchooses.imp fun clause choice hc => ?_
    obtain ⟨left, hclause, hleft⟩ := hc
    exact ⟨left, hclause, hleft, Expression.same_iff_nuances hleft⟩
  · intro v s x xs hx hxs
    exact Condition.denotes_inList.2 ⟨value, hx, choices, hxs, rfl⟩

theorem left_sides_of_inList_negative_zero :
    let zero := Expression.literal (.double (.finite (.zero true)))
    let choices := [Expression.literal (.long 1), .literal (.long 2)]
    let clauses := [compare .eq zero (.literal (.long 1)), compare .eq zero (.literal (.long 2))]
    inList? clauses = some (zero, choices) ∧ choices.map (compare .eq zero) = clauses := by
  intro zero choices clauses
  have h : inList? clauses = some (zero, choices) := rfl
  refine ⟨h, (left_sides_of_inList h).2.2.2.2 fun left right hmem => ?_⟩
  simp only [clauses, List.mem_cons, compare.injEq, true_and, List.not_mem_nil, or_false] at hmem
  obtain ⟨rfl, -⟩ | ⟨rfl, -⟩ := hmem <;> rfl

/-- A sign of zero and an offset that are lost: `-0.0 = 2` behind `0.0 = 1`, and an hour ahead of
UTC behind UTC. -/
theorem folding_drops_nuances :
    let zero (negative : Bool) := Expression.literal (.double (.finite (.zero negative)))
    let day : Date := ⟨2024, 5, 1, by decide, by decide, by decide, by decide⟩
    let utc := Expression.literal (.timestamp ⟨day, ⟨0, 0, 0⟩, 0, by decide, by decide, rfl⟩)
    let ahead := Expression.literal (.timestamp ⟨day, ⟨60, 0, 0⟩, 60, by decide, by decide, rfl⟩)
    let choices := [Expression.literal (.long 1), .literal (.long 2)]
    let folded (a b : Expression) :=
      inList? [compare .eq a (.literal (.long 1)), compare .eq b (.literal (.long 2))] =
        some (a, choices) ∧ b.text ≠ a.text ∧ b.toJson ≠ a.toJson ∧
      choices.map (compare .eq a) ≠
        [compare .eq a (.literal (.long 1)), compare .eq b (.literal (.long 2))]
    folded (zero false) (zero true) ∧ folded utc ahead := by
  intro zero day utc ahead choices folded
  have hfolded {a b : Expression} (ha : (a == a) = true) (hb : (b == a) = true)
      (hne : b.nuances ≠ a.nuances) : folded a b := by
    obtain ⟨hsame, htext, hjson⟩ := Expression.same_iff_nuances hb
    refine ⟨?_, mt htext.1 hne, mt hjson.1 hne, fun heq => hne (hsame.1 ?_)⟩
    · simp [inList?, choices?, equality?, ha, hb, choices]
    · simp only [choices, List.map_cons, List.cons.injEq, compare.injEq] at heq
      exact heq.2.1.2.1.symm
  exact ⟨hfolded rfl rfl (by decide), hfolded rfl rfl (by decide)⟩

end Filter

end FeatureFilter
