import FeatureFilter.Proofs.Compiler.Places
import FeatureFilter.Proofs.Syntax.Outlines

/-!
# Outlines of texts

The phrase that a text is read as has well nested spans: each is the part of the text from one token
to another one, with the spans of the parts inside it one behind the other
(`Compiler.outline_nested`).
-/

namespace FeatureFilter

/-- The tokens of a text follow each other, with the end of the text behind them. -/
theorem inOrder_of_tokenize {text : String} {tokens : List Token} (h : tokenize text = .ok tokens) :
    InOrder tokens := by
  obtain ⟨ts, q, rfl, hts⟩ := tokenize_eq_ok.1 h
  constructor
  · refine List.pairwise_append.2 ⟨hts.ordered, List.pairwise_singleton .., fun t ht u hu => ?_⟩
    rw [List.mem_singleton.1 hu]
    exact (hts.bounds t ht).2
  · refine List.forall_mem_append.2 ⟨fun t ht => ?_, List.forall_mem_singleton.2 (Nat.le_refl _)⟩
    exact Nat.le_of_lt (hts.covers.exact t ht).nonempty

/-- What a reader takes from the tokens of a text is well nested in the text. -/
theorem Reader.Outlines.nested {α : Type} {tree : α → SpanTree} {x : Reader α}
    {text source : String}
    {tokens : List Token} {a : α} {s : Cursor} (h : tokenize text = .ok tokens)
    (hx : Outlines tokens (fun a => [tree a]) x)
    (hr : x (.ofTokens source tokens) = .ok (a, s)) :
    (tree a).Every (SpanTree.Nested text.toList tokens) := by
  have hstart : (Cursor.ofTokens source tokens).Behind tokens 0 :=
    ⟨rfl, fun _ _ hn => absurd hn (Nat.not_lt_zero _), nofun, rfl⟩
  obtain ⟨k, hk, hs⟩ := hx hstart hr
  exact hs.nested (inOrder_of_tokenize h) (placed_of_tokenize h).1 hk.passed _
    (List.mem_singleton_self _)

namespace Compiler

variable {α : Type} {text : String} {a : α} {read : Grammar → List Token → Except SyntaxError α}

theorem nested_phrase (c : Compiler) {tree : α → SpanTree} {x : Grammar → Reader α}
    (hx : ∀ g tokens, InOrder tokens → Reader.Outlines tokens (fun a => [tree a]) (x g))
    (hread : ∀ g tokens, read g tokens = (do
      let a ← x g
      Grammar.expectFinish
      return a : Reader α).run' (.ofTokens g.source tokens))
    (h : c.phrase read text = .ok a) :
    ∃ tokens, tokenize text = .ok tokens ∧ (tree a).Every (SpanTree.Nested text.toList tokens) := by
  obtain ⟨tokens, htokens, hr⟩ := phrase_eq_ok.1 h
  rw [hread] at hr
  obtain ⟨s, hrun⟩ := Grammar.run'_eq_ok.1 hr
  obtain ⟨a', s₁, ha, hfinish⟩ := Reader.bind_eq_ok.1 hrun
  obtain ⟨u, s₂, -, hpure⟩ := Reader.bind_eq_ok.1 hfinish
  obtain ⟨rfl, -⟩ := Reader.pure_eq_ok.1 hpure
  exact ⟨tokens, htokens, (hx _ tokens (inOrder_of_tokenize htokens)).nested htokens ha⟩

/-- In the tree that a text is read as every span goes from the start of one token of the text to
the end of one not before it, and names the line and column of its start. It contains the spans of
the parts right below it, and these follow each other without overlap. -/
theorem outline_nested (c : Compiler) (text : String) :
    (∀ o, c.condition text = .ok o → ∃ tokens, tokenize text = .ok tokens ∧
      o.outline.Every (SpanTree.Nested text.toList tokens)) ∧
    ∀ o, c.operand text = .ok o → ∃ tokens, tokenize text = .ok tokens ∧
      o.outline.Every (SpanTree.Nested text.toList tokens) :=
  ⟨fun _ => c.nested_phrase (fun g _ ho => Condition.outlines_read ho g g.dialect.maxDepth)
      fun _ _ => rfl,
    fun _ => c.nested_phrase (fun g _ ho => Operand.outlines_read ho g g.dialect.maxDepth)
      fun _ _ => rfl⟩

/-- A group without its parentheses beside a call with a sign, and a group with them. -/
theorem outline_nested_groups :
    (∃ o tokens, standard.condition "(é = 1) AND f(-b)" = .ok o ∧ o.span = ⟨1, 18, 1, 2⟩ ∧
      tokenize "(é = 1) AND f(-b)" = .ok tokens ∧
      o.outline.Every (SpanTree.Nested "(é = 1) AND f(-b)".toList tokens)) ∧
    ∃ o tokens, standard.operand "(é + 1) * 2" = .ok o ∧ o.span = ⟨0, 12, 1, 1⟩ ∧
      tokenize "(é + 1) * 2" = .ok tokens ∧
      o.outline.Every (SpanTree.Nested "(é + 1) * 2".toList tokens) := by
  constructor
  · have hspan : (match standard.condition "(é = 1) AND f(-b)" with
        | .ok o => some o.span
        | .error _ => none) = some ⟨1, 18, 1, 2⟩ := by decide +kernel
    cases ho : standard.condition "(é = 1) AND f(-b)" with
    | error e =>
      rw [ho] at hspan
      cases hspan
    | ok o =>
      rw [ho] at hspan
      obtain ⟨tokens, ht, hnested⟩ := (outline_nested standard _).1 o ho
      exact ⟨o, tokens, rfl, Option.some.inj hspan, ht, hnested⟩
  · have hspan : (match standard.operand "(é + 1) * 2" with
        | .ok o => some o.span
        | .error _ => none) = some ⟨0, 12, 1, 1⟩ := by decide +kernel
    cases ho : standard.operand "(é + 1) * 2" with
    | error e =>
      rw [ho] at hspan
      cases hspan
    | ok o =>
      rw [ho] at hspan
      obtain ⟨tokens, ht, hnested⟩ := (outline_nested standard _).2 o ho
      exact ⟨o, tokens, rfl, Option.some.inj hspan, ht, hnested⟩

end Compiler

end FeatureFilter
