import FeatureFilter.Proofs.Compiler.Compiled
import FeatureFilter.Proofs.Phrase.Numbering
import FeatureFilter.Proofs.Phrase.Violations

/-!
# The record of compiling a text

A text that compiles to a tree compiles with numbered nodes, too. The record of the nodes is the
listing of the phrase, the parts of every node before the node and from left to right. It is a
single tree: the last node is the result, and every other one is part of just one node, except that
the value of an `IN` list is shared by the equalities of the list (`Compiler.numbered_linear`).
-/

namespace FeatureFilter

/-- Work that always succeeds, and makes the nodes of a listing, does so as a step of compiling. -/
theorem Ends.numbered {x : ExceptT MeaningError (StateM (Array NodeRecord)) Nat} {l : Listing}
    (he : Ends x none) (ha : Adds 0 x (l 0) (l.last 0)) :
    ∃ record, record.toList = l 0 ∧ record.size = l.last 0 ∧
      (do let result ← x.run; return result.mapError CompileError.semantic :
        StateM (Array NodeRecord) _).run #[] = (.ok record.size, record) := by
  obtain ⟨a, rfl⟩ := he
  obtain ⟨hroot, hlist⟩ := ha #[] rfl _ _ rfl
  rw [List.nil_append] at hlist
  have hsize : (a #[]).2.size = l.last 0 := by
    rw [Listing.last, ← hlist, Array.length_toList, Nat.zero_add]
  refine ⟨(a #[]).2, hlist, hsize, ?_⟩
  rw [hsize, ← hroot]
  rfl

theorem Condition.ends_of_denotes {v : Vocabulary} {c : Condition} {f : Filter}
    (h : c.Denotes v f) : Ends (c.make v .numbered) none := by
  have hends : Ends (c.make v .tree) (firstError v c.nodes) := c.ends_make
  have hnone := hends.firstError_eq_none (a := f) (by rw [h]; rfl)
  exact hnone ▸ c.ends_make

theorem Operand.ends_of_denotes {v : Vocabulary} {o : Operand} {e : Expression}
    (h : o.Denotes v e) : Ends (o.make v .numbered) none := by
  have hends : Ends (o.make v .tree) (firstError v (o.nodes .value)) := o.ends_make
  have hnone := hends.firstError_eq_none (a := e) (by rw [h]; rfl)
  exact hnone ▸ o.ends_make

namespace Compiler

/-- Every text that is compiled is compiled with numbered nodes. The record is the listing of the
phrase of the text; parts come before the nodes that they are part of, in increasing order; the
result is the last node, and every other node is used once, or, where it is the value of a list,
once by each of the equalities of the list. -/
theorem numbered_linear (c : Compiler) (text : String) :
    (∀ f, c.filter text = .ok f → ∃ phrase record, c.condition text = .ok phrase ∧
      (c.filterWith .numbered text).run #[] = (.ok record.size, record) ∧
      record.toList = phrase.listing c.vocabulary 0 ∧
      Linear record (phrase.lists c.vocabulary 0)) ∧
    ∀ e, c.expression text = .ok e → ∃ phrase record, c.operand text = .ok phrase ∧
      (c.expressionWith .numbered text).run #[] = (.ok record.size, record) ∧
      record.toList = phrase.listing 0 ∧ Linear record [] := by
  constructor
  · intro f hf
    obtain ⟨phrase, hphrase, hd⟩ := filter_eq_ok.1 hf
    obtain ⟨record, hlist, hsize, hrun⟩ :=
      (Condition.ends_of_denotes hd).numbered (phrase.adds_make 0)
    have hevery : f.Every (· ≠ .any []) (fun _ => True) := by
      refine (settled_of_filter hf).1.written.imp (fun g hg => ?_) fun _ _ => trivial
      rintro rfl
      exact absurd hg.sound.1 (by decide)
    have hshares := Condition.shares_listing 0 hd hevery
    rw [← hlist, ← hsize] at hshares
    refine ⟨phrase, record, hphrase, ?_, hlist, hshares.linear⟩
    rw [filterWith, hphrase]
    exact hrun
  · intro e he
    obtain ⟨phrase, hphrase, hd⟩ := expression_eq_ok.1 he
    obtain ⟨record, hlist, hsize, hrun⟩ :=
      (Operand.ends_of_denotes hd).numbered (phrase.adds_make 0)
    have hshares := Shares.ofForest (phrase.forest_listing 0)
    rw [← hlist, ← hsize] at hshares
    refine ⟨phrase, record, hphrase, ?_, hlist, hshares.linear⟩
    rw [expressionWith, hphrase]
    exact hrun

/-- A list under a negation beside another condition, and a product of a sum. -/
theorem numbered_linear_list :
    (∃ f phrase record, standard.filter "NOT (a + 1 IN (1, abs(b), 3) OR c IS NOT NULL)" = .ok f ∧
      standard.condition "NOT (a + 1 IN (1, abs(b), 3) OR c IS NOT NULL)" = .ok phrase ∧
      (standard.filterWith .numbered "NOT (a + 1 IN (1, abs(b), 3) OR c IS NOT NULL)").run #[] =
        (.ok record.size, record) ∧
      record.toList = phrase.listing standard.vocabulary 0 ∧
      Linear record (phrase.lists standard.vocabulary 0)) ∧
    ∃ e phrase record, standard.expression "2 * (a + b)" = .ok e ∧
      standard.operand "2 * (a + b)" = .ok phrase ∧
      (standard.expressionWith .numbered "2 * (a + b)").run #[] = (.ok record.size, record) ∧
      record.toList = phrase.listing 0 ∧ Linear record [] := by
  constructor
  · obtain ⟨f, hf⟩ := exists_ok
      (x := standard.filter "NOT (a + 1 IN (1, abs(b), 3) OR c IS NOT NULL)") (by decide +kernel)
    obtain ⟨phrase, record, h⟩ := (numbered_linear standard _).1 f hf
    exact ⟨f, phrase, record, hf, h⟩
  · obtain ⟨e, he⟩ := exists_ok (x := standard.expression "2 * (a + b)") (by decide +kernel)
    obtain ⟨phrase, record, h⟩ := (numbered_linear standard _).2 e he
    exact ⟨e, phrase, record, he, h⟩

end Compiler

end FeatureFilter
