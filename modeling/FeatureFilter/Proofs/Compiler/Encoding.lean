import FeatureFilter.Proofs.Compiler.Compiled
import FeatureFilter.Proofs.Compiler.Composition
import FeatureFilter.Proofs.Filter.Room

/-!
# Compiling the text of a compiled filter

The text of a compiled filter may take more levels of nesting than the text that it was compiled
from: equalities that were linked by `OR` become a list, chains of clauses get parentheses behind
`NOT`, and a `MULTIPOINT` gets parentheses around its points. But it takes no more than twice as
many and two (`filter_levels`).
-/

namespace FeatureFilter

/-- The error says that the text is nested too deep. -/
def CompileError.isNesting : CompileError → Bool
  | syntactic e => e.expected == "shallower nesting"
  | lexical _ | semantic _ => false

theorem CompileError.isNesting_syntactic (e : SyntaxError) :
    isNesting (.syntactic e) = true ↔ e.verdict = .deep := by
  unfold SyntaxError.verdict isNesting
  split <;> simp_all

/-- Numbers and geometries that a text says equal themselves. -/
theorem Expression.Written.equalsItself {g : Grammar} {v : Vocabulary} {e : Expression}
    (hg : g.readGeometry = Wkt.read) (h : e.Written g v) : e.EqualsItself := by
  cases e with
  | literal u =>
    cases u with
    | double x => exact h.number x rfl
    | geometry s => exact Geometry.beq_self_of_number ((h.drawn s rfl).drawnAt hg).drawn.number
    | _ => trivial
  | _ => trivial

/-- A geometry that a text draws is shallow enough where there is a level for its points. -/
theorem Expression.Written.shallow {g : Grammar} {v : Vocabulary} {e : Expression} {d : Dialect}
    (hg : g.readGeometry = Wkt.read) (hd : max 1 g.dialect.maxDepth + 1 ≤ d.maxDepth)
    (h : e.Written g v) : e.Shallow d := by
  cases e with
  | literal u =>
    cases u with
    | geometry s =>
      have hs := ((h.drawn s rfl).drawnAt hg).levels
      show s.nesting ≤ max 1 d.maxDepth
      omega
    | _ => trivial
  | _ => trivial

namespace Compiler

variable {c : Compiler} {text : String} {f : Filter} {n : Nat}

/-- The text of a filter is refused for being nested too deep only where its verdict says so. -/
theorem isNesting_of_filter_text (hf : f.Legible c.dialect) (hv : c.verdict f ≠ .deep)
    {e : CompileError} (he : c.filter f.text = .error e) : e.isNesting = false := by
  rcases filter_eq_error.1 he with herror | ⟨-, m, -, -, rfl⟩
  · rcases condition_text hf with ⟨-, o, ho, -⟩ | ⟨s, hs, hverdict⟩
    · rw [herror] at ho
      cases ho
    · rw [herror] at hs
      cases hs
      refine Bool.eq_false_iff.2 fun hn => hv ?_
      rw [← hverdict, (CompileError.isNesting_syntactic s).1 hn]
  · rfl

/-! ## Compiled filters -/

theorem legible_of_filter (h : c.filter text = .ok f) : f.Legible c.dialect :=
  (settled_of_filter h).1.written.imp (fun _ h => h) fun _ h => h.plain

theorem allEqual_of_filter (hc : c.readGeometry = Wkt.read) (h : c.filter text = .ok f) :
    f.AllEqual :=
  (settled_of_filter h).1.written.imp (fun _ _ => trivial) fun _ h => h.equalsItself hc

theorem nesting_of_filter (hc : c.readGeometry = Wkt.read) (h : c.filter text = .ok f) :
    f.nesting ≤ 2 * c.dialect.maxDepth + 2 :=
  (settled_of_filter h).2 (allEqual_of_filter hc h)

theorem allShallow_of_filter (hc : c.readGeometry = Wkt.read) (h : c.filter text = .ok f)
    (hn : max 1 c.dialect.maxDepth + 1 ≤ n) : f.AllShallow (c.withLevels n).dialect :=
  (settled_of_filter h).1.written.imp (fun _ _ => trivial) fun _ h => h.shallow hc hn

/-- The text of a compiled filter that does not fit is refused for the obstacle of its verdict. -/
theorem exists_error {c' : Compiler} {v : Verdict} (hc : c.withLevels n = c') (hv : v ≠ .fits)
    (h : (c.filter text).toOption.map c'.verdict = some v) :
    ∃ f e, c.filter text = .ok f ∧ c'.filter f.text = .error (.syntactic e) ∧ e.verdict = v := by
  subst hc
  cases hf : c.filter text with
  | error e =>
    rw [hf] at h
    cases h
  | ok f =>
    rw [hf] at h
    obtain rfl : (c.withLevels n).verdict f = v := Option.some.inj h
    have hl : f.Legible c.dialect := legible_of_filter hf
    rcases condition_text (c := c.withLevels n) hl with ⟨hfits, -⟩ | ⟨e, he, hverdict⟩
    · exact absurd hfits hv
    · refine ⟨f, e, rfl, ?_, hverdict⟩
      rw [filter, filterWith, he]
      rfl

/-- A text whose tree has a text that is nested too deep. -/
theorem exists_nesting {c' : Compiler} (hc : c.withLevels n = c')
    (h : (c.filter text).toOption.map c'.verdict = some .deep) :
    ∃ f e, c.filter text = .ok f ∧ c'.filter f.text = .error e ∧ e.isNesting = true := by
  obtain ⟨f, e, hf, he, hv⟩ := exists_error hc (by simp) h
  exact ⟨f, _, hf, he, (CompileError.isNesting_syntactic e).2 hv⟩

/-- With twice as many levels and two the text of a compiled filter is not nested too deep. -/
theorem filter_levels (c : Compiler) (hc : c.readGeometry = Wkt.read) (text : String) (f : Filter)
    (h : c.filter text = .ok f) (n : Nat) (hn : 2 * c.dialect.maxDepth + 2 ≤ n) (e : CompileError)
    (he : (c.withLevels n).filter f.text = .error e) : e.isNesting = false :=
  have hf : f.Legible c.dialect := legible_of_filter h
  have hshallow := allShallow_of_filter hc h (show max 1 c.dialect.maxDepth + 1 ≤ n by omega)
  isNesting_of_filter_text (c := c.withLevels n) hf
    (Filter.spares hshallow n ((nesting_of_filter hc h).trans hn)) he

/-- The text of an infinite ordinate is not read, however many levels there are. -/
theorem filter_levels_infinite : standard.readGeometry = Wkt.read ∧ ∃ f e,
    standard.filter "g = POINT(1e999 0)" = .ok f ∧ 2 * standard.dialect.maxDepth + 2 ≤ 202 ∧
    (standard.withLevels 202).filter f.text = .error e ∧ e.isNesting = false := by
  have hodd :
      (standard.filter "g = POINT(1e999 0)").toOption.map (standard.withLevels 202).verdict =
      some .odd := by decide +kernel
  obtain ⟨f, e, hf, he, -⟩ := exists_error rfl (by simp) hodd
  exact ⟨rfl, f, _, hf, Nat.le_refl _, he,
    filter_levels standard rfl _ f hf 202 (Nat.le_refl _) _ he⟩

/-- A reader of well-known text that always gives a collection in a collection. -/
def deepReader (_ : String) : Except Wkt.Error Geometry :=
  .ok (.collection [.collection [.point (some ⟨.zero, .zero, none⟩)]])

/-- Equalities that become a list take a level that the text they were compiled from did not take;
and of geometries that are read in another way than as well-known text nothing is known. -/
theorem filter_levels_inList :
    (∃ f e, (standard.withLevels 0).filter "a = 1 OR a = 2" = .ok f ∧
      (standard.withLevels 0).filter f.text = .error e ∧ e.isNesting = true) ∧
    ∃ f e,
      ({ standard with readGeometry := deepReader }.withLevels 0).filter "g = POINT(0 0)" = .ok f ∧
      ({ standard with readGeometry := deepReader }.withLevels 2).filter f.text = .error e ∧
      e.isNesting = true :=
  ⟨exists_nesting rfl (by decide +kernel), exists_nesting rfl (by decide +kernel)⟩

end Compiler

end FeatureFilter
