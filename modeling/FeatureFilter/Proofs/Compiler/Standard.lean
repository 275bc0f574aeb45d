import FeatureFilter.Proofs.Compiler.Encoding
import FeatureFilter.Proofs.Filter.Stable

/-!
# The standard compiler and its own texts

The standard compiler reads back what it has compiled: the text of a compiled filter whose numbers
are finite is compiled to an equal filter with the same text, as long as the text is not nested too
deep (`standard_again`).
-/

namespace FeatureFilter

/-- A number or the ordinates of a geometry are finite. -/
def Expression.InRange : Expression → Prop
  | .literal (.double x) => x.isFinite = true
  | .literal (.geometry g) => ∀ c ∈ g.coords, c.Finite
  | _ => True

abbrev Filter.AllInRange (f : Filter) : Prop := f.Every (fun _ => True) Expression.InRange

/-- The text of the filter is nested no deeper than the dialect allows. -/
structure Filter.FitsIn (d : Dialect) (f : Filter) : Prop where
  levels : f.nesting ≤ d.maxDepth
  shallow : f.AllShallow d

theorem Expression.Finite.inRange (e : Expression) (h : e.Finite) : e.InRange := by
  cases e with
  | literal u =>
    cases u with
    | double x => exact h
    | geometry s => exact (s.printable_iff.1 h).2
    | _ => trivial
  | _ => trivial

/-- A geometry that a text draws can be written when its ordinates are finite. -/
theorem Expression.Written.finite {g : Grammar} {v : Vocabulary} (hg : g.readGeometry = Wkt.read)
    (e : Expression) (h : e.Written g v) (hr : e.InRange) : e.Finite := by
  cases e with
  | literal u =>
    cases u with
    | double x => exact hr
    | geometry s => exact s.printable_iff.2 ⟨((h.drawn s rfl).drawnAt hg).drawn.full, hr⟩
    | _ => trivial
  | _ => trivial

/-! ## The functions of the standard -/

theorem lookup_relations :
    (∀ op ∈ SpatialOp.all, Catalog.standard.lookup op.functionName = some (.spatial op)) ∧
      ∀ op ∈ TemporalOp.all, Catalog.standard.lookup op.functionName = some (.temporal op) := by
  decide +kernel

theorem Filter.known_standard (f : Filter) : f.Known Compiler.standard.vocabulary := by
  cases f with
  | spatial op left right =>
    intro span
    simp only [Vocabulary.relation, Compiler.standard,
      lookup_relations.1 op (by cases op <;> decide)]
    rfl
  | temporal op left right =>
    intro span
    simp only [Vocabulary.relation, Compiler.standard,
      lookup_relations.2 op (by cases op <;> decide)]
    rfl
  | _ => trivial

theorem Filter.allowed_standard (f : Filter) : f.Allowed Compiler.standard.dialect := by
  have hspatial : ∀ op : SpatialOp, Dialect.cql2.rejects op.functionName = false := by
    intro op
    cases op <;> decide +kernel
  have htemporal : ∀ op : TemporalOp, Dialect.cql2.rejects op.functionName = false := by
    intro op
    cases op <;> decide +kernel
  cases f with
  | spatial op left right => exact hspatial op
  | temporal op left right => exact htemporal op
  | _ => trivial

namespace Compiler

variable {c : Compiler} {text : String} {f f' : Filter} {n : Nat}

/-- A text is compiled if and only if it fits. -/
theorem filter_text_iff (hf : f.Legible c.dialect) (hk : f.AllKnown c.vocabulary) :
    (∃ f', c.filter f.text = .ok f') ↔ c.verdict f = .fits := by
  constructor
  · rintro ⟨f', h⟩
    obtain ⟨o, ho, -⟩ := filter_eq_ok.1 h
    rcases condition_text hf with ⟨hfits, -⟩ | ⟨e, he, -⟩
    · exact hfits
    · rw [ho] at he
      cases he
  · exact fun h => ⟨_, filter_of_fits hf hk h⟩

section Standard

variable (h : standard.filter text = .ok f)
include h

theorem known_of_standard : f.AllKnown standard.vocabulary :=
  (settled_of_filter h).1.written.imp (fun f _ => f.known_standard) fun _ h => h.known

theorem finite_of_standard (hr : f.AllInRange) : f.AllFinite :=
  (settled_of_filter h).1.written.imp₂ (fun _ _ _ => trivial) (Expression.Written.finite rfl) hr

/-- Nothing but the levels can keep the text of the filter from being compiled. -/
theorem verdict_of_standard (hr : f.AllInRange) :
    (standard.withLevels n).verdict f = .fits ↔ f.FitsIn (standard.withLevels n).dialect := by
  have hneeds := Filter.needs (g := (standard.withLevels n).grammar f.text) readsShapes_wkt
    (finite_of_standard h hr) n
  refine hneeds.trans ⟨fun ⟨hlevels, hread⟩ => ⟨hlevels, ?_⟩, fun hfits => ⟨hfits.levels, ?_⟩⟩
  · exact hread.imp (fun _ _ => trivial) fun _ he => he.2
  · have hs := (settled_of_filter h).1.written
    exact hs.imp₂ (fun f _ _ => f.allowed_standard) (fun _ he hshallow => ⟨he.allowed, hshallow⟩)
      hfits.shallow

/-- With twice as many levels and two there are enough of them. -/
theorem fitsIn_of_standard (hn : 202 ≤ n) : f.FitsIn (standard.withLevels n).dialect :=
  ⟨(nesting_of_filter rfl h).trans hn, allShallow_of_filter rfl h (Nat.le_trans (by decide) hn)⟩

end Standard

/-- The standard compiler reads back a filter that it has compiled, if its numbers are finite. The
text of the filter is compiled if and only if it is nested no deeper than is allowed, which twice as
many levels and two always are enough for; and then to an equal filter with the same text. -/
theorem standard_again (text : String) (f : Filter) (h : standard.filter text = .ok f)
    (hr : f.AllInRange) :
    (∀ n, (∃ f', (standard.withLevels n).filter f.text = .ok f') ↔
      f.FitsIn (standard.withLevels n).dialect) ∧
    (∀ n f', (standard.withLevels n).filter f.text = .ok f' → (f' == f) = true ∧ f'.text = f.text) ∧
    ∀ n, 202 ≤ n → f.FitsIn (standard.withLevels n).dialect := by
  have hl : f.Legible standard.dialect := legible_of_filter h
  have hk : f.AllKnown standard.vocabulary := known_of_standard h
  have hf : f.AllFinite := finite_of_standard h hr
  have hiff (n : Nat) := filter_text_iff (c := standard.withLevels n) hl hk
  refine ⟨fun n => (hiff n).trans (verdict_of_standard h hr), fun n f' hf' => ?_,
    fun n => fitsIn_of_standard h⟩
  have hread := filter_of_fits (c := standard.withLevels n) hl hk ((hiff n).1 ⟨f', hf'⟩)
  rw [hread] at hf'
  cases hf'
  exact ⟨Filter.reread_beq readsShapes_wkt hl hf, Filter.text_reread readsShapes_wkt hl hf⟩

/-- The paddocks come back from their text. -/
theorem standard_again_paddocks : standard.filter paddocks.text = .ok paddocks ∧
    paddocks.AllInRange ∧ paddocks.FitsIn (standard.withLevels 100).dialect ∧
    ∃ f', (standard.withLevels 100).filter paddocks.text = .ok f' ∧ (f' == paddocks) = true ∧
      f'.text = paddocks.text := by
  have hp := wellFormed_paddocks
  have hsided : paddocks.Every Filter.OneSided fun _ => True := by
    simp [paddocks, Filter.Every, Filter.EveryOne, Filter.OneSided, Expression.Every, Value.Every,
      Expression.EveryOne, Filter.inList?, Filter.equality?, Filter.choices?]
  have h : standard.filter paddocks.text = .ok paddocks := by
    have hread := filter_of_fits hp.legible hp.known (hp.fits readsShapes_wkt)
    rwa [Filter.reread_eq readsShapes_wkt hp.legible hp.finite hsided] at hread
  have hr : paddocks.AllInRange := hp.finite.imp (fun _ h => h) Expression.Finite.inRange
  obtain ⟨hiff, hagain, -⟩ := standard_again paddocks.text paddocks h hr
  have hfits := (hiff 100).1 ⟨paddocks, h⟩
  obtain ⟨f', hf'⟩ := (hiff 100).2 hfits
  exact ⟨h, hr, hfits, f', hf', hagain 100 f' hf'⟩

/-- Choices of a list are a level deeper than the sides of the equalities that became the list; and
a number that is too large is read as an infinite one, whose text is a name. -/
theorem standard_again_signs :
    (∃ f e,
      standard.filter
        (String.ofList ("b = 1 OR b = 2*".toList ++ List.replicate 100 '-' ++ ['a'])) = .ok f ∧
      standard.filter f.text = .error e ∧ e.isNesting = true) ∧
    ∃ f f', standard.filter "a = 1e999" = .ok f ∧ standard.filter f.text = .ok f' ∧
      (f' == f) = false := by
  refine ⟨exists_nesting (show standard.withLevels 100 = standard from rfl) (by decide +kernel), ?_⟩
  obtain ⟨f, hf⟩ := exists_ok (x := standard.filter "a = 1e999") (by decide +kernel)
  obtain ⟨f', hf'⟩ := exists_ok (x := standard.filter "a = inf") (by decide +kernel)
  have htext : (standard.filter "a = 1e999").toOption.map Filter.text = some "a = inf" := by
    decide +kernel
  have hne : ((standard.filter "a = 1e999").toOption.bind fun f =>
      (standard.filter "a = inf").toOption.map fun f' => f' == f) = some false := by decide +kernel
  rw [hf] at htext hne
  rw [hf'] at hne
  refine ⟨f, f', hf, ?_, Option.some.inj hne⟩
  rw [Option.some.inj htext]
  exact hf'

end Compiler

end FeatureFilter
