import FeatureFilter.Compiler
import FeatureFilter.Proofs.Filter.Interpretation
import FeatureFilter.Proofs.Filter.RoundTrip
import FeatureFilter.Proofs.Syntax.Parentheses
import FeatureFilter.Proofs.Syntax.Texts
import Mathlib.Data.UInt

/-!
# What compiling gives

The trees that come out of compiling a text, whatever the text and the configuration. `Sound` says
of a node what is true of it because it was compiled: consumers need not check it again.
-/

namespace FeatureFilter

/-! ## Sound nodes -/

/-- A name can be called for its value with so many arguments: a function that gives a value is
registered under it and takes them, or no function is and others may be called. -/
def Vocabulary.GivesValue (v : Vocabulary) (name : String) (count : Nat) : Prop :=
  (∃ s, v.catalog.lookup name = some s ∧ s.kind = .generic ∧ s.accepts count = true) ∨
    (v.catalog.lookup name = none ∧ v.allowUnknown = true ∧ isPredicateName name = false)

def Value.Sound (d : Dialect) : Value → Prop
  | .long n => -(2 ^ 63 - 1) ≤ n.toInt ∧ n.toInt ≤ 2 ^ 63 - 1
  | .double x => x ≠ .nan
  | .string s => d.colorLiterals = true → ¬ Color.IsText s.toList
  | .boolean _ => True
  | .date t => 0 ≤ t.year ∧ t.year ≤ 9999
  | .timestamp t => (0 ≤ t.date.year ∧ t.date.year ≤ 9999) ∧ -(24 * 60) < t.offset ∧
      t.offset < 24 * 60
  | .interval start stop => start.IsBound ∧ stop.IsBound
  | .geometry g => g.Drawn
  | .color c => c.rgb < 2 ^ 24

def Expression.Sound (d : Dialect) (v : Vocabulary) : Expression → Prop
  | .literal u => u.Sound d
  | .call name args => d.rejects name = false ∧ v.GivesValue name args.length
  | .property _ | .arithmetic _ _ _ => True

def Filter.Sound (d : Dialect) : Filter → Prop
  | .like _ _ matchCase => matchCase = false → d.allows .ilike = true
  | .all clauses => 2 ≤ clauses.length
  | .any clauses => 1 ≤ clauses.length ∧
      (clauses.length = 1 → ∃ left right, clauses = [.compare .eq left right])
  | _ => True

theorem Vocabulary.givesValue_of_checkValueCall {v : Vocabulary} {span : Span} {name : String}
    {count : Nat} (h : v.checkValueCall span name count = .ok ()) : v.GivesValue name count := by
  unfold checkValueCall checkCount at h
  split at h
  · rename_i s hs
    split at h
    · cases h
    · rename_i hkind
      split at h
      · rename_i hcount
        refine .inl ⟨s, hs, ?_, hcount⟩
        cases hk : s.kind with
        | generic => rfl
        | predicate r =>
          rw [hk] at hkind
          exact absurd rfl hkind
      · cases h
  · rename_i hnone
    split at h
    · rename_i hallow
      obtain ⟨hallow, hname⟩ := Bool.and_eq_true_iff.1 hallow
      exact .inr ⟨hnone, hallow, by simpa using hname⟩
    · cases h

theorem Expression.Written.sound {g : Grammar} {v : Vocabulary} {e : Expression}
    (hg : g.readGeometry = Wkt.read) (h : e.Written g v) : e.Sound g.dialect v := by
  cases e with
  | property path => trivial
  | arithmetic op left right => trivial
  | call name args => exact ⟨h.allowed, Vocabulary.givesValue_of_checkValueCall (h.known .nowhere)⟩
  | literal u =>
    cases u with
    | long n =>
      have hlow : -0x8000000000000000 < n.toInt := h.plain
      have hhigh := n.toInt_lt
      exact ⟨by omega, by omega⟩
    | double x => exact Binary64.beq_self_iff.1 (h.number x rfl)
    | string s =>
      intro hd
      have hnone : Color.read? s.toList = none := h.plain hd
      rw [← Color.read?_isSome_iff, hnone]
      simp
    | boolean b => trivial
    | date t => exact h.plain
    | timestamp t => exact ⟨h.plain.year, t.offset_gt, t.offset_lt⟩
    | interval start stop => exact h.plain
    | geometry shape => exact ((h.drawn shape rfl).drawnAt hg).drawn
    | color c => exact h.plain.2

theorem Filter.Plain.sound {d : Dialect} {f : Filter} (h : f.Plain d) : f.Sound d := by
  cases f with
  | like value pattern matchCase =>
    rintro rfl
    exact h.resolve_left (by simp)
  | all clauses => exact h
  | any clauses =>
    rcases h with h | ⟨left, right, rfl⟩
    · exact ⟨by omega, by omega⟩
    · exact ⟨Nat.le_refl 1, fun _ => ⟨left, right, rfl⟩⟩
  | _ => trivial

namespace Compiler

variable {ε φ : Type} {c : Compiler} {text : String}

/-! ## Compiled trees -/

theorem settled_of_filter {f : Filter} (h : c.filter text = .ok f) :
    f.Settled (c.grammar text) c.vocabulary (c.dialect.maxDepth + 1) ∧
      (f.AllEqual → f.nesting ≤ 2 * c.dialect.maxDepth + 2) := by
  obtain ⟨ts, p, b, htokens, hb, hd⟩ := filter_iff.1 h
  exact Grammar.settling_isCondition _ c.vocabulary _ hb (.of_tokenize htokens) f hd

theorem settled_of_expression {e : Expression} (h : c.expression text = .ok e) :
    e.Settled (c.grammar text) c.vocabulary 0 (c.dialect.maxDepth + 1) := by
  obtain ⟨ts, p, b, htokens, hb, hd⟩ := expression_iff.1 h
  exact (Grammar.settling_isOperand _ c.vocabulary _ hb (.of_tokenize htokens)).settled e hd

/-- Compiling with a maker gives the maker's interpretation of the tree that compiling without one
gives, or else the same error. -/
theorem compiles_interpretation (c : Compiler) (mk : Maker Id ε φ) (text : String) :
    (c.filterWith mk text).run = (c.filter text).map (Filter.interpret mk) ∧
      (c.expressionWith mk text).run = (c.expression text).map (Expression.interpret mk) := by
  constructor
  · unfold filter filterWith
    cases c.condition text with
    | error e => rfl
    | ok condition => exact condition.mirrors_make.mapError CompileError.semantic
  · unfold expression expressionWith
    cases c.operand text with
    | error e => rfl
    | ok operand => exact operand.mirrors_make.mapError CompileError.semantic

/-- Every node of a compiled tree is sound, where geometries are read from well-known text. -/
theorem compiles_sound (c : Compiler) (hc : c.readGeometry = Wkt.read) (text : String) :
    (∀ f, c.filter text = .ok f →
      f.Every (Filter.Sound c.dialect) (Expression.Sound c.dialect c.vocabulary)) ∧
    ∀ e, c.expression text = .ok e → e.Every (Expression.Sound c.dialect c.vocabulary) := by
  have hsound (e : Expression) (h : e.Written (c.grammar text) c.vocabulary) :
      e.Sound c.dialect c.vocabulary := h.sound hc
  constructor
  · intro f hf
    exact (settled_of_filter hf).1.written.imp (fun _ h => h.sound) hsound
  · intro e he
    exact (settled_of_expression he).written.imp hsound

/-- A chain of a list, an interval and a geometry, and a call. -/
theorem compiles_sound_bounds : standard.readGeometry = Wkt.read ∧ ∃ f e,
    standard.filter "T_DURING(t, INTERVAL('2020-02-29', '..')) AND NOT a IN (1)" = .ok f ∧
    f.Every (Filter.Sound standard.dialect)
      (Expression.Sound standard.dialect standard.vocabulary) ∧
    standard.expression "buffer(LINESTRING(0 0, 1 1), 2.5)" = .ok e ∧
    e.Every (Expression.Sound standard.dialect standard.vocabulary) := by
  obtain ⟨f, hf⟩ := exists_ok
    (x := standard.filter "T_DURING(t, INTERVAL('2020-02-29', '..')) AND NOT a IN (1)")
    (by decide +kernel)
  obtain ⟨e, he⟩ := exists_ok (x := standard.expression "buffer(LINESTRING(0 0, 1 1), 2.5)")
    (by decide +kernel)
  exact ⟨rfl, f, e, hf, (compiles_sound standard rfl _).1 f hf, he,
    (compiles_sound standard rfl _).2 e he⟩

def emptyMember : Filter :=
  .spatial .intersects (.property "g") (.literal (.geometry (.collection [.lineString []])))

theorem wellFormed_emptyMember : standard.WellFormed emptyMember where
  legible := by simp [emptyMember, Filter.Legible, Filter.Every, Expression.Every, Value.Every,
    Filter.Plain, Expression.Plain, Value.Plain]
  finite := by simp [emptyMember, Filter.AllFinite, Filter.Every, Expression.Every, Value.Every,
    Expression.Finite, Geometry.Printable, Geometry.AllPrintable]
  known := by
    simp only [emptyMember, Filter.AllKnown, Filter.Every, Expression.Every, Value.Every,
      Expression.Known, Filter.Known, and_true]
    intro span
    simp only [Vocabulary.relation, standard, SpatialOp.functionName, lookup_intersects]
    rfl
  readable := by
    simp only [emptyMember, Filter.AllReadable, Filter.Every, Expression.Every, Value.Every,
      Expression.Readable, Expression.Allowed, Expression.Shallow, Filter.Allowed, and_true,
      true_and]
    decide +kernel
  levels := by decide +kernel

/-- The text of a collection may hold an empty line, which is a list inside the geometry. -/
theorem compiles_sound_emptyMember :
    standard.filter "S_INTERSECTS(g, GEOMETRYCOLLECTION(LINESTRING EMPTY))" =
      .ok (.spatial .intersects (.property "g")
        (.literal (.geometry (.collection [.lineString []])))) := by
  have h := wellFormed_emptyMember
  have hfilter := filter_of_fits h.legible h.known (h.fits readsShapes_wkt)
  rw [Filter.reread_eq readsShapes_wkt h.legible h.finite
    (by simp [emptyMember, Filter.Every, Expression.Every, Value.Every, Filter.OneSided])]
    at hfilter
  have htext : emptyMember.text = "S_INTERSECTS(g, GEOMETRYCOLLECTION(LINESTRING EMPTY))" := by
    decide +kernel
  rwa [htext] at hfilter

end Compiler

end FeatureFilter
