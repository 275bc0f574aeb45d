import FeatureFilter.Compiler
import FeatureFilter.Proofs.Filter.Nesting
import FeatureFilter.Proofs.Phrase.Condition

/-!
# Compiling the text of a filter

The text of a legible filter is compiled as its verdict announces. A tree that is well formed for a
compiler comes back equal, and exactly as it was unless an `IN` list joins left sides that are equal
without being the same.
-/

namespace FeatureFilter

/-! ## Reading whole texts -/

theorem Cursor.at_start {g : Grammar} {ps : List Piece} (h : g.source.toList = charsOf ps) :
    (Cursor.ofTokens g.source (tokensAt .start ps)).At g 0 ps where
  ahead := by
    have hp : g.place ps = .start := by
      rw [Grammar.place, h, Nat.sub_self]
      rfl
    rw [hp]
    rfl
  suffix := h ▸ List.suffix_refl _
  finish := rfl
  lo_le := Nat.zero_le _

theorem Condition.endsOr_nil : EndsOr [] := ⟨⟨rfl, by decide⟩, by decide⟩

theorem Outcome.run' {x : Reader α} {s : Cursor} {good : α → Cursor → Prop}
    {bad : SyntaxError → Prop} (h : Outcome good bad (x s)) :
    (∃ a s', x.run' s = .ok a ∧ good a s') ∨ ∃ e, x.run' s = .error e ∧ bad e := by
  rw [Reader.run'_eq]
  cases hx : x s with
  | ok r =>
    rw [hx] at h
    exact .inl ⟨r.1, r.2, rfl, h⟩
  | error e =>
    rw [hx] at h
    exact .inr ⟨e, rfl, h⟩

/-- At the end nothing follows. -/
theorem Grammar.expectFinish_eq {s : Cursor} (h : s.kind 0 = .finish) :
    Grammar.expectFinish s = .ok ((), s) := by
  show (if s.kind 0 ≠ .finish then _ else pure () : Reader Unit) s = _
  rw [h]
  rfl

/-! ## What comes back -/

variable {g : Grammar} {d : Dialect}

theorem Geometry.reread_eq (hw : ReadsShapes g.readGeometry) {shape : Geometry}
    (h : shape.Printable) : shape.reread g = shape := by
  rw [reread, hw shape h]

mutual

theorem Value.reread_eq (hw : ReadsShapes g.readGeometry) :
    ∀ {v : Value}, (Expression.literal v).AllFinite → v.reread g = .literal v
  | .long _, _ | .string _, _ | .boolean _, _ | .date _, _ | .timestamp _, _ | .color _, _ => rfl
  | .double (.finite _), _ => rfl
  | .double (.infinity _), h => nomatch h.1
  | .double .nan, h => nomatch h.1
  | .interval start stop, h => by
    rw [Value.reread, Expression.reread_eq hw h.2.1, Expression.reread_eq hw h.2.2]
  | .geometry shape, h => by rw [Value.reread, Geometry.reread_eq hw h.1]

/-- The text of a finite expression stands for it. -/
theorem Expression.reread_eq (hw : ReadsShapes g.readGeometry) :
    ∀ {e : Expression}, e.AllFinite → e.reread g = e
  | .literal _, h => Value.reread_eq hw h
  | .property _, _ => rfl
  | .call name args, h => by rw [Expression.reread, Expression.rereadAll_self hw h.2]
  | .arithmetic op left right, h => by
    rw [Expression.reread, Expression.reread_eq hw h.2.1, Expression.reread_eq hw h.2.2]

theorem Expression.rereadAll_self (hw : ReadsShapes g.readGeometry) :
    ∀ {es : List Expression}, Expression.EveryOne Expression.Finite es →
      Expression.rereadAll g es = es
  | [], _ => rfl
  | _ :: _, h => by
    rw [Expression.rereadAll, Expression.reread_eq hw h.1, Expression.rereadAll_self hw h.2]

end

namespace Filter

/-- The clauses of an `IN` list have not only equal left sides but the same one. -/
def OneSided : Filter → Prop
  | any clauses => ∀ value choices, inList? clauses = some (value, choices) →
    ∀ f ∈ clauses, ∃ right, f = compare .eq value right
  | _ => True

theorem compare_beq {op : ComparisonOp} {a b c d : Expression} (hl : (a == c) = true)
    (hr : (b == d) = true) : Filter.beq (compare op a b) (compare op c d) = true := by
  rw [Filter.beq, hl, hr, beq_self_eq_true]
  rfl

/-- The clauses of an `IN` list come back with the left side of the first one. -/
theorem reread_inList (hw : ReadsShapes g.readGeometry) {clauses : List Filter}
    {value : Expression} {choices : List Expression}
    (hin : inList? clauses = some (value, choices))
    (h : EveryOne (fun _ => True) Expression.Finite clauses) :
    (any clauses).reread g = any (choices.map fun choice => compare .eq value choice) := by
  obtain ⟨hv, hc⟩ := every_of_inList? hin h
  rw [reread, hin]
  refine congrArg any (List.map_congr_left fun choice hmem => ?_)
  rw [Expression.reread_eq hw hv,
    Expression.reread_eq hw ((Expression.everyOne_iff choices).1 hc choice hmem)]

theorem choices_beq {value : Expression} {clauses : List Filter} {choices : List Expression}
    (h : List.Forall₂ (Chooses value) clauses choices)
    (hc : Expression.EveryOne Expression.Finite choices) :
    Filter.beqAll (choices.map fun choice => compare .eq value choice) clauses = true := by
  induction h with
  | nil => rfl
  | @cons f choice _ _ hf _ ih =>
    obtain ⟨left, rfl, hl⟩ := hf
    rw [List.map_cons, Filter.beqAll,
      compare_beq (Expression.beq_symm hl) (Expression.beq_self hc.1), ih hc.2]
    rfl

/-- Chains that are no `IN` list come back as chains. -/
theorem reread_any {clauses : List Filter} (hin : inList? clauses = none)
    (hl : Filter.Plain d (any clauses)) (h : EveryOne (fun _ => True) Expression.Finite clauses) :
    (any clauses).reread g = any (rereadAll g clauses) := by
  rw [reread, hin]
  rcases clauses with _ | ⟨f, _ | ⟨_, _⟩⟩
  · rcases hl with hl | ⟨left, right, he⟩
    · simp at hl
    · cases he
  · rcases hl with hl | ⟨left, right, he⟩
    · simp at hl
    · obtain rfl : f = compare .eq left right := by simpa using he
      have hself : (left == left) = true := Expression.beq_self h.1.2.1
      simp [inList?, equality?, choices?, hself] at hin
  · rfl

mutual

/-- What is read from the text of a finite filter is equal to it. -/
theorem reread_beq (hw : ReadsShapes g.readGeometry) :
    ∀ {f : Filter}, f.Legible d → f.AllFinite → Filter.beq (f.reread g) f = true
  | compare op left right, _, h => by
    rw [reread, Expression.reread_eq hw h.2.1, Expression.reread_eq hw h.2.2]
    exact compare_beq (Expression.beq_self h.2.1) (Expression.beq_self h.2.2)
  | between value low high, _, h => by
    rw [reread, Expression.reread_eq hw h.2.1, Expression.reread_eq hw h.2.2.1,
      Expression.reread_eq hw h.2.2.2, Filter.beq]
    simp only [Bool.and_eq_true]
    exact ⟨⟨Expression.beq_self h.2.1, Expression.beq_self h.2.2.1⟩, Expression.beq_self h.2.2.2⟩
  | like value pattern matchCase, _, h => by
    rw [reread, Expression.reread_eq hw h.2, Filter.beq]
    simp only [beq_self_eq_true, Bool.and_true]
    exact Expression.beq_self h.2
  | isNull value, _, h => by
    rw [reread, Expression.reread_eq hw h.2]
    exact Expression.beq_self h.2
  | spatial op left right, _, h => by
    rw [reread, Expression.reread_eq hw h.2.1, Expression.reread_eq hw h.2.2, Filter.beq]
    simp only [beq_self_eq_true, Bool.true_and, Bool.and_eq_true]
    exact ⟨Expression.beq_self h.2.1, Expression.beq_self h.2.2⟩
  | temporal op left right, _, h => by
    rw [reread, Expression.reread_eq hw h.2.1, Expression.reread_eq hw h.2.2, Filter.beq]
    simp only [beq_self_eq_true, Bool.true_and, Bool.and_eq_true]
    exact ⟨Expression.beq_self h.2.1, Expression.beq_self h.2.2⟩
  | all clauses, hl, h => rereadAll_beq hw hl.2 h.2
  | any clauses, hl, h => by
    cases hin : inList? clauses with
    | some p =>
      obtain ⟨value, choices⟩ := p
      rw [reread_inList hw hin h.2]
      obtain ⟨_, _, _, hch⟩ := of_inList? hin
      obtain ⟨hv, hc⟩ := every_of_inList? hin h.2
      exact choices_beq hch hc
    | none =>
      rw [reread_any hin hl.1 h.2]
      exact rereadAll_beq hw hl.2 h.2
  | negation clause, hl, h => reread_beq (f := clause) hw hl.2 h.2

theorem rereadAll_beq (hw : ReadsShapes g.readGeometry) :
    ∀ {fs : List Filter}, EveryOne (Filter.Plain d) (Expression.Plain d) fs →
      EveryOne (fun _ => True) Expression.Finite fs → Filter.beqAll (rereadAll g fs) fs = true
  | [], _, _ => rfl
  | _ :: _, hl, h => by
    rw [rereadAll, Filter.beqAll, reread_beq hw hl.1 h.1, rereadAll_beq hw hl.2 h.2]
    rfl

end

/-- The clauses of a list with one left side are the equalities of the left side and the choices. -/
theorem eq_map_of_oneSided {value : Expression} {clauses : List Filter}
    {choices : List Expression} (h : List.Forall₂ (Chooses value) clauses choices)
    (ho : ∀ f ∈ clauses, ∃ right, f = compare .eq value right) :
    (choices.map fun choice => compare .eq value choice) = clauses := by
  induction h with
  | nil => rfl
  | @cons f choice _ _ hf _ ih =>
    obtain ⟨right, hr⟩ := ho f (List.mem_cons_self ..)
    obtain ⟨left, rfl, _⟩ := hf
    cases hr
    rw [List.map_cons, ih fun f hf => ho f (List.mem_cons_of_mem _ hf)]

mutual

/-- Without `IN` lists that join different left sides a finite filter comes back as it is. -/
theorem reread_eq (hw : ReadsShapes g.readGeometry) :
    ∀ {f : Filter}, f.Legible d → f.AllFinite → f.Every OneSided (fun _ => True) → f.reread g = f
  | compare op left right, _, h, _ => by
    rw [reread, Expression.reread_eq hw h.2.1, Expression.reread_eq hw h.2.2]
  | between value low high, _, h, _ => by
    rw [reread, Expression.reread_eq hw h.2.1, Expression.reread_eq hw h.2.2.1,
      Expression.reread_eq hw h.2.2.2]
  | like value pattern matchCase, _, h, _ => by rw [reread, Expression.reread_eq hw h.2]
  | isNull value, _, h, _ => by rw [reread, Expression.reread_eq hw h.2]
  | spatial op left right, _, h, _ => by
    rw [reread, Expression.reread_eq hw h.2.1, Expression.reread_eq hw h.2.2]
  | temporal op left right, _, h, _ => by
    rw [reread, Expression.reread_eq hw h.2.1, Expression.reread_eq hw h.2.2]
  | all clauses, hl, h, ho => by rw [reread, rereadAll_self hw hl.2 h.2 ho.2]
  | any clauses, hl, h, ho => by
    cases hin : inList? clauses with
    | some p =>
      obtain ⟨value, choices⟩ := p
      obtain ⟨_, _, _, hch⟩ := of_inList? hin
      rw [reread_inList hw hin h.2, eq_map_of_oneSided hch (ho.1 _ _ hin)]
    | none => rw [reread_any hin hl.1 h.2, rereadAll_self hw hl.2 h.2 ho.2]
  | negation clause, hl, h, ho => by rw [reread, reread_eq (f := clause) hw hl.2 h.2 ho.2]

theorem rereadAll_self (hw : ReadsShapes g.readGeometry) :
    ∀ {fs : List Filter}, EveryOne (Filter.Plain d) (Expression.Plain d) fs →
      EveryOne (fun _ => True) Expression.Finite fs → EveryOne OneSided (fun _ => True) fs →
      rereadAll g fs = fs
  | [], _, _, _ => rfl
  | _ :: _, hl, h, ho => by
    rw [rereadAll, reread_eq hw hl.1 h.1 ho.1, rereadAll_self hw hl.2 h.2 ho.2]

end

end Filter

namespace Compiler

variable {c : Compiler} {f : Filter}

def verdict (c : Compiler) (f : Filter) : Verdict :=
  f.verdict (c.grammar f.text) c.dialect.maxDepth

/-- The text of a legible filter is read as a phrase that means it, or refused for the obstacle of
its verdict. -/
theorem condition_text (hf : f.Legible c.dialect) :
    (c.verdict f = .fits ∧
      ∃ o, c.condition f.text = .ok o ∧ o.Means c.vocabulary (c.grammar f.text) f) ∨
    ∃ e, c.condition f.text = .error (.syntactic e) ∧ e.verdict = c.verdict f := by
  have hat : (Cursor.ofTokens f.text (tokensAt .start f.pieces)).At (c.grammar f.text) 0
      (f.pieces ++ []) := by
    rw [List.append_nil]
    exact Cursor.at_start (g := c.grammar f.text) (Filter.charsOf_pieces f).symm
  have htokens : c.condition f.text =
      ((c.grammar f.text).condition (tokensAt .start f.pieces)).mapError .syntactic := by
    rw [condition, phrase, Filter.tokenize_text hf]
  have hread : Outcome
      (fun o _ => c.verdict f = .fits ∧ Condition.Means c.vocabulary (c.grammar f.text) o f)
      (fun e => e.verdict = c.verdict f)
      ((do
        let o ← Condition.read (c.grammar f.text) c.dialect.maxDepth
        Grammar.expectFinish
        return o : Reader Condition)
          (Cursor.ofTokens f.text (tokensAt .start f.pieces))) :=
    Outcome.bind (Condition.reads_condition c.vocabulary hf Condition.endsOr_nil hat)
      (fun o s ⟨hfits, ho, hs⟩ => Outcome.step (Grammar.expectFinish_eq (hs.kind_eq 0)) ⟨hfits, ho⟩)
      fun e ⟨_, he, _⟩ => he
  have hrun := Outcome.run' hread
  rcases hrun with ⟨o, _, ho, hfits, hm⟩ | ⟨e, he, hv⟩
  · exact .inl ⟨hfits, o, htokens.trans (congrArg (Except.mapError CompileError.syntactic) ho), hm⟩
  · exact .inr ⟨e, htokens.trans (congrArg (Except.mapError CompileError.syntactic) he), hv⟩

/-- A text that fits is compiled to the tree that is read from it. -/
theorem filter_of_fits (hf : f.Legible c.dialect) (hk : f.AllKnown c.vocabulary)
    (hfits : c.verdict f = .fits) :
    c.filter f.text = .ok (f.reread (c.grammar f.text)) := by
  rcases condition_text hf with ⟨_, o, ho, hm⟩ | ⟨e, _, he⟩
  · have hmake : o.make c.vocabulary .tree = pure (f.reread (c.grammar f.text)) := hm hk
    rw [filter, filterWith, ho]
    show Except.mapError _ (o.make c.vocabulary .tree : ExceptT MeaningError Id Filter).run = _
    rw [hmake]
    rfl
  · exact absurd (he.trans hfits) e.verdict_ne_fits

/-- The filter is well formed for a compiler: its text stands for it, its numbers are finite, its
functions are known and not refused, and it is nested no deeper than the dialect allows. -/
structure WellFormed (c : Compiler) (f : Filter) : Prop where
  legible : f.Legible c.dialect
  finite : f.AllFinite
  known : f.AllKnown c.vocabulary
  readable : f.AllReadable c.dialect
  levels : f.nesting ≤ c.dialect.maxDepth

theorem WellFormed.fits (h : c.WellFormed f) (hw : ReadsShapes c.readGeometry) :
    c.verdict f = .fits :=
  (Filter.needs (g := c.grammar f.text) hw h.finite c.dialect.maxDepth).2 ⟨h.levels, h.readable⟩

/-- Compiling the text of a well-formed filter gives an equal filter. It is the very filter unless
an `IN` list joins left sides that are equal, but not the same. -/
theorem filter_text (c : Compiler) (hw : ReadsShapes c.readGeometry) (f : Filter)
    (h : c.WellFormed f) :
    ∃ f', c.filter f.text = .ok f' ∧ (f' == f) = true ∧
      (f.Every Filter.OneSided (fun _ => True) → f' = f) :=
  ⟨_, filter_of_fits h.legible h.known (h.fits hw),
    Filter.reread_beq (g := c.grammar f.text) hw h.legible h.finite,
    Filter.reread_eq (g := c.grammar f.text) hw h.legible h.finite⟩

/-- A filter whose text needs parentheses, a list, a negated list and quotes. -/
def paddocks : Filter :=
  .all [
    .negation (.any [.compare .eq (.property "kind/code") (.literal (.long (-5))),
      .compare .eq (.property "kind/code") (.literal (.double .zero))]),
    .any [
      .spatial .intersects (.property "geom")
        (.literal (.geometry (.point (some ⟨.zero, .zero, none⟩)))),
      .compare .lt
        (.arithmetic .mul (.arithmetic .add (.property "a") (.property "end date"))
          (.call "abs" [.property "b"]))
        (.literal (.string "it's"))]]

theorem lookup_abs : Catalog.standard.lookup "abs" = some (.fixed "abs" 1) := by decide +kernel

theorem lookup_intersects :
    Catalog.standard.lookup "S_INTERSECTS" = some (.spatial .intersects) := by decide +kernel

theorem wellFormed_paddocks : standard.WellFormed paddocks where
  legible := by
    have habs : Callable "abs" := ⟨by decide +kernel, by decide +kernel, by decide +kernel⟩
    have hlong : Value.Plain standard.dialect (.long (-5)) := by
      show -0x8000000000000000 < (-5 : Int64).toInt
      decide
    have hstring : Value.Plain standard.dialect (.string "it's") := fun _ => by decide +kernel
    simp only [paddocks, Filter.Legible, Filter.Every, Filter.EveryOne, Expression.Every,
      Value.Every, Expression.EveryOne, Filter.Plain, Expression.Plain, and_true, true_and]
    exact ⟨by decide, ⟨.inl (by decide), hlong, trivial⟩, .inl (by decide), trivial, habs,
      hstring⟩
  finite := by
    have hpoint : Geometry.Printable (.point (some ⟨.zero, .zero, none⟩)) := by
      rintro _ ⟨⟩
      exact ⟨rfl, rfl, fun _ h => by cases h⟩
    simp only [paddocks, Filter.AllFinite, Filter.Every, Filter.EveryOne, Expression.Every,
      Value.Every, Expression.EveryOne, Expression.Finite, and_true, true_and]
    exact ⟨rfl, hpoint⟩
  known := by
    simp only [paddocks, Filter.AllKnown, Filter.Every, Filter.EveryOne, Expression.Every,
      Value.Every, Expression.EveryOne, Expression.Known, Filter.Known, and_true, true_and]
    refine ⟨fun span => ?_, fun span => ?_⟩
    · simp only [Vocabulary.relation, standard, SpatialOp.functionName, lookup_intersects]
      rfl
    · simp only [Vocabulary.checkValueCall, standard, lookup_abs]
      rfl
  readable := by
    simp only [paddocks, Filter.AllReadable, Filter.Every, Filter.EveryOne, Expression.Every,
      Value.Every, Expression.EveryOne, Expression.Readable, Expression.Allowed,
      Expression.Shallow, Filter.Allowed, and_true, true_and]
    decide +kernel
  levels := by decide +kernel

/-- The conditions hold of the paddocks, and so the text is compiled to the same filter. -/
theorem filter_text_paddocks : ReadsShapes standard.readGeometry ∧ standard.WellFormed paddocks ∧
    ∃ f', standard.filter paddocks.text = .ok f' ∧ (f' == paddocks) = true ∧
      (paddocks.Every Filter.OneSided (fun _ => True) → f' = paddocks) :=
  ⟨readsShapes_wkt, wellFormed_paddocks,
    filter_text standard readsShapes_wkt paddocks wellFormed_paddocks⟩

/-- A chain whose text is a list: the choices are one level deeper than the chain. -/
def oneOrTwo : Filter :=
  .any [.compare .eq (.property "a") (.literal (.long 1)),
    .compare .eq (.property "a") (.literal (.long 2))]

/-- The standard compiler without any levels. -/
def shallow : Compiler := { standard with dialect := { standard.dialect with maxDepth := 0 } }

def dated (t : Timestamp) : Filter := .compare .eq (.property "t") (.literal (.timestamp t))

theorem wellFormed_dated {t : Timestamp} (h : t.Legible) : standard.WellFormed (dated t) where
  legible := ⟨trivial, trivial, h, trivial⟩
  finite := ⟨trivial, trivial, trivial, trivial⟩
  known := ⟨trivial, trivial, trivial, trivial⟩
  readable := ⟨trivial, ⟨trivial, trivial⟩, ⟨trivial, trivial⟩, trivial⟩
  levels := Nat.zero_le _

/-- An instant with a year of four digits is compiled to the one that its text is read as. -/
theorem filter_dated {t : Timestamp} (h : t.date.FourDigitYear) :
    standard.filter (dated t).text = .ok (dated t.reread) := by
  have hwell : standard.WellFormed (dated t.reread) := wellFormed_dated ⟨h, t.time.regular_reread⟩
  have htext : (dated t.reread).text = (dated t).text := by
    simp only [dated, Filter.text, Filter.comparisonText, Expression.text, Value.text,
      Timestamp.text_reread]
  rw [← htext, filter_of_fits hwell.legible hwell.known (hwell.fits readsShapes_wkt)]
  exact congrArg Except.ok (Filter.reread_eq (g := standard.grammar _) readsShapes_wkt
    hwell.legible hwell.finite ⟨trivial, trivial, trivial, trivial⟩)

/-- Without levels the text of a list is refused; and a leap second inside a minute is compiled to
the second behind it. -/
theorem filter_text_limits :
    (oneOrTwo.Legible shallow.dialect ∧ oneOrTwo.AllFinite ∧ oneOrTwo.AllKnown shallow.vocabulary ∧
      oneOrTwo.AllReadable shallow.dialect ∧ oneOrTwo.text = "a IN (1, 2)" ∧
      ∀ f', shallow.filter oneOrTwo.text ≠ .ok f') ∧
    ∃ t : Timestamp, t.date.FourDigitYear ∧ t.time = ⟨1436, 4, 1333333333⟩ ∧ t.offset = 0 ∧
      (dated t).AllFinite ∧ (dated t).AllKnown standard.vocabulary ∧
      (dated t).AllReadable standard.dialect ∧ (dated t).nesting ≤ standard.dialect.maxDepth ∧
      (dated t).text = "t = TIMESTAMP('2015-06-30T23:56:05.333333333Z')" ∧
      ∃ f', standard.filter (dated t).text = .ok f' ∧ (f' == dated t) = false := by
  constructor
  · have hrefused : (shallow.filter oneOrTwo.text).toOption.isSome = false := by decide +kernel
    have hone : Value.Plain shallow.dialect (.long 1) := by
      show -0x8000000000000000 < (1 : Int64).toInt
      decide
    have htwo : Value.Plain shallow.dialect (.long 2) := by
      show -0x8000000000000000 < (2 : Int64).toInt
      decide
    refine ⟨⟨.inl (by decide), ⟨trivial, trivial, hone, trivial⟩, ⟨trivial, trivial, htwo, trivial⟩,
      trivial⟩, ?_, ?_, ?_, by decide +kernel, fun f' h => ?_⟩
    · simp [oneOrTwo, Filter.AllFinite, Filter.Every, Filter.EveryOne, Expression.Every,
        Value.Every, Expression.Finite]
    · simp [oneOrTwo, Filter.AllKnown, Filter.Every, Filter.EveryOne, Expression.Every, Value.Every,
        Expression.Known, Filter.Known]
    · simp [oneOrTwo, Filter.AllReadable, Filter.Every, Filter.EveryOne, Expression.Every,
        Value.Every, Expression.Readable, Expression.Allowed, Expression.Shallow, Filter.Allowed]
    · rw [h] at hrefused
      cases hrefused
  · let t : Timestamp := .ofUtc ⟨2015, 6, 30, by decide, by decide, by decide, by decide⟩
      ⟨1436, 4, 1333333333⟩
    exact ⟨t, by decide, rfl, rfl, ⟨trivial, trivial, trivial, trivial⟩,
      ⟨trivial, trivial, trivial, trivial⟩,
      ⟨trivial, ⟨trivial, trivial⟩, ⟨trivial, trivial⟩, trivial⟩, Nat.zero_le _,
      by decide +kernel, _, filter_dated (by decide), by decide +kernel⟩

end Compiler

end FeatureFilter
