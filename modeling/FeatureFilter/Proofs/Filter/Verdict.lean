import FeatureFilter.Proofs.Filter.Pieces
import FeatureFilter.Proofs.Phrase.Outcome

/-!
# What becomes of the text of a tree

The verdict on a tree says what comes of reading its text with so many levels of nesting: groups,
negations, calls, intervals and lists take one level each, and geometries count their parentheses
themselves. `reread` is the tree that is read: infinite numbers come back as properties, geometries
as their reader gives them, and the clauses of an `IN` list with one left side.
-/

namespace FeatureFilter

namespace Verdict

/-- One level deeper, as long as there is one. -/
def nested (verdict : Nat → Verdict) : Nat → Verdict
  | 0 => deep
  | room + 1 => verdict room

def bracketed (group : Bool) (verdict : Nat → Verdict) : Nat → Verdict :=
  if group then nested verdict else verdict

@[simp] theorem bracketed_true (verdict : Nat → Verdict) :
    bracketed true verdict = nested verdict :=
  rfl

@[simp] theorem bracketed_false (verdict : Nat → Verdict) : bracketed false verdict = verdict := rfl

end Verdict

/-! ## Geometries -/

/-- How deep the parentheses of a list are nested, given those of its items. -/
def listNesting (items : List Nat) : Nat := items.foldr max 0 + 1

namespace Geometry

/-- Without items there are no parentheses. -/
def typedNesting (items : List Nat) : Nat := if items.isEmpty then 0 else listNesting items

mutual

/-- How deep the parentheses in the text of a geometry are nested. -/
def nesting : Geometry → Nat
  | point none => typedNesting []
  | point (some _) => typedNesting [0]
  | lineString cs => typedNesting (cs.map fun _ => 0)
  | polygon rings => typedNesting (rings.map fun _ => 1)
  | multiPoint cs => typedNesting (cs.map fun _ => 1)
  | multiLineString lines => typedNesting (lines.map fun _ => 1)
  | multiPolygon polygons =>
    typedNesting (polygons.map fun rings => listNesting (rings.map fun _ => 1))
  | collection members => typedNesting (nestingAll members)

def nestingAll : List Geometry → List Nat
  | [] => []
  | g :: gs => g.nesting :: nestingAll gs

end

/-- The outermost parentheses are always read; those inside count against the limit. -/
def verdict (g : Grammar) (shape : Geometry) : Verdict :=
  if 1 < shape.nesting ∧ g.dialect.maxDepth < shape.nesting then .deep
  else match g.readGeometry shape.text with
    | .ok _ => .fits
    | .error _ => .odd

def reread (g : Grammar) (shape : Geometry) : Geometry :=
  match g.readGeometry shape.text with
  | .ok read => read
  | .error _ => shape

end Geometry

/-! ## Expressions -/

mutual

def Value.verdict (g : Grammar) : Value → Nat → Verdict
  | .double (.infinity true) => Verdict.nested fun _ => .fits
  | .interval start stop =>
    Verdict.nested fun room => (start.verdict g room).andThen (stop.verdict g room)
  | .geometry shape => fun _ => shape.verdict g
  | _ => fun _ => .fits

def Expression.verdict (g : Grammar) : Expression → Nat → Verdict
  | .literal v => v.verdict g
  | .property _ => fun _ => .fits
  | .call name args =>
    if g.dialect.rejects name then fun _ => .odd else Verdict.nested (Expression.verdictAll g args)
  | .arithmetic op left right => fun room =>
    (Verdict.bracketed (needsGroup op false left) (left.verdict g) room).andThen
      (Verdict.bracketed (needsGroup op true right) (right.verdict g) room)

def Expression.verdictAll (g : Grammar) : List Expression → Nat → Verdict
  | [] => fun _ => .fits
  | e :: es => fun room => (e.verdict g room).andThen (Expression.verdictAll g es room)

end

theorem Expression.verdictAll_eq (g : Grammar) (es : List Expression) (room : Nat) :
    Expression.verdictAll g es room = Verdict.all (·.verdict g room) es := by
  induction es with
  | nil => rfl
  | cons e es ih => simp only [verdictAll, Verdict.all, ih]

mutual

def Value.reread (g : Grammar) : Value → Expression
  | .double (.infinity false) => .property "inf"
  | .double (.infinity true) => .arithmetic .mul (.literal (.long (-1))) (.property "inf")
  | .double .nan => .property "NaN"
  | .interval start stop => .literal (.interval (start.reread g) (stop.reread g))
  | .geometry shape => .literal (.geometry (shape.reread g))
  | v => .literal v

def Expression.reread (g : Grammar) : Expression → Expression
  | .literal v => v.reread g
  | .property path => .property path
  | .call name args => .call name (Expression.rereadAll g args)
  | .arithmetic op left right => .arithmetic op (left.reread g) (right.reread g)

def Expression.rereadAll (g : Grammar) : List Expression → List Expression
  | [] => []
  | e :: es => e.reread g :: Expression.rereadAll g es

end

/-! ## Filters -/

namespace Filter

def inVerdict (g : Grammar) (value : Expression) (choices : List Expression) (room : Nat) :
    Verdict :=
  (value.verdict g room).andThen (Verdict.nested (Expression.verdictAll g choices) room)

mutual

def verdict (g : Grammar) : Filter → Nat → Verdict
  | compare _ left right => fun room => (left.verdict g room).andThen (right.verdict g room)
  | between value low high => fun room =>
    (value.verdict g room).andThen ((low.verdict g room).andThen (high.verdict g room))
  | like value _ _ | isNull value => value.verdict g
  | spatial op left right => (Expression.call op.functionName [left, right]).verdict g
  | temporal op left right => (Expression.call op.functionName [left, right]).verdict g
  | all clauses => clausesVerdict g clauses
  | any clauses =>
    match inList? clauses with
    | some (value, choices) => inVerdict g value choices
    | none => clausesVerdict g clauses
  | negation clause => negationVerdict g clause

def negationVerdict (g : Grammar) : Filter → Nat → Verdict
  | between value low high => fun room =>
    (value.verdict g room).andThen ((low.verdict g room).andThen (high.verdict g room))
  | like value _ _ | isNull value => value.verdict g
  | all clauses => Verdict.nested (Verdict.nested (clausesVerdict g clauses))
  | any clauses =>
    match inList? clauses with
    | some (value, choices) => inVerdict g value choices
    | none => Verdict.nested (Verdict.nested (clausesVerdict g clauses))
  | compare _ left right => Verdict.nested fun room =>
    (left.verdict g room).andThen (right.verdict g room)
  | spatial op left right =>
    Verdict.nested ((Expression.call op.functionName [left, right]).verdict g)
  | temporal op left right =>
    Verdict.nested ((Expression.call op.functionName [left, right]).verdict g)
  | negation clause => Verdict.nested (negationVerdict g clause)

def clausesVerdict (g : Grammar) : List Filter → Nat → Verdict
  | [] => fun _ => .fits
  | f :: fs => fun room =>
    (Verdict.bracketed f.isChain (verdict g f) room).andThen (clausesVerdict g fs room)

end

/-- A chain of a single clause is read as the clause. -/
def anyOf : List Filter → Filter
  | [f] => f
  | fs => any fs

mutual

/-- What is read from the text of a filter. -/
def reread (g : Grammar) : Filter → Filter
  | compare op left right => compare op (left.reread g) (right.reread g)
  | between value low high => between (value.reread g) (low.reread g) (high.reread g)
  | like value pattern matchCase => like (value.reread g) pattern matchCase
  | isNull value => isNull (value.reread g)
  | spatial op left right => spatial op (left.reread g) (right.reread g)
  | temporal op left right => temporal op (left.reread g) (right.reread g)
  | all clauses => all (rereadAll g clauses)
  | any clauses =>
    match inList? clauses with
    | some (value, choices) =>
      any (choices.map fun choice => compare .eq (value.reread g) (choice.reread g))
    | none => anyOf (rereadAll g clauses)
  | negation clause => negation (reread g clause)

def rereadAll (g : Grammar) : List Filter → List Filter
  | [] => []
  | f :: fs => reread g f :: rereadAll g fs

end

def clause (f : Filter) : List Piece := if f.isChain then groupedPieces f.pieces else f.pieces

def clauseVerdict (g : Grammar) (f : Filter) : Nat → Verdict :=
  Verdict.bracketed f.isChain (f.verdict g)

theorem clausePieces_eq (fs : List Filter) : clausePieces fs = fs.map clause := by
  induction fs with
  | nil => rfl
  | cons f fs ih => rw [clausePieces, List.map_cons, ih, clause]

theorem clausesVerdict_eq (g : Grammar) (fs : List Filter) (room : Nat) :
    clausesVerdict g fs room = Verdict.all (clauseVerdict g · room) fs := by
  induction fs with
  | nil => rfl
  | cons f fs ih => simp only [clausesVerdict, Verdict.all, ih, clauseVerdict]

/-- Whether `NOT` stands inside the text of the negation of a filter and not in front of it. -/
def takesNot : Filter → Bool
  | between _ _ _ | like _ _ _ | isNull _ => true
  | any clauses => (inList? clauses).isSome
  | _ => false

theorem negationPieces_eq {f : Filter} (h : f.takesNot = false) {d : Dialect} (hl : f.Legible d) :
    f.negationPieces = notPieces f.clause := by
  cases f with
  | between value low high => cases h
  | like value pattern matchCase => cases h
  | isNull value => cases h
  | compare op left right => simp [negationPieces, clause, isChain, pieces]
  | spatial op left right => simp [negationPieces, clause, isChain, pieces]
  | temporal op left right => simp [negationPieces, clause, isChain, pieces]
  | negation f => simp [negationPieces, clause, isChain, pieces]
  | all clauses =>
    have hc : clauses.isEmpty = false := by
      have : 2 ≤ clauses.length := hl.1
      cases clauses with
      | nil => simp at this
      | cons f fs => rfl
    simp [negationPieces, clause, isChain, pieces, hc]
  | any clauses =>
    have hc : clauses.isEmpty = false := by
      cases clauses with
      | nil =>
        rcases hl.1 with h | ⟨l, r, h⟩
        · simp at h
        · cases h
      | cons f fs => rfl
    have hn : inList? clauses = none := by simpa [takesNot] using h
    simp [negationPieces, clause, isChain, pieces, hc, hn]

theorem negationVerdict_eq (g : Grammar) {f : Filter} (h : f.takesNot = false) :
    f.negationVerdict g = Verdict.nested (f.clauseVerdict g) := by
  cases f with
  | between value low high => cases h
  | like value pattern matchCase => cases h
  | isNull value => cases h
  | any clauses =>
    have hn : inList? clauses = none := by simpa [takesNot] using h
    simp [negationVerdict, clauseVerdict, isChain, verdict, hn]
  | _ => simp [negationVerdict, clauseVerdict, isChain, verdict]

end Filter

end FeatureFilter
