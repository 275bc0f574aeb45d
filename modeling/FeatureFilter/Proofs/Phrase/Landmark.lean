import FeatureFilter.Proofs.Phrase.Attempt

/-!
# How far an operand gets into a condition

The second attempt at the parenthesis of a group of conditions reads an operand, and stops where the
group goes on with what no operand has. The landmark of a clause is that place, with the verdict on
what stands before it. The first attempt gets there, too, so that its errors are not behind.
-/

namespace FeatureFilter

variable {g : Grammar} {v : Vocabulary} {lo lo' room : Nat} {s : Cursor} {qs : List Piece}

/-- The place in front of which an operand ends, and the verdict on the operand. -/
structure Landmark where
  verdict : Verdict
  place : List Piece

namespace Landmark

/-- Errors of reading from byte `lo` on may be said to be at byte `lo'` or behind it. -/
def Allows (m : Landmark) (g : Grammar) (lo lo' : Nat) : Prop :=
  (m.verdict ≠ .fits → lo' ≤ lo) ∧ (m.verdict = .fits → lo' ≤ g.offset m.place)

/-- The error of reading the operand alone: its own obstacle, or the place where it ends. -/
def Stops (m : Landmark) (g : Grammar) (lo : Nat) (e : SyntaxError) : Prop :=
  lo ≤ e.span.start ∧ (m.verdict ≠ .fits → e.verdict = m.verdict) ∧
    (m.verdict = .fits → e.span.start = g.offset m.place)

def grouped (m : Nat → List Piece → Landmark) : Nat → List Piece → Landmark
  | 0, qs => ⟨.deep, qs⟩
  | room + 1, qs => m room (.mark .rightParen :: qs)

end Landmark

namespace Filter

def negationLandmark (g : Grammar) : Filter → Nat → List Piece → Landmark
  | between value low high => fun room qs => ⟨value.verdict g room, betweenRest true low high ++ qs⟩
  | like value pattern matchCase => fun room qs =>
    ⟨value.verdict g room, likeRest true pattern matchCase ++ qs⟩
  | isNull value => fun room qs => ⟨value.verdict g room, isNullRest true ++ qs⟩
  | any clauses =>
    match inList? clauses with
    | some (value, choices) => fun room qs => ⟨value.verdict g room, inRest true choices ++ qs⟩
    | none => fun _ qs => ⟨.fits, (negation (any clauses)).pieces ++ qs⟩
  | f => fun _ qs => ⟨.fits, (negation f).pieces ++ qs⟩

def clauseSeparator (k : Keyword) : List Piece := [.blank, .keyword k, .blank]

mutual

/-- The landmark of a clause in front of the pieces. -/
def landmark (g : Grammar) : Filter → Nat → List Piece → Landmark
  | compare op left right => fun room qs => ⟨left.verdict g room, comparisonRest op right ++ qs⟩
  | between value low high =>
    fun room qs => ⟨value.verdict g room, betweenRest false low high ++ qs⟩
  | like value pattern matchCase => fun room qs =>
    ⟨value.verdict g room, likeRest false pattern matchCase ++ qs⟩
  | isNull value => fun room qs => ⟨value.verdict g room, isNullRest false ++ qs⟩
  | spatial op left right => fun room qs =>
    ⟨(Expression.call op.functionName [left, right]).verdict g room, qs⟩
  | temporal op left right => fun room qs =>
    ⟨(Expression.call op.functionName [left, right]).verdict g room, qs⟩
  | negation f => negationLandmark g f
  | all clauses => .grouped (firstLandmark g .and clauses)
  | any clauses =>
    match inList? clauses with
    | some (value, choices) => fun room qs => ⟨value.verdict g room, inRest false choices ++ qs⟩
    | none => .grouped (firstLandmark g .or clauses)

def firstLandmark (g : Grammar) (k : Keyword) : List Filter → Nat → List Piece → Landmark
  | [] => fun _ qs => ⟨.fits, qs⟩
  | f :: fs => fun room qs =>
    landmark g f room (separatedPieces (fun _ => clauseSeparator k) clause fs ++ qs)

end

/-! ## Chains -/

inductive Chain : Filter → Keyword → Filter → List Filter → Prop where
  | all (f : Filter) {fs : List Filter} (h : fs ≠ []) : Chain (.all (f :: fs)) .and f fs
  | any {f : Filter} {fs : List Filter} (hin : inList? (f :: fs) = none)
    (h : fs ≠ [] ∨ ∃ left right, f = .compare .eq left right) : Chain (.any (f :: fs)) .or f fs

namespace Chain

variable {f c : Filter} {k : Keyword} {cs : List Filter} {d : Dialect}

theorem isChain_eq (h : Chain f k c cs) : f.isChain = true := by
  cases h with
  | all => rfl
  | any hin => simp [isChain, hin]

theorem pieces_eq (h : Chain f k c cs) :
    f.pieces = c.clause ++ separatedPieces (fun _ => clauseSeparator k) clause cs := by
  cases h with
  | all f h =>
    rw [pieces, if_neg (by simp), chainPieces, clausePieces_eq, joinedPieces_map]
    rfl
  | any hin h =>
    rw [pieces, if_neg (by simp), hin]
    simp only [chainPieces, clausePieces_eq, joinedPieces_map]
    rfl

theorem verdict_eq (h : Chain f k c cs) (room : Nat) :
    f.verdict g room = Verdict.all (clauseVerdict g · room) (c :: cs) := by
  cases h with
  | all f h => exact clausesVerdict_eq g _ room
  | any hin h =>
    rw [verdict, hin]
    exact clausesVerdict_eq g _ room

theorem landmark_eq (h : Chain f k c cs) :
    f.landmark g = .grouped (firstLandmark g k (c :: cs)) := by
  cases h with
  | all => rfl
  | any hin =>
    rw [landmark, hin]

theorem legible (h : Chain f k c cs) (hf : f.Legible d) :
    ∀ c' ∈ c :: cs, c'.Legible d := by
  cases h with
  | all f h => exact (everyOne_iff _).1 hf.2
  | any hin h => exact (everyOne_iff _).1 hf.2

end Chain

/-- A legible filter is a predicate, a negation with `NOT` in front, or a chain. -/
theorem cases_of_legible (g : Grammar) {f : Filter} {d : Dialect} (hf : f.Legible d) :
    (∃ x rest w, Said g f x rest w) ∨ (∃ f', f = .negation f' ∧ f'.takesNot = false) ∨
      ∃ k c cs, Chain f k c cs := by
  cases f with
  | compare op left right => exact .inl ⟨_, _, _, .compare op left right⟩
  | between value low high => exact .inl ⟨_, _, _, .between false value low high⟩
  | like value pattern matchCase => exact .inl ⟨_, _, _, .like false value pattern matchCase⟩
  | isNull value => exact .inl ⟨_, _, _, .isNull false value⟩
  | spatial op left right => exact .inl ⟨_, _, _, .spatial op left right⟩
  | temporal op left right => exact .inl ⟨_, _, _, .temporal op left right⟩
  | all clauses =>
    have hlen : 2 ≤ clauses.length := hf.1
    match clauses, hlen with
    | c :: c' :: cs, _ => exact .inr (.inr ⟨_, _, _, .all c (List.cons_ne_nil c' cs)⟩)
  | any clauses =>
    cases hin : inList? clauses with
    | some p => exact .inl ⟨_, _, _, .inList false hin⟩
    | none =>
      right
      right
      rcases hf.1 with hlen | ⟨left, right, rfl⟩
      · match clauses, hlen, hin with
        | c :: c' :: cs, _, hin => exact ⟨_, _, _, .any hin (.inl (List.cons_ne_nil c' cs))⟩
      · exact ⟨_, _, _, .any hin (.inr ⟨left, right, rfl⟩)⟩
  | negation f =>
    cases hn : f.takesNot with
    | false => exact .inr (.inl ⟨f, rfl, hn⟩)
    | true =>
      left
      cases f with
      | between value low high => exact ⟨_, _, _, .between true value low high⟩
      | like value pattern matchCase => exact ⟨_, _, _, .like true value pattern matchCase⟩
      | isNull value => exact ⟨_, _, _, .isNull true value⟩
      | any clauses =>
        obtain ⟨p, hin⟩ := Option.isSome_iff_exists.1 hn
        exact ⟨_, _, _, .inList true hin⟩
      | _ => cases hn

/-! ## Landmarks of the forms -/

variable {f : Filter} {x : Expression} {rest : List Piece} {w : Nat → Verdict} {d : Dialect}

theorem Said.landmark_eq (h : Said g f x rest w) :
    f.landmark g = fun room qs => ⟨x.verdict g room, rest ++ qs⟩ := by
  cases h with
  | between negated => cases negated <;> rfl
  | like negated => cases negated <;> rfl
  | isNull negated => cases negated <;> rfl
  | inList negated h =>
    cases negated <;> simp only [Condition.negatedIf, landmark, negationLandmark, h, if_true,
      if_false, Bool.false_eq_true]
  | _ => rfl

theorem landmark_negation {f : Filter} (h : f.takesNot = false) :
    (negation f).landmark g = fun _ qs => ⟨.fits, (negation f).pieces ++ qs⟩ := by
  cases f with
  | between => cases h
  | like => cases h
  | isNull => cases h
  | any clauses =>
    have hin : inList? clauses = none := by simpa [takesNot] using h
    rw [landmark, negationLandmark, hin]
  | _ => rfl

theorem clause_of_not_isChain {f : Filter} (h : f.isChain = false) : f.clause = f.pieces := by
  rw [clause, h, if_neg Bool.false_ne_true]

theorem clause_of_isChain {f : Filter} (h : f.isChain = true) :
    f.clause = groupedPieces f.pieces := by
  rw [clause, if_pos h]

theorem clauseVerdict_of_not_isChain {f : Filter} (h : f.isChain = false) :
    f.clauseVerdict g = f.verdict g := by
  rw [clauseVerdict, h, Verdict.bracketed_false]

theorem clauseVerdict_of_isChain {f : Filter} (h : f.isChain = true) :
    f.clauseVerdict g = Verdict.nested (f.verdict g) := by
  rw [clauseVerdict, h, Verdict.bracketed_true]

/-- What stands behind the first clause of a chain in parentheses. -/
def behindFirst (k : Keyword) (cs : List Filter) (qs : List Piece) : List Piece :=
  separatedPieces (fun _ => clauseSeparator k) clause cs ++ .mark .rightParen :: qs

/-- What holds of all landmarks: they follow the first clauses of chains as far as levels last. -/
theorem landmark_induction {motive : Filter → Nat → List Piece → Prop}
    (said : ∀ {f x rest w}, Said g f x rest w → ∀ room qs, motive f room qs)
    (negation : ∀ {f}, f.takesNot = false → ∀ room qs, motive (.negation f) room qs)
    (shallow : ∀ {f k c cs}, Chain f k c cs → ∀ qs, motive f 0 qs)
    (chain : ∀ {f k c cs}, Chain f k c cs → c.Legible d → ∀ room qs,
      motive c room (behindFirst k cs qs) → motive f (room + 1) qs)
    (hf : f.Legible d) (room : Nat) (qs : List Piece) : motive f room qs := by
  induction room generalizing f qs with
  | zero =>
    obtain ⟨x, rest, w, h⟩ | ⟨f', rfl, hn⟩ | ⟨k, c, cs, h⟩ := cases_of_legible g hf
    · exact said h 0 qs
    · exact negation hn 0 qs
    · exact shallow h qs
  | succ room ih =>
    obtain ⟨x, rest, w, h⟩ | ⟨f', rfl, hn⟩ | ⟨k, c, cs, h⟩ := cases_of_legible g hf
    · exact said h _ qs
    · exact negation hn _ qs
    · have hc := h.legible hf c (List.mem_cons_self ..)
      exact chain h hc room qs (ih hc _)

/-- The landmark is a place of the text. -/
theorem exists_landmark (hf : f.Legible d) (room : Nat) (qs : List Piece) :
    ∃ a, f.clause ++ qs = a ++ (f.landmark g room qs).place := by
  refine landmark_induction (g := g)
    (motive := fun f room qs => ∃ a, f.clause ++ qs = a ++ (f.landmark g room qs).place)
    (fun h room qs => ?_) (fun hn room qs => ?_) (fun h qs => ?_) (fun h hc room qs ih => ?_)
    hf room qs
  · rw [h.landmark_eq, clause_of_not_isChain h.isChain_eq, h.pieces_eq, List.append_assoc]
    exact ⟨_, rfl⟩
  · rw [landmark_negation hn]
    exact ⟨[], rfl⟩
  · rw [h.landmark_eq]
    exact ⟨_, rfl⟩
  · obtain ⟨a, ha⟩ := ih
    rw [behindFirst] at ha
    rw [h.landmark_eq, clause_of_isChain h.isChain_eq, Operand.groupedPieces_append, h.pieces_eq,
      List.append_assoc, ha]
    exact ⟨.mark .leftParen :: a, rfl⟩

theorem landmark_allows (hf : f.Legible g.dialect) (h : s.At g lo (f.clause ++ qs)) :
    (f.landmark g room qs).Allows g lo lo := by
  obtain ⟨a, ha⟩ := exists_landmark (g := g) hf room qs
  rw [ha] at h
  exact ⟨fun _ => Nat.le_refl _, fun _ => h.lo_le_append⟩

/-- An obstacle in front of the landmark is the obstacle of the clause. -/
theorem clauseVerdict_of_landmark (hf : f.Legible d) (room : Nat) (qs : List Piece) :
    (f.landmark g room qs).verdict ≠ .fits →
      f.clauseVerdict g room = (f.landmark g room qs).verdict := by
  refine landmark_induction (g := g)
    (motive := fun f room qs => (f.landmark g room qs).verdict ≠ .fits →
      f.clauseVerdict g room = (f.landmark g room qs).verdict)
    (fun h room qs hne => ?_) (fun hn room qs hne => ?_) (fun h qs _ => ?_)
    (fun {f k c cs} h hc room qs ih hne => ?_) hf room qs
  · rw [h.landmark_eq] at hne ⊢
    rw [clauseVerdict_of_not_isChain h.isChain_eq, h.verdict_eq, Verdict.andThen_of_ne hne]
  · rw [landmark_negation hn] at hne
    exact absurd rfl hne
  · rw [h.landmark_eq, clauseVerdict_of_isChain h.isChain_eq]
    rfl
  · rw [h.landmark_eq] at hne ⊢
    rw [clauseVerdict_of_isChain h.isChain_eq]
    show f.verdict g room = _
    rw [h.verdict_eq, Verdict.all, ih hne]
    exact Verdict.andThen_of_ne hne _

theorem kind_negation {f : Filter} (h : f.takesNot = false) (qs : List Piece) :
    kindAt ((negation f).pieces ++ qs) 0 = .keyword .not := by
  rw [pieces]
  cases f with
  | between => cases h
  | like => cases h
  | isNull => cases h
  | all clauses =>
    rw [negationPieces]
    split <;> rfl
  | any clauses =>
    have hin : inList? clauses = none := by simpa [takesNot] using h
    rw [negationPieces, hin]
    split <;> rfl
  | _ => rfl

/-- No group closes where the operand in a chain ends. -/
theorem Chain.kind_firstLandmark {k : Keyword} {c : Filter} {cs : List Filter} (h : Chain f k c cs)
    (room : Nat) (qs : List Piece)
    (ih : kindAt (behindFirst k cs qs) 0 ≠ .mark .rightParen →
      kindAt (c.landmark g room (behindFirst k cs qs)).place 0 ≠ .mark .rightParen) :
    kindAt (c.landmark g room (behindFirst k cs qs)).place 0 ≠ .mark .rightParen := by
  have hcases : cs ≠ [] ∨ ∃ left right, c = .compare .eq left right := by
    cases h with
    | all _ h => exact .inl h
    | any _ h => exact h
  rcases hcases with hne | ⟨left, right, rfl⟩
  · obtain ⟨c', cs', rfl⟩ := List.exists_cons_of_ne_nil hne
    exact ih nofun
  · exact nofun

/-- No group closes at the landmark unless it does behind the clause. -/
theorem landmark_kind (hf : f.Legible d) (room : Nat) (qs : List Piece) :
    kindAt qs 0 ≠ .mark .rightParen →
      kindAt (f.landmark g room qs).place 0 ≠ .mark .rightParen := by
  refine landmark_induction (g := g)
    (motive := fun f room qs => kindAt qs 0 ≠ .mark .rightParen →
      kindAt (f.landmark g room qs).place 0 ≠ .mark .rightParen)
    (fun h room qs hq => ?_) (fun {f} hn room qs _ => ?_) (fun h qs hq => ?_)
    (fun {f k c cs} h hc room qs ih _ => ?_) hf room qs
  · rw [h.landmark_eq]
    cases h with
    | compare op => cases op <;> exact nofun
    | between negated => cases negated <;> exact nofun
    | like negated _ _ matchCase => cases negated <;> cases matchCase <;> exact nofun
    | isNull negated => cases negated <;> exact nofun
    | inList negated => cases negated <;> exact nofun
    | spatial => exact hq
    | temporal => exact hq
  · rw [landmark_negation hn]
    show kindAt ((negation f).pieces ++ qs) 0 ≠ _
    rw [kind_negation hn]
    exact nofun
  · rw [h.landmark_eq]
    exact hq
  · rw [h.landmark_eq]
    exact h.kind_firstLandmark room qs ih

end Filter

end FeatureFilter
