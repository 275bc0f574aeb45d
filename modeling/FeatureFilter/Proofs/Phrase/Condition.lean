import FeatureFilter.Proofs.Phrase.Landmark

/-!
# Reading conditions

The text of a filter is read as its verdict announces (`reads_condition`). Clauses are predicates,
negations one level deeper, and groups of conditions, which both attempts at a parenthesis start
with.
-/

namespace FeatureFilter

variable {g : Grammar} {v : Vocabulary} {lo lo' room : Nat} {s : Cursor} {qs : List Piece}
  {f : Filter}

/-! ## The attempt at an operand -/

namespace Operand

/-- What comes of reading the clause as an operand: it is read up to the landmark, or stops there.
-/
def AttemptsClause (g : Grammar) (room : Nat) (f : Filter) : Prop :=
  ∀ lo s qs, Condition.EndsClause qs → s.At g lo (f.clause ++ qs) →
    Outcome
      (fun _ s' => (f.landmark g room qs).verdict = .fits ∧
        s'.At g lo (f.landmark g room qs).place)
      ((f.landmark g room qs).Stops g lo) (Operand.read g room s)

/-- What fails with its first factor fails. -/
theorem outcome_readSum {factor : Reader Operand} {good : Operand → Cursor → Prop}
    {bad : SyntaxError → Prop} (h : Outcome (fun _ _ => False) bad (factor s)) :
    Outcome good bad (readSum factor s) := by
  have hproduct : Outcome (fun _ _ => False) bad (readChain productOp? factor s) :=
    Outcome.bind h (fun _ _ h => h.elim) fun _ h => h
  exact Outcome.bind hproduct (fun _ _ h => h.elim) fun _ h => h

theorem exists_readFactor (g : Grammar) (room : Nat) : ∃ below,
    readFactor g room = readFactorOver g below ∧
      Below (fun room r => r = Operand.read g room) room (below.map readSum) := by
  cases room with
  | zero => exact ⟨none, rfl, .none⟩
  | succ room => exact ⟨_, rfl, .some rfl⟩

/-- In front of a parenthesis everything comes of the group. -/
theorem outcome_read_paren {ps : List Piece} {good : Operand → Cursor → Prop}
    {bad : SyntaxError → Prop} (h : s.At g lo ps) (hk : kindAt ps 0 = .mark .leftParen)
    (hgroup : ∀ below, Below (fun room r => r = Operand.read g room) room below →
      Outcome (fun _ _ => False) bad (readGroup g below .rightParen s)) :
    Outcome good bad (Operand.read g room s) := by
  obtain ⟨below, he, hb⟩ := exists_readFactor g room
  refine outcome_readSum ?_
  have hkind : s.kind 0 = .mark .leftParen := (h.kind_eq 0).trans hk
  have ht : (s.token 0).kind = .mark .leftParen := hkind
  rw [he, readFactorOver, Reader.bind_of_ok (show Reader.peekKind s = .ok (s.kind 0, s) from rfl),
    hkind]
  show Outcome _ _ (readPrimary g (below.map readSum) s)
  rw [readPrimary, Reader.bind_of_ok (show Reader.peek s = .ok (s.token 0, s) from rfl), ht]
  exact hgroup _ hb

theorem outcome_read_not {ps : List Piece} {good : Operand → Cursor → Prop} (h : s.At g lo ps)
    (hk : kindAt ps 0 = .keyword .not) :
    Outcome good (fun e => e.span.start = g.offset ps) (Operand.read g room s) := by
  obtain ⟨below, he, -⟩ := exists_readFactor g room
  refine outcome_readSum ?_
  have hkind : s.kind 0 = .keyword .not := (h.kind_eq 0).trans hk
  have ht : (s.token 0).kind = .keyword .not := hkind
  rw [he, readFactorOver, Reader.bind_of_ok (show Reader.peekKind s = .ok (s.kind 0, s) from rfl),
    hkind]
  show Outcome _ _ (readPrimary g (below.map readSum) s)
  rw [readPrimary, Reader.bind_of_ok (show Reader.peek s = .ok (s.token 0, s) from rfl), ht]
  exact h.start_token

theorem outcome_read_chain {k : Keyword} {c : Filter} {cs : List Filter}
    {good : Operand → Cursor → Prop} (hchain : Filter.Chain f k c cs) (hf : f.Legible g.dialect)
    (hfirst : ∀ room', room = room' + 1 → AttemptsClause g room' c)
    (h : s.At g lo (f.clause ++ qs)) :
    Outcome good ((f.landmark g room qs).Stops g lo) (Operand.read g room s) := by
  rw [Filter.clause_of_isChain hchain.isChain_eq, groupedPieces_append, hchain.pieces_eq] at h
  refine outcome_read_paren h rfl fun below hb => ?_
  obtain ⟨t, s₁, hadv, -, -, -, h₁⟩ := h.advance
  refine Outcome.step hadv ?_
  rw [hchain.landmark_eq]
  cases hb with
  | none => exact ⟨h₁.lo_le_token, fun _ => rfl, nofun⟩
  | @some room' r hr =>
    subst hr
    have hends : Condition.EndsClause (Filter.behindFirst k cs qs) := by
      cases cs with
      | nil => rfl
      | cons c' cs => cases hchain <;> rfl
    have hc := hchain.legible hf c (List.mem_cons_self ..)
    rw [List.append_assoc] at h₁
    refine Outcome.bind (hfirst room' rfl lo s₁ _ hends h₁) (fun o s₂ ho => ?_) fun e he => he
    -- the operand is read, but the group does not close behind it
    obtain ⟨hfits, h₂⟩ := ho
    have hk : s₂.kind 0 ≠ .mark .rightParen := by
      rw [h₂.kind_eq 0]
      exact hchain.kind_firstLandmark room' qs (Filter.landmark_kind hc room' _)
    have hfail : Reader.expect .rightParen s₂ =
        .error (Reader.mismatch (s₂.token 0) ("'" ++ Mark.rightParen.text ++ "'") none) := by
      rw [Reader.expect, Reader.expectKind,
        Reader.bind_of_ok (show Reader.peekKind s₂ = .ok (s₂.kind 0, s₂) from rfl), if_neg hk]
      rfl
    have hstop : Outcome (fun _ _ => False) (Landmark.Stops
        (Filter.firstLandmark g k (c :: cs) room' (.mark .rightParen :: qs)) g lo)
        (Reader.expect .rightParen s₂) := by
      rw [hfail]
      exact ⟨h₂.lo_le_token, fun hne => absurd hfits hne, fun _ => h₂.start_token⟩
    exact Outcome.bind hstop (fun _ _ h => h.elim) fun e he => he

theorem attemptsClause_step (hf : f.Legible g.dialect)
    (hfirst : ∀ room', room = room' + 1 → ∀ c : Filter, c.Legible g.dialect →
      AttemptsClause g room' c) : AttemptsClause g room f := by
  intro lo s qs hq h
  obtain ⟨x, rest, w, hs⟩ | ⟨f', rfl, hn⟩ | ⟨k, c, cs, hc⟩ := Filter.cases_of_legible g hf
  · rw [Filter.clause_of_not_isChain hs.isChain_eq, hs.pieces_eq, List.append_assoc] at h
    rw [hs.landmark_eq]
    have hx := reads_operand ⟨.empty, true⟩ g room x (hs.legible_value hf) lo s _
      (Condition.endsSum_said hs hq) h
    exact Outcome.mono hx (fun _ _ ho => ⟨ho.1, ho.2.2⟩)
      fun e he => ⟨he.2.2, fun _ => he.2.1, fun hfits => absurd hfits he.1⟩
  · have hk := Filter.kind_negation hn qs
    rw [Filter.landmark_negation hn]
    refine Outcome.mono (outcome_read_not h hk) (fun _ _ ho => ho) fun e he => ?_
    refine ⟨?_, fun hne => absurd rfl hne, fun _ => he⟩
    rw [he]
    exact h.lo_le
  · exact outcome_read_chain hc hf
      (fun room' hr => hfirst room' hr c (hc.legible hf c (List.mem_cons_self ..))) h

/-- An operand gets into a clause as far as the landmark. -/
theorem attemptsClause (hf : f.Legible g.dialect) (room : Nat) : AttemptsClause g room f := by
  induction room generalizing f with
  | zero => exact attemptsClause_step hf nofun
  | succ room ih =>
    refine attemptsClause_step hf fun room' hr c hc => ?_
    obtain rfl : room = room' := Nat.succ.inj hr
    exact ih hc

end Operand

namespace Condition

open Operand (ReadsAll reads_operand)

/-! ## Claims -/

/-- The reader reads clauses of chains; errors are as late as their landmarks allow. -/
def ReadsClauses (v : Vocabulary) (g : Grammar) (room : Nat) (r : Reader Condition) : Prop :=
  ∀ f : Filter, f.Legible g.dialect → ∀ lo lo' s qs, EndsClause qs → s.At g lo (f.clause ++ qs) →
    (f.landmark g room qs).Allows g lo lo' →
      g.Reads lo' (f.clauseVerdict g room) qs (Means v g · f) (r s)

/-- A condition can end in front of the pieces: no clause follows. -/
structure EndsAnd (qs : List Piece) : Prop where
  endsClause : EndsClause qs
  noAnd : kindAt qs 0 ≠ .keyword .and

structure EndsOr (qs : List Piece) : Prop extends EndsAnd qs where
  noOr : kindAt qs 0 ≠ .keyword .or

theorem endsOr_rightParen (qs : List Piece) : EndsOr (.mark .rightParen :: qs) :=
  ⟨⟨rfl, nofun⟩, nofun⟩

theorem ReadsClauses.readsItem {r : Reader Condition} (hr : ReadsClauses v g room r)
    (hf : f.Legible g.dialect) :
    g.ReadsItem (Filter.clauseVerdict g · room) Filter.clause (Means v g) EndsClause r f :=
  fun lo s qs hq h => hr f hf lo lo s qs hq h (Filter.landmark_allows hf h)

/-! ## Chains -/

variable {k : Keyword} {c : Filter} {cs : List Filter} {item : Reader Condition}
  {join : Span → List Condition → Condition} {ends : List Piece → Prop}

variable (k join ends) in
theorem reads_clauses
    (hends : ∀ ps, ends (Filter.clauseSeparator k ++ ps)) (hq : ends qs)
    (hstop : kindAt qs 0 ≠ .keyword k)
    (hrest : ∀ c' ∈ cs, g.ReadsItem (Filter.clauseVerdict g · room) Filter.clause (Means v g) ends
      item c')
    (h : g.Reads lo (c.clauseVerdict g room)
      (separatedPieces (fun _ => Filter.clauseSeparator k) Filter.clause cs ++ qs) (Means v g · c)
      (item s)) :
    g.Reads lo (Verdict.all (Filter.clauseVerdict g · room) (c :: cs)) qs
      (fun o => if cs = [] then Means v g o c
        else ∃ span os, o = join span os ∧ List.Forall₂ (Means v g) os (c :: cs))
      (readChain k join item s) := by
  rw [Verdict.all, readChain]
  refine h.bind fun o s₁ ho h₁ => ?_
  have hmany := Grammar.reads_many (fun _ => Filter.clauseSeparator k) (fun _ => .keyword k) _
    (fun kind => if kind = .keyword k then some () else none) (fun _ => ()) (fun _ => rfl) cs
    (fun _ _ => if_pos rfl)
    (fun _ _ => hends) hq (if_neg hstop) hrest h₁
  refine Grammar.Reads.map hmany fun os s₂ hos h₂ => ?_
  cases hos with
  | nil => exact .pure (by rw [if_pos rfl]; exact ho) h₂
  | @cons y c' ys cs hy hys =>
    refine .pure ?_ h₂
    rw [if_neg (List.cons_ne_nil c' cs)]
    refine ⟨_, _, rfl, .cons ho (.cons hy.2 ?_)⟩
    exact List.forall₂_map_left_iff.2 (hys.imp fun _ _ h => h.2)

variable (join) in
theorem reads_alone {w : Verdict} {good : Condition → Prop} (hstop : kindAt qs 0 ≠ .keyword k)
    (h : g.Reads lo w qs good (item s)) : g.Reads lo w qs good (readChain k join item s) := by
  refine h.map fun o s₁ ho h₁ => ?_
  refine Grammar.Reads.map (Grammar.reads_none (if_neg hstop) h₁) fun os s₂ hos h₂ => ?_
  subst hos
  exact .pure ho h₂

theorem endsAnd_or (ps : List Piece) : EndsAnd (Filter.clauseSeparator .or ++ ps) :=
  ⟨rfl, nofun⟩

theorem reads_chains_clause (hq : EndsOr qs)
    (h : g.Reads lo (f.clauseVerdict g room) qs (Means v g · f) (item s)) :
    g.Reads lo (f.clauseVerdict g room) qs (Means v g · f) (readChains item s) :=
  reads_alone .any hq.noOr (reads_alone .all hq.noAnd h)

theorem reads_chains (hchain : Filter.Chain f k c cs) (hf : f.Legible g.dialect)
    (hr : ReadsClauses v g room item) (hq : EndsOr qs)
    (h : g.Reads lo (c.clauseVerdict g room)
      (separatedPieces (fun _ => Filter.clauseSeparator k) Filter.clause cs ++ qs) (Means v g · c)
      (item s)) :
    g.Reads lo (f.verdict g room) qs (Means v g · f) (readChains item s) := by
  have hrest (c' : Filter) (hc' : c' ∈ cs) := hr.readsItem (hchain.legible hf c'
    (List.mem_cons_of_mem _ hc'))
  rw [hchain.verdict_eq]
  cases hchain with
  | all c hne =>
    have hand := reads_clauses .and .all EndsClause (fun _ => rfl)
      hq.endsClause hq.noAnd hrest h
    refine (reads_alone .any hq.noOr hand).mono fun o ho => ?_
    rw [if_neg hne] at ho
    obtain ⟨span, os, rfl, hos⟩ := ho
    exact .all span hos
  | any hin hone =>
    have hnext : EndsAnd (separatedPieces (fun _ => Filter.clauseSeparator .or) Filter.clause cs ++
        qs) := Grammar.ends_separated cs (fun _ _ => endsAnd_or) hq.toEndsAnd
    have hor := reads_clauses .or .any EndsAnd endsAnd_or hq.toEndsAnd
      hq.noOr (fun c' hc' lo s qs hq h =>
        reads_alone .all hq.noAnd (hrest c' hc' lo s qs hq.endsClause h))
      (reads_alone .all hnext.noAnd h)
    refine Grammar.Reads.mono hor fun o ho => ?_
    cases cs with
    | nil =>
      rw [if_pos rfl] at ho
      exact .single hin ho
    | cons c' cs =>
      rw [if_neg (List.cons_ne_nil c' cs)] at ho
      obtain ⟨span, os, rfl, hos⟩ := ho
      exact .any span hin hos

/-! ## Groups of conditions -/

variable {operand : Reader Operand} {belowOperand : Option (Reader Operand)}
  {below : Option (Reader Condition)} {group predicate : Reader Condition} {ps : List Piece}

/-- What is known of the reader of negations one level deeper. -/
def ReadsBelow (v : Vocabulary) (g : Grammar) (room : Nat) (r : Reader Condition) : Prop :=
  r = readNegation g room ∧ ReadsClauses v g room r

theorem reads_group (hchain : Filter.Chain f k c cs) (hf : f.Legible g.dialect)
    (hb : Below (ReadsBelow v g) room below) (h : s.At g lo (groupedPieces f.pieces ++ qs))
    (hallow : (f.landmark g room qs).Allows g lo lo') :
    g.Reads lo' (Verdict.nested (f.verdict g) room) qs (Means v g · f)
      (readGroup g (below.map readChains) .rightParen s) := by
  rw [Operand.groupedPieces_append] at h
  rw [hchain.landmark_eq] at hallow
  obtain ⟨t, s₁, hadv, -, -, -, h₁⟩ := h.advance
  refine .step hadv ?_
  cases hb with
  | none => exact .deeper_none (h₁.mono (hallow.1 nofun))
  | @some room r hr =>
    refine .deeper_some ?_
    have hc := hchain.legible hf c (List.mem_cons_self ..)
    have hends : EndsClause (Filter.behindFirst k cs qs) := by
      cases cs with
      | nil => rfl
      | cons c' cs => cases hchain <;> rfl
    have hfirst := h₁
    rw [hchain.pieces_eq, List.append_assoc] at hfirst
    refine (reads_chains hchain hf hr.2 (endsOr_rightParen qs)
      (hr.2 c hc lo lo' s₁ _ hends hfirst hallow)).map fun o s₂ ho h₂ => ?_
    exact .expect h₂ fun s₃ h₃ => .pure ho h₃

theorem outcome_predicate_chain {good : Condition → Cursor → Prop} (hchain : Filter.Chain f k c cs)
    (hf : f.Legible g.dialect) (h : s.At g lo (f.clause ++ qs)) :
    Outcome good ((f.landmark g room qs).Stops g lo)
      (readPredicate g (Operand.read g room) belowOperand s) := by
  have hk : kindAt (f.clause ++ qs) 0 = .mark .leftParen := by
    rw [Filter.clause_of_isChain hchain.isChain_eq]
    rfl
  rw [readPredicate_of_start h (by rw [hk]; rfl) (by rw [hk]; exact nofun)]
  have hoperand : Outcome (fun _ _ => False) ((f.landmark g room qs).Stops g lo)
      (Operand.read g room s) := Operand.outcome_read_chain hchain hf
    (fun room' _ => Operand.attemptsClause (hchain.legible hf c (List.mem_cons_self ..)) room') h
  exact Outcome.bind hoperand (fun _ _ h => h.elim) fun e he => he

theorem atOperator_of_endsClause (hq : EndsClause qs) (h : s.At g lo qs) :
    atOperator s = false := by
  rw [atOperator, h.kind_eq 0]
  rcases endsPredicate_cases hq with he | he | he | he | he <;> rw [he] <;> rfl

theorem reads_attempts {m : Landmark} {w : Verdict} {good : Condition → Prop} (hq : EndsClause qs)
    (hallow : m.Allows g lo lo') (hw : m.verdict ≠ .fits → w = m.verdict)
    (hself : m.verdict = .fits → m.Allows g lo (g.offset m.place))
    (hg : ∀ lo', m.Allows g lo lo' → g.Reads lo' w qs good (group s))
    (hp : Outcome (fun _ _ => False) (m.Stops g lo) (predicate s)) :
    g.Reads lo' w qs good (orPredicate group predicate s) := by
  obtain ⟨e', he', hstops⟩ := Outcome.error_of_false hp
  have hgroup := hg lo' hallow
  rw [orPredicate]
  cases hr : group s with
  | ok r =>
    rw [hr] at hgroup
    simp only [atOperator_of_endsClause hq hgroup.2.2, Bool.false_eq_true, if_false]
    exact hgroup
  | error e =>
    rw [hr] at hgroup
    simp only [he']
    show w ≠ .fits ∧ (e.furthest e').verdict = w ∧ lo' ≤ (e.furthest e').span.start
    rw [SyntaxError.furthest]
    split
    · rename_i hlt
      by_cases hm : m.verdict = .fits
      · -- the first attempt gets to the landmark
        have hfar := hg _ (hself hm)
        rw [hr] at hfar
        have := hstops.2.2 hm
        have := hfar.2.2
        omega
      · exact ⟨hgroup.1, (hstops.2.1 hm).trans (hw hm).symm, (hallow.1 hm).trans hstops.1⟩
    · exact hgroup

/-! ## Clauses -/

/-- Clauses are read as announced, when this holds one level deeper. -/
theorem readsClauses_over
    (hbo : Below (fun room r => r = Operand.read g room) room belowOperand)
    (hb : Below (ReadsBelow v g) room below) :
    ReadsClauses v g room (readNegationOver g (Operand.read g room) belowOperand below) := by
  intro f hf lo lo' s qs hq h hallow
  obtain ⟨x, rest, w, hs⟩ | ⟨f', rfl, hn⟩ | ⟨k, c, cs, hc⟩ := Filter.cases_of_legible g hf
  · rw [Filter.clause_of_not_isChain hs.isChain_eq, hs.pieces_eq, List.append_assoc] at h
    rw [hs.landmark_eq] at hallow
    rw [Filter.clauseVerdict_of_not_isChain hs.isChain_eq,
      readNegationOver_operand h (startsOperand_pieces _ _)]
    refine reads_primary hs hf (hbo.imp ?_) (hb.map ?_) hq h hallow.1 hallow.2
    · rintro room r rfl
      exact reads_operand v g room
    · rintro room r ⟨rfl, -⟩
      exact refusesOperands_read g room
  · have hpieces : (Filter.negation f').clause ++ qs =
        .keyword .not :: .blank :: (f'.clause ++ qs) := by
      rw [Filter.clause_of_not_isChain rfl, Filter.pieces, Filter.negationPieces_eq hn hf.2]
      rfl
    rw [Filter.landmark_negation hn] at hallow
    have hlo : lo' ≤ g.offset ((Filter.negation f').clause ++ qs) := hallow.2 rfl
    have h' : s.At g lo' ((Filter.negation f').clause ++ qs) :=
      ⟨h.ahead, h.suffix, h.finish, hlo⟩
    rw [hpieces] at h'
    rw [Filter.clauseVerdict_of_not_isChain rfl, Filter.verdict, Filter.negationVerdict_eq g hn]
    refine .peek h' fun t ht => ?_
    rw [if_pos (show t.kind = .keyword .not from ht)]
    refine .advance h' fun _ s₁ _ h₁ => ?_
    refine .deeper hb h₁ fun room r hr => ?_
    have hread := (hr.2.readsItem hf.2) lo' s₁ qs hq h₁.blank
    exact Grammar.Reads.map hread fun o s₂ ho h₂ =>
      .spanFrom t fun span _ => .pure (.negation span ho) h₂
  · have hchain := hc.isChain_eq
    have hkind : kindAt (f.clause ++ qs) 0 = .mark .leftParen := by
      rw [Filter.clause_of_isChain hchain]
      rfl
    have hself : (f.landmark g room qs).verdict = .fits →
        (f.landmark g room qs).Allows g lo (g.offset (f.landmark g room qs).place) :=
      fun hfits => ⟨fun hne => absurd hfits hne, fun _ => Nat.le_refl _⟩
    rw [readNegationOver_operand h (by rw [hkind]; rfl), readPrimary_paren h hkind]
    refine reads_attempts hq hallow (Filter.clauseVerdict_of_landmark hf room qs) hself
      (fun lo'' hallow' => ?_) (outcome_predicate_chain hc hf h)
    rw [Filter.clause_of_isChain hchain] at h
    rw [Filter.clauseVerdict_of_isChain hchain]
    exact reads_group hc hf hb h hallow'

theorem readsClauses (v : Vocabulary) (g : Grammar) (room : Nat) :
    ReadsClauses v g room (readNegation g room) := by
  induction room with
  | zero => exact readsClauses_over .none .none
  | succ room ih => exact readsClauses_over (.some rfl) (.some ⟨rfl, ih⟩)

/-- The text of a legible filter is read as its verdict announces. -/
theorem reads_condition (v : Vocabulary) (hf : f.Legible g.dialect) (hq : EndsOr qs)
    (h : s.At g lo (f.pieces ++ qs)) :
    g.Reads lo (f.verdict g room) qs (Means v g · f) (Condition.read g room s) := by
  have hr := readsClauses v g room
  cases hchain : f.isChain with
  | false =>
    have hitem := hr.readsItem hf lo s qs hq.endsClause
    simp only [Filter.clause_of_not_isChain hchain, Filter.clauseVerdict_of_not_isChain hchain]
      at hitem
    have hclause :
        g.Reads lo (f.clauseVerdict g room) qs (Means v g · f) (readNegation g room s) := by
      rw [Filter.clauseVerdict_of_not_isChain hchain]
      exact hitem h
    have := reads_chains_clause hq hclause
    rwa [Filter.clauseVerdict_of_not_isChain hchain] at this
  | true =>
    obtain ⟨x, rest, w, hs⟩ | ⟨f', rfl, hn⟩ | ⟨k, c, cs, hc⟩ := Filter.cases_of_legible g hf
    · rw [hs.isChain_eq] at hchain
      cases hchain
    · cases hchain
    · rw [hc.pieces_eq, List.append_assoc] at h
      refine reads_chains hc hf hr hq ?_
      refine (hr.readsItem (hc.legible hf c (List.mem_cons_self ..))) lo s _ ?_ h
      cases cs with
      | nil => exact hq.endsClause
      | cons c' cs => cases hc <;> rfl

end Condition

end FeatureFilter
