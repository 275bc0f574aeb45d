import FeatureFilter.Proofs.Descent.Conditions

/-!
# The budget that a machine needs

Calls inside each other take a token at the latest when all kinds of procedures had their turn
(`Procedure.rank`). This also holds where a group is read again: the second attempt starts from
where the first one did, but is inside the same call. So a budget that grows with the number of
tokens is enough (`follows_run`), and any larger one does the same.
-/

namespace FeatureFilter

namespace Descent

open Routine

variable {α : Type} {p : Input} {s : Session} {i d n : Nat}

/-- A bound on how many calls may follow, one inside the other, with so many tokens ahead. A group
takes the token that opens it, and goes on like any condition or operand where there is none. -/
def Procedure.rank (ahead : Nat) : Procedure α → Nat
  | condition => 12 * ahead + 11
  | conjunction => 12 * ahead + 10
  | negation => 12 * ahead + 9
  | clause => 12 * ahead + 8
  | predicate | bound => 12 * ahead + 7
  | sum => 12 * ahead + 6
  | product => 12 * ahead + 5
  | factor => 12 * ahead + 4
  | primary => 12 * ahead + 3
  | word _ => 12 * ahead + 2
  | ordinate | date | timestamp | geometry _ => 12 * ahead + 1
  | conditionGroup _ | operandGroup _ => 12 * max 1 ahead
  | _ => 12 * ahead

namespace Procedure

theorem rank_le (c : Procedure α) (ahead : Nat) : c.rank ahead ≤ 12 * (ahead + 1) := by
  cases c <;> simp only [rank] <;> omega

theorem le_rank (c : Procedure α) (ahead : Nat) : 12 * ahead ≤ c.rank ahead := by
  cases c <;> simp only [rank] <;> omega

theorem rank_mono (c : Procedure α) {k m : Nat} (h : k ≤ m) : c.rank k ≤ c.rank m := by
  cases c <;> simp only [rank] <;> omega

/-- Whether the procedure may be called anywhere. The others are called where the token that they
start with comes next. -/
def isFree : Procedure α → Bool
  | word _ | conditionGroup _ | operandGroup _ => false
  | _ => true

theorem ready_of_isFree {c : Procedure α} (h : c.isFree = true) : c.Ready p i := by
  cases c with
  | word name => cases h
  | _ => trivial

theorem rank_lt_of_isFree {c : Procedure α} (h : c.isFree = true) (ahead : Nat) :
    c.rank ahead < 12 * (ahead + 1) := by
  cases c with
  | word name | conditionGroup close | operandGroup close => cases h
  | _ => simp only [rank]; omega

end Procedure

/-- With a budget above its rank a procedure does what it has to do. -/
theorem follows_run (p : Input) (n : Nat) : ∀ {α : Type} (c : Procedure α) (s : Session) (d : Nat),
    s.At p s.position d → c.Ready p s.position → c.rank (p.tokens.length - s.position) < n →
      Does p s.position d c (run p n c) s := by
  induction n with
  | zero => exact fun _ _ _ _ _ h => absurd h (Nat.not_lt_zero _)
  | succ n ih =>
    intro α c s d h hready hrank
    have hahead := c.le_rank (p.tokens.length - s.position)
    -- What is called before a token is taken has a lower rank, and so a budget above it.
    have same {β : Type} {q : Procedure β} {e : Nat} (hfree : q.isFree = true)
        (hq : q.rank (p.tokens.length - s.position) < c.rank (p.tokens.length - s.position)) :
        Answers p (run p n) s.position e q := fun s' h' => by
      have hmono := q.rank_mono (Nat.sub_le_sub_left h'.floor_le p.tokens.length)
      exact ih q s' e h'.here (Procedure.ready_of_isFree hfree) (by omega)
    -- What is called behind a token has one token less ahead.
    have later {β : Type} {q : Procedure β} {e : Nat} (hfree : q.isFree = true) :
        Answers p (run p n) (s.position + 1) e q := fun s' h' => by
      have hfloor := h'.floor_le
      have hle := h'.position_le
      have hq := Procedure.rank_lt_of_isFree hfree (p.tokens.length - s'.position)
      exact ih q s' e h'.here (Procedure.ready_of_isFree hfree) (by omega)
    -- A group takes the token that opens it, and goes on where it is if there is none.
    have inside {β : Type} {q : Procedure β} {e : Nat} (hfree : q.isFree = true)
        (hq : q.rank 0 < c.rank 0) : ∃ j, s.position ≤ j ∧ (s.advanced p).At p j d ∧
          Answers p (run p n) j e q := by
      by_cases hlt : s.position < p.tokens.length
      · exact ⟨s.position + 1, Nat.le_succ _, h.advanced_of_lt hlt, later hfree⟩
      · refine ⟨s.position, Nat.le_refl _, h.advanced, same hfree ?_⟩
        rwa [Nat.sub_eq_zero_of_le (Nat.le_of_not_lt hlt)]
    cases c with
    | condition => exact follows_condition (same rfl (by simp [Procedure.rank])) h (by omega)
    | conjunction => exact follows_conjunction (same rfl (by simp [Procedure.rank])) h (by omega)
    | negation => exact follows_negation (same rfl (by simp [Procedure.rank])) (later rfl) h
    | clause =>
      refine follows_clause (same rfl (by simp [Procedure.rank])) (fun close hlt => ?_) h
      exact ih (.conditionGroup close) s d h trivial (by
        simp only [Procedure.rank] at hrank ⊢
        omega)
    | conditionGroup close =>
      obtain ⟨j, hj, hs, hcondition⟩ := inside (q := .condition) rfl (by simp [Procedure.rank])
      exact follows_conditionGroup hcondition hj hs
    | predicate =>
      exact follows_predicate (same rfl (by simp [Procedure.rank])) (fun _ _ _ => later rfl) h
    | negatable start value negated =>
      exact follows_negatable (later rfl) (later rfl) (later rfl) h
    | pattern => exact follows_pattern h
    | choices => exact follows_choices (later rfl) h (by omega)
    | sum => exact follows_sum (same rfl (by simp [Procedure.rank])) h (by omega)
    | product => exact follows_product (same rfl (by simp [Procedure.rank])) h (by omega)
    | factor =>
      exact follows_factor (same rfl (by simp [Procedure.rank])) (later rfl) (later rfl) h
    | primary =>
      refine follows_primary (same rfl (by simp [Procedure.rank])) (fun close hlt => ?_)
        (fun name hlt => ?_) h
      · exact ih (.operandGroup close) s d h trivial (by
          simp only [Procedure.rank] at hrank ⊢
          omega)
      · exact ih (.word name) s d h hlt (by
          simp only [Procedure.rank] at hrank ⊢
          omega)
    | operandGroup close =>
      obtain ⟨j, hj, hs, hsum⟩ := inside (q := .sum) rfl (by simp [Procedure.rank])
      exact follows_operandGroup hsum hj hs
    | word name =>
      exact follows_word (same rfl (by simp [Procedure.rank])) (same rfl (by simp [Procedure.rank]))
        (same rfl (by simp [Procedure.rank])) (same rfl (by simp [Procedure.rank]))
        (same rfl (by simp [Procedure.rank])) (same rfl (by simp [Procedure.rank]))
        (same rfl (by simp [Procedure.rank])) h hready
    | call name => exact follows_call (later rfl) h (by omega)
    | interval => exact follows_interval (later rfl) h
    | bound => exact follows_bound (same rfl (by simp [Procedure.rank])) h
    | number => exact follows_number h
    | ordinate => exact follows_ordinate (same rfl (by simp [Procedure.rank])) h
    | envelope => exact follows_envelope (later rfl) h
    | quotedInstant => exact follows_quotedInstant h
    | date => exact follows_date (same rfl (by simp [Procedure.rank])) h
    | timestamp => exact follows_timestamp (same rfl (by simp [Procedure.rank])) h
    | withSrid => exact follows_withSrid (fun _ => later rfl) h
    | geometry srid =>
      simp only [Procedure.rank] at hrank
      exact follows_geometry h (by omega)

/-! ## Complete texts -/

theorem startAt_at {position depth : Nat} (hposition : position ≤ p.tokens.length)
    (hdepth : depth ≤ p.maxDepth) :
    (Session.startAt position depth).At p position depth where
  tame := List.forall_mem_singleton.2 ⟨hposition, .inl hdepth⟩
  calm := rfl
  depth_eq := rfl
  floor_le := Nat.le_refl position

theorem follows_expectFinish (h : s.At p i d) :
    Follows p i d (Grammar.expectFinish (p.cursor s.position)) (expectFinish p s) := by
  refine Follows.peekKind ?_
  exact Follows.ite (fun _ => .failHere h) fun _ => .pure h

/-- What is read as a whole is read alike. -/
theorem follows_parse {c : Procedure α} (hready : c.Ready p 0) (hn : c.rank p.tokens.length < n) :
    Follows p 1 0
      ((do
        let a ← c.reader p.grammar p.maxDepth
        Grammar.expectFinish
        return a : Reader α) (.ofTokens p.grammar.source p.tokens))
      (parse p n c) := by
  have hrun :=
    follows_run p n c (.startAt 0 0) 0 (startAt_at (Nat.zero_le _) (Nat.zero_le _)) hready hn
  refine hrun.bind fun a s h => ?_
  exact (follows_expectFinish h).bind fun _ s' h' => .pure h'

/-- The machine ends by itself: no loop stands still, and no call goes beyond the budget. -/
def Ends (r : Except Halt α) : Prop := r ≠ .error .stalled ∧ r ≠ .error .exhausted

theorem ends_mapError (r : Except SyntaxError α) : Ends (r.mapError .refused) := by
  constructor <;> intro h <;> cases r <;> cases h

theorem Follows.result {x : Reader α} {cursor : Cursor} {o : Except Halt α × Session}
    (h : Follows p i d (x cursor) o) : o.1 = (x.run' cursor).mapError .refused := by
  show _ = ((·.1) <$> x cursor).mapError _
  generalize x cursor = r at h
  cases h <;> rfl

/-- Every list of tokens is read or refused, whatever stands at its end or in between. Twelve calls
inside each other for each token, and for the end, are enough. -/
theorem parse_ends (g : Grammar) (tokens : List Token) {n : Nat}
    (hn : 12 * (tokens.length + 1) ≤ n) :
    (parse ⟨g, tokens⟩ n .condition).1 = (g.condition tokens).mapError .refused ∧
    (parse ⟨g, tokens⟩ n .sum).1 = (g.operand tokens).mapError .refused ∧
    Ends (parse ⟨g, tokens⟩ n .condition).1 ∧ Ends (parse ⟨g, tokens⟩ n .sum).1 ∧
    ∀ m, n ≤ m → (parse ⟨g, tokens⟩ m .condition).1 = (parse ⟨g, tokens⟩ n .condition).1 ∧
      (parse ⟨g, tokens⟩ m .sum).1 = (parse ⟨g, tokens⟩ n .sum).1 := by
  have hcondition (m : Nat) (hm : n ≤ m) :
      (parse ⟨g, tokens⟩ m .condition).1 = (g.condition tokens).mapError .refused :=
    (follows_parse (c := .condition) trivial (by simp only [Procedure.rank]; omega)).result
  have hsum (m : Nat) (hm : n ≤ m) :
      (parse ⟨g, tokens⟩ m .sum).1 = (g.operand tokens).mapError .refused :=
    (follows_parse (c := .sum) trivial (by simp only [Procedure.rank]; omega)).result
  refine ⟨hcondition n (Nat.le_refl n), hsum n (Nat.le_refl n), ?_, ?_, fun m hm => ⟨?_, ?_⟩⟩
  · exact hcondition n (Nat.le_refl n) ▸ ends_mapError _
  · exact hsum n (Nat.le_refl n) ▸ ends_mapError _
  · exact (hcondition m hm).trans (hcondition n (Nat.le_refl n)).symm
  · exact (hsum m hm).trans (hsum n (Nat.le_refl n)).symm

/-- Groups that nothing closes, with an end between them. -/
theorem parse_ends_finish_between : ∃ g tokens,
    g = (⟨.cql2, Wkt.read, "(("⟩ : Grammar) ∧
    tokens = [⟨.mark .leftParen, "(", ⟨0, 1, 1, 1⟩⟩, ⟨.finish, "", ⟨1, 1, 1, 2⟩⟩,
      ⟨.mark .leftParen, "(", ⟨1, 2, 1, 2⟩⟩] ∧
    12 * (tokens.length + 1) ≤ 48 ∧
    (parse ⟨g, tokens⟩ 48 .condition).1 = (g.condition tokens).mapError .refused ∧
    (parse ⟨g, tokens⟩ 48 .sum).1 = (g.operand tokens).mapError .refused ∧
    Ends (parse ⟨g, tokens⟩ 48 .condition).1 ∧ Ends (parse ⟨g, tokens⟩ 48 .sum).1 ∧
    ∀ m, 48 ≤ m → (parse ⟨g, tokens⟩ m .condition).1 = (parse ⟨g, tokens⟩ 48 .condition).1 ∧
      (parse ⟨g, tokens⟩ m .sum).1 = (parse ⟨g, tokens⟩ 48 .sum).1 :=
  ⟨_, _, rfl, rfl, by decide, parse_ends _ _ (by decide)⟩

-- A budget can be too small, even for no tokens at all.
example : (parse ⟨⟨.cql2, Wkt.read, ""⟩, []⟩ 5 .condition).1 = .error .exhausted := rfl

end Descent

end FeatureFilter
