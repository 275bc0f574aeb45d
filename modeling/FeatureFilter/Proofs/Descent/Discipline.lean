import FeatureFilter.Proofs.Descent.Budget
import FeatureFilter.Token.Lexer

/-!
# Levels and siblings

What is said here of the machine is that it leaves its position and its level in order, though each
procedure has to see to that by itself. So a phrase that stands next to others is read in the level
that they are in, however many they are.
-/

namespace FeatureFilter

open Reader (repeated many)

namespace Descent

open Routine

variable {α β κ : Type} {p : Input} {i j k depth : Nat}

/-! ## Phrases next to each other -/

/-- From a position on, in a certain level, the procedure reads up to another position. -/
def Reads (p : Input) (c : Procedure α) (depth i j : Nat) : Prop :=
  ∃ a s, run p (13 * (p.tokens.length + 1)) c (.startAt i depth) = (.ok a, s) ∧ s.position = j

/-- One phrase or more, with links between them and none behind the last one. -/
inductive Siblings (p : Input) (link? : TokenKind → Option κ) (c : Procedure α) (depth : Nat) :
    Nat → Nat → Prop where
  | last {i j : Nat} (h : Reads p c depth i j) (hlast : link? (p.kind j) = none) :
    Siblings p link? c depth i j
  | more {i j k : Nat} (h : Reads p c depth i j) (hlink : (link? (p.kind j)).isSome)
    (rest : Siblings p link? c depth (j + 1) k) : Siblings p link? c depth i k

theorem reads_of_run {c : Procedure α}
    (hok : (run p (13 * (p.tokens.length + 1)) c (.startAt i depth)).1.toOption.isSome = true)
    (hj : (run p (13 * (p.tokens.length + 1)) c (.startAt i depth)).2.position = j) :
    Reads p c depth i j := by
  rw [Reads]
  generalize run p (13 * (p.tokens.length + 1)) c (.startAt i depth) = o at hok hj
  obtain ⟨result, s⟩ := o
  cases result with
  | ok a => exact ⟨a, s, rfl, hj⟩
  | error halt => cases hok

theorem cursor_injective (hi : i ≤ p.tokens.length) (hj : j ≤ p.tokens.length)
    (h : p.cursor i = p.cursor j) : i = j := by
  have hlength := congrArg (·.ahead.length) h
  simp only [p.length_cursor] at hlength
  omega

/-- The procedure reads what its reader reads. -/
theorem reads_iff (c : Procedure α) (hi : i ≤ p.tokens.length) (hdepth : depth ≤ p.maxDepth)
    (hready : c.Ready p i) : Reads p c depth i j ↔ i < j ∧ j ≤ p.tokens.length ∧
      ∃ a, c.reader p.grammar (p.maxDepth - depth) (p.cursor i) = .ok (a, p.cursor j) := by
  have hrank := c.rank_le (p.tokens.length - i)
  have hrun : Follows p (i + 1) depth (c.reader p.grammar (p.maxDepth - depth) (p.cursor i))
      (run p (13 * (p.tokens.length + 1)) c (.startAt i depth)) :=
    follows_run p _ c (.startAt i depth) depth (startAt_at hi hdepth) hready
      (show c.rank (p.tokens.length - i) < _ by omega)
  rw [Reads]
  generalize run p (13 * (p.tokens.length + 1)) c (.startAt i depth) = o at hrun
  generalize c.reader p.grammar (p.maxDepth - depth) (p.cursor i) = r at hrun
  cases hrun with
  | @ok a s h =>
    constructor
    · rintro ⟨_, _, he, rfl⟩
      cases he
      exact ⟨h.floor_le, h.position_le, a, rfl⟩
    · rintro ⟨-, hj, a', he⟩
      have hcursor := (Prod.mk.inj (Except.ok.inj he)).2
      exact ⟨a, s, rfl, cursor_injective h.position_le hj hcursor⟩
  | error h =>
    constructor
    · rintro ⟨_, _, he, -⟩
      cases he
    · rintro ⟨-, -, _, he⟩
      cases he

/-- Where siblings stand, the first is read and then the others. -/
theorem siblings_many {link? : TokenKind → Option κ} {c : Procedure α}
    (hfinish : link? .finish = none) (hdepth : depth ≤ p.maxDepth) (hi : i ≤ p.tokens.length)
    (h : Siblings p link? c depth i j) (hready : ∀ i, c.Ready p i) :
    ∃ a xs m, i < m ∧ m ≤ j ∧ j ≤ p.tokens.length ∧
      c.reader p.grammar (p.maxDepth - depth) (p.cursor i) = .ok (a, p.cursor m) ∧
      many (Reader.linked link? (c.reader p.grammar (p.maxDepth - depth))) (p.cursor m) =
        .ok (xs, p.cursor j) := by
  suffices hrepeated : ∃ a xs m, i < m ∧ m ≤ j ∧ j ≤ p.tokens.length ∧
      c.reader p.grammar (p.maxDepth - depth) (p.cursor i) = .ok (a, p.cursor m) ∧
      ∀ n, p.tokens.length ≤ m + n →
        repeated (Reader.linked link? (c.reader p.grammar (p.maxDepth - depth))) n (p.cursor m) =
          .ok (xs, p.cursor j) by
    obtain ⟨a, xs, m, him, hmj, hj, hread, hmany⟩ := hrepeated
    refine ⟨a, xs, m, him, hmj, hj, hread, ?_⟩
    rw [Reader.many_eq, p.length_cursor]
    exact hmany _ (by omega)
  induction h with
  | @last i j h hlast =>
    obtain ⟨hij, hj, a, hread⟩ := (reads_iff c hi hdepth (hready i)).1 h
    exact ⟨a, [], j, hij, Nat.le_refl j, hj, hread, fun n _ => repeated_none hlast n⟩
  | @more i j k h hlink rest ih =>
    obtain ⟨hij, hj, a, hread⟩ := (reads_iff c hi hdepth (hready i)).1 h
    obtain ⟨link, hl⟩ := Option.isSome_iff_exists.1 hlink
    have hlt : j < p.tokens.length := Input.lt_of_ne_finish (TokenKind.ne_finish hl hfinish)
    obtain ⟨b, xs, m, hjm, hmk, hk, hread', hrest⟩ := ih hlt
    refine ⟨a, (link, b) :: xs, j, hij, by omega, hk, hread, fun n hn => ?_⟩
    obtain ⟨n, rfl⟩ : ∃ n', n = n' + 1 := ⟨n - 1, by omega⟩
    rw [← bind_pure (repeated _ _), repeated_some hl hlt, Reader.bind_of_ok hread',
      Reader.bind_of_ok (hrest n (by omega))]
    rfl

section Chains

variable {c : Procedure α}

theorem siblings_commaList (hdepth : depth ≤ p.maxDepth) (hi : i ≤ p.tokens.length)
    (h : Siblings p (linkOf (.mark .comma)) c depth i j) (hready : ∀ i, c.Ready p i) :
    i < j ∧ j ≤ p.tokens.length ∧
      ∃ as, Reader.commaList (c.reader p.grammar (p.maxDepth - depth)) (p.cursor i) =
        .ok (as, p.cursor j) := by
  obtain ⟨a, xs, m, him, hmj, hj, hread, hmany⟩ := siblings_many rfl hdepth hi h hready
  exact ⟨by omega, hj, a :: xs.map (·.2), (Reader.bind_of_ok hread).trans (Reader.bind_of_ok hmany)⟩

theorem siblings_operators {op? : TokenKind → Option ArithmeticOp} {c : Procedure Operand}
    (hfinish : op? .finish = none) (hdepth : depth ≤ p.maxDepth) (hi : i ≤ p.tokens.length)
    (h : Siblings p op? c depth i j) (hready : ∀ i, c.Ready p i) :
    i < j ∧ j ≤ p.tokens.length ∧
      ∃ o, Operand.readChain op? (c.reader p.grammar (p.maxDepth - depth)) (p.cursor i) =
        .ok (o, p.cursor j) := by
  obtain ⟨a, xs, m, him, hmj, hj, hread, hmany⟩ := siblings_many hfinish hdepth hi h hready
  exact ⟨by omega, hj, _, (Reader.bind_of_ok hread).trans (Reader.bind_of_ok hmany)⟩

theorem siblings_clauses {k : Keyword} {join : Span → List Condition → Condition}
    {c : Procedure Condition} (hdepth : depth ≤ p.maxDepth) (hi : i ≤ p.tokens.length)
    (h : Siblings p (linkOf (.keyword k)) c depth i j) (hready : ∀ i, c.Ready p i) :
    i < j ∧ j ≤ p.tokens.length ∧
      ∃ o, Condition.readChain k join (c.reader p.grammar (p.maxDepth - depth)) (p.cursor i) =
        .ok (o, p.cursor j) := by
  obtain ⟨a, xs, m, him, hmj, hj, hread, hmany⟩ := siblings_many rfl hdepth hi h hready
  rw [Condition.readChain_eq]
  exact ⟨by omega, hj, _, (Reader.bind_of_ok hread).trans (Reader.bind_of_ok hmany)⟩

end Chains

/-- However many phrases stand next to each other, they are read in the level that they are in. -/
structure ReadsSiblings (p : Input) (depth : Nat) : Prop where
  conjunction : ∀ i j, i ≤ p.tokens.length →
    Siblings p (linkOf (.keyword .and)) .negation depth i j → Reads p .conjunction depth i j
  condition : ∀ i j, i ≤ p.tokens.length →
    Siblings p (linkOf (.keyword .or)) .conjunction depth i j → Reads p .condition depth i j
  product : ∀ i j, i ≤ p.tokens.length →
    Siblings p Operand.productOp? .factor depth i j → Reads p .product depth i j
  sum : ∀ i j, i ≤ p.tokens.length →
    Siblings p Operand.sumOp? .product depth i j → Reads p .sum depth i j
  /-- The items of a list are in the level below. -/
  choices : ∀ i j, depth + 1 ≤ p.maxDepth → p.kind i = .mark .leftParen →
    Siblings p (linkOf (.mark .comma)) .sum (depth + 1) (i + 1) j → p.kind j = .mark .rightParen →
      Reads p .choices depth i (j + 1)
  /-- So are the arguments of a call. -/
  call : ∀ i j name, depth + 1 ≤ p.maxDepth → p.grammar.dialect.rejects name = false →
    p.kind (i + 1) = .mark .leftParen →
    Siblings p (linkOf (.mark .comma)) .sum (depth + 1) (i + 2) j → p.kind j = .mark .rightParen →
      Reads p (.call name) depth i (j + 1)

theorem readsSiblings (hdepth : depth ≤ p.maxDepth) : ReadsSiblings p depth where
  conjunction i j hi h :=
    (reads_iff .conjunction hi hdepth trivial).2 (siblings_clauses hdepth hi h fun _ => trivial)
  condition i j hi h :=
    (reads_iff .condition hi hdepth trivial).2 (siblings_clauses hdepth hi h fun _ => trivial)
  product i j hi h :=
    (reads_iff .product hi hdepth trivial).2 (siblings_operators rfl hdepth hi h fun _ => trivial)
  sum i j hi h :=
    (reads_iff .sum hi hdepth trivial).2 (siblings_operators rfl hdepth hi h fun _ => trivial)
  choices i j hdeep hopen h hclose := by
    have hi := Input.lt_of_kind hopen rfl
    have hj := Input.lt_of_kind hclose rfl
    obtain ⟨hij, -, items, hread⟩ := siblings_commaList hdeep hi h fun _ => trivial
    refine (reads_iff .choices (Nat.le_of_lt hi) hdepth trivial).2 ⟨by omega, hj, items, ?_⟩
    have hbelow : p.maxDepth - depth = p.maxDepth - (depth + 1) + 1 := by omega
    show Condition.readChoices p.grammar (Reader.below (Operand.read p.grammar) _) _ = _
    rw [hbelow]
    refine Reader.expect_bind_eq_ok.2 ⟨by rwa [p.kind_cursor], Reader.deeper_eq_ok.2 ⟨_, rfl, ?_⟩⟩
    rw [Input.next_cursor_of_lt hi]
    refine (Reader.bind_of_ok hread).trans
      (Reader.expectKind_bind_eq_ok.2 ⟨by rwa [p.kind_cursor], ?_⟩)
    rw [Input.next_cursor_of_lt hj]
    rfl
  call i j name hdeep hrejects hopen h hclose := by
    have hi := Input.lt_of_kind hopen rfl
    have hj := Input.lt_of_kind hclose rfl
    obtain ⟨hij, -, args, hread⟩ := siblings_commaList hdeep hi h fun _ => trivial
    have hbelow : p.maxDepth - depth = p.maxDepth - (depth + 1) + 1 := by omega
    obtain ⟨first, c, hfirst, -⟩ := Reader.bind_eq_ok.1 hread
    -- No argument starts with the parenthesis that closes a call without any.
    have hne : (p.cursor (i + 2)).kind 0 ≠ .mark .rightParen := fun hk => by
      obtain ⟨ts, hts, ho⟩ := (Operand.fits_read p.grammar _).sound rfl hfirst
      obtain ⟨t, us, rfl, hstart⟩ := Grammar.IsOperand.startsWith _ ho
      rw [← hts.kind_cons, hk] at hstart
      cases hstart
    have hcall : Operand.readCall p.grammar
        (Reader.below (Operand.read p.grammar) (p.maxDepth - depth)) name (p.cursor i) =
          .ok (.call
            { (p.token i).span with stop := max (p.lastStop (j + 1)) (p.token i).span.stop }
            name args, p.cursor (j + 1)) := by
      rw [hbelow, Operand.readCall, if_neg (by rw [hrejects]; exact Bool.false_ne_true),
        Reader.advance_bind, Input.next_cursor_of_lt (Nat.lt_of_succ_lt hi)]
      refine Reader.expect_bind_eq_ok.2 ⟨by rwa [p.kind_cursor], Reader.deeper_eq_ok.2 ⟨_, rfl, ?_⟩⟩
      rw [Input.next_cursor_of_lt hi, Reader.eat_bind, if_neg hne]
      refine (Reader.bind_of_ok hread).trans
        (Reader.expectKind_bind_eq_ok.2 ⟨by rwa [p.kind_cursor], ?_⟩)
      rw [Input.next_cursor_of_lt hj, p.token_cursor]
      rfl
    exact (reads_iff (.call name) (by omega) hdepth trivial).2 ⟨by omega, hj, _, hcall⟩

/-! ## Reading again -/

/-- Whether a predicate is read where the group starts: the group is refused, or an operator follows
it. -/
def abandons (p : Input) : Except Halt Condition × Session → Bool
  | (.ok _, s) => Condition.atOperator (p.cursor s.position)
  | (.error (.refused _), _) => true
  | (.error _, _) => false

/-- What is read again is read from where the group starts, and in the level that the group is in.
-/
theorem run_again {s : Session} {close : Mark} (n : Nat)
    (hclose : p.grammar.close? (p.kind s.position) = some close)
    (h : abandons p (run p n (.conditionGroup close) s) = true) :
    (run p (n + 1) .clause s).2 = (run p n .predicate
      ((run p n (.conditionGroup close) s).2.goTo ⟨s.position, s.depth, none⟩)).2 := by
  have hgroup : groupClose p s = (.ok (some close), s) := by
    obtain ⟨-, hgroup⟩ | ⟨hnone, -⟩ := groupClose_cases p s
    · rwa [hclose] at hgroup
    · rw [hclose] at hnone
      cases hnone
  have hclause : run p (n + 1) .clause s =
      orPredicate p (run p n (.conditionGroup close)) (run p n .predicate) s := bind_of_ok hgroup
  rw [hclause]
  generalize ho : run p n (.conditionGroup close) s = o at h
  obtain ⟨result, s'⟩ := o
  show ((attempt (run p n (.conditionGroup close)) >>= _ : Routine Condition) s).2 = _
  cases result with
  | ok condition =>
    rw [bind_of_ok (attempt_of_ok ho)]
    show ((if Condition.atOperator (p.cursor s'.position) = true then _ else _ : Routine Condition)
      s').2 = _
    rw [if_pos (show Condition.atOperator (p.cursor s'.position) = true from h)]
    rfl
  | error halt =>
    cases halt with
    | refused e =>
      rw [bind_of_ok (attempt_of_refused ho)]
      show ((attempt (run p n .predicate) >>= _ : Routine Condition)
        (s'.goTo ⟨s.position, s.depth, none⟩)).2 = _
      refine attempt_bind_snd fun r u => ?_
      cases r <;> rfl
    | _ => cases h

/-- Every procedure leaves the machine in the level that it was called in, behind the place that it
was called at. -/
theorem run_keeps_levels (p : Input) (c : Procedure α) {position depth n : Nat}
    (hposition : position ≤ p.tokens.length) (hdepth : depth ≤ p.maxDepth)
    (hready : c.Ready p position) (hn : 13 * (p.tokens.length + 1) ≤ n) :
    (∃ result s, run p n c (.startAt position depth) = (result, s) ∧
      result =
        ((c.reader p.grammar (p.maxDepth - depth)).run' (p.cursor position)).mapError .refused ∧
      (∀ a, result = .ok a →
        s.depth = depth ∧ position < s.position ∧ s.position ≤ p.tokens.length) ∧
      ∀ x ∈ s.scenes, x.depth ≤ p.maxDepth ∨
        x.depth = p.maxDepth + 1 ∧ x.leaving = some (p.tooDeep x.position)) ∧
    (∀ (m : Nat) (t : Session) (close : Mark), p.grammar.close? (p.kind t.position) = some close →
      abandons p (run p m (.conditionGroup close) t) = true →
        (run p (m + 1) .clause t).2 = (run p m .predicate
          ((run p m (.conditionGroup close) t).2.goTo ⟨t.position, t.depth, none⟩)).2) ∧
    ReadsSiblings p depth := by
  have hrank := c.rank_le (p.tokens.length - position)
  have hrun : Follows p (position + 1) depth
      (c.reader p.grammar (p.maxDepth - depth) (p.cursor position))
      (run p n c (.startAt position depth)) :=
    follows_run p n c (.startAt position depth) depth (startAt_at hposition hdepth) hready
      (show c.rank (p.tokens.length - position) < n by omega)
  refine ⟨⟨_, _, rfl, hrun.result, fun a ha => ?_, fun x hx => (hrun.tame x hx).depth_le⟩,
    fun m t close => run_again m, readsSiblings hdepth⟩
  have h := hrun.at_of_ok ha
  exact ⟨h.depth_eq, h.floor_le, h.position_le⟩

/-- Two groups, of which the second is the left side of a comparison, where one level is all there
is. -/
theorem run_keeps_levels_groups : ∃ p : Input,
    p = ⟨⟨{ Dialect.cql2 with maxDepth := 1 }, Wkt.read, "(1 = 1) AND (2) = 2"⟩,
      (tokenize "(1 = 1) AND (2) = 2").toOption.getD []⟩ ∧
    (∃ a s, run p 169 .condition (.startAt 0 0) = (.ok a, s) ∧
      s.depth = 0 ∧ 0 < s.position ∧ s.position ≤ p.tokens.length ∧
      ∀ x ∈ s.scenes, x.depth ≤ 1 ∨ x.depth = 2 ∧ x.leaving = some (p.tooDeep x.position)) ∧
    (run p 169 .clause (.startAt 6 0)).2 = (run p 168 .predicate
      ((run p 168 (.conditionGroup .rightParen) (.startAt 6 0)).2.goTo ⟨6, 0, none⟩)).2 ∧
    Reads p .conjunction 0 0 11 := by
  refine ⟨_, rfl, ?_⟩
  generalize hp : Input.mk _ _ = p
  have hlength : p.tokens.length = 12 := by subst hp; decide +kernel
  obtain ⟨⟨result, s, hrun, hresult, hok, hscenes⟩, hagain, hsiblings⟩ :=
    run_keeps_levels p .condition (Nat.zero_le _) (Nat.zero_le _) trivial
      (show 13 * (p.tokens.length + 1) ≤ 169 by omega)
  refine ⟨?_, ?_, ?_⟩
  · have hread : (run p 169 .condition (.startAt 0 0)).1.toOption.isSome = true := by
      subst hp
      decide +kernel
    rw [hrun] at hread
    cases result with
    | ok a =>
      obtain ⟨hdepth, hadvanced, hle⟩ := hok a rfl
      rw [show p.maxDepth = 1 by subst hp; rfl] at hscenes
      exact ⟨a, s, hrun, hdepth, hadvanced, hle, hscenes⟩
    | error halt => cases hread
  · exact hagain 168 (.startAt 6 0) .rightParen (by subst hp; decide +kernel)
      (by subst hp; decide +kernel)
  · refine hsiblings.conjunction 0 11 (Nat.zero_le _) (.more (j := 5) ?_ ?_ (.last ?_ ?_))
    · exact reads_of_run (by subst hp; decide +kernel) (by subst hp; decide +kernel)
    · subst hp; decide +kernel
    · exact reads_of_run (by subst hp; decide +kernel) (by subst hp; decide +kernel)
    · subst hp; decide +kernel

end Descent

end FeatureFilter
