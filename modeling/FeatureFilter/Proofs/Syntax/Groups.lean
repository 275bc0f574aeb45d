import FeatureFilter.Proofs.Phrase.Spans

/-!
# Two readings of a group

What the reader of conditions does with the tokens of an operand in a group, and the reader of
operands with those of a condition. Neither goes past the end of the group, and each comes through
only where a call stands in it (`Condition.upTo_read`, `Operand.upTo_group_of_within`). So when both
readings of an opening parenthesis fail it is known which error is further.
-/

namespace FeatureFilter

open Reader
open Span (nowhere)

/-! ## Tokens in order -/

namespace Cursor

def start (s : Cursor) : Nat := (s.token 0).span.start

/-- The tokens ahead start one behind the other, and the end of the text is among them. -/
structure Ordered (s : Cursor) : Prop where
  starts : s.ahead.Pairwise fun a b => a.span.start < b.span.start
  ended : ∃ t ∈ s.ahead, t.kind = .finish

variable {s s' : Cursor} {t : Token} {ts : List Token}

theorem Takes.ordered (h : s.Takes ts s') (ho : s.Ordered) : s'.Ordered := by
  have hahead := ho.starts
  rw [h.ahead] at hahead
  obtain ⟨u, hu, hfinish⟩ := ho.ended
  rw [h.ahead] at hu
  refine ⟨(List.pairwise_append.1 hahead).2.1, u, ?_, hfinish⟩
  exact (List.mem_append.1 hu).resolve_left fun hmem => h.kinds u hmem hfinish

theorem Ordered.token_mem (ho : s.Ordered) : s.token 0 ∈ s.ahead := by
  obtain ⟨u, hu, -⟩ := ho.ended
  obtain ⟨ahead, stop, finish⟩ := s
  cases ahead with
  | nil => exact absurd hu List.not_mem_nil
  | cons t ts => exact List.mem_cons_self ..

/-- Tokens that are taken start in front of the next one. -/
theorem Takes.start_lt_of_mem (h : s.Takes ts s') (ho : s.Ordered) (ht : t ∈ ts) :
    t.span.start < s'.start := by
  have hahead := ho.starts
  rw [h.ahead] at hahead
  exact (List.pairwise_append.1 hahead).2.2 t ht _ (h.ordered ho).token_mem

theorem Takes.start_lt (h : s.Takes (t :: ts) s') (ho : s.Ordered) : s.start < s'.start := by
  rw [start, h.token_cons]
  exact h.start_lt_of_mem ho (List.mem_cons_self ..)

theorem Takes.start_le (h : s.Takes ts s') (ho : s.Ordered) : s.start ≤ s'.start := by
  cases ts with
  | nil =>
    obtain rfl := h.eq_of_nil
    exact Nat.le_refl _
  | cons t ts => exact Nat.le_of_lt (h.start_lt ho)

theorem Takes.ordered_next (h : s.Takes (t :: ts) s') (ho : s.Ordered) : s.next.Ordered := by
  have hne : s.kind 0 ≠ .finish := h.kind_cons ▸ h.kinds t (List.mem_cons_self ..)
  exact (takes_next h.finish hne).ordered ho

/-- The tokens ahead start at the next one or behind it. -/
theorem Ordered.placed (ho : s.Ordered) : s.Placed (Span.From s.start) fun _ => True where
  ahead t ht := by
    obtain ⟨ahead, stop, finish⟩ := s
    cases ahead with
    | nil => exact absurd ht List.not_mem_nil
    | cons u us =>
      rcases List.mem_cons.1 ht with rfl | hmem
      · exact Nat.le_refl _
      · exact Nat.le_of_lt ((List.pairwise_cons.1 ho.starts).1 t hmem)
  ended := ho.ended
  lastStop _ := ⟨fun ha => ha, fun _ => trivial⟩

end Cursor

/-! ## Outcomes in front of a token -/

/-- The reader of what is one level deeper, if a level is left. -/
def Reader.below {α : Type} (x : Nat → Reader α) : Nat → Option (Reader α)
  | 0 => none
  | n + 1 => some (x n)

/-- What is read ends at the cursor, where `p` holds, and an error does not start behind it. -/
abbrev Reader.UpTo (s₁ : Cursor) (p : Prop) : Except SyntaxError (α × Cursor) → Prop :=
  Outcome (fun _ s' => s' = s₁ ∧ p) fun e => e.span.start ≤ s₁.start

theorem Reader.many_linked {α β : Type} {link? : TokenKind → Option β} {item : Reader α}
    {s : Cursor} (h : link? (s.kind 0) = none) : many (linked link? item) s = .ok ([], s) := by
  rw [many_eq]
  cases s.ahead.length with
  | zero => rfl
  | succ n => exact bind_of_ok (linked_eq_ok.2 (.inl ⟨h, rfl, rfl⟩))

namespace Condition

variable {g : Grammar} {s s₁ s₂ : Cursor} {ts ys ds : List Token} {y : Operand} {n : Nat} {m : Mark}
  {item group predicate : Reader Condition} {p : Prop} {below : Option (Reader Operand)}
  {start : Token} {value : Operand}

/-! ## Operands read as conditions -/

theorem upTo_chain {k : Keyword} {join : Span → List Condition → Condition}
    (h : UpTo s₁ p (item s)) (hk : s₁.kind 0 ≠ .keyword k) :
    UpTo s₁ p (readChain k join item s) := by
  rw [readChain_eq]
  refine Outcome.bind h (fun c s' hs => ?_) fun _ he => he
  obtain ⟨rfl, hp⟩ := hs
  have hnone : linkOf (.keyword k) (s'.kind 0) = none := if_neg hk
  exact Outcome.step (many_linked hnone) ⟨rfl, hp⟩

theorem upTo_chains (h : UpTo s₁ p (item s)) (h₁ : g.AtClose s₁) : UpTo s₁ p (readChains item s) :=
  upTo_chain (upTo_chain h (h₁.noKeyword _)) (h₁.noKeyword _)

theorem refuseRemoved_cases (s : Cursor) : refuseRemoved s = .ok ((), s) ∨
    ∃ e, refuseRemoved s = .error e ∧ e.span = (s.token 0).span := by
  rw [refuseRemoved, get_bind]
  cases s.kind 0 with
  | keyword k => cases k <;> first | exact .inl rfl | exact .inr ⟨_, rfl, rfl⟩
  | identifier w =>
    dsimp only
    split
    · exact .inr ⟨_, rfl, rfl⟩
    · exact .inl rfl
  | _ => exact .inl rfl

/-- What does not start one of them is no predicate behind a value. -/
theorem readNegatable_error {x : Reader Operand} {negated : Bool}
    (h : startsNegatable g (s.kind 0) = false) :
    readNegatable g x below start value negated s = .error (mismatch (s.token 0)
      (if negated then "BETWEEN, LIKE or IN" else "comparison operator or predicate")
      (hintFor (s.kind 0))) := by
  rw [readNegatable, peekKind_bind]
  cases hk : s.kind 0 with
  | keyword k =>
    rw [hk] at h
    cases k <;> first | rfl | cases h
  | identifier w =>
    rw [hk] at h
    show (if (sameWord w "ILIKE" && g.dialect.allows .ilike) = true then _ else _ :
      Reader Condition) s = _
    rw [if_neg (Bool.eq_false_iff.1 (show (_ && _) = false from h))]
    rfl
  | _ => rfl

/-- Where a condition can end something other than a call is expected to go on. -/
theorem readRest_of_ends {x : Reader Operand} (h : s.EndsPredicate)
    (hv : ∀ span name args, value ≠ .call span name args) :
    readRest g x below start value s = readNegatable g x below start value false s := by
  rw [readRest, peekKind_bind]
  cases value with
  | call span name args => exact absurd rfl (hv span name args)
  | _ => rcases endsPredicate_cases h with hk | hk | hk | hk | hk <;> rw [hk] <;> rfl

theorem startsNegatable_of_ends (h : s.EndsPredicate) : startsNegatable g (s.kind 0) = false := by
  rcases endsPredicate_cases h with hk | hk | hk | hk | hk <;> rw [hk] <;> rfl

theorem upTo_rest {x : Reader Operand} (h : s.EndsPredicate) :
    UpTo s (∃ name args, value.bare = .call nowhere name args)
      (readRest g x below start value s) := by
  by_cases hv : ∃ span name args, value = .call span name args
  · obtain ⟨span, name, args, rfl⟩ := hv
    rw [readRest_call h]
    exact ⟨rfl, name, Operand.bareAll args, by rw [Operand.bare]⟩
  · rw [readRest_of_ends h fun span name args he => hv ⟨span, name, args, he⟩,
      readNegatable_error (startsNegatable_of_ends h)]
    exact Nat.le_refl s.start

/-- An operand up to where a condition can end is no predicate, unless it is a call. -/
theorem upTo_predicate (ho : s.Ordered) (hy : g.IsOperand n ys y) (hys : s.Takes ys s₁)
    (h₁ : s₁.EndsPredicate) : UpTo s₁ (∃ name args, y = .call nowhere name args)
      (readPredicate g (Operand.read g n) below s) := by
  rw [readPredicate_eq]
  rcases refuseRemoved_cases s with hr | ⟨e, hr, he⟩
  · obtain ⟨value, hv, rfl⟩ := (Operand.fits_read g n).complete hys hy h₁.endsOperand
    refine Outcome.step hr ?_
    rw [peek_bind]
    exact Outcome.step hv (upTo_rest h₁)
  · rw [show ((refuseRemoved >>= _ : Reader Condition) s) = .error e from bind_of_error hr]
    show e.span.start ≤ s₁.start
    rw [he]
    exact hys.start_le ho

theorem upTo_group (h : UpTo s₁ p (item s.next)) (hk : s₁.kind 0 = .mark m) :
    Outcome (fun _ s' => s' = s₁.next ∧ p) (fun e => e.span.start ≤ s₁.start)
      (readGroup g (some item) m s) := by
  rw [readGroup, advance_bind]
  refine Outcome.bind h (fun c s' hs => ?_) fun _ he => he
  obtain ⟨rfl, hp⟩ := hs
  show Outcome _ _ ((expect m >>= fun _ => (pure c : Reader Condition)) s')
  rw [expect, expectKind_bind, if_pos hk]
  exact ⟨rfl, hp⟩

/-- Of two attempts that do not go past a token, the one that is kept does not, either. -/
theorem upTo_orPredicate {q : Prop} (hg : UpTo s₂ q (group s)) (hp : UpTo s₁ p (predicate s))
    (hle : s₂.start ≤ s₁.start) (hq : q → atOperator s₂ = false → s₂ = s₁ ∧ p) :
    UpTo s₁ p (orPredicate group predicate s) := by
  rw [orPredicate]
  cases hr : group s with
  | ok r =>
    obtain ⟨c, s'⟩ := r
    rw [hr] at hg
    obtain ⟨rfl, hq'⟩ := hg
    show UpTo s₁ p (if atOperator s' = true then predicate s else .ok (c, s'))
    split
    · exact hp
    · rename_i hop
      exact hq hq' (Bool.eq_false_iff.2 hop)
  | error e =>
    rw [hr] at hg
    cases hr' : predicate s with
    | ok r =>
      rw [hr'] at hp
      exact hp
    | error e' =>
      rw [hr'] at hp
      show (e.furthest e').span.start ≤ s₁.start
      rw [SyntaxError.furthest]
      split
      · exact hp
      · exact Nat.le_trans hg hle

theorem readNegation_eq (g : Grammar) (n : Nat) : readNegation g n = readNegationOver g
    (Operand.read g n) (Reader.below (Operand.read g) n) (Reader.below (readNegation g) n) := by
  cases n <;> rfl

theorem levels (g : Grammar) (n : Nat) :
    Levels g n (Reader.below (Operand.read g) n) (Reader.below (readNegation g) n) := by
  cases n with
  | zero => exact ⟨.none, .none⟩
  | succ n => exact ⟨.some (Operand.fits_read g n), .some (fits_negation g n)⟩

/-- The tokens of an operand in a group are read as a condition only where they are a call.
Otherwise the error does not lie behind the group. -/
theorem upTo_read (ho : s.Ordered) (hy : g.IsOperand n ys y) (hys : s.Takes ys s₁)
    (h₁ : g.AtClose s₁) :
    UpTo s₁ (∃ name args, y = .call nowhere name args) (read g n s) := by
  induction n using Nat.strongRecOn generalizing s s₁ ys y with
  | _ n ih =>
  refine upTo_chains ?_ h₁
  obtain ⟨t, us, rfl, hstart⟩ := Grammar.IsOperand.startsWith n hy
  rw [← hys.kind_cons] at hstart
  have hnot : s.kind 0 ≠ .keyword .not := fun hk => by
    rw [hk] at hstart
    cases hstart
  have hpredicate : UpTo s₁ (∃ name args, y = .call nowhere name args)
      (readPredicate g (Operand.read g n) (Reader.below (Operand.read g) n) s) :=
    upTo_predicate ho hy hys h₁.endsPredicate
  rw [readNegation_eq, readNegationOver_eq, if_neg hnot, readPrimary,
    bind_of_ok (groupClose_of_mayStart hstart)]
  cases hm : g.close? (s.kind 0) with
  | none => exact hpredicate
  | some m =>
    obtain ⟨k, zs, z, s₃, s₂, rfl, hz, hzs, hclose, hlast, hend⟩ :=
      Grammar.IsOperand.first_group hy hys hm
    have h₃ : g.AtClose s₃ := ⟨_, m, hm, hclose⟩
    have hnext := hys.ordered_next ho
    obtain rfl := hlast.next_single
    have hgroup : UpTo s₃.next (∃ name args, z = .call nowhere name args)
        (readGroup g ((Reader.below (readNegation g) (k + 1)).map readChains) m s) :=
      (upTo_group (ih k (Nat.lt_succ_self k) hnext hz hzs h₃) hclose).mono (fun _ _ hs => hs)
        fun _ he => Nat.le_trans he (hlast.start_le (hzs.ordered hnext))
    refine upTo_orPredicate hgroup hpredicate ?_ fun hcall hop => ?_
    · rcases hend with ⟨rfl, -⟩ | ⟨-, ⟨us, hus⟩, -⟩
      · exact Nat.le_refl _
      · exact hus.start_le (hlast.ordered (hzs.ordered hnext))
    · rcases hend with ⟨rfl, -, rfl⟩ | ⟨hop', -⟩
      · exact ⟨rfl, hcall⟩
      · rw [atOperator_of_isOperator hop'] at hop
        cases hop

end Condition

/-! ## Conditions read as operands -/

/-- What is read does not end behind the cursor, and an error does not start behind it. -/
abbrev Reader.Within (s₁ : Cursor) : Except SyntaxError (α × Cursor) → Prop :=
  Outcome (fun _ s' => s'.start ≤ s₁.start) fun e => e.span.start ≤ s₁.start

namespace Operand

variable {g : Grammar} {s s₁ s₂ : Cursor} {ds : List Token} {c : Condition} {k n : Nat} {m : Mark}
  {factor : Reader Operand} {o : Operand} {e : SyntaxError}

theorem readSum_of_ok (h : factor s = .ok (o, s₁)) (hop : isOperator (s₁.kind 0) = false) :
    readSum factor s = .ok (o, s₁) := by
  obtain ⟨hproduct, hsum⟩ := Bool.or_eq_false_iff.1 hop
  have hchain : readChain productOp? factor s = .ok (o, s₁) := by
    refine (bind_of_ok h).trans ?_
    exact bind_of_ok (many_linked (Option.not_isSome_iff_eq_none.1 (Bool.eq_false_iff.1 hproduct)))
  refine (bind_of_ok hchain).trans ?_
  exact bind_of_ok (many_linked (Option.not_isSome_iff_eq_none.1 (Bool.eq_false_iff.1 hsum)))

theorem readSum_of_error (h : factor s = .error e) : readSum factor s = .error e :=
  bind_of_error (bind_of_error h)

theorem readFactor_group (hm : g.close? (s.kind 0) = some m) :
    readFactor g (k + 1) s = readGroup g (some (read g k)) m s := by
  rw [readFactor, readFactorOver_unsigned (sign?_of_close hm), readPrimary_group hm]
  rfl

theorem read_not (hk : s.kind 0 = .keyword .not) :
    ∃ e, read g n s = .error e ∧ e.span = (s.token 0).span := by
  have hprimary (below : Option (Reader Operand)) : readPrimary g below s =
      .error (mismatch (s.token 0) "expression" none) := by
    rw [readPrimary, peek_bind, show (s.token 0).kind = _ from hk]
    rfl
  refine ⟨mismatch (s.token 0) "expression" none, readSum_of_error ?_, rfl⟩
  cases n with
  | zero => exact (readFactorOver_unsigned (by rw [hk]; rfl)).trans (hprimary _)
  | succ n => exact (readFactorOver_unsigned (by rw [hk]; rfl)).trans (hprimary _)

theorem upTo_group_of_within (hf : s.finish.kind = .finish) (hm : g.close? (s.kind 0) = some m)
    (hc : g.IsCondition k ds c) (hds : s.next.Takes ds s₁) (hk : s₁.kind 0 = .mark m)
    (hw : Within s₁ (read g k s.next)) :
    Outcome (fun _ s' => s' = s₁.next ∧ ∃ name args, c = .call nowhere name args)
      (fun e => e.span.start ≤ s₁.start) (readGroup g (some (read g k)) m s) := by
  rw [readGroup, advance_bind]
  show Outcome _ _ ((read g k >>= _) s.next)
  cases hr : read g k s.next with
  | error e =>
    rw [hr] at hw
    rw [bind_of_error hr]
    exact hw
  | ok r =>
    obtain ⟨o, s'⟩ := r
    rw [hr] at hw
    rw [bind_of_ok hr, expect, expectKind_bind]
    obtain ⟨us, hus, ho⟩ := (fits_read g k).sound (by simpa using hf) hr
    split
    · rename_i hk'
      obtain ⟨rfl, name, args, -, hcall⟩ := Grammar.overlap ho hus hc hds ⟨_, m, hm, hk'⟩
        ⟨_, m, hm, hk⟩
      exact ⟨rfl, name, args, hcall⟩
    · exact hw

/-- A group in front of where a condition can end is read as an operand up to its end, or not at
all. -/
theorem within_group (hf : s.finish.kind = .finish)
    (hm : g.close? (s.kind 0) = some m) (hc : g.IsCondition k ds c) (hds : s.next.Takes ds s₁)
    (hk : s₁.kind 0 = .mark m) (hle : s₁.start ≤ s₁.next.start) (h₁ : s₁.next.EndsPredicate)
    (hw : Within s₁ (read g k s.next)) : Within s₁.next (read g (k + 1) s) := by
  have hgroup := upTo_group_of_within hf hm hc hds hk hw
  cases hr : readGroup g (some (read g k)) m s with
  | error e =>
    rw [hr] at hgroup
    rw [read, readSum_of_error ((readFactor_group hm).trans hr)]
    exact Nat.le_trans hgroup hle
  | ok r =>
    obtain ⟨o, s'⟩ := r
    rw [hr] at hgroup
    obtain ⟨rfl, -⟩ := hgroup
    rw [read, readSum_of_ok ((readFactor_group hm).trans hr) h₁.noOperator]
    exact Nat.le_refl _

/-- The tokens of a condition are read as an operand that does not go past them, or not at all. -/
theorem within_read (ho : s.Ordered) (hc : g.IsCondition n ds c) (hds : s.Takes ds s₁)
    (h₁ : s₁.EndsPredicate) : Within s₁ (read g n s) := by
  induction n using Nat.strongRecOn generalizing s s₁ ds c with
  | _ n ih =>
  obtain ⟨ns, a, s₃, hneg, hns, ⟨us, hus⟩, hend⟩ := Grammar.Disjunction.first hc hds
  have h₃ : s₃.EndsPredicate := by
    rcases hend with ⟨rfl, -⟩ | hk | hk
    · exact h₁
    · rw [Cursor.EndsPredicate, hk]
      rfl
    · rw [Cursor.EndsPredicate, hk]
      rfl
  have hle : s₃.start ≤ s₁.start := hus.start_le (hns.ordered ho)
  have hmono {r : Except SyntaxError (Operand × Cursor)} (h : Within s₃ r) : Within s₁ r :=
    Outcome.mono h (fun _ _ h => Nat.le_trans h hle) fun _ h => Nat.le_trans h hle
  refine hmono ?_
  rw [Grammar.isNegation_eq] at hneg
  cases hneg with
  | not ht =>
    obtain ⟨e, he, hspan⟩ := read_not (g := g) (n := n) (hns.kind_cons.trans ht)
    rw [he]
    show e.span.start ≤ s₃.start
    rw [hspan]
    exact hns.start_le ho
  | @group t t' ds' m a negation ht level hcond ht' =>
    obtain ⟨k, rfl, rfl⟩ := Category.below_eq_some.1 level
    obtain ⟨s₄, hds', hlast⟩ := hns.next_cons.split
    have hm : g.close? (s.kind 0) = some m := hns.kind_cons ▸ ht
    have hk := hlast.kind_cons.trans ht'
    have hnext := hns.ordered_next ho
    obtain rfl := hlast.next_single
    exact within_group hns.finish hm hcond hds' hk (hlast.start_le (hds'.ordered hnext)) h₃
      (ih k (Nat.lt_succ_self k) hnext hcond hds' (g.endsPredicate_of_close hm hk))
  | predicate hp =>
    obtain ⟨hx, said, -⟩ := hp
    obtain ⟨s₄, hxs, hus⟩ := hns.split
    obtain ⟨x, hr, rfl⟩ := (fits_read g n).complete hxs hx (said.endsOperand hus h₃)
    rw [hr]
    exact hus.start_le (hxs.ordered ho)

end Operand

end FeatureFilter
