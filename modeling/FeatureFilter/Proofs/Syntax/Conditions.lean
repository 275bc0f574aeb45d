import FeatureFilter.Proofs.Syntax.Predicates

/-!
# Reading conditions

The reader of conditions reads the rule `Grammar.IsCondition` (`Condition.fits_read`). An opening
parenthesis makes it try twice, which the rules know nothing of: that both attempts succeed only on
a call in parentheses (`Grammar.overlap`), and say the same there, is what makes the rules fit.
-/

namespace FeatureFilter

open Reader
open Span (nowhere)

/-! ## Ends -/

namespace Cursor

def EndsChain (s : Cursor) : Prop := s.EndsPredicate ∧ linkOf (.keyword .and) (s.kind 0) = none

def EndsCondition (s : Cursor) : Prop := s.EndsChain ∧ linkOf (.keyword .or) (s.kind 0) = none

theorem EndsPredicate.noOperator {s : Cursor} (h : s.EndsPredicate) :
    Operand.isOperator (s.kind 0) = false := by
  obtain ⟨⟨-, hp⟩, hs⟩ := h.endsOperand
  simp [Operand.isOperator, hp, hs]

theorem endsCondition_mark {s : Cursor} {m : Mark} (hk : s.kind 0 = .mark m)
    (h : s.EndsPredicate) : s.EndsCondition :=
  ⟨⟨h, by rw [hk]; rfl⟩, by rw [hk]; rfl⟩

end Cursor

namespace Condition

variable {g : Grammar} {s s' : Cursor} {ts : List Token} {item : Category Condition}
  {x : Reader Condition}

theorem isSome_linkOf {k k' : TokenKind} (h : (linkOf k k').isSome = true) : k' = k := by
  by_cases hk : k' = k
  · exact hk
  · rw [linkOf, if_neg hk] at h
    cases h

theorem readChain_eq (k : Keyword) (join : Span → List Condition → Condition)
    (x : Reader Condition) : readChain k join x = (do
      let c ← x
      let links ← many (linked (linkOf (.keyword k)) x)
      return if (links.map (·.2)).isEmpty then c
        else join ((links.map (·.2)).foldl (fun span c => span.through c.span) c.span)
          (c :: links.map (·.2))) := by
  rw [readChain]
  refine congrArg _ (funext fun c => congrArg _ (funext fun links => ?_))
  show (if _ then _ else _) = _
  split <;> rfl

theorem fits_chain {k : Keyword} {join : Span → List Condition → Condition}
    {ends : Cursor → Prop} (hx : Fits ends bare item x)
    (hjoin : ∀ span cs, (join span cs).bare = join nowhere (cs.map bare))
    (hends : ∀ s : Cursor, s.kind 0 = .keyword k → ends s) :
    Fits (fun s => ends s ∧ linkOf (.keyword k) (s.kind 0) = none) bare
      (Grammar.Clauses k join item) (readChain k join x) := by
  refine hx.sequence rfl (fun s h => hends s (isSome_linkOf h)) (readChain_eq k join x)
    fun c links => ?_
  cases links with
  | nil => rfl
  | cons link links =>
    refine (hjoin _ _).trans ?_
    simp only [List.map_cons, List.map_map]
    rfl

theorem fits_chains (hx : Fits Cursor.EndsPredicate bare item x) :
    Fits Cursor.EndsCondition bare (Grammar.Disjunction item) (readChains x) := by
  refine fits_chain (fits_chain hx ?_ ?_) ?_ ?_
  · intro span cs
    rw [bare, bareClauses_eq]
  · intro s hk
    rw [Cursor.EndsPredicate, hk]
    rfl
  · intro span cs
    rw [bare, bareClauses_eq]
  · intro s hk
    exact ⟨by rw [Cursor.EndsPredicate, hk]; rfl, by rw [hk]; rfl⟩

/-! ## Groups -/

variable {negation : Category Condition} {inner : Option (Category Condition)}
  {below : Option (Reader Condition)} {m : Mark} {c : Condition}

theorem readGroup_sound (hb : FitsBelow Cursor.EndsCondition bare inner below)
    (hm : g.close? (s.kind 0) = some m) (hf : s.finish.kind = .finish)
    (h : readGroup g below m s = .ok (c, s')) :
    ∃ item ds s₁, inner = some item ∧ item ds c.bare ∧ s.next.Takes ds s₁ ∧
      s₁.kind 0 = .mark m ∧ s₁.Takes [s₁.token 0] s' ∧
        s.Takes (s.token 0 :: (ds ++ [s₁.token 0])) s' := by
  rw [readGroup] at h
  obtain ⟨x, hx, h⟩ := deeper_eq_ok.1 (advance_bind_eq_ok.1 h)
  obtain ⟨item, level, hx⟩ := hb.of_reader hx
  obtain ⟨c', s₁, hc, h⟩ := bind_eq_ok.1 h
  obtain ⟨ds, hds, hi⟩ := hx.sound (by simpa using hf) hc
  obtain ⟨hk, h⟩ := expect_bind_eq_ok.1 h
  obtain ⟨rfl, rfl⟩ := pure_eq_ok.1 h
  have hlast : s₁.Takes [s₁.token 0] s₁.next :=
    .cons_of_kind hk nofun (.refl (by simpa using hds.finish'))
  have hne : s.kind 0 ≠ .finish := TokenKind.ne_finish hm rfl
  exact ⟨item, ds, s₁, level, hi, hds, hk, hlast, (hds.append hlast).cons_next hf hne⟩

theorem readGroup_complete {t t' : Token} {ds : List Token}
    (hx : Fits Cursor.EndsCondition bare item x) (hm : g.close? t.kind = some m) (hi : item ds c)
    (ht' : t'.kind = .mark m) (h : s.Takes (t :: (ds ++ [t'])) s') :
    ∃ a, readGroup g (some x) m s = .ok (a, s') ∧ a.bare = c := by
  obtain ⟨s₁, h₁, h₂⟩ := h.next_cons.split
  have hk := h₂.kind_cons.trans ht'
  obtain ⟨a, ha, rfl⟩ := hx.complete h₁ hi
    (Cursor.endsCondition_mark hk (g.endsPredicate_of_close hm hk))
  refine ⟨a, ?_, rfl⟩
  exact advance_bind_eq_ok.2 (deeper_eq_ok.2 ⟨x, rfl, bind_eq_ok.2 ⟨a, s₁, ha,
    expect_bind_eq_ok.2 ⟨hk, pure_eq_ok.2 ⟨rfl, h₂.next_single.symm⟩⟩⟩⟩)

theorem groupClose_eq_ok {o : Option Mark} (h : groupClose g s = .ok (o, s')) :
    s' = s ∧ o = g.close? (s.kind 0) := by
  rw [groupClose, peekKind_bind] at h
  cases hk : s.kind 0 with
  | mark m =>
    rw [hk] at h
    cases m with
    | leftBracket =>
      obtain ⟨hallow, h⟩ | ⟨-, h⟩ := ite_eq_ok.1 h
      · obtain ⟨rfl, rfl⟩ := pure_eq_ok.1 h
        exact ⟨rfl, by rw [Grammar.close?, if_pos hallow]⟩
      · exact absurd h failHere_ne_ok
    | _ =>
      obtain ⟨rfl, rfl⟩ := pure_eq_ok.1 h
      exact ⟨rfl, rfl⟩
  | _ =>
    rw [hk] at h
    obtain ⟨rfl, rfl⟩ := pure_eq_ok.1 h
    exact ⟨rfl, rfl⟩

end Condition

/-! ## Two readings of the same tokens -/

namespace Grammar

open Operand (isOperator)

variable {g : Grammar} {s s' s₁ s₂ : Cursor} {ts ys ds : List Token} {y : Operand} {c : Condition}
  {item : Category Condition} {n : Nat} {m : Mark}

/-- A condition is its first negation, or goes on behind it with `AND` or `OR`. -/
theorem Disjunction.first (h : Disjunction item ts c) (ht : s.Takes ts s') :
    ∃ ns a s₁, item ns a ∧ s.Takes ns s₁ ∧ (∃ us, s₁.Takes us s') ∧
      (s₁ = s' ∧ c = a ∨ s₁.kind 0 = .keyword .and ∨ s₁.kind 0 = .keyword .or) := by
  obtain ⟨⟨head, tail⟩, tail'⟩ := h
  obtain ⟨s₂, ht₂, hors⟩ := ht.split
  obtain ⟨s₁, ht₁, hands⟩ := ht₂.split
  refine ⟨_, _, s₁, head, ht₁, ⟨_, hands.append hors⟩, ?_⟩
  obtain ⟨rfl, rfl, rfl⟩ | ⟨hand, -⟩ := linked_cases tail hands
  · obtain ⟨rfl, rfl, rfl⟩ | ⟨hor, -⟩ := linked_cases tail' hors
    · exact .inl ⟨rfl, rfl⟩
    · exact .inr (.inr (Condition.isSome_linkOf hor))
  · exact .inr (.inl (Condition.isSome_linkOf hand))

/-- The next token closes a group. -/
def AtClose (g : Grammar) (s : Cursor) : Prop := ∃ k m, g.close? k = some m ∧ s.kind 0 = .mark m

theorem AtClose.endsPredicate (h : g.AtClose s) : s.EndsPredicate :=
  let ⟨_, _, hm, hk⟩ := h
  g.endsPredicate_of_close hm hk

theorem AtClose.noOperator (h : g.AtClose s) : isOperator (s.kind 0) = false :=
  h.endsPredicate.noOperator

theorem AtClose.noKeyword (h : g.AtClose s) (k : Keyword) : s.kind 0 ≠ .keyword k := by
  obtain ⟨_, m, _, hk⟩ := h
  rw [hk]
  nofun

/-- Tokens in a group that can be read as an operand and as a condition are a call. -/
theorem overlap (hy : g.IsOperand n ys y) (hys : s.Takes ys s₁) (hc : g.IsCondition n ds c)
    (hds : s.Takes ds s₂) (h₁ : g.AtClose s₁) (h₂ : g.AtClose s₂) :
    s₁ = s₂ ∧ ∃ name args, y = .call nowhere name args ∧ c = .call nowhere name args := by
  induction n using Nat.strongRecOn generalizing s s₁ s₂ ys ds y c with
  | _ n ih =>
  obtain ⟨ns, a, s₃, hneg, hns, -, hend⟩ := Disjunction.first hc hds
  rw [isNegation_eq] at hneg
  cases hneg with
  | not ht =>
    obtain ⟨t, us, rfl, hstart⟩ := IsOperand.startsWith n hy
    rw [← hys.kind_cons, hns.kind_cons, ht] at hstart
    cases hstart
  | @group t t' ds' m a negation ht level hcond ht' =>
    obtain ⟨k, rfl, rfl⟩ := Category.below_eq_some.1 level
    obtain ⟨s₄, hds', hlast⟩ := hns.next_cons.split
    have hm : g.close? (s.kind 0) = some m := hns.kind_cons ▸ ht
    obtain ⟨k', ys', y', s₅, s₆, hk, hy', hys', hclose, hlast', hrest⟩ :=
      IsOperand.first_group hy hys hm
    obtain rfl : k = k' := Nat.succ.inj hk
    obtain ⟨rfl, name, args, rfl, rfl⟩ := ih k (Nat.lt_succ_self k) hy' hys' hcond hds'
      ⟨_, m, hm, hclose⟩ ⟨_, m, hm, hlast.kind_cons.trans ht'⟩
    obtain rfl : s₆ = s₃ := hlast'.next_single.trans hlast.next_single.symm
    rcases hrest with ⟨rfl, -, rfl⟩ | ⟨hop, -⟩
    · rcases hend with ⟨rfl, rfl⟩ | hk | hk
      · exact ⟨rfl, name, args, rfl, rfl⟩
      · exact absurd hk (h₁.noKeyword _)
      · exact absurd hk (h₁.noKeyword _)
    · rcases hend with ⟨rfl, rfl⟩ | hk | hk
      · rw [h₂.noOperator] at hop
        cases hop
      · rw [hk] at hop
        cases hop
      · rw [hk] at hop
        cases hop
  | predicate hp =>
    obtain ⟨hx, said, -⟩ := hp
    obtain ⟨s₄, hxs, hus⟩ := hns.split
    have h₃ : s₃.EndsPredicate := by
      rcases hend with ⟨rfl, rfl⟩ | hk | hk
      · exact h₂.endsPredicate
      · rw [Cursor.EndsPredicate, hk]
        rfl
      · rw [Cursor.EndsPredicate, hk]
        rfl
    obtain ⟨rfl, rfl, rfl⟩ := IsOperand.unique hy hx hys hxs h₁.endsPredicate.endsOperand
      (said.endsOperand hus h₃)
    rcases said.first hus with ⟨rfl, rfl, name, args, rfl, rfl⟩ | ⟨hno, -⟩
    · rcases hend with ⟨rfl, rfl⟩ | hk | hk
      · exact ⟨rfl, name, args, rfl, rfl⟩
      · exact absurd hk (h₁.noKeyword _)
      · exact absurd hk (h₁.noKeyword _)
    · rw [show Condition.endsPredicate _ = true from h₁.endsPredicate] at hno
      cases hno

end Grammar

/-! ## Both attempts -/

namespace Condition

variable {g : Grammar} {s s' : Cursor} {ts : List Token} {n : Nat} {m : Mark} {b c : Condition}
  {group predicate : Reader Condition} {belowOperand : Option (Reader Operand)}
  {below : Option (Reader Condition)}

/-- A group is read unless an operator follows it, and a predicate otherwise. -/
theorem orPredicate_eq_ok : orPredicate group predicate s = .ok (c, s') ↔
    (group s = .ok (c, s') ∧ atOperator s' = false) ∨
      predicate s = .ok (c, s') ∧ ∀ a s₁, group s = .ok (a, s₁) → atOperator s₁ = true := by
  rw [orPredicate]
  cases hg : group s with
  | error e =>
    cases hp : predicate s with
    | error e' => simp
    | ok r => simp
  | ok r =>
    obtain ⟨a, s₁⟩ := r
    cases hop : atOperator s₁ with
    | true =>
      simp only [hop, if_true, Except.ok.injEq, Prod.mk.injEq]
      constructor
      · intro h
        refine .inr ⟨h, ?_⟩
        rintro _ _ ⟨rfl, rfl⟩
        exact hop
      · rintro (⟨⟨rfl, rfl⟩, h⟩ | ⟨h, -⟩)
        · rw [hop] at h
          cases h
        · exact h
    | false =>
      simp only [hop, Bool.false_eq_true, if_false, Except.ok.injEq, Prod.mk.injEq]
      constructor
      · rintro ⟨rfl, rfl⟩
        exact .inl ⟨⟨rfl, rfl⟩, hop⟩
      · rintro (⟨h, -⟩ | ⟨-, h⟩)
        · exact h
        · rw [h a s₁ ⟨rfl, rfl⟩] at hop
          cases hop

theorem atOperator_of_isOperator (h : Operand.isOperator (s.kind 0) = true) :
    atOperator s = true := by
  rw [atOperator]
  rcases Operand.isOperator_cases h with h | h | h | h <;> rw [h]

theorem noOperator_of_notIlike (h : Grammar.StartsNotIlike ts) (ht : s.Takes ts s') :
    atOperator s = false := by
  obtain ⟨t, u, us, w, rfl, hk, hk', -⟩ := h
  rw [atOperator, ht.kind_cons, hk, ← Cursor.kind_next, ht.next_cons.kind_cons, hk']

theorem groupClose_eq
    (h : s.kind 0 = .mark .leftBracket → g.dialect.allows .bracketGrouping = true) :
    groupClose g s = .ok (g.close? (s.kind 0), s) := by
  rw [groupClose, peekKind_bind]
  cases hk : s.kind 0 with
  | mark m =>
    cases m with
    | leftBracket =>
      show (if g.dialect.allows .bracketGrouping = true then _ else _ : Reader (Option Mark)) s = _
      rw [if_pos (h hk), Grammar.close?, if_pos (h hk)]
      rfl
    | _ => rfl
  | _ => rfl

/-- A bracket that opens nothing does not start an operand. -/
theorem groupClose_of_mayStart (h : Operand.mayStart g (s.kind 0) = true) :
    groupClose g s = .ok (g.close? (s.kind 0), s) := by
  refine groupClose_eq fun hk => ?_
  rw [hk] at h
  exact h

theorem readPrimary_eq_ok {operand : Reader Operand} :
    readPrimary g operand belowOperand below s = .ok (c, s') ↔
      groupClose g s = .ok (g.close? (s.kind 0), s) ∧
        match g.close? (s.kind 0) with
        | some m =>
          orPredicate (readGroup g below m) (readPredicate g operand belowOperand) s = .ok (c, s')
        | none => readPredicate g operand belowOperand s = .ok (c, s') := by
  rw [readPrimary, bind_eq_ok]
  constructor
  · rintro ⟨o, s₁, hg, h⟩
    obtain ⟨rfl, rfl⟩ := groupClose_eq_ok hg
    refine ⟨hg, ?_⟩
    cases hm : g.close? (s₁.kind 0) with
    | none =>
      rw [hm] at h
      exact h
    | some m =>
      rw [hm] at h
      exact h
  · rintro ⟨hg, h⟩
    refine ⟨_, s, hg, ?_⟩
    cases hm : g.close? (s.kind 0) with
    | none =>
      rw [hm] at h
      exact h
    | some m =>
      rw [hm] at h
      exact h

variable {negation : Category Condition} {inner : Option (Category Condition)}

/-- The levels below those of an operand and of a condition. -/
structure Levels (g : Grammar) (n : Nat) (belowOperand : Option (Reader Operand))
    (below : Option (Reader Condition)) : Prop where
  operand : FitsBelow Cursor.EndsOperand Operand.bare (Category.below g.IsOperand n) belowOperand
  condition : FitsBelow Cursor.EndsPredicate bare (Category.below g.IsNegation n) below

theorem Levels.chains (h : Levels g n belowOperand below) :
    FitsBelow Cursor.EndsCondition bare ((Category.below g.IsNegation n).map Grammar.Disjunction)
      (below.map readChains) :=
  h.condition.map fun _ _ => fits_chains

theorem readGroup_call (hl : Levels g n belowOperand below) {xs : List Token} {x : Operand}
    (hx : g.IsOperand n xs x) (hxs : s.Takes xs s') (hg : g.GroupedCall xs x)
    (hm : g.close? (s.kind 0) = some m) :
    ∃ a, readGroup g (below.map readChains) m s = .ok (a, s') := by
  obtain ⟨-, name, args, rfl⟩ := hg
  obtain ⟨k, ys, y, s₁, s₂, rfl, hy, hys, hclose, hlast, hend⟩ :=
    Grammar.IsOperand.first_group hx hxs hm
  rcases hend with ⟨rfl, rfl, rfl⟩ | ⟨-, -, _, _, _, h⟩
  · obtain ⟨x, hx, hfits⟩ := hl.chains.of_category rfl
    obtain ⟨a, ha, -⟩ := readGroup_complete hfits hm (Grammar.IsCondition.call hy) hclose hxs
    exact ⟨a, hx ▸ ha⟩
  · cases h

theorem readPrimary_sound (hl : Levels g n belowOperand below) (hf : s.finish.kind = .finish)
    (h : readPrimary g (Operand.read g n) belowOperand (below.map readChains) s = .ok (c, s')) :
    ∃ ts, s.Takes ts s' ∧ g.IsNegation n ts c.bare := by
  rw [Grammar.isNegation_eq]
  have h := (readPrimary_eq_ok.1 h).2
  cases hm : g.close? (s.kind 0) with
  | some m =>
    rw [hm] at h
    rcases orPredicate_eq_ok.1 h with ⟨hg, -⟩ | ⟨hp, hno⟩
    · obtain ⟨item, ds, s₁, level, hi, -, hk, -, ht⟩ := readGroup_sound hl.chains hm hf hg
      obtain ⟨negation, hlevel, rfl⟩ := Option.map_eq_some_iff.1 level
      exact ⟨_, ht, .group hm hlevel hi hk⟩
    · obtain ⟨xs, us, x, s₁, hx, hxs, said, hus⟩ := readPredicate_sound hl.operand hf hp
      refine ⟨_, hxs.append hus, .predicate (.intro hx said fun hnot hcall => ?_)⟩
      -- the call would have been read as a group, and no operator is seen behind it
      obtain ⟨a, ha⟩ := readGroup_call hl hx hxs hcall hm
      have hop := hno a s₁ ha
      rw [noOperator_of_notIlike hnot hus] at hop
      cases hop
  | none =>
    rw [hm] at h
    obtain ⟨xs, us, x, s₁, hx, hxs, said, hus⟩ := readPredicate_sound hl.operand hf h
    refine ⟨_, hxs.append hus, .predicate (.intro hx said fun _ hcall => ?_)⟩
    obtain ⟨⟨t, m, ht, hm'⟩, -⟩ := hcall
    obtain ⟨vs, rfl⟩ := List.head?_eq_some_iff.1 ht
    rw [hxs.kind_cons, hm'] at hm
    cases hm

/-- A predicate whose first group is read as a condition, with no operator behind it, is a call in
parentheses and the same as the group. -/
theorem readGroup_predicate (hl : Levels g n belowOperand below) {xs us : List Token} {x : Operand}
    {s₁ s₂ : Cursor} {a : Condition} (hx : g.IsOperand n xs x) (hxs : s.Takes xs s₁)
    (said : Grammar.Said g (g.IsOperand n) (Category.below g.IsOperand n) x us b)
    (hus : s₁.Takes us s') (hnot : Grammar.StartsNotIlike us → ¬ g.GroupedCall xs x)
    (hm : g.close? (s.kind 0) = some m)
    (ha : readGroup g (below.map readChains) m s = .ok (a, s₂)) (hop : atOperator s₂ = false) :
    s₂ = s' ∧ a.bare = b := by
  obtain ⟨item, ds, s₃, level, hds, htds, hclose, hlast, -⟩ :=
    readGroup_sound hl.chains hm hxs.finish ha
  obtain ⟨negation, hlevel, rfl⟩ := Option.map_eq_some_iff.1 level
  obtain ⟨k, rfl, rfl⟩ := Category.below_eq_some.1 hlevel
  obtain ⟨k', ys, y, s₄, s₅, hk, hy, hys, hclose', hlast', hend⟩ :=
    Grammar.IsOperand.first_group hx hxs hm
  obtain rfl : k = k' := Nat.succ.inj hk
  obtain ⟨rfl, name, args, rfl, hcall⟩ := Grammar.overlap hy hys hds htds ⟨_, m, hm, hclose'⟩
    ⟨_, m, hm, hclose⟩
  obtain rfl : s₂ = s₅ := hlast.next_single.trans hlast'.next_single.symm
  rcases hend with ⟨rfl, rfl, rfl⟩ | ⟨h, -⟩
  · rcases said.first hus with ⟨-, rfl, name', args', h, rfl⟩ | ⟨-, h | h⟩
    · cases h
      exact ⟨rfl, hcall⟩
    · rw [hop] at h
      cases h
    · exact absurd ⟨⟨_, m, rfl, hm⟩, name, args, rfl⟩ (hnot h)
  · rw [atOperator_of_isOperator h] at hop
    cases hop

/-- A predicate is read as one. Where it starts with a group that can be read as a condition, either
an operator follows that group, or the predicate is a call in parentheses and is read as the group.
-/
theorem readPrimary_predicate (hl : Levels g n belowOperand below) {b : Condition}
    (h : Grammar.Predicate g (g.IsOperand n) (Category.below g.IsOperand n) ts b)
    (ht : s.Takes ts s') (he : s'.EndsPredicate) :
    ∃ c, readPrimary g (Operand.read g n) belowOperand (below.map readChains) s = .ok (c, s') ∧
      c.bare = b := by
  obtain ⟨hx, said, hnot⟩ := h
  rename_i xs us x
  obtain ⟨s₁, hxs, hus⟩ := ht.split
  obtain ⟨c, hc, hbare⟩ := readPredicate_complete hl.operand hx hxs said hus he
  have hclose : groupClose g s = .ok (g.close? (s.kind 0), s) := by
    obtain ⟨t, vs, rfl, hstart⟩ := Grammar.IsOperand.startsWith n hx
    exact groupClose_of_mayStart (hxs.kind_cons ▸ hstart)
  cases hm : g.close? (s.kind 0) with
  | none => exact ⟨c, readPrimary_eq_ok.2 ⟨hclose, by rw [hm]; exact hc⟩, hbare⟩
  | some m =>
    by_cases hgroup : ∃ a s₂, readGroup g (below.map readChains) m s = .ok (a, s₂) ∧
        atOperator s₂ = false
    · obtain ⟨a, s₂, ha, hop⟩ := hgroup
      obtain ⟨rfl, rfl⟩ := readGroup_predicate hl hx hxs said hus hnot hm ha hop
      refine ⟨a, readPrimary_eq_ok.2 ⟨hclose, ?_⟩, rfl⟩
      rw [hm]
      exact orPredicate_eq_ok.2 (.inl ⟨ha, hop⟩)
    · refine ⟨c, readPrimary_eq_ok.2 ⟨hclose, ?_⟩, hbare⟩
      rw [hm]
      refine orPredicate_eq_ok.2 (.inr ⟨hc, fun a s₂ ha => ?_⟩)
      cases hop : atOperator s₂ with
      | true => rfl
      | false => exact absurd ⟨a, s₂, ha, hop⟩ hgroup

theorem readNegationOver_eq {operand : Reader Operand} :
    readNegationOver g operand belowOperand below s =
      if s.kind 0 = .keyword .not then
        (deeper g below fun negation => do
          let inner ← negation
          let span ← spanFrom (s.token 0)
          return .negation span inner : Reader Condition) s.next
      else readPrimary g operand belowOperand (below.map readChains) s := by
  rw [readNegationOver, peek_bind]
  show (if s.kind 0 = .keyword .not then _ else _ : Reader Condition) s = _
  split
  · exact advance_bind
  · rfl

theorem fits_negationOver (hl : Levels g n belowOperand below) :
    Fits Cursor.EndsPredicate bare (g.IsNegation n)
      (readNegationOver g (Operand.read g n) belowOperand below) where
  sound {s c s'} hf h := by
    rw [readNegationOver_eq] at h
    split at h
    · rename_i hk
      obtain ⟨x, hx, h⟩ := deeper_eq_ok.1 h
      obtain ⟨negation, level, hx⟩ := hl.condition.of_reader hx
      obtain ⟨a, s₁, ha, h⟩ := bind_eq_ok.1 h
      obtain ⟨ts, hts, hc⟩ := hx.sound (by simpa using hf) ha
      obtain ⟨rfl, rfl⟩ := spanFrom_pure_eq_ok.1 h
      exact ⟨_, .cons_of_kind hk nofun hts, g.isNegation_eq n ▸ .not hk level hc⟩
    · exact readPrimary_sound hl hf h
  complete {s ts b s'} ht hb he := by
    rw [readNegationOver_eq]
    rw [Grammar.isNegation_eq] at hb
    cases hb with
    | @not t us b negation hk level hb =>
      obtain ⟨x, rfl, hx⟩ := hl.condition.of_category level
      obtain ⟨a, ha, rfl⟩ := hx.complete ht.next_cons hb he
      rw [if_pos (ht.kind_cons.trans hk)]
      exact ⟨.negation { (s.token 0).span with stop := max s'.lastStop (s.token 0).span.stop } a,
        deeper_eq_ok.2 ⟨x, rfl, bind_eq_ok.2 ⟨a, s', ha, spanFrom_pure_eq_ok.2 ⟨rfl, rfl⟩⟩⟩, rfl⟩
    | @group t t' ds m b negation hm level hb hk =>
      have hm' : g.close? (s.kind 0) = some m := ht.kind_cons ▸ hm
      obtain ⟨x, hx, hfits⟩ :=
        hl.chains.of_category (congrArg (Option.map Grammar.Disjunction) level)
      obtain ⟨a, ha, rfl⟩ := readGroup_complete hfits hm hb hk ht
      rw [if_neg fun h => by rw [h] at hm'; cases hm']
      refine ⟨a, readPrimary_eq_ok.2 ⟨groupClose_of_mayStart (Operand.mayStart_of_close hm'), ?_⟩,
        rfl⟩
      rw [hm']
      exact orPredicate_eq_ok.2 (.inl ⟨hx ▸ ha, he.atOperator_eq⟩)
    | predicate hp =>
      have hk : s.kind 0 ≠ .keyword .not := fun h => by
        obtain ⟨hx, -, -⟩ := hp
        obtain ⟨s₁, hxs, -⟩ := ht.split
        obtain ⟨t, vs, rfl, hstart⟩ := Grammar.IsOperand.startsWith n hx
        rw [← hxs.kind_cons, h] at hstart
        cases hstart
      rw [if_neg hk]
      exact readPrimary_predicate hl hp ht he

/-- Negations, with as many levels of nesting as there is room for. -/
theorem fits_negation (g : Grammar) :
    ∀ room, Fits Cursor.EndsPredicate bare (g.IsNegation room) (readNegation g room)
  | 0 => fits_negationOver ⟨.none, .none⟩
  | room + 1 => fits_negationOver ⟨.some (Operand.fits_read g room), .some (fits_negation g room)⟩

/-- The reader of conditions reads conditions with as many levels of nesting as there is room for.
-/
theorem fits_read (g : Grammar) (room : Nat) :
    Fits Cursor.EndsCondition bare (g.IsCondition room) (read g room) :=
  fits_chains (fits_negation g room)

end Condition

end FeatureFilter
