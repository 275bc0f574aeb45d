import FeatureFilter.Proofs.Phrase.Outline
import FeatureFilter.Proofs.Syntax.Conditions

/-!
# Outlines of what is read

The outline of a phrase lies among the tokens that its reader takes (`Reader.Outlines`). A reader
puts a span around what it took in one of three ways: it takes the span of a token, it goes from its
first token to the last one taken, or it joins the spans of the parts. A group drops its parentheses
in a condition and covers them in an operand.
-/

namespace FeatureFilter

open Reader

/-- The trees lie among the tokens from the one at `k` on and behind the cursor. -/
def Cursor.Spreads (tokens : List Token) (k : Nat) (trees : List SpanTree) (s : Cursor) : Prop :=
  ∃ k', s.Behind tokens k' ∧ Spread tokens k k' trees

/-- Wherever the reader starts, the trees of what it reads lie among the tokens that it takes. -/
def Reader.Outlines {α : Type} (tokens : List Token) (trees : α → List SpanTree) (x : Reader α) :
    Prop :=
  ∀ ⦃k s a s'⦄, s.Behind tokens k → x s = .ok (a, s') → s'.Spreads tokens k (trees a)

/-! ## Sequences -/

section Sequences

variable {α κ : Type} {tokens : List Token} {tree : α → SpanTree} {item : Reader α}
  {link? : TokenKind → Option κ}

theorem Reader.outlines_repeated (hfinish : link? .finish = none)
    (hitem : Outlines tokens (fun a => [tree a]) item) (n : Nat) :
    Outlines tokens (fun links => links.map fun link => tree link.2)
      (repeated (linked link? item) n) := by
  induction n with
  | zero =>
    intro k s links s' h hr
    obtain ⟨rfl, rfl⟩ := pure_eq_ok.1 hr
    exact ⟨k, h, .nil (Nat.le_refl _)⟩
  | succ n ih =>
    intro k s links s' h hr
    obtain ⟨o, s₁, hl, hr⟩ := bind_eq_ok.1 hr
    rcases linked_eq_ok.1 hl with ⟨-, rfl, rfl⟩ | ⟨b, a, hb, ha, rfl⟩
    · obtain ⟨rfl, rfl⟩ := pure_eq_ok.1 hr
      exact ⟨k, h, .nil (Nat.le_refl _)⟩
    · obtain ⟨rest, s₂, hrest, hr⟩ := bind_eq_ok.1 hr
      obtain ⟨rfl, rfl⟩ := pure_eq_ok.1 hr
      have hk : s.kind 0 ≠ .finish := TokenKind.ne_finish hb hfinish
      obtain ⟨k₁, h₁, hs₁⟩ := hitem (h.next hk) ha
      obtain ⟨k₂, h₂, hs₂⟩ := ih h₁ hrest
      exact ⟨k₂, h₂, (hs₁.widen (Nat.le_succ k) (Nat.le_refl _)).append hs₂⟩

theorem Reader.outlines_many (hfinish : link? .finish = none)
    (hitem : Outlines tokens (fun a => [tree a]) item) :
    Outlines tokens (fun links => links.map fun link => tree link.2) (many (linked link? item)) :=
  fun _ _ _ _ h hr => outlines_repeated hfinish hitem _ h hr

theorem Reader.outlines_commaList (hitem : Outlines tokens (fun a => [tree a]) item) :
    Outlines tokens (fun as => as.map tree) (commaList item) := by
  intro k s as s' h hr
  obtain ⟨a, s₁, ha, hr⟩ := bind_eq_ok.1 hr
  obtain ⟨links, s₂, hlinks, hr⟩ := bind_eq_ok.1 hr
  obtain ⟨rfl, rfl⟩ := pure_eq_ok.1 hr
  obtain ⟨k₁, h₁, hs₁⟩ := hitem h ha
  obtain ⟨k₂, h₂, hs₂⟩ := outlines_many rfl hitem h₁ hlinks
  refine ⟨k₂, h₂, ?_⟩
  show Spread tokens k k₂ (tree a :: (links.map (·.2)).map tree)
  rw [List.map_map]
  exact hs₁.append hs₂

end Sequences

/-! ## Factors without signs -/

namespace Operand

variable {tokens : List Token} {g : Grammar} {k : Nat} {s s' : Cursor} {o left right : Operand}
  {w : String} {below : Option (Reader Operand)}

/-- A factor without a sign starts in one of these ways. -/
theorem readPrimary_cases {p : Operand × Cursor} (hr : readPrimary g below s = .ok p) :
    (∃ w, s.kind 0 = .identifier w) ∨ (∃ w, s.kind 0 = .number w) ∨
      (∃ m, g.close? (s.kind 0) = some m) ∨ ∃ a, atom? g (s.token 0).span (s.kind 0) = some a := by
  rw [readPrimary, peek_bind] at hr
  show (∃ w, (s.token 0).kind = .identifier w) ∨ (∃ w, (s.token 0).kind = .number w) ∨
    (∃ m, g.close? (s.token 0).kind = some m) ∨
    ∃ a, atom? g (s.token 0).span (s.token 0).kind = some a
  generalize (s.token 0).kind = kind at hr
  cases kind with
  | identifier w => exact .inl ⟨w, rfl⟩
  | number w => exact .inr (.inl ⟨w, rfl⟩)
  | string | quotedIdentifier => exact .inr (.inr (.inr ⟨_, rfl⟩))
  | keyword k =>
    cases k with
    | isTrue | isFalse => exact .inr (.inr (.inr ⟨_, rfl⟩))
    | _ => cases hr
  | mark m =>
    cases m with
    | leftParen => exact .inr (.inr (.inl ⟨_, rfl⟩))
    | leftBracket =>
      obtain ⟨hallow, -⟩ | ⟨-, hr⟩ := ite_eq_ok.1 hr
      · exact .inr (.inr (.inl ⟨.rightBracket, by rw [Grammar.close?, if_pos hallow]⟩))
      · exact absurd hr failHere_ne_ok
    | _ => cases hr
  | finish => cases hr

section Primary

variable (ho : InOrder tokens) (h : s.Behind tokens k)

theorem outline_atom (ht : tokens[k]? = some (s.token 0))
    (ha : atom? g (s.token 0).span (s.kind 0) = some o) : Spread tokens k (k + 1) [o.outline] := by
  have hempty : Spread tokens k (k + 1) [] := .nil (Nat.le_succ k)
  unfold atom? at ha
  split at ha <;> cases ha
  · exact hempty.token ht
  · exact hempty.token ht
  · exact hempty.token ht
  · exact (hempty.token ht).token ht

include h in
theorem outline_number {l : Literal} (hr : readNumber s = .ok (l, s')) :
    s'.Behind tokens (k + 1) ∧ Spread tokens k (k + 1) [.node (s.token 0).span []] := by
  obtain ⟨w, hk, -, rfl⟩ := readNumber_eq_ok.1 hr
  exact ⟨h.next_of_kind hk (by simp), .token (h.token (by simp [hk])) (.nil (Nat.le_succ k))⟩

include ho h

/-- A word with a string in parentheses behind it. -/
theorem outline_quotedInstant {p : Token × String} (hk : s.kind 0 = .identifier w)
    (hr : readQuotedInstant s = .ok (p, s')) :
    s'.Spreads tokens k
      [.node { (s.token 0).span with stop := max s'.lastStop (s.token 0).span.stop } []] := by
  have h' := h.takes (takes_quotedInstant hk h.finish hr)
  have ht := h.token (by simp [hk])
  exact ⟨_, h', h'.spread ho ht (Nat.lt_add_of_pos_right (Nat.succ_pos _))
    (.nil (Nat.le_add_right ..))⟩

theorem outline_envelope (hk : s.kind 0 = .identifier w) (hr : readEnvelope s = .ok (o, s')) :
    s'.Spreads tokens k [o.outline] := by
  have ht := h.token (by simp [hk])
  rw [readEnvelope, advance_bind] at hr
  obtain ⟨hp, hr⟩ := expect_bind_eq_ok.1 hr
  have h₀ := (h.next_of_kind hk (by simp)).next_of_kind hp (by simp)
  obtain ⟨west, s₁, h₁, hr⟩ := bind_eq_ok.1 hr
  obtain ⟨ws, hws, -⟩ := fits_ordinate.sound h₀.finish h₁
  obtain ⟨hc₁, hr⟩ := expect_bind_eq_ok.1 hr
  have h₁ := (h₀.takes hws).next_of_kind hc₁ (by simp)
  obtain ⟨south, s₂, h₂, hr⟩ := bind_eq_ok.1 hr
  obtain ⟨ss, hss, -⟩ := fits_ordinate.sound h₁.finish h₂
  obtain ⟨hc₂, hr⟩ := expect_bind_eq_ok.1 hr
  have h₂ := (h₁.takes hss).next_of_kind hc₂ (by simp)
  obtain ⟨east, s₃, h₃, hr⟩ := bind_eq_ok.1 hr
  obtain ⟨es, hes, -⟩ := fits_ordinate.sound h₂.finish h₃
  obtain ⟨hc₃, hr⟩ := expect_bind_eq_ok.1 hr
  have h₃ := (h₂.takes hes).next_of_kind hc₃ (by simp)
  obtain ⟨north, s₄, h₄, hr⟩ := bind_eq_ok.1 hr
  obtain ⟨ns, hns, -⟩ := fits_ordinate.sound h₃.finish h₄
  obtain ⟨hp', hr⟩ := expect_bind_eq_ok.1 hr
  have h₄ := (h₃.takes hns).next_of_kind hp' (by simp)
  obtain ⟨rfl, rfl⟩ := spanFrom_pure_eq_ok.1 hr
  exact ⟨_, h₄, h₄.spread ho ht (by omega) (.nil (by omega))⟩

theorem outline_geometry {srid : Option Int64} (hk : s.kind 0 ≠ .finish)
    (hr : readGeometry g srid s = .ok (o, s')) :
    s'.Spreads tokens k [o.outline] ∧ o.outline.parts = [] := by
  have h₁ := h.next hk
  rw [readGeometry_eq_passRest, advance_bind] at hr
  obtain ⟨u, s₁, hrest, hr⟩ := bind_eq_ok.1 hr
  obtain ⟨ts, hts, -⟩ := passRest_sound h₁.finish hrest
  obtain ⟨rfl, cs, shape, -, -, rfl⟩ := handOver_eq_ok.1 hr
  have h₂ := h₁.takes hts
  exact ⟨⟨_, h₂, h₂.spread ho (h.token hk) (by omega) (.nil (by omega))⟩, rfl⟩

/-- The prefix belongs to the geometry. -/
theorem outline_withSrid (hk : s.kind 0 ≠ .finish) (hat : atSrid s = true)
    (hr : readWithSrid g s = .ok (o, s')) : s'.Spreads tokens k [o.outline] := by
  obtain ⟨he, -, hsemi⟩ := atSrid_iff.1 hat
  obtain ⟨n, srid, inner, hn, -, hg, hgeometry, rfl⟩ := readWithSrid_eq_ok.1 hr
  obtain ⟨w', hw', -⟩ := atGeometry_iff.1 hg
  have h₁ :=
    (((h.next hk).next_of_kind he (by simp)).next_of_kind hn (by simp)).next_of_kind hsemi (by simp)
  obtain ⟨⟨k', h₂, hs⟩, hparts⟩ := outline_geometry ho h₁ (by simp [hw']) hgeometry
  have hlt := hs.lt
  rw [outline_withSpan, hparts]
  exact ⟨k', h₂, h₂.spread ho (h.token hk) (by omega) (.nil (by omega))⟩

variable (hb : ∀ x, below = some x → Outlines tokens (fun o : Operand => [o.outline]) x)

include hb

theorem outline_call (hk : s.kind 0 ≠ .finish) (hr : readCall g below w s = .ok (o, s')) :
    s'.Spreads tokens k [o.outline] := by
  obtain ⟨-, hr⟩ | ⟨-, hr⟩ := ite_eq_ok.1 hr
  · exact absurd hr failHere_ne_ok
  rw [advance_bind] at hr
  obtain ⟨hp, hr⟩ := expect_bind_eq_ok.1 hr
  obtain ⟨x, hx, hr⟩ := deeper_eq_ok.1 hr
  have h₁ := (h.next hk).next_of_kind hp (by simp)
  rw [eat_bind] at hr
  split at hr
  · rename_i hp'
    obtain ⟨rfl, rfl⟩ := spanFrom_pure_eq_ok.1 hr
    have h₂ := h₁.next_of_kind hp' (by simp)
    exact ⟨_, h₂, h₂.spread ho (h.token hk) (by omega) (.nil (by omega))⟩
  · obtain ⟨args, s₁, hargs, hr⟩ := bind_eq_ok.1 hr
    obtain ⟨k₂, h₂, hs⟩ := outlines_commaList (hb x hx) h₁ hargs
    obtain ⟨hp', hr⟩ := expectKind_bind_eq_ok.1 hr
    obtain ⟨rfl, rfl⟩ := spanFrom_pure_eq_ok.1 hr
    have h₃ := h₂.next_of_kind hp' (by simp)
    have hle := hs.le
    rw [outline, outlines_eq]
    exact ⟨_, h₃, h₃.spread ho (h.token hk) (by omega) (hs.widen (by omega) (by omega))⟩

omit ho h hb in
/-- A string that is a bound by itself is a single token. -/
theorem outline_stringBound {span : Span} {content : String}
    (hs : g.stringBound? span content = some o) : o.outline = .node span [] := by
  unfold Grammar.stringBound? at hs
  split at hs
  · cases hs
    rfl
  split at hs
  · cases hs
    rfl
  split at hs
  · cases hs
    rfl
  · cases hs

omit ho hb in
theorem outline_bound {x : Reader Operand} (hx : Outlines tokens (fun o : Operand => [o.outline]) x)
    (hr : readBound g x s = .ok (o, s')) : s'.Spreads tokens k [o.outline] := by
  cases hk : s.kind 0 with
  | string content =>
    rw [readBound_eq hk] at hr
    cases hb : g.stringBound? (s.token 0).span content with
    | none =>
      rw [hb] at hr
      exact hx h hr
    | some bound =>
      rw [hb] at hr
      rw [Option.elim_some, advance_bind] at hr
      obtain ⟨rfl, rfl⟩ := pure_eq_ok.1 hr
      rw [outline_stringBound hb]
      exact ⟨_, h.next_of_kind hk (by simp), .token (h.token (by simp [hk])) (.nil (Nat.le_succ k))⟩
  | _ =>
    rw [readBound_operand fun content hs => by rw [hk] at hs; cases hs] at hr
    exact hx h hr

theorem outline_interval (hk : s.kind 0 ≠ .finish) (hr : readInterval g below s = .ok (o, s')) :
    s'.Spreads tokens k [o.outline] := by
  rw [readInterval, advance_bind] at hr
  obtain ⟨hp, hr⟩ := expect_bind_eq_ok.1 hr
  obtain ⟨x, hx, hr⟩ := deeper_eq_ok.1 hr
  obtain ⟨a, s₁, ha, hr⟩ := bind_eq_ok.1 hr
  obtain ⟨hc, hr⟩ := expect_bind_eq_ok.1 hr
  obtain ⟨b, s₂, hb', hr⟩ := bind_eq_ok.1 hr
  obtain ⟨hp', hr⟩ := expect_bind_eq_ok.1 hr
  obtain ⟨rfl, rfl⟩ := spanFrom_pure_eq_ok.1 hr
  obtain ⟨k₁, h₁, hs₁⟩ := outline_bound ((h.next hk).next_of_kind hp (by simp)) (hb x hx) ha
  obtain ⟨k₂, h₂, hs₂⟩ := outline_bound (h₁.next_of_kind hc (by simp)) (hb x hx) hb'
  have h₃ := h₂.next_of_kind hp' (by simp)
  have hle₁ := hs₁.le
  have hle₂ := hs₂.le
  have hs := (hs₁.widen (Nat.le_refl _) (Nat.le_succ _)).append hs₂
  exact ⟨_, h₃, h₃.spread ho (h.token hk) (by omega) (hs.widen (by omega) (by omega))⟩

/-- The span of a group covers its parentheses, while the parts stay inside. -/
theorem outline_group {m : Mark} (hk : s.kind 0 ≠ .finish)
    (hr : readGroup g below m s = .ok (o, s')) : s'.Spreads tokens k [o.outline] := by
  rw [readGroup, advance_bind] at hr
  obtain ⟨x, hx, hr⟩ := deeper_eq_ok.1 hr
  obtain ⟨inner, s₁, ha, hr⟩ := bind_eq_ok.1 hr
  obtain ⟨hp, hr⟩ := expect_bind_eq_ok.1 hr
  obtain ⟨rfl, rfl⟩ := spanFrom_pure_eq_ok.1 hr
  obtain ⟨k₁, h₁, hs⟩ := hb x hx (h.next hk) ha
  have h₂ := h₁.next_of_kind hp (by simp)
  have hle := hs.le
  rw [outline_withSpan]
  exact ⟨_, h₂, h₂.spread ho (h.token hk) (by omega) (hs.inner.widen (by omega) (by omega))⟩

theorem outline_word (hk : s.kind 0 = .identifier w) (hr : readWord g below w s = .ok (o, s')) :
    s'.Spreads tokens k [o.outline] := by
  have hne : s.kind 0 ≠ .finish := by simp [hk]
  rw [readWord, get_bind] at hr
  obtain ⟨hc, hr⟩ | ⟨-, hr⟩ := ite_eq_ok.1 hr
  · exact outline_withSrid ho h hne (Bool.and_eq_true_iff.1 hc).2 hr
  obtain ⟨-, hr⟩ | ⟨-, hr⟩ := ite_eq_ok.1 hr
  · exact (outline_geometry ho h hne hr).1
  obtain ⟨-, hr⟩ | ⟨-, hr⟩ := ite_eq_ok.1 hr
  · rw [advance_bind] at hr
    obtain ⟨rfl, rfl⟩ := pure_eq_ok.1 hr
    have ht := h.token hne
    exact ⟨_, h.next hne, .token ht (.token ht (.nil (Nat.le_succ k)))⟩
  obtain ⟨-, hr⟩ | ⟨-, hr⟩ := ite_eq_ok.1 hr
  · exact outline_envelope ho h hk hr
  obtain ⟨-, hr⟩ | ⟨-, hr⟩ := ite_eq_ok.1 hr
  · obtain ⟨p, d, hq, -, rfl⟩ := readDate_eq_ok.1 hr
    exact outline_quotedInstant ho h hk hq
  obtain ⟨-, hr⟩ | ⟨-, hr⟩ := ite_eq_ok.1 hr
  · obtain ⟨p, i, hq, -, rfl⟩ := readTimestamp_eq_ok.1 hr
    exact outline_quotedInstant ho h hk hq
  obtain ⟨-, hr⟩ | ⟨-, hr⟩ := ite_eq_ok.1 hr
  · exact outline_interval ho h hb hne hr
  · exact outline_call ho h hb hne hr

theorem outline_primary (hr : readPrimary g below s = .ok (o, s')) :
    s'.Spreads tokens k [o.outline] := by
  rcases readPrimary_cases hr with ⟨w, hk⟩ | ⟨w, hk⟩ | ⟨m, hm⟩ | ⟨a, ha⟩
  · exact outline_word ho h hb hk (readPrimary_word hk ▸ hr)
  · have hk : (s.token 0).kind = .number w := hk
    rw [readPrimary, peek_bind, hk] at hr
    obtain ⟨l, s₁, hl, hr⟩ := bind_eq_ok.1 hr
    obtain ⟨rfl, rfl⟩ := pure_eq_ok.1 hr
    obtain ⟨h₁, hs⟩ := outline_number h hl
    exact ⟨_, h₁, hs⟩
  · have hne : s.kind 0 ≠ .finish := fun hk => by
      rw [hk] at hm
      cases hm
    exact outline_group ho h hb hne (readPrimary_group hm ▸ hr)
  · have hne : s.kind 0 ≠ .finish := fun hk => by
      rw [hk] at ha
      cases ha
    rw [readPrimary_atom ha] at hr
    cases hr
    exact ⟨_, h.next hne, outline_atom (h.token hne) ha⟩

end Primary

/-! ## Operands -/

theorem spread_combine (ho : InOrder tokens) (op : ArithmeticOp) {i j : Nat}
    (h : Spread tokens i j [left.outline, right.outline]) :
    Spread tokens i j [(left.combine op right).outline] := by
  have hs := h.through ho
  rw [List.foldl_cons, List.foldl_nil, span_outline, span_outline] at hs
  exact hs

theorem spread_foldl (ho : InOrder tokens) {i j : Nat} {links : List (ArithmeticOp × Operand)}
    (h : Spread tokens i j (o.outline :: links.map fun link => link.2.outline)) :
    Spread tokens i j
      [(links.foldl (fun left (op, right) => left.combine op right) o).outline] := by
  induction links generalizing o with
  | nil => exact h
  | cons link links ih =>
    obtain ⟨m, hpair, hrest⟩ :=
      (show Spread tokens i j ([o.outline, link.2.outline] ++ _) from h).split
    exact ih ((spread_combine ho link.1 hpair).append hrest)

section Operators

variable (ho : InOrder tokens)

include ho

theorem outlines_chain {op? : TokenKind → Option ArithmeticOp} (hfinish : op? .finish = none)
    {x : Reader Operand} (hx : Outlines tokens (fun o : Operand => [o.outline]) x) :
    Outlines tokens (fun o : Operand => [o.outline]) (readChain op? x) := by
  intro k s o s' h hr
  obtain ⟨a, s₁, ha, hr⟩ := bind_eq_ok.1 hr
  obtain ⟨links, s₂, hlinks, hr⟩ := bind_eq_ok.1 hr
  obtain ⟨rfl, rfl⟩ := pure_eq_ok.1 hr
  obtain ⟨k₁, h₁, hs₁⟩ := hx h ha
  obtain ⟨k₂, h₂, hs₂⟩ := outlines_many hfinish hx h₁ hlinks
  exact ⟨k₂, h₂, spread_foldl ho (hs₁.append hs₂)⟩

theorem outlines_sum {x : Reader Operand}
    (hx : Outlines tokens (fun o : Operand => [o.outline]) x) :
    Outlines tokens (fun o : Operand => [o.outline]) (readSum x) :=
  outlines_chain ho rfl (outlines_chain ho rfl hx)

/-- The sign in front of a number is part of it; minus in front of anything else is an operand. -/
theorem outlines_factorOver
    (hb : ∀ x, below = some x → Outlines tokens (fun o : Operand => [o.outline]) x) :
    Outlines tokens (fun o : Operand => [o.outline]) (readFactorOver g below) := by
  intro k s o s' h hr
  cases hsign : sign? (s.kind 0) with
  | none =>
    rw [readFactorOver_unsigned hsign] at hr
    refine outline_primary ho h (fun x hx => ?_) hr
    obtain ⟨factor, hfactor, rfl⟩ := Option.map_eq_some_iff.1 hx
    exact outlines_sum ho (hb factor hfactor)
  | some negative =>
    have hne : s.kind 0 ≠ .finish := fun hk => by
      rw [hk] at hsign
      cases hsign
    have ht := h.token hne
    by_cases hk : ∃ w, s.next.kind 0 = .number w
    · obtain ⟨w, hk⟩ := hk
      rw [readFactorOver_number hsign hk] at hr
      obtain ⟨l, s₁, hl, hr⟩ := bind_eq_ok.1 hr
      obtain ⟨rfl, rfl⟩ := spanFrom_pure_eq_ok.1 hr
      have h₁ := (outline_number (h.next hne) hl).1
      exact ⟨_, h₁, h₁.spread ho ht (by omega) (.nil (by omega))⟩
    · rw [readFactorOver_signed hsign fun w hw => hk ⟨w, hw⟩] at hr
      obtain ⟨x, hx, hr⟩ := deeper_eq_ok.1 hr
      obtain ⟨a, ha, rfl⟩ := readSigned_eq_ok.1 hr
      obtain ⟨k', h', hs⟩ := hb x hx (h.next hne) ha
      refine ⟨k', h', ?_⟩
      cases negative with
      | false => exact hs.widen (Nat.le_succ k) (Nat.le_refl _)
      | true =>
        have hminus : Spread tokens k (k + 1) [.node (s.token 0).span []] :=
          .token ht (.nil (Nat.le_succ k))
        exact spread_combine ho .mul (hminus.append hs)

theorem outlines_factor (g : Grammar) : ∀ room,
    Outlines tokens (fun o : Operand => [o.outline]) (readFactor g room)
  | 0 => outlines_factorOver ho nofun
  | room + 1 => outlines_factorOver ho fun x hx => by
    cases hx
    exact outlines_factor g room

theorem outlines_read (g : Grammar) (room : Nat) :
    Outlines tokens (fun o : Operand => [o.outline]) (read g room) :=
  outlines_sum ho (outlines_factor ho g room)

end Operators

end Operand

/-! ## Predicates -/

namespace Condition

variable {tokens : List Token} {g : Grammar} {k i : Nat} {s s' : Cursor} {start : Token}
  {value : Operand} {c : Condition} {negated : Bool} {x : Reader Operand}
  {below : Option (Reader Operand)}

section Predicate

variable (ho : InOrder tokens) (hx : Outlines tokens (fun o : Operand => [o.outline]) x)
  (hb : ∀ x, below = some x → Outlines tokens (fun o : Operand => [o.outline]) x)

theorem outlines_choices
    (hb : ∀ x, below = some x → Outlines tokens (fun o : Operand => [o.outline]) x) :
    Outlines tokens (fun os : List Operand => os.map Operand.outline) (readChoices g below) := by
  intro k s os s' h hr
  obtain ⟨hp, hr⟩ := expect_bind_eq_ok.1 hr
  obtain ⟨x, hx, hr⟩ := deeper_eq_ok.1 hr
  obtain ⟨choices, s₁, hos, hr⟩ := bind_eq_ok.1 hr
  obtain ⟨hp', hr⟩ := expectKind_bind_eq_ok.1 hr
  obtain ⟨rfl, rfl⟩ := pure_eq_ok.1 hr
  obtain ⟨k₁, h₁, hs⟩ := outlines_commaList (hb x hx) (h.next_of_kind hp (by simp)) hos
  exact ⟨_, h₁.next_of_kind hp' (by simp), hs.widen (by omega) (by omega)⟩

variable (ht : tokens[i]? = some start) (hv : Spread tokens i k [value.outline])
  (h : s.Behind tokens k)

include ho hx hb ht hv h

theorem outline_negatable (hr : readNegatable g x below start value negated s = .ok (c, s')) :
    s'.Spreads tokens i [c.outline] := by
  have hlt := hv.lt
  have hk := startsNegatable_of_ok hr
  cases hk' : s.kind 0 with
  | keyword kw =>
    have h₁ := h.next_of_kind hk' (by simp)
    cases kw with
    | between =>
      rw [readNegatable_between hk'] at hr
      obtain ⟨low, s₁, hlow, hr⟩ := bind_eq_ok.1 hr
      obtain ⟨hand, hr⟩ := expectKind_bind_eq_ok.1 hr
      obtain ⟨high, s₂, hhigh, hr⟩ := bind_eq_ok.1 hr
      obtain ⟨rfl, rfl⟩ := spanFrom_pure_eq_ok.1 hr
      obtain ⟨k₂, h₂, hs₂⟩ := hx h₁ hlow
      obtain ⟨k₃, h₃, hs₃⟩ := hx (h₂.next_of_kind hand (by simp)) hhigh
      have hle₂ := hs₂.le
      have hle₃ := hs₃.le
      have hs := (hv.widen (Nat.le_refl _) (Nat.le_succ k)).append
        ((hs₂.widen (Nat.le_refl _) (Nat.le_succ _)).append hs₃)
      exact ⟨_, h₃, h₃.spread ho ht (by omega) hs⟩
    | like =>
      rw [readNegatable_like hk'] at hr
      obtain ⟨pattern, s₁, hpattern, hr⟩ := bind_eq_ok.1 hr
      obtain ⟨hp, rfl⟩ := readPattern_eq_ok.1 hpattern
      obtain ⟨rfl, rfl⟩ := spanFrom_pure_eq_ok.1 hr
      have h₂ := h₁.next_of_kind hp (by simp)
      exact ⟨_, h₂, h₂.spread ho ht (by omega) (hv.widen (by omega) (by omega))⟩
    | inList =>
      rw [readNegatable_inList hk'] at hr
      obtain ⟨choices, s₁, hcs, hr⟩ := bind_eq_ok.1 hr
      obtain ⟨rfl, rfl⟩ := spanFrom_pure_eq_ok.1 hr
      obtain ⟨k₂, h₂, hs₂⟩ := outlines_choices hb h₁ hcs
      have hle := hs₂.le
      have hs := (hv.widen (Nat.le_refl _) (Nat.le_succ k)).append hs₂
      rw [outline, Operand.outlines_eq]
      exact ⟨_, h₂, h₂.spread ho ht (by omega) hs⟩
    | _ =>
      rw [hk'] at hk
      cases hk
  | identifier w =>
    rw [hk'] at hk
    obtain ⟨hw, hallow⟩ := Bool.and_eq_true_iff.1 hk
    rw [readNegatable_ilike hk' hw hallow] at hr
    obtain ⟨pattern, s₁, hpattern, hr⟩ := bind_eq_ok.1 hr
    obtain ⟨hp, rfl⟩ := readPattern_eq_ok.1 hpattern
    obtain ⟨rfl, rfl⟩ := spanFrom_pure_eq_ok.1 hr
    have h₂ := (h.next_of_kind hk' (by simp)).next_of_kind hp (by simp)
    exact ⟨_, h₂, h₂.spread ho ht (by omega) (hv.widen (by omega) (by omega))⟩
  | _ =>
    rw [hk'] at hk
    cases hk

theorem outline_rest (hr : readRest g x below start value s = .ok (c, s')) :
    s'.Spreads tokens i [c.outline] := by
  have hlt := hv.lt
  rcases readRest_cases hr with ⟨-, span, name, args, rfl, hp⟩ | ⟨op, hop⟩ | hk | hk | hk
  · cases hp
    exact ⟨k, h, hv⟩
  · have hne : s.kind 0 ≠ .finish := fun hk => by
      rw [hk] at hop
      cases hop
    rw [readRest_compare hop] at hr
    obtain ⟨right, s₁, hright, hr⟩ := bind_eq_ok.1 hr
    obtain ⟨rfl, rfl⟩ := spanFrom_pure_eq_ok.1 hr
    obtain ⟨k₁, h₁, hs₁⟩ := hx (h.next hne) hright
    have hle := hs₁.le
    have hs := (hv.widen (Nat.le_refl _) (Nat.le_succ k)).append hs₁
    exact ⟨_, h₁, h₁.spread ho ht (by omega) hs⟩
  · rw [readRest_not hk] at hr
    exact outline_negatable ho hx hb ht (hv.widen (Nat.le_refl _) (Nat.le_succ k))
      (h.next_of_kind hk (by simp)) hr
  · have h₁ := h.next_of_kind hk (by simp)
    by_cases hn : s.next.kind 0 = .keyword .not
    · rw [readRest_isNot hk hn] at hr
      obtain ⟨hnull, rfl, rfl⟩ := readNull_eq_ok.1 hr
      have h₂ := (h₁.next_of_kind hn (by simp)).next_of_kind hnull (by simp)
      exact ⟨_, h₂, h₂.spread ho ht (by omega) (hv.widen (by omega) (by omega))⟩
    · rw [readRest_is hk hn] at hr
      obtain ⟨hnull, rfl, rfl⟩ := readNull_eq_ok.1 hr
      have h₂ := h₁.next_of_kind hnull (by simp)
      exact ⟨_, h₂, h₂.spread ho ht (by omega) (hv.widen (by omega) (by omega))⟩
  · rw [readRest_negatable hk] at hr
    exact outline_negatable ho hx hb ht hv h hr

end Predicate

section Chains

variable (ho : InOrder tokens)

include ho

theorem outlines_predicate (hx : Outlines tokens (fun o : Operand => [o.outline]) x)
    (hb : ∀ x, below = some x → Outlines tokens (fun o : Operand => [o.outline]) x) :
    Outlines tokens (fun c : Condition => [c.outline]) (readPredicate g x below) := by
  intro k s c s' h hr
  rw [readPredicate_eq] at hr
  obtain ⟨u, s₁, hrefuse, hrest⟩ := bind_eq_ok.1 hr
  obtain rfl := refuseRemoved_eq_ok hrefuse
  obtain ⟨value, s₂, hvalue, hrest⟩ := bind_eq_ok.1 ((peek_bind).symm.trans hrest)
  obtain ⟨k', h', hs⟩ := hx h hvalue
  exact outline_rest ho hx hb (h.token_of_lt hs.lt_length) hs h' hrest

/-! ## Groups and chains -/

variable {item : Reader Condition} {belowCondition : Option (Reader Condition)}

/-- The spans of clauses are joined from the first through the last one. -/
theorem spread_join {i j : Nat} {cs : List Condition}
    (h : Spread tokens i j ((c :: cs).map outline)) :
    Spread tokens i j
      [.node (cs.foldl (fun span c => span.through c.span) c.span) ((c :: cs).map outline)] := by
  have hs := Spread.through ho h
  rw [List.foldl_map] at hs
  simp only [span_outline] at hs
  exact hs

theorem outlines_chain {kw : Keyword} {join : Span → List Condition → Condition}
    (hjoin : ∀ span cs, (join span cs).outline = .node span (cs.map outline))
    (hitem : Outlines tokens (fun c : Condition => [c.outline]) item) :
    Outlines tokens (fun c : Condition => [c.outline]) (readChain kw join item) := by
  intro k s c s' h hr
  rw [readChain_eq] at hr
  obtain ⟨first, s₁, hfirst, hr⟩ := bind_eq_ok.1 hr
  obtain ⟨links, s₂, hlinks, hr⟩ := bind_eq_ok.1 hr
  obtain ⟨rfl, rfl⟩ := pure_eq_ok.1 hr
  obtain ⟨k₁, h₁, hs₁⟩ := hitem h hfirst
  obtain ⟨k₂, h₂, hs₂⟩ := outlines_many rfl hitem h₁ hlinks
  refine ⟨k₂, h₂, ?_⟩
  have hs := hs₁.append hs₂
  cases links with
  | nil => exact hs
  | cons link links =>
    show Spread tokens k k₂ [(join _ _).outline]
    rw [hjoin]
    refine spread_join ho ?_
    rw [List.map_cons, List.map_map]
    exact hs

theorem outlines_chains (hitem : Outlines tokens (fun c : Condition => [c.outline]) item) :
    Outlines tokens (fun c : Condition => [c.outline]) (readChains item) := by
  refine outlines_chain ho (fun span cs => ?_) (outlines_chain ho (fun span cs => ?_) hitem)
  · rw [outline, outlines_eq]
  · rw [outline, outlines_eq]

variable (hx : Outlines tokens (fun o : Operand => [o.outline]) x)
  (hb : ∀ x, below = some x → Outlines tokens (fun o : Operand => [o.outline]) x)
  (hc : ∀ x, belowCondition = some x → Outlines tokens (fun c : Condition => [c.outline]) x)

omit ho in
include hc in
theorem outline_group {m : Mark} (h : s.Behind tokens k) (hk : s.kind 0 ≠ .finish)
    (hr : readGroup g belowCondition m s = .ok (c, s')) : s'.Spreads tokens k [c.outline] := by
  rw [readGroup, advance_bind] at hr
  obtain ⟨item, hitem, hr⟩ := deeper_eq_ok.1 hr
  obtain ⟨inner, s₁, hinner, hr⟩ := bind_eq_ok.1 hr
  obtain ⟨hp, hr⟩ := expect_bind_eq_ok.1 hr
  obtain ⟨rfl, rfl⟩ := pure_eq_ok.1 hr
  obtain ⟨k₁, h₁, hs⟩ := hc item hitem (h.next hk) hinner
  exact ⟨_, h₁.next_of_kind hp (by simp), hs.widen (Nat.le_succ k) (Nat.le_succ k₁)⟩

include hx hb hc

theorem outlines_primary :
    Outlines tokens (fun c : Condition => [c.outline]) (readPrimary g x below belowCondition) := by
  intro k s c s' h hr
  obtain ⟨-, hr⟩ := readPrimary_eq_ok.1 hr
  have hpredicate := outlines_predicate (g := g) ho hx hb
  cases hm : g.close? (s.kind 0) with
  | none =>
    rw [hm] at hr
    exact hpredicate h hr
  | some m =>
    have hne : s.kind 0 ≠ .finish := fun hk => by
      rw [hk] at hm
      cases hm
    rw [hm] at hr
    rcases orPredicate_eq_ok.1 hr with ⟨hr, -⟩ | ⟨hr, -⟩
    · exact outline_group hc h hne hr
    · exact hpredicate h hr

theorem outlines_negationOver :
    Outlines tokens (fun c : Condition => [c.outline])
      (readNegationOver g x below belowCondition) := by
  intro k s c s' h hr
  rw [readNegationOver_eq] at hr
  split at hr
  · rename_i hk
    obtain ⟨item, hitem, hr⟩ := deeper_eq_ok.1 hr
    obtain ⟨inner, s₁, hinner, hr⟩ := bind_eq_ok.1 hr
    obtain ⟨rfl, rfl⟩ := spanFrom_pure_eq_ok.1 hr
    obtain ⟨k₁, h₁, hs⟩ := hc item hitem (h.next_of_kind hk (by simp)) hinner
    have hlt := hs.lt
    exact ⟨_, h₁, h₁.spread ho (h.token (by simp [hk])) (by omega)
      (hs.widen (Nat.le_succ k) (Nat.le_refl _))⟩
  · refine outlines_primary ho hx hb (fun y hy => ?_) h hr
    obtain ⟨item, hitem, rfl⟩ := Option.map_eq_some_iff.1 hy
    exact outlines_chains ho (hc item hitem)

omit hx hb hc in
theorem outlines_negation (g : Grammar) : ∀ room,
    Outlines tokens (fun c : Condition => [c.outline]) (readNegation g room)
  | 0 => outlines_negationOver ho (Operand.outlines_read ho g 0) nofun nofun
  | room + 1 =>
    outlines_negationOver ho (Operand.outlines_read ho g (room + 1))
      (fun x hx => by
        cases hx
        exact Operand.outlines_read ho g room)
      fun y hy => by
        cases hy
        exact outlines_negation g room

omit hx hb hc in
theorem outlines_read (g : Grammar) (room : Nat) :
    Outlines tokens (fun c : Condition => [c.outline]) (read g room) :=
  outlines_chains ho (outlines_negation ho g room)

end Chains

end Condition

end FeatureFilter
