import FeatureFilter.Proofs.Syntax.Shapes

/-!
# Reading factors without signs

Numbers, strings, words, calls and groups. `Operand.fits_primary` puts them together: the reader of
factors without signs reads the rule `Grammar.Primary`, given a reader of the operands inside them.
-/

namespace FeatureFilter

open Reader
open Span (nowhere)

/-! ## Ends -/

namespace Cursor

/-- A factor can end here: what follows neither goes on with a geometry or a call, nor makes the
factor the word of a prefix `SRID = n ;`. -/
structure EndsFactor (s : Cursor) : Prop where
  noGeometry : Operand.goesOnAsGeometry (s.kind 0) = false
  noPrefix : s.kind 0 = .mark .equal → ∀ n, s.kind 1 = .number n → s.kind 2 ≠ .mark .semicolon

def EndsProduct (s : Cursor) : Prop := s.EndsFactor ∧ Operand.productOp? (s.kind 0) = none

def EndsOperand (s : Cursor) : Prop := s.EndsProduct ∧ Operand.sumOp? (s.kind 0) = none

theorem endsOperand_of {s : Cursor} {kind : TokenKind} (hk : s.kind 0 = kind)
    (hg : Operand.goesOnAsGeometry kind = false) (he : kind ≠ .mark .equal)
    (hp : Operand.productOp? kind = none) (hs : Operand.sumOp? kind = none) : s.EndsOperand := by
  subst hk
  exact ⟨⟨⟨hg, fun h => absurd h he⟩, hp⟩, hs⟩

theorem endsOperand_rightParen {s : Cursor} (h : s.kind 0 = .mark .rightParen) : s.EndsOperand :=
  endsOperand_of h rfl nofun rfl rfl

theorem endsOperand_rightBracket {s : Cursor} (h : s.kind 0 = .mark .rightBracket) :
    s.EndsOperand :=
  endsOperand_of h rfl nofun rfl rfl

theorem endsOperand_comma {s : Cursor} (h : s.kind 0 = .mark .comma) : s.EndsOperand :=
  endsOperand_of h rfl nofun rfl rfl

theorem EndsFactor.atSrid_eq {s : Cursor} (h : s.next.EndsFactor) : Operand.atSrid s = false := by
  rw [Operand.atSrid, ← kind_next s 0, ← kind_next s 1, ← kind_next s 2]
  split
  · rename_i h0 h1 h2
    exact absurd h2 (h.noPrefix h0 _ h1)
  · rfl

theorem EndsFactor.noParen {s : Cursor} (h : s.EndsFactor) : s.kind 0 ≠ .mark .leftParen := by
  intro he
  have := h.noGeometry
  rw [he] at this
  cases this

end Cursor

/-- What closes a group is not in the middle of an operand. -/
theorem Grammar.endsOperand_of_close {g : Grammar} {k : TokenKind} {m : Mark} {s : Cursor}
    (hm : g.close? k = some m) (hk : s.kind 0 = .mark m) : s.EndsOperand := by
  unfold close? at hm
  split at hm
  · cases hm
    exact Cursor.endsOperand_rightParen hk
  · split at hm
    · cases hm
      exact Cursor.endsOperand_rightBracket hk
    · cases hm
  · cases hm

/-! ## First tokens -/

/-- The phrases of the category have a first token, which is one of the kinds. -/
def Category.StartsWith {α : Type} (p : TokenKind → Bool) (c : Category α) : Prop :=
  ∀ ⦃ts a⦄, c ts a → ∃ t us, ts = t :: us ∧ p t.kind = true

namespace Operand

def mayStart (g : Grammar) : TokenKind → Bool
  | .number _ | .string _ | .identifier _ | .quotedIdentifier _ => true
  | .keyword .isTrue | .keyword .isFalse => true
  | .mark .minus | .mark .plus | .mark .leftParen => true
  | .mark .leftBracket => g.dialect.allows .bracketGrouping
  | _ => false

theorem mayStart_of_close {g : Grammar} {k : TokenKind} {m : Mark} (h : g.close? k = some m) :
    mayStart g k = true := by
  unfold Grammar.close? at h
  split at h
  · rfl
  · split at h
    · assumption
    · cases h
  · cases h

theorem sign?_eq_none {k : TokenKind} (hm : k ≠ .mark .minus) (hp : k ≠ .mark .plus) :
    sign? k = none := by
  unfold sign?
  split
  · exact absurd rfl hm
  · exact absurd rfl hp
  · rfl

theorem sign?_of_close {g : Grammar} {k : TokenKind} {m : Mark} (h : g.close? k = some m) :
    sign? k = none := by
  unfold Grammar.close? at h
  split at h
  · rfl
  · rfl
  · cases h

end Operand

/-- Factors without a sign start neither with a sign nor with what no operand starts with. -/
theorem Grammar.Primary.first {g : Grammar} {inner : Option (Category Operand)} {ts : List Token}
    {o : Operand} (h : Primary g inner ts o) :
    ∃ t us, ts = t :: us ∧ Operand.mayStart g t.kind = true ∧ Operand.sign? t.kind = none := by
  cases h with
  | boolean b ht => cases b <;> exact ⟨_, _, rfl, by rw [ht]; rfl, by rw [ht]; rfl⟩
  | group ht => exact ⟨_, _, rfl, Operand.mayStart_of_close ht, Operand.sign?_of_close ht⟩
  | geometry h =>
    cases h with
    | intro ht => exact ⟨_, _, rfl, by rw [ht]; rfl, by rw [ht]; rfl⟩
  | _ ht => exact ⟨_, _, rfl, by rw [ht]; rfl, by rw [ht]; rfl⟩

namespace Operand

variable {g : Grammar} {s s' : Cursor} {ts : List Token} {inner : Option (Category Operand)}
  {item : Category Operand} {below : Option (Reader Operand)} {o : Operand} {w : String}

/-! ## Numbers -/

theorem readNumber_eq_ok {l : Literal} : readNumber s = .ok (l, s') ↔
    ∃ w, s.kind 0 = .number w ∧ Literal.readNumber w = .ok l ∧ s' = s.next := by
  have hkind : (s.token 0).kind = s.kind 0 := rfl
  rw [readNumber, advance_bind, hkind]
  cases s.kind 0 with
  | number w =>
    cases hl : Literal.readNumber w with
    | error e =>
      simp only [hl]
      constructor
      · intro h
        cases h
      · rintro ⟨_, h, h', -⟩
        cases h
        rw [hl] at h'
        cases h'
    | ok l' =>
      simp only [hl]
      rw [pure_eq_ok]
      constructor
      · rintro ⟨rfl, rfl⟩
        exact ⟨w, rfl, hl, rfl⟩
      · rintro ⟨_, hw, h, rfl⟩
        cases hw
        rw [hl] at h
        cases h
        exact ⟨rfl, rfl⟩
  | _ =>
    constructor
    · intro h
      cases h
    · rintro ⟨_, h, -⟩
      cases h

theorem atNumber_bind {β : Type} {f : Bool → Reader β} :
    (atNumber >>= f) s = f (match s.kind 0 with | .number _ => true | _ => false) s := by
  rw [atNumber, bind_assoc, peekKind_bind]
  cases s.kind 0 <;> rfl

/-- The number of an ordinate, behind its sign. -/
def readMagnitude (negative : Bool) : Reader Binary64 := do
  if ← atNumber then
    match ← readNumber with
    | .integer n => return if negative then (Binary64.ofInt n.toInt).neg else .ofInt n.toInt
    | .double x => return if negative then x.neg else x
    | _ => failHere "number" none
  else
    failHere "number" none

theorem readOrdinate_eq : readOrdinate s =
    match sign? (s.kind 0) with
    | some negative => readMagnitude negative s.next
    | none => readMagnitude false s := by
  show (eat .minus >>= fun negative =>
    if negative then pure false >>= fun _ => readMagnitude negative
    else eat .plus >>= fun _ => readMagnitude negative) s = _
  by_cases hm : s.kind 0 = .mark .minus
  · rw [eat_bind, if_pos hm, hm]
    rfl
  rw [eat_bind, if_neg hm]
  refine eat_bind.trans ?_
  by_cases hp : s.kind 0 = .mark .plus
  · rw [if_pos hp, hp]
    rfl
  · rw [if_neg hp, sign?_eq_none hm hp]

theorem readMagnitude_eq_ok {negative : Bool} {x : Binary64} :
    readMagnitude negative s = .ok (x, s') ↔
      ∃ w l y, s.kind 0 = .number w ∧ Literal.readNumber w = .ok l ∧
        Grammar.ordinate? l = some y ∧ x = (if negative then y.neg else y) ∧ s' = s.next := by
  rw [readMagnitude, atNumber_bind]
  cases hk : s.kind 0 with
  | number w =>
    show (readNumber >>= _) s = _ ↔ _
    rw [bind_eq_ok]
    constructor
    · rintro ⟨l, s₁, hl, h⟩
      obtain ⟨w', hw', hl, rfl⟩ := readNumber_eq_ok.1 hl
      rw [hk] at hw'
      cases hw'
      cases l with
      | integer n =>
        obtain ⟨rfl, rfl⟩ := pure_eq_ok.1 h
        exact ⟨w, _, _, rfl, hl, rfl, rfl, rfl⟩
      | double y =>
        obtain ⟨rfl, rfl⟩ := pure_eq_ok.1 h
        exact ⟨w, _, _, rfl, hl, rfl, rfl, rfl⟩
      | _ => cases h
    · rintro ⟨_, l, y, hw, hl, hy, rfl, rfl⟩
      cases hw
      refine ⟨l, _, readNumber_eq_ok.2 ⟨w, hk, hl, rfl⟩, ?_⟩
      cases l with
      | integer n =>
        obtain rfl : Binary64.ofInt n.toInt = y := Option.some.inj hy
        exact pure_eq_ok.2 ⟨rfl, rfl⟩
      | double x =>
        obtain rfl : x = y := Option.some.inj hy
        exact pure_eq_ok.2 ⟨rfl, rfl⟩
      | _ => cases hy
  | _ => exact ⟨nofun, fun ⟨_, _, _, h, _⟩ => nomatch h⟩

theorem fits_ordinate : Fits (fun _ => True) id Grammar.Ordinate readOrdinate where
  sound {s x s'} hf h := by
    rw [readOrdinate_eq] at h
    cases hs : sign? (s.kind 0) with
    | none =>
      rw [hs] at h
      obtain ⟨w, l, y, hk, hl, hy, rfl, rfl⟩ := readMagnitude_eq_ok.1 h
      exact ⟨_, .cons_of_kind hk nofun (.refl (by simpa using hf)), .unsigned hk hl hy⟩
    | some negative =>
      rw [hs] at h
      obtain ⟨w, l, y, hk, hl, hy, rfl, rfl⟩ := readMagnitude_eq_ok.1 h
      have hne : s.kind 0 ≠ .finish := TokenKind.ne_finish hs rfl
      exact ⟨_, .cons_next (.cons_of_kind hk nofun (.refl (by simpa using hf))) hf hne,
        .signed hs hk hl hy⟩
  complete {s ts x s'} ht hx _ := by
    refine ⟨x, ?_, rfl⟩
    cases hx with
    | unsigned hk hl hx =>
      have hk := ht.kind_cons.trans hk
      rw [readOrdinate_eq, hk]
      exact readMagnitude_eq_ok.2 ⟨_, _, _, hk, hl, hx, rfl, ht.next_single⟩
    | signed hs hk hl hx =>
      rw [readOrdinate_eq, ht.kind_cons, hs]
      have ht' := ht.next_cons
      exact readMagnitude_eq_ok.2 ⟨_, _, _, ht'.kind_cons.trans hk, hl, hx, rfl, ht'.next_single⟩

/-! ## Words in front of parentheses -/

theorem readEnvelope_sound (hf : s.finish.kind = .finish) (hk : s.kind 0 = .identifier w)
    (hw : sameWord w "ENVELOPE" = true) (h : readEnvelope s = .ok (o, s')) :
    ∃ ts, s.Takes ts s' ∧ Grammar.Primary g inner ts o.bare := by
  rw [readEnvelope, advance_bind] at h
  obtain ⟨hp, h⟩ := expect_bind_eq_ok.1 h
  obtain ⟨west, s₁, h₁, h⟩ := bind_eq_ok.1 h
  obtain ⟨ws, hws, hwest⟩ := fits_ordinate.sound (by simpa using hf) h₁
  obtain ⟨hc₁, h⟩ := expect_bind_eq_ok.1 h
  obtain ⟨south, s₂, h₂, h⟩ := bind_eq_ok.1 h
  obtain ⟨ss, hss, hsouth⟩ := fits_ordinate.sound (by simpa using hws.finish') h₂
  obtain ⟨hc₂, h⟩ := expect_bind_eq_ok.1 h
  obtain ⟨east, s₃, h₃, h⟩ := bind_eq_ok.1 h
  obtain ⟨es, hes, heast⟩ := fits_ordinate.sound (by simpa using hss.finish') h₃
  obtain ⟨hc₃, h⟩ := expect_bind_eq_ok.1 h
  obtain ⟨north, s₄, h₄, h⟩ := bind_eq_ok.1 h
  obtain ⟨ns, hns, hnorth⟩ := fits_ordinate.sound (by simpa using hes.finish') h₄
  obtain ⟨hp', h⟩ := expect_bind_eq_ok.1 h
  obtain ⟨rfl, rfl⟩ := spanFrom_pure_eq_ok.1 h
  refine ⟨_, .cons_of_kind hk nofun (.cons_of_kind hp nofun (hws.append (.cons_of_kind hc₁ nofun
    (hss.append (.cons_of_kind hc₂ nofun (hes.append (.cons_of_kind hc₃ nofun (hns.append
      (.cons_of_kind hp' nofun (.refl (by simpa using hns.finish'))))))))))),
    .envelope hk hw hp hwest hc₁ hsouth hc₂ heast hc₃ hnorth hp'⟩

theorem readEnvelope_complete {p p' c₁ c₂ c₃ t : Token} {ws ss es ns : List Token}
    {west south east north : Binary64} (hp : p.kind = .mark .leftParen)
    (hw : Grammar.Ordinate ws west) (hc₁ : c₁.kind = .mark .comma)
    (hs : Grammar.Ordinate ss south) (hc₂ : c₂.kind = .mark .comma)
    (he : Grammar.Ordinate es east) (hc₃ : c₃.kind = .mark .comma)
    (hn : Grammar.Ordinate ns north) (hp' : p'.kind = .mark .rightParen)
    (h : s.Takes (t :: p :: (ws ++ c₁ :: (ss ++ c₂ :: (es ++ c₃ :: (ns ++ [p']))))) s') :
    ∃ o, readEnvelope s = .ok (o, s') ∧
      o.bare = .geometry nowhere (.envelope west south east north) none := by
  have h₀ := h.next_cons
  obtain ⟨s₁, h₁, ht₁⟩ := h₀.next_cons.split
  obtain ⟨s₂, h₂, ht₂⟩ := ht₁.next_cons.split
  obtain ⟨s₃, h₃, ht₃⟩ := ht₂.next_cons.split
  obtain ⟨s₄, h₄, ht₄⟩ := ht₃.next_cons.split
  obtain ⟨west, hwest, rfl⟩ := fits_ordinate.complete h₁ hw trivial
  obtain ⟨south, hsouth, rfl⟩ := fits_ordinate.complete h₂ hs trivial
  obtain ⟨east, heast, rfl⟩ := fits_ordinate.complete h₃ he trivial
  obtain ⟨north, hnorth, rfl⟩ := fits_ordinate.complete h₄ hn trivial
  refine ⟨.geometry { (s.token 0).span with stop := max s₄.next.lastStop (s.token 0).span.stop }
    (.envelope west south east north) none, ?_, rfl⟩
  rw [readEnvelope, advance_bind, expect_bind_eq_ok]
  refine ⟨h₀.kind_cons.trans hp, bind_eq_ok.2 ⟨_, _, hwest, expect_bind_eq_ok.2
    ⟨ht₁.kind_cons.trans hc₁, bind_eq_ok.2 ⟨_, _, hsouth, expect_bind_eq_ok.2
      ⟨ht₂.kind_cons.trans hc₂, bind_eq_ok.2 ⟨_, _, heast, expect_bind_eq_ok.2
        ⟨ht₃.kind_cons.trans hc₃, bind_eq_ok.2 ⟨_, _, hnorth, expect_bind_eq_ok.2
          ⟨ht₄.kind_cons.trans hp', ?_⟩⟩⟩⟩⟩⟩⟩⟩⟩
  exact spanFrom_pure_eq_ok.2 ⟨rfl, ht₄.next_single⟩

theorem readQuotedInstant_eq_ok {p : Token × String} : readQuotedInstant s = .ok (p, s') ↔
    s.next.kind 0 = .mark .leftParen ∧ s.next.next.kind 0 = .string p.2 ∧
      p.1 = s.next.next.token 0 ∧ s.next.next.next.kind 0 = .mark .rightParen ∧
        s' = s.next.next.next.next := by
  rw [readQuotedInstant, advance_bind, expect_bind_eq_ok]
  refine and_congr_right fun _ => ?_
  have hkind : (s.next.next.token 0).kind = s.next.next.kind 0 := rfl
  rw [peek_bind, hkind]
  cases s.next.next.kind 0 with
  | string content =>
    show (advance >>= _) s.next.next = _ ↔ _
    rw [advance_bind, expect_bind_eq_ok, pure_eq_ok]
    constructor
    · rintro ⟨hp, rfl, rfl⟩
      exact ⟨rfl, rfl, hp, rfl⟩
    · rintro ⟨hc, ht, hp, rfl⟩
      cases hc
      exact ⟨hp, Prod.ext ht.symm rfl, rfl⟩
  | _ =>
    constructor
    · intro h
      cases h
    · rintro ⟨h, -⟩
      cases h

/-- The tokens of a word with a string in parentheses behind it. -/
theorem takes_quotedInstant {p : Token × String} (hk : s.kind 0 = .identifier w)
    (hf : s.finish.kind = .finish) (h : readQuotedInstant s = .ok (p, s')) :
    s.Takes [s.token 0, s.next.token 0, s.next.next.token 0, s.next.next.next.token 0] s' := by
  obtain ⟨hp, hc, -, hp', rfl⟩ := readQuotedInstant_eq_ok.1 h
  exact .cons_of_kind hk nofun (.cons_of_kind hp nofun (.cons_of_kind hc nofun
    (.cons_of_kind hp' nofun (.refl (by simpa using hf)))))

theorem readDate_eq_ok : readDate s = .ok (o, s') ↔ ∃ p d, readQuotedInstant s = .ok (p, s') ∧
    Literal.readDate p.2 = .ok d ∧
      o = .literal
        { (s.token 0).span with stop := max s'.lastStop (s.token 0).span.stop } (.date d) := by
  rw [readDate, peek_bind, bind_eq_ok]
  constructor
  · rintro ⟨⟨t, content⟩, s₁, hq, h⟩
    cases hd : Literal.readDate content with
    | error e =>
      simp only [hd] at h
      cases h
    | ok d =>
      simp only [hd] at h
      obtain ⟨rfl, rfl⟩ := spanFrom_pure_eq_ok.1 h
      exact ⟨_, d, hq, hd, rfl⟩
  · rintro ⟨p, d, hq, hd, rfl⟩
    refine ⟨p, s', hq, ?_⟩
    simp only [hd]
    rfl

theorem readTimestamp_eq_ok : readTimestamp g s = .ok (o, s') ↔
    ∃ p i, readQuotedInstant s = .ok (p, s') ∧
      Literal.readTimestamp (g.dialect.allows .naiveTimestamps) p.2 = .ok i ∧
        o = .literal { (s.token 0).span with stop := max s'.lastStop (s.token 0).span.stop }
          (.timestamp i) := by
  rw [readTimestamp, peek_bind, bind_eq_ok]
  constructor
  · rintro ⟨⟨t, content⟩, s₁, hq, h⟩
    cases hi : Literal.readTimestamp (g.dialect.allows .naiveTimestamps) content with
    | error e =>
      simp only [hi] at h
      cases h
    | ok i =>
      simp only [hi] at h
      obtain ⟨rfl, rfl⟩ := spanFrom_pure_eq_ok.1 h
      exact ⟨_, i, hq, hi, rfl⟩
  · rintro ⟨p, i, hq, hi, rfl⟩
    refine ⟨p, s', hq, ?_⟩
    simp only [hi]
    rfl

/-! ## Calls and intervals -/

theorem fits_commaList {x : Reader Operand} (hx : Fits Cursor.EndsOperand bare item x) :
    Fits (fun s => s.EndsOperand ∧ linkOf (.mark .comma) (s.kind 0) = none) bareAll item.CommaList
      (commaList x) := by
  refine hx.sequence rfl (fun s h => ?_) rfl fun a xs => ?_
  · by_cases hk : s.kind 0 = .mark .comma
    · exact Cursor.endsOperand_comma hk
    · rw [linkOf, if_neg hk] at h
      cases h
  · simp [bareAll_eq]

theorem ends_commaList (h : s.kind 0 = .mark .rightParen) :
    s.EndsOperand ∧ linkOf (.mark .comma) (s.kind 0) = none :=
  ⟨Cursor.endsOperand_rightParen h, by rw [h]; rfl⟩

theorem readCall_sound (hb : FitsBelow Cursor.EndsOperand bare inner below)
    (hk : s.kind 0 = .identifier w) (hw : g.dialect.rejects w = false → g.Calls w)
    (hf : s.finish.kind = .finish) (h : readCall g below w s = .ok (o, s')) :
    ∃ ts, s.Takes ts s' ∧ Grammar.Primary g inner ts o.bare := by
  obtain ⟨-, h⟩ | ⟨hr, h⟩ := ite_eq_ok.1 h
  · exact absurd h failHere_ne_ok
  have hc := hw (Bool.eq_false_iff.2 hr)
  rw [advance_bind] at h
  obtain ⟨hp, h⟩ := expect_bind_eq_ok.1 h
  obtain ⟨x, hx, h⟩ := deeper_eq_ok.1 h
  obtain ⟨item, level, hx⟩ := hb.of_reader hx
  rw [eat_bind] at h
  have hf' : s.next.next.finish.kind = .finish := by simpa using hf
  split at h
  · rename_i hp'
    obtain ⟨rfl, rfl⟩ := spanFrom_pure_eq_ok.1 h
    exact ⟨_, .cons_of_kind hk nofun (.cons_of_kind hp nofun (.cons_of_kind hp' nofun
      (.refl (by simpa using hf)))), .callEmpty hk hc hp (level ▸ rfl) hp'⟩
  · obtain ⟨args, s₁, hargs, h⟩ := bind_eq_ok.1 h
    obtain ⟨us, hus, hl⟩ := (fits_commaList hx).sound hf' hargs
    obtain ⟨hp', h⟩ := expectKind_bind_eq_ok.1 h
    obtain ⟨rfl, rfl⟩ := spanFrom_pure_eq_ok.1 h
    exact ⟨_, .cons_of_kind hk nofun (.cons_of_kind hp nofun (hus.append (.cons_of_kind hp' nofun
      (.refl (by simpa using hus.finish'))))), .call hk hc hp level hl hp'⟩

theorem readCall_empty {t p p' : Token} (hw : g.Calls w) (hp : p.kind = .mark .leftParen)
    (level : below.isSome) (hp' : p'.kind = .mark .rightParen) (h : s.Takes [t, p, p'] s') :
    ∃ o, readCall g below w s = .ok (o, s') ∧ o.bare = .call nowhere w [] := by
  obtain ⟨x, rfl⟩ := Option.isSome_iff_exists.1 level
  have h₁ := h.next_cons
  have h₂ := h₁.next_cons
  refine ⟨.call { (s.token 0).span with stop := max s'.lastStop (s.token 0).span.stop } w [], ?_,
    rfl⟩
  rw [readCall, if_neg (by rw [hw.allowed]; nofun), advance_bind]
  refine expect_bind_eq_ok.2 ⟨h₁.kind_cons.trans hp, deeper_eq_ok.2 ⟨x, rfl, ?_⟩⟩
  rw [eat_bind, if_pos (h₂.kind_cons.trans hp'), ← h₂.next_single]
  rfl

theorem readCall_complete {t p p' : Token} {us : List Token} {args : List Operand}
    {x : Reader Operand} (hx : Fits Cursor.EndsOperand bare item x)
    (hs : item.StartsWith (mayStart g))
    (hw : g.Calls w) (hp : p.kind = .mark .leftParen) (hargs : item.CommaList us args)
    (hp' : p'.kind = .mark .rightParen) (h : s.Takes (t :: p :: (us ++ [p'])) s') :
    ∃ o, readCall g (some x) w s = .ok (o, s') ∧ o.bare = .call nowhere w args := by
  have h₁ := h.next_cons
  obtain ⟨s₁, h₂, h₃⟩ := h₁.next_cons.split
  have hk := h₃.kind_cons.trans hp'
  have hne : s.next.next.kind 0 ≠ .mark .rightParen := by
    cases hargs with
    | intro head tail =>
      obtain ⟨t', us', rfl, ht'⟩ := hs head
      intro he
      rw [h₂.kind_cons.symm.trans he] at ht'
      cases ht'
  obtain ⟨os, hos, rfl⟩ := (fits_commaList hx).complete h₂ hargs (ends_commaList hk)
  refine ⟨.call { (s.token 0).span with stop := max s'.lastStop (s.token 0).span.stop } w os, ?_,
    rfl⟩
  rw [readCall, if_neg (by rw [hw.allowed]; nofun), advance_bind]
  refine expect_bind_eq_ok.2 ⟨h₁.kind_cons.trans hp, deeper_eq_ok.2 ⟨x, rfl, ?_⟩⟩
  rw [eat_bind, if_neg hne]
  exact bind_eq_ok.2 ⟨os, s₁, hos, expectKind_bind_eq_ok.2 ⟨hk, h₃.next_single ▸ rfl⟩⟩

theorem stringBound_bare (span : Span) (content : String) :
    (g.stringBound? span content).map bare = g.stringBound? nowhere content := by
  unfold Grammar.stringBound?
  split
  · rfl
  split
  · rfl
  split <;> rfl

theorem readBound_eq {x : Reader Operand} {content : String} (hk : s.kind 0 = .string content) :
    readBound g x s =
      (g.stringBound? (s.token 0).span content).elim x
        (fun bound => advance >>= fun _ => pure bound) s := by
  have hk : (s.token 0).kind = .string content := hk
  rw [readBound, peek_bind, hk, Grammar.stringBound?]
  by_cases hc : content = openMarker
  · simp only [if_pos hc]
    rfl
  simp only [if_neg hc]
  cases Literal.readTimestamp (g.dialect.allows .naiveTimestamps) content with
  | ok i => rfl
  | error e => cases Literal.readDate content <;> rfl

theorem readBound_string {x : Reader Operand} {content : String} (hk : s.kind 0 = .string content)
    (ho : g.stringBound? nowhere content = some o) :
    ∃ bound, readBound g x s = .ok (bound, s.next) ∧ bound.bare = o := by
  have hbare := stringBound_bare (g := g) (s.token 0).span content
  rw [ho] at hbare
  obtain ⟨bound, hb, rfl⟩ := Option.map_eq_some_iff.1 hbare
  refine ⟨bound, ?_, rfl⟩
  rw [readBound_eq hk, hb]
  exact advance_bind

theorem readBound_operand {x : Reader Operand}
    (h : ∀ content, s.kind 0 = .string content → g.stringBound? nowhere content = none) :
    readBound g x s = x s := by
  cases hk : (s.token 0).kind with
  | string content =>
    have hbare := stringBound_bare (g := g) (s.token 0).span content
    rw [h content hk] at hbare
    rw [readBound_eq hk, Option.map_eq_none_iff.1 hbare]
    rfl
  | _ =>
    rw [readBound, peek_bind, hk]

theorem fits_bound {x : Reader Operand} (hx : Fits Cursor.EndsOperand bare item x)
    (hs : item.StartsWith (mayStart g)) :
    Fits Cursor.EndsOperand bare (Grammar.Bound g item) (readBound g x) where
  sound {s o s'} hf h := by
    by_cases hb : ∃ content b, s.kind 0 = .string content ∧ g.stringBound? nowhere content = some b
    · obtain ⟨content, b, hk, hb⟩ := hb
      obtain ⟨bound, hr, rfl⟩ := readBound_string (x := x) hk hb
      rw [hr] at h
      cases h
      exact ⟨_, .cons_of_kind hk nofun (.refl (by simpa using hf)), .string hk hb⟩
    · have hno : ∀ content, s.kind 0 = .string content → g.stringBound? nowhere content = none :=
        fun content hk => Option.eq_none_iff_forall_not_mem.2 fun b hb' => hb ⟨content, b, hk, hb'⟩
      rw [readBound_operand hno] at h
      obtain ⟨ts, hts, ho⟩ := hx.sound hf h
      refine ⟨ts, hts, .operand ho fun t content ht hk => ?_⟩
      obtain ⟨us, rfl⟩ := List.head?_eq_some_iff.1 ht
      exact hno content (hts.kind_cons.trans hk)
  complete {s ts b s'} ht hb he := by
    cases hb with
    | string hk ho =>
      obtain ⟨bound, hr, rfl⟩ := readBound_string (x := x) (ht.kind_cons.trans hk) ho
      exact ⟨bound, ht.next_single ▸ hr, rfl⟩
    | operand h hno =>
      obtain ⟨t, us, rfl, -⟩ := hs h
      rw [readBound_operand fun content hk => hno t content rfl (ht.kind_cons.symm.trans hk)]
      exact hx.complete ht h he

theorem readInterval_sound (hb : FitsBelow Cursor.EndsOperand bare inner below)
    (hs : ∀ item, inner = some item → item.StartsWith (mayStart g)) (hk : s.kind 0 = .identifier w)
    (hw : sameWord w "INTERVAL" = true) (hf : s.finish.kind = .finish)
    (h : readInterval g below s = .ok (o, s')) :
    ∃ ts, s.Takes ts s' ∧ Grammar.Primary g inner ts o.bare := by
  rw [readInterval, advance_bind] at h
  obtain ⟨hp, h⟩ := expect_bind_eq_ok.1 h
  obtain ⟨x, hx, h⟩ := deeper_eq_ok.1 h
  obtain ⟨item, level, hx⟩ := hb.of_reader hx
  have hbound := fits_bound (g := g) hx (hs item level)
  obtain ⟨a, s₁, ha, h⟩ := bind_eq_ok.1 h
  obtain ⟨as, has, ha⟩ := hbound.sound (by simpa using hf) ha
  obtain ⟨hc, h⟩ := expect_bind_eq_ok.1 h
  obtain ⟨b, s₂, hb, h⟩ := bind_eq_ok.1 h
  obtain ⟨bs, hbs, hb⟩ := hbound.sound (by simpa using has.finish') hb
  obtain ⟨hp', h⟩ := expect_bind_eq_ok.1 h
  obtain ⟨rfl, rfl⟩ := spanFrom_pure_eq_ok.1 h
  exact ⟨_, .cons_of_kind hk nofun (.cons_of_kind hp nofun (has.append (.cons_of_kind hc nofun
    (hbs.append (.cons_of_kind hp' nofun (.refl (by simpa using hbs.finish'))))))),
    .interval hk hw hp level ha hc hb hp'⟩

theorem readInterval_complete {t p c p' : Token} {as bs : List Token} {a b : Operand}
    {x : Reader Operand} (hx : Fits Cursor.EndsOperand bare item x)
    (hs : item.StartsWith (mayStart g))
    (hp : p.kind = .mark .leftParen) (ha : Grammar.Bound g item as a) (hc : c.kind = .mark .comma)
    (hb : Grammar.Bound g item bs b) (hp' : p'.kind = .mark .rightParen)
    (h : s.Takes (t :: p :: (as ++ c :: (bs ++ [p']))) s') :
    ∃ o, readInterval g (some x) s = .ok (o, s') ∧ o.bare = .interval nowhere a b := by
  have hbound := fits_bound (g := g) hx hs
  have h₁ := h.next_cons
  obtain ⟨s₁, h₂, h₃⟩ := h₁.next_cons.split
  obtain ⟨s₂, h₄, h₅⟩ := h₃.next_cons.split
  have hkc := h₃.kind_cons.trans hc
  have hkp := h₅.kind_cons.trans hp'
  obtain ⟨a, hra, rfl⟩ := hbound.complete h₂ ha (Cursor.endsOperand_comma hkc)
  obtain ⟨b, hrb, rfl⟩ := hbound.complete h₄ hb (Cursor.endsOperand_rightParen hkp)
  refine ⟨.interval
    { (s.token 0).span with stop := max s₂.next.lastStop (s.token 0).span.stop } a b, ?_, rfl⟩
  rw [readInterval, advance_bind]
  exact expect_bind_eq_ok.2 ⟨h₁.kind_cons.trans hp, deeper_eq_ok.2 ⟨x, rfl, bind_eq_ok.2 ⟨a, s₁,
    hra, expect_bind_eq_ok.2 ⟨hkc, bind_eq_ok.2 ⟨b, s₂, hrb, expect_bind_eq_ok.2 ⟨hkp,
      spanFrom_pure_eq_ok.2 ⟨rfl, h₅.next_single⟩⟩⟩⟩⟩⟩⟩

/-! ## Groups -/

theorem readGroup_sound {m : Mark} (hb : FitsBelow Cursor.EndsOperand bare inner below)
    (hm : g.close? (s.kind 0) = some m) (hf : s.finish.kind = .finish)
    (h : readGroup g below m s = .ok (o, s')) :
    ∃ ts, s.Takes ts s' ∧ Grammar.Primary g inner ts o.bare := by
  rw [readGroup, advance_bind] at h
  obtain ⟨x, hx, h⟩ := deeper_eq_ok.1 h
  obtain ⟨a, s₁, ha, h⟩ := bind_eq_ok.1 h
  obtain ⟨item, level, hx⟩ := hb.of_reader hx
  obtain ⟨as, has, ha⟩ := hx.sound (by simpa using hf) ha
  obtain ⟨hp, h⟩ := expect_bind_eq_ok.1 h
  obtain ⟨rfl, rfl⟩ := spanFrom_pure_eq_ok.1 h
  rw [bare_withSpan]
  have hne : s.kind 0 ≠ .finish := TokenKind.ne_finish hm rfl
  exact ⟨_, (has.append (.cons_of_kind hp nofun (.refl (by simpa using has.finish')))).cons_next
    hf hne, .group hm level ha hp⟩

theorem readGroup_complete {m : Mark} {t t' : Token} {us : List Token}
    {x : Reader Operand} (hx : Fits Cursor.EndsOperand bare item x) (hm : g.close? t.kind = some m)
    (ho : item us o) (ht' : t'.kind = .mark m) (h : s.Takes (t :: (us ++ [t'])) s') :
    ∃ o', readGroup g (some x) m s = .ok (o', s') ∧ o'.bare = o := by
  obtain ⟨s₁, h₁, h₂⟩ := h.next_cons.split
  have hk := h₂.kind_cons.trans ht'
  obtain ⟨a, ha, rfl⟩ := hx.complete h₁ ho (g.endsOperand_of_close hm hk)
  refine ⟨a.withSpan { (s.token 0).span with stop := max s₁.next.lastStop (s.token 0).span.stop },
    ?_, bare_withSpan _ _⟩
  rw [readGroup, advance_bind]
  exact deeper_eq_ok.2 ⟨x, rfl, bind_eq_ok.2 ⟨a, s₁, ha, expect_bind_eq_ok.2 ⟨hk,
    spanFrom_pure_eq_ok.2 ⟨rfl, h₂.next_single⟩⟩⟩⟩

/-! ## Words -/

/-- What stands behind the type of a geometry goes on with one. -/
theorem goesOn_of_shapeRest {limit : Nat} (hr : Grammar.ShapeRest limit ts) (h : s.Takes ts s') :
    goesOnAsGeometry (s.kind 0) = true := by
  have htag {t : Token} (ht : Grammar.IsTag t) : goesOnAsGeometry t.kind = true := by
    obtain ⟨w, hk, hw, -⟩ := ht
    rw [hk]
    exact hw
  cases hr with
  | @empty tags t w htags ht hw =>
    cases tags with
    | cons t' tags => exact h.kind_cons ▸ htag (htags t' (List.mem_cons_self ..))
    | nil =>
      rw [h.kind_cons, ht]
      show isGeometryTag w = true
      simp [isGeometryTag, sameWord_comm _ w, hw]
  | @full tags ts t htags ht hc =>
    cases tags with
    | cons t' tags => exact h.kind_cons ▸ htag (htags t' (List.mem_cons_self ..))
    | nil =>
      rw [h.kind_cons, ht]
      rfl

theorem atSrid_iff : atSrid s = true ↔ s.next.kind 0 = .mark .equal ∧
    (∃ n, s.next.next.kind 0 = .number n) ∧ s.next.next.next.kind 0 = .mark .semicolon := by
  rw [atSrid, Cursor.kind_next, Cursor.kind_next, Cursor.kind_next, Cursor.kind_next,
    Cursor.kind_next, Cursor.kind_next]
  split
  · rename_i h1 h2 h3
    exact ⟨fun _ => ⟨h1, ⟨_, h2⟩, h3⟩, fun _ => rfl⟩
  · rename_i hno
    exact ⟨nofun, fun ⟨h1, ⟨n, h2⟩, h3⟩ => absurd h3 (hno n h1 h2)⟩

def atGeometry (s : Cursor) : Bool :=
  match s.kind 0 with
  | .identifier word => isGeometryWord word && goesOnAsGeometry (s.kind 1)
  | _ => false

theorem atGeometry_iff : atGeometry s = true ↔
    ∃ w, s.kind 0 = .identifier w ∧ isGeometryWord w = true ∧
      goesOnAsGeometry (s.next.kind 0) = true := by
  rw [atGeometry, Cursor.kind_next]
  cases s.kind 0 with
  | identifier w => simp
  | _ => simp

theorem atGeometry_of_shape {shape : Geometry} (h : s.Takes ts s') (hs : g.Shape ts shape) :
    atGeometry s = true := by
  cases hs with
  | intro ht hw hr =>
    exact atGeometry_iff.2 ⟨_, h.kind_cons.trans ht, hw, goesOn_of_shapeRest hr h.next_cons⟩

theorem readWithSrid_eq_ok : readWithSrid g s = .ok (o, s') ↔
    ∃ n srid inner, s.next.next.kind 0 = .number n ∧ readInt64? n.toList = some srid ∧
      atGeometry s.next.next.next.next = true ∧
        readGeometry g (some srid) s.next.next.next.next = .ok (inner, s') ∧
          o = inner.withSpan { (s.token 0).span with
            stop := max s'.lastStop (s.token 0).span.stop } := by
  rw [readWithSrid, advance_bind, advance_bind, advance_bind]
  show (match s.next.next.kind 0 with
    | .number numeral => _
    | _ => _ : Reader Operand) s.next.next.next = _ ↔ _
  cases s.next.next.kind 0 with
  | number n =>
    cases hn : readInt64? n.toList with
    | none =>
      simp only [hn]
      exact ⟨nofun, fun ⟨_, _, _, h, h', _⟩ => by cases h; rw [hn] at h'; cases h'⟩
    | some srid =>
      simp only [hn]
      rw [advance_bind, get_bind]
      show (if atGeometry s.next.next.next.next = true then _ else _ : Reader Operand)
        s.next.next.next.next = _ ↔ _
      rw [ite_eq_ok]
      constructor
      · rintro (⟨hg, h⟩ | ⟨-, h⟩)
        · obtain ⟨inner, s₁, hr, h⟩ := bind_eq_ok.1 h
          obtain ⟨rfl, rfl⟩ := spanFrom_pure_eq_ok.1 h
          exact ⟨n, srid, inner, rfl, hn, hg, hr, rfl⟩
        · exact absurd h failHere_ne_ok
      · rintro ⟨_, srid', inner, h, hn', hg, hr, rfl⟩
        cases h
        obtain rfl : srid = srid' := Option.some.inj (hn.symm.trans hn')
        exact .inl ⟨hg, bind_eq_ok.2 ⟨inner, s', hr, spanFrom_pure_eq_ok.2 ⟨rfl, rfl⟩⟩⟩
  | _ => exact ⟨nofun, fun ⟨_, _, _, h, _⟩ => nomatch h⟩

/-- The words of literals with parentheses differ from the types of geometries. -/
theorem noGeometry_of_sameWord {w name : String} (h : sameWord w name = true)
    (hn : isGeometryWord name = false) : isGeometryWord w = false := by
  have hl : w.toLower = name.toLower := by simpa [sameWord] using h
  unfold isGeometryWord sameWord at *
  rw [hl]
  exact hn

theorem sameWord_of_sameWord {w name other : String} (h : sameWord w name = true) :
    sameWord w other = sameWord name other := by
  have hl : w.toLower = name.toLower := by simpa [sameWord] using h
  rw [sameWord, hl, sameWord]

theorem readWord_sound (hb : FitsBelow Cursor.EndsOperand bare inner below)
    (hs : ∀ item, inner = some item → item.StartsWith (mayStart g)) (hk : s.kind 0 = .identifier w)
    (hf : s.finish.kind = .finish) (h : readWord g below w s = .ok (o, s')) :
    ∃ ts, s.Takes ts s' ∧ Grammar.Primary g inner ts o.bare := by
  rw [readWord, get_bind] at h
  obtain ⟨hc, h⟩ | ⟨-, h⟩ := ite_eq_ok.1 h
  · obtain ⟨hw, hc⟩ := Bool.and_eq_true_iff.1 hc
    obtain ⟨he, -, hsemi⟩ := atSrid_iff.1 hc
    obtain ⟨n, srid, a, hn, hsrid, hg, hr, rfl⟩ := readWithSrid_eq_ok.1 h
    obtain ⟨w', hk', hw', -⟩ := atGeometry_iff.1 hg
    obtain ⟨ts, shape, hts, hshape, ha⟩ := readGeometry_sound (by simpa using hf) hk' hw' hr
    rw [bare_withSpan, ha]
    exact ⟨_, .cons_of_kind hk nofun (.cons_of_kind he nofun (.cons_of_kind hn nofun
      (.cons_of_kind hsemi nofun hts))), .srid hk hw he hn hsrid hsemi hshape⟩
  obtain ⟨hc, h⟩ | ⟨hgeo, h⟩ := ite_eq_ok.1 h
  · obtain ⟨hw, -⟩ := Bool.and_eq_true_iff.1 hc
    obtain ⟨ts, shape, hts, hshape, ha⟩ := readGeometry_sound hf hk hw h
    rw [ha]
    exact ⟨ts, hts, .geometry hshape⟩
  obtain ⟨-, h⟩ | ⟨hp, h⟩ := ite_eq_ok.1 h
  · rw [advance_bind] at h
    obtain ⟨rfl, rfl⟩ := pure_eq_ok.1 h
    exact ⟨_, .cons_of_kind hk nofun (.refl (by simpa using hf)), .word hk⟩
  obtain ⟨hw, h⟩ | ⟨henv, h⟩ := ite_eq_ok.1 h
  · exact readEnvelope_sound hf hk hw h
  obtain ⟨hw, h⟩ | ⟨hdate, h⟩ := ite_eq_ok.1 h
  · obtain ⟨p, d, hq, hd, rfl⟩ := readDate_eq_ok.1 h
    obtain ⟨hp, hc, -, hp', -⟩ := readQuotedInstant_eq_ok.1 hq
    exact ⟨_, takes_quotedInstant hk hf hq, .date hk hw hp hc hd hp'⟩
  obtain ⟨hw, h⟩ | ⟨htime, h⟩ := ite_eq_ok.1 h
  · obtain ⟨p, i, hq, hi, rfl⟩ := readTimestamp_eq_ok.1 h
    obtain ⟨hp, hc, -, hp', -⟩ := readQuotedInstant_eq_ok.1 hq
    exact ⟨_, takes_quotedInstant hk hf hq, .timestamp hk hw hp hc hi hp'⟩
  obtain ⟨hw, h⟩ | ⟨hint, h⟩ := ite_eq_ok.1 h
  · exact readInterval_sound hb hs hk hw hf h
  · refine readCall_sound hb hk (fun hr => ?_) hf h
    have hp : s.kind 1 = .mark .leftParen := Decidable.not_not.1 hp
    simp only [hp, goesOnAsGeometry, Bool.and_true, Bool.not_eq_true] at hgeo
    simp only [Bool.not_eq_true] at henv hdate htime hint
    exact ⟨hgeo, henv, hdate, htime, hint, hr⟩

theorem readWord_eq (hw : isGeometryWord w = false) (hp : s.next.kind 0 = .mark .leftParen) :
    readWord g below w s =
      (if sameWord w "ENVELOPE" then readEnvelope
      else if sameWord w "DATE" then readDate
      else if sameWord w "TIMESTAMP" then readTimestamp g
      else if sameWord w "INTERVAL" then readInterval g below
      else readCall g below w) s := by
  have hsrid : ¬ atSrid s = true := fun h => by
    have := (atSrid_iff.1 h).1
    rw [hp] at this
    cases this
  rw [readWord, get_bind, if_neg fun h => hsrid (Bool.and_eq_true_iff.1 h).2, hw,
    if_neg (by simp), if_neg (by rw [← Cursor.kind_next, hp]; simp)]

theorem takes_three {t₁ t₂ t₃ t₄ : Token} (h : s.Takes [t₁, t₂, t₃, t₄] s') :
    s.next.kind 0 = t₂.kind ∧ s.next.next.kind 0 = t₃.kind ∧ s.next.next.next.kind 0 = t₄.kind ∧
      s' = s.next.next.next.next :=
  ⟨h.next_cons.kind_cons, h.next_cons.next_cons.kind_cons,
    h.next_cons.next_cons.next_cons.kind_cons, h.next_cons.next_cons.next_cons.next_single⟩

/-! ## All factors without signs -/

/-- A word is looked at together with what follows it. -/
theorem readPrimary_word (hk : s.kind 0 = .identifier w) :
    readPrimary g below s = readWord g below w s := by
  have hk : (s.token 0).kind = .identifier w := hk
  rw [readPrimary, peek_bind, hk]

theorem readPrimary_group {m : Mark} (hm : g.close? (s.kind 0) = some m) :
    readPrimary g below s = readGroup g below m s := by
  have hm : g.close? (s.token 0).kind = some m := hm
  rw [readPrimary, peek_bind]
  generalize (s.token 0).kind = k at hm
  unfold Grammar.close? at hm
  split at hm
  · cases hm
    rfl
  · split at hm
    · rename_i hallow
      cases hm
      show (if g.dialect.allows .bracketGrouping = true then _ else _ : Reader Operand) s = _
      rw [if_pos hallow]
    · cases hm
  · cases hm

/-- The operand that a single token is, words and numbers aside. -/
def atom? (g : Grammar) (span : Span) : TokenKind → Option Operand
  | .string content => some (.literal span (stringLiteral g content))
  | .keyword .isTrue => some (.literal span (.boolean true))
  | .keyword .isFalse => some (.literal span (.boolean false))
  | .quotedIdentifier name => some (.property span (.ofQuoted name span))
  | _ => none

theorem readPrimary_atom (h : atom? g (s.token 0).span (s.kind 0) = some o) :
    readPrimary g below s = .ok (o, s.next) := by
  have h : atom? g (s.token 0).span (s.token 0).kind = some o := h
  rw [readPrimary, peek_bind]
  generalize (s.token 0).kind = k at h
  unfold atom? at h
  split at h
  · cases h
    exact advance_bind
  · cases h
    exact advance_bind
  · cases h
    exact advance_bind
  · cases h
    exact advance_bind
  · cases h

section Words

variable (hk : s.kind 0 = .identifier w) (hp : s.next.kind 0 = .mark .leftParen)

include hk hp

theorem readPrimary_envelope (hw : sameWord w "ENVELOPE" = true) :
    readPrimary g below s = readEnvelope s := by
  rw [readPrimary_word hk, readWord_eq (noGeometry_of_sameWord hw (by decide +kernel)) hp,
    if_pos hw]

theorem readPrimary_date (hw : sameWord w "DATE" = true) : readPrimary g below s = readDate s := by
  have henv : sameWord w "ENVELOPE" = false := (sameWord_of_sameWord hw).trans (by decide +kernel)
  rw [readPrimary_word hk, readWord_eq (noGeometry_of_sameWord hw (by decide +kernel)) hp,
    if_neg (by simp [henv]), if_pos hw]

theorem readPrimary_timestamp (hw : sameWord w "TIMESTAMP" = true) :
    readPrimary g below s = readTimestamp g s := by
  have henv : sameWord w "ENVELOPE" = false := (sameWord_of_sameWord hw).trans (by decide +kernel)
  have hdate : sameWord w "DATE" = false := (sameWord_of_sameWord hw).trans (by decide +kernel)
  rw [readPrimary_word hk, readWord_eq (noGeometry_of_sameWord hw (by decide +kernel)) hp,
    if_neg (by simp [henv]), if_neg (by simp [hdate]), if_pos hw]

theorem readPrimary_interval (hw : sameWord w "INTERVAL" = true) :
    readPrimary g below s = readInterval g below s := by
  have henv : sameWord w "ENVELOPE" = false := (sameWord_of_sameWord hw).trans (by decide +kernel)
  have hdate : sameWord w "DATE" = false := (sameWord_of_sameWord hw).trans (by decide +kernel)
  have htime : sameWord w "TIMESTAMP" = false := (sameWord_of_sameWord hw).trans (by decide +kernel)
  rw [readPrimary_word hk, readWord_eq (noGeometry_of_sameWord hw (by decide +kernel)) hp,
    if_neg (by simp [henv]), if_neg (by simp [hdate]), if_neg (by simp [htime]), if_pos hw]

theorem readPrimary_call (hc : g.Calls w) : readPrimary g below s = readCall g below w s := by
  rw [readPrimary_word hk, readWord_eq hc.noGeometry hp, if_neg (by simp [hc.noEnvelope]),
    if_neg (by simp [hc.noDate]), if_neg (by simp [hc.noTimestamp]),
    if_neg (by simp [hc.noInterval])]

end Words

theorem readPrimary_sound (hb : FitsBelow Cursor.EndsOperand bare inner below)
    (hs : ∀ item, inner = some item → item.StartsWith (mayStart g)) (hf : s.finish.kind = .finish)
    (h : readPrimary g below s = .ok (o, s')) :
    ∃ ts, s.Takes ts s' ∧ Grammar.Primary g inner ts o.bare := by
  have hrefl : s.next.Takes [] s.next := .refl (by simpa using hf)
  by_cases hm : ∃ m, g.close? (s.kind 0) = some m
  · obtain ⟨m, hm⟩ := hm
    rw [readPrimary_group hm] at h
    exact readGroup_sound hb hm hf h
  cases hk : s.kind 0 with
  | identifier w =>
    rw [readPrimary_word hk] at h
    exact readWord_sound hb hs hk hf h
  | number w =>
    have hk' : (s.token 0).kind = .number w := hk
    rw [readPrimary, peek_bind, hk'] at h
    obtain ⟨l, s₁, hl, h⟩ := bind_eq_ok.1 h
    obtain ⟨w', hw', hl', rfl⟩ := readNumber_eq_ok.1 hl
    obtain ⟨rfl, rfl⟩ := pure_eq_ok.1 h
    exact ⟨_, .cons_of_kind hw' nofun hrefl, .number hw' hl'⟩
  | string content =>
    rw [readPrimary_atom (by rw [hk]; rfl)] at h
    cases h
    exact ⟨_, .cons_of_kind hk nofun hrefl, .string hk⟩
  | quotedIdentifier name =>
    rw [readPrimary_atom (by rw [hk]; rfl)] at h
    cases h
    exact ⟨_, .cons_of_kind hk nofun hrefl, .quoted hk⟩
  | keyword k =>
    cases k with
    | isTrue =>
      rw [readPrimary_atom (by rw [hk]; rfl)] at h
      cases h
      exact ⟨_, .cons_of_kind hk nofun hrefl, .boolean true hk⟩
    | isFalse =>
      rw [readPrimary_atom (by rw [hk]; rfl)] at h
      cases h
      exact ⟨_, .cons_of_kind hk nofun hrefl, .boolean false hk⟩
    | _ =>
      have hk' : (s.token 0).kind = _ := hk
      rw [readPrimary, peek_bind, hk'] at h
      cases h
  | mark m =>
    have hk' : (s.token 0).kind = .mark m := hk
    rw [readPrimary, peek_bind, hk'] at h
    cases m with
    | leftParen => exact absurd ⟨_, by rw [hk]; rfl⟩ hm
    | leftBracket =>
      obtain ⟨hallow, -⟩ | ⟨-, h⟩ := ite_eq_ok.1 h
      · exact absurd ⟨.rightBracket, by rw [hk, Grammar.close?, if_pos hallow]⟩ hm
      · exact absurd h failHere_ne_ok
    | _ => cases h
  | finish =>
    have hk' : (s.token 0).kind = .finish := hk
    rw [readPrimary, peek_bind, hk'] at h
    cases h

theorem readPrimary_complete (hb : FitsBelow Cursor.EndsOperand bare inner below)
    (hs : ∀ item, inner = some item → item.StartsWith (mayStart g)) (h : s.Takes ts s')
    (ho : Grammar.Primary g inner ts o) (he : s'.EndsFactor) :
    ∃ a, readPrimary g below s = .ok (a, s') ∧ a.bare = o := by
  cases ho with
  | @number t w l ht hl =>
    have hk : (s.token 0).kind = .number w := h.kind_cons.trans ht
    refine ⟨.literal (s.token 0).span l, ?_, rfl⟩
    rw [readPrimary, peek_bind, hk]
    exact bind_eq_ok.2 ⟨l, s', readNumber_eq_ok.2 ⟨w, hk, hl, h.next_single⟩, rfl⟩
  | @string t content ht =>
    exact ⟨_, h.next_single ▸ readPrimary_atom (by rw [h.kind_cons, ht]; rfl), rfl⟩
  | @boolean t b ht =>
    refine ⟨_, h.next_single ▸ readPrimary_atom
      (o := .literal (s.token 0).span (.boolean b)) ?_, rfl⟩
    rw [h.kind_cons, ht]
    cases b <;> rfl
  | group ht level ho ht' =>
    obtain ⟨x, rfl, hx⟩ := hb.of_category level
    rw [readPrimary_group (h.kind_cons ▸ ht)]
    exact readGroup_complete hx ht ho ht' h
  | @quoted t name ht =>
    exact ⟨_, h.next_single ▸ readPrimary_atom (by rw [h.kind_cons, ht]; rfl), rfl⟩
  | @word t w ht =>
    rw [readPrimary_word (h.kind_cons.trans ht)]
    refine ⟨.property (s.token 0).span (.ofWord w (s.token 0).span), ?_, rfl⟩
    have he : s.next.EndsFactor := h.next_single ▸ he
    rw [readWord, get_bind, he.atSrid_eq, ← Cursor.kind_next, he.noGeometry, Bool.and_false,
      Bool.and_false, if_neg nofun, if_neg nofun, if_pos he.noParen, h.next_single]
    exact advance_bind
  | callEmpty ht hc hp level hp' =>
    rw [readPrimary_call (h.kind_cons.trans ht) (h.next_cons.kind_cons.trans hp) hc]
    exact readCall_empty hc hp (hb.isSome_eq ▸ level) hp' h
  | call ht hc hp level hargs hp' =>
    obtain ⟨x, rfl, hx⟩ := hb.of_category level
    rw [readPrimary_call (h.kind_cons.trans ht) (h.next_cons.kind_cons.trans hp) hc]
    exact readCall_complete hx (hs _ level) hc hp hargs hp' h
  | envelope ht hw hp h₁ hc₁ h₂ hc₂ h₃ hc₃ h₄ hp' =>
    rw [readPrimary_envelope (h.kind_cons.trans ht) (h.next_cons.kind_cons.trans hp) hw]
    exact readEnvelope_complete hp h₁ hc₁ h₂ hc₂ h₃ hc₃ h₄ hp' h
  | @date t p q p' w content d ht hw hp hc hd hp' =>
    obtain ⟨h₁, h₂, h₃, rfl⟩ := takes_three h
    rw [readPrimary_date (h.kind_cons.trans ht) (h₁.trans hp) hw]
    exact ⟨_, readDate_eq_ok.2 ⟨(_, content), d, readQuotedInstant_eq_ok.2
      ⟨h₁.trans hp, h₂.trans hc, rfl, h₃.trans hp', rfl⟩, hd, rfl⟩, rfl⟩
  | @timestamp t p q p' w content i ht hw hp hc hi hp' =>
    obtain ⟨h₁, h₂, h₃, rfl⟩ := takes_three h
    rw [readPrimary_timestamp (h.kind_cons.trans ht) (h₁.trans hp) hw]
    exact ⟨_, readTimestamp_eq_ok.2 ⟨(_, content), i, readQuotedInstant_eq_ok.2
      ⟨h₁.trans hp, h₂.trans hc, rfl, h₃.trans hp', rfl⟩, hi, rfl⟩, rfl⟩
  | @interval t p c p' as bs w a b item ht hw hp level ha hc hb' hp' =>
    obtain ⟨x, rfl, hx⟩ := hb.of_category level
    rw [readPrimary_interval (h.kind_cons.trans ht) (h.next_cons.kind_cons.trans hp) hw]
    exact readInterval_complete hx (hs _ level) hp ha hc hb' hp' h
  | geometry hshape =>
    obtain ⟨w, hk, hw, hgo⟩ := atGeometry_iff.1 (atGeometry_of_shape h hshape)
    have hsrid : ¬ atSrid s = true := fun hc => by
      rw [(atSrid_iff.1 hc).1] at hgo
      cases hgo
    rw [readPrimary_word hk, readWord, get_bind,
      if_neg fun hc => hsrid (Bool.and_eq_true_iff.1 hc).2,
      if_pos (by rw [hw, ← Cursor.kind_next, hgo]; rfl)]
    exact readGeometry_complete h hshape
  | @srid t e n c us w numeral srid shape ht hw he' hn hsrid hc hshape =>
    have h₁ := h.next_cons
    have h₂ := h₁.next_cons
    have h₃ := h₂.next_cons
    obtain ⟨a, hr, ha⟩ := @readGeometry_complete _ _ _ _ (some srid) _ h₃.next_cons hshape
    have hat : atSrid s = true := atSrid_iff.2
      ⟨h₁.kind_cons.trans he', ⟨_, h₂.kind_cons.trans hn⟩, h₃.kind_cons.trans hc⟩
    rw [readPrimary_word (h.kind_cons.trans ht), readWord, get_bind,
      if_pos (Bool.and_eq_true_iff.2 ⟨hw, hat⟩)]
    exact ⟨_, readWithSrid_eq_ok.2 ⟨numeral, srid, a, h₂.kind_cons.trans hn, hsrid,
      atGeometry_of_shape h₃.next_cons hshape, hr, rfl⟩, (bare_withSpan _ _).trans ha⟩

/-- Factors without signs are read by the rule, given a reader of the operands inside them. -/
theorem fits_primary (hb : FitsBelow Cursor.EndsOperand bare inner below)
    (hs : ∀ item, inner = some item → item.StartsWith (mayStart g)) :
    Fits Cursor.EndsFactor bare (Grammar.Primary g inner) (readPrimary g below) :=
  ⟨readPrimary_sound hb hs, readPrimary_complete hb hs⟩

end Operand

end FeatureFilter
