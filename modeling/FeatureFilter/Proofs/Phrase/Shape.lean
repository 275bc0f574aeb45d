import FeatureFilter.Proofs.Phrase.Meaning
import FeatureFilter.Proofs.Syntax.Shapes

/-!
# Geometries among the tokens

The parser passes over the tokens of a geometry by its parentheses and hands their text to the
reader of geometries. `Balanced` says how deep the parentheses of pieces are nested; the pieces of a
geometry are a word and balanced parentheses, and what is handed on is the text of the geometry.
-/

namespace FeatureFilter

/-! ## Slices -/

theorem Grammar.byteSlice_place (g : Grammar) {ps qs : List Piece}
    (h : charsOf (ps ++ qs) <:+ g.source.toList) :
    byteSlice g.source.toList (g.place (ps ++ qs)).offset (g.place qs).offset =
      some (charsOf ps) := by
  rw [g.place_append h, Position.offset_after]
  obtain ⟨pre, hpre⟩ := h
  have hl : g.source.toList.length - (charsOf (ps ++ qs)).length = pre.length := by
    rw [← hpre]
    simp
  have hp : (g.place (ps ++ qs)).offset = Wkt.byteLength pre := by
    rw [Grammar.place, hl, ← hpre, List.take_left, Position.offset_after]
    exact Nat.zero_add _
  rw [hp, ← hpre, charsOf_append]
  exact byteSlice_append ..

/-! ## Balanced pieces -/

/-- Pieces whose parentheses are closed, nested so many levels deep. -/
inductive Balanced : Nat → List Piece → Prop where
  | nil : Balanced 0 []
  | blank {n : Nat} {ps : List Piece} (h : Balanced n ps) : Balanced n (.blank :: ps)
  | lexeme {n : Nat} {ps : List Piece} {kind : TokenKind} (w : List Char)
    (hl : kind ≠ .mark .leftParen) (hr : kind ≠ .mark .rightParen) (hf : kind ≠ .finish)
    (h : Balanced n ps) : Balanced n (.lexeme kind w :: ps)
  | group {m n : Nat} {ps qs : List Piece} (h : Balanced m ps) (hq : Balanced n qs) :
    Balanced (max (m + 1) n) (groupedPieces ps ++ qs)

namespace Balanced

variable {m n : Nat} {ps qs : List Piece}

theorem append (h : Balanced m ps) (hq : Balanced n qs) : Balanced (max m n) (ps ++ qs) := by
  induction h with
  | nil => simpa using hq
  | blank _ ih => exact .blank ih
  | lexeme w hl hr hf _ ih => exact .lexeme w hl hr hf ih
  | group h _ _ ih =>
    rw [List.append_assoc, Nat.max_assoc]
    exact .group h ih

theorem grouped (h : Balanced m ps) : Balanced (m + 1) (groupedPieces ps) := by
  have := h.group .nil
  simpa using this

theorem number (w : List Char) : Balanced 0 [.number w] :=
  .lexeme w nofun nofun nofun .nil

theorem word (w : List Char) : Balanced 0 [.word w] := .lexeme w nofun nofun nofun .nil

theorem mark {m : Mark} (hl : m ≠ .leftParen) (hr : m ≠ .rightParen) (h : Balanced n ps) :
    Balanced n (.mark m :: ps) :=
  .lexeme _ (fun he => hl (TokenKind.mark.inj he)) (fun he => hr (TokenKind.mark.inj he)) nofun h

theorem joined {ns : List Nat} {pss : List (List Piece)} (h : List.Forall₂ Balanced ns pss) :
    Balanced (ns.foldr max 0) (joinedPieces [.mark .comma] pss) := by
  induction h with
  | nil => exact .nil
  | @cons n ps ns pss h hs ih =>
    cases hs with
    | nil =>
      rw [List.foldr_cons, List.foldr_nil, Nat.max_zero]
      exact h
    | cons h' hs =>
      rw [joinedPieces, List.append_assoc, List.foldr_cons]
      exact h.append (.mark (by decide) (by decide) ih)

theorem list {ns : List Nat} {pss : List (List Piece)} (h : List.Forall₂ Balanced ns pss) :
    Balanced (listNesting ns) (listPieces pss) := (joined h).grouped

end Balanced

namespace Operand

variable {limit depth n : Nat} {fin : Token} {ps qs : List Piece}

theorem closing_leftParen (p : Position) :
    closing limit fin depth (tokensAt p (.mark .leftParen :: ps)) =
      if limit < depth + 1 then
        .error (Reader.mismatch ⟨.mark .leftParen, String.ofList Mark.leftParen.text.toList,
          .between p (p.after Mark.leftParen.text.toList)⟩ "shallower nesting" none)
      else closing limit fin (depth + 1) (tokensAt (p.after Mark.leftParen.text.toList) ps) := by
  rw [Piece.mark, tokensAt, closing]

theorem closing_rightParen (hd : 1 ≤ depth) (p : Position) :
    closing limit fin (depth + 1) (tokensAt p (.mark .rightParen :: ps)) =
      closing limit fin depth (tokensAt (p.after Mark.rightParen.text.toList) ps) := by
  rw [Piece.mark, tokensAt, closing]
  simp only [if_neg (show ¬ depth + 1 ≤ 1 by omega), Nat.add_sub_cancel]

theorem closing_last (p : Position) :
    closing limit fin 1 (tokensAt p (.mark .rightParen :: ps)) =
      .ok ((p.after Mark.rightParen.text.toList).offset,
        tokensAt (p.after Mark.rightParen.text.toList) ps) := by
  rw [Piece.mark, tokensAt, closing]
  rfl

theorem closing_lexeme {kind : TokenKind} {w : List Char} (hl : kind ≠ .mark .leftParen)
    (hr : kind ≠ .mark .rightParen) (hf : kind ≠ .finish) (p : Position) :
    closing limit fin depth (tokensAt p (.lexeme kind w :: ps)) =
      closing limit fin depth (tokensAt (p.after w) ps) := by
  rw [tokensAt, closing]
  split
  · exact absurd ‹_› hl
  · exact absurd ‹_› hr
  · exact absurd ‹_› hf
  · rfl

/-- The reader goes on as another one does where pieces fit, and says elsewhere that what stands
behind the position is nested too deep. -/
def GoesOn (fits : Prop) (p : Position) (r r' : Except SyntaxError (Nat × List Token)) : Prop :=
  (fits → r = r') ∧ (¬ fits → ∃ e, r = .error e ∧ e.verdict = .deep ∧ p.offset ≤ e.span.start)

theorem GoesOn.earlier {fits : Prop} {p q : Position} {r r' : Except SyntaxError (Nat × List Token)}
    (h : GoesOn fits q r r') (hpq : p.offset ≤ q.offset) : GoesOn fits p r r' := by
  refine ⟨h.1, fun hf => ?_⟩
  obtain ⟨e, he, hv, hq⟩ := h.2 hf
  exact ⟨e, he, hv, hpq.trans hq⟩

/-- One stretch of pieces behind another one. -/
theorem GoesOn.trans {fits fits' : Prop} {p q : Position}
    {r r' r'' : Except SyntaxError (Nat × List Token)} (h : GoesOn fits p r r')
    (h' : GoesOn fits' q r' r'') (hpq : p.offset ≤ q.offset) : GoesOn (fits ∧ fits') p r r'' := by
  by_cases hf : fits
  · rw [h.1 hf]
    refine ⟨fun hb => h'.1 hb.2, fun hb => ?_⟩
    exact (h'.earlier hpq).2 fun hf' => hb ⟨hf, hf'⟩
  · exact ⟨fun hb => absurd hb.1 hf, fun _ => h.2 hf⟩

variable (limit fin) in
/-- Balanced pieces are passed over unless they are nested too deep. -/
theorem closing_balanced (h : Balanced n ps) (hd : 1 ≤ depth) (p : Position) (qs : List Piece) :
    GoesOn (n = 0 ∨ depth + n ≤ limit) p (closing limit fin depth (tokensAt p (ps ++ qs)))
      (closing limit fin depth (tokensAt (p.after (charsOf ps)) qs)) := by
  induction h generalizing depth p qs with
  | nil => exact ⟨fun _ => rfl, fun h => absurd (.inl rfl) h⟩
  | blank _ ih =>
    refine (ih hd (p.advance ' ') qs).earlier ?_
    rw [Position.offset_advance]
    exact Nat.le_add_right ..
  | @lexeme n ps kind w hl hr hf _ ih =>
    rw [List.cons_append, closing_lexeme hl hr hf, charsOf_cons, Position.after_append]
    refine (ih hd (p.after w) qs).earlier ?_
    rw [Position.offset_after]
    exact Nat.le_add_right ..
  | @group m n ps qs' h _ ih ihq =>
    have hp : groupedPieces ps ++ qs' ++ qs =
        .mark .leftParen :: (ps ++ (.mark .rightParen :: (qs' ++ qs))) := by
      simp [groupedPieces]
    have hafter : p.after (charsOf (groupedPieces ps ++ qs')) =
        (((p.after Mark.leftParen.text.toList).after (charsOf ps)).after
          Mark.rightParen.text.toList).after (charsOf qs') := by
      simp only [groupedPieces, ← Position.after_append, charsOf_append, charsOf_mark,
        List.nil_append, List.cons_append, List.append_assoc]
    rw [hp, hafter, closing_leftParen]
    by_cases hlimit : limit < depth + 1
    · rw [if_pos hlimit]
      exact ⟨fun hfit => by omega, fun _ => ⟨_, rfl, rfl, Nat.le_refl _⟩⟩
    · rw [if_neg hlimit]
      have hin := ih (show 1 ≤ depth + 1 by omega) (p.after Mark.leftParen.text.toList)
        (.mark .rightParen :: (qs' ++ qs))
      rw [closing_rightParen hd] at hin
      have hq := ihq hd (((p.after Mark.leftParen.text.toList).after (charsOf ps)).after
        Mark.rightParen.text.toList) qs
      have hfits : max (m + 1) n = 0 ∨ depth + max (m + 1) n ≤ limit ↔
          (m = 0 ∨ depth + 1 + m ≤ limit) ∧ (n = 0 ∨ depth + n ≤ limit) := by omega
      rw [hfits]
      have hle : (p.after Mark.leftParen.text.toList).offset ≤
          (((p.after Mark.leftParen.text.toList).after (charsOf ps)).after
            Mark.rightParen.text.toList).offset := by
        simp only [Position.offset_after]
        omega
      refine (hin.trans hq hle).earlier ?_
      rw [Position.offset_after]
      exact Nat.le_add_right ..

end Operand

/-! ## The pieces of geometries -/

theorem Layout.balanced_pieces (l : Layout) (x : Binary64) : Balanced 0 (l.pieces x) := by
  have hs (negative : Bool) {ps : List Piece} (h : Balanced 0 ps) :
      Balanced 0 (signPieces negative ++ ps) := by
    cases negative with
    | false => exact h
    | true => exact .mark nofun nofun h
  cases x with
  | finite x => exact hs _ (.number _)
  | infinity negative => exact hs _ (.word _)
  | nan => exact .word _

theorem Coord.balanced_pieces (c : Coord) : Balanced 0 c.pieces := by
  refine (Layout.balanced_pieces _ c.x).append (.blank ((Layout.balanced_pieces _ c.y).append ?_))
  cases c.z with
  | none => exact .nil
  | some z => exact .blank (Layout.balanced_pieces _ z)

namespace Geometry

theorem forall₂_map {f : α → Nat} {pieces : α → List Piece} (h : ∀ x, Balanced (f x) (pieces x))
    (xs : List α) : List.Forall₂ Balanced (xs.map f) (xs.map pieces) := by
  induction xs with
  | nil => exact .nil
  | cons x xs ih => exact .cons (h x) ih

theorem balanced_linePieces (cs : List Coord) : Balanced 1 (linePieces cs) := by
  have := Balanced.list (forall₂_map Coord.balanced_pieces cs)
  have hn : listNesting (cs.map fun _ => 0) = 1 := by
    induction cs with
    | nil => rfl
    | cons c cs ih =>
      have := ih (Balanced.list (forall₂_map Coord.balanced_pieces cs))
      simpa [listNesting] using this
  rwa [hn] at this

theorem balanced_ringsPieces (rings : List (List Coord)) :
    Balanced (listNesting (rings.map fun _ => 1)) (ringsPieces rings) :=
  .list (forall₂_map balanced_linePieces rings)

/-- A word, and nothing but `EMPTY` or balanced parentheses behind it. -/
inductive Typed : Nat → List Piece → Prop where
  | empty {name : String} (hw : isGeometryWord name = true) :
    Typed 0 [.word name.toList, .blank, .word "EMPTY".toList]
  | full {name : String} {n : Nat} {ps : List Piece} (hw : isGeometryWord name = true)
    (h : Balanced n ps) : Typed (n + 1) (.word name.toList :: groupedPieces ps)

theorem Typed.of {name : String} (hw : isGeometryWord name = true) {ns : List Nat}
    {pss : List (List Piece)} (h : List.Forall₂ Balanced ns pss) :
    Typed (typedNesting ns) (typedPieces name pss) := by
  cases h with
  | nil => exact .empty hw
  | cons h hs => exact .full hw (.joined (.cons h hs))

theorem Typed.balanced {n : Nat} {ps : List Piece} (h : Typed n ps) : Balanced n ps := by
  cases h with
  | empty => exact .lexeme _ nofun nofun nofun (.blank (.word _))
  | full _ h => exact .lexeme _ nofun nofun nofun h.grouped

mutual

theorem typed_pieces : ∀ g : Geometry, Typed g.nesting g.pieces
  | point none => .of (by decide +kernel) .nil
  | point (some c) => .of (by decide +kernel) (.cons c.balanced_pieces .nil)
  | lineString cs => .of (by decide +kernel) (forall₂_map Coord.balanced_pieces cs)
  | polygon rings => .of (by decide +kernel) (forall₂_map balanced_linePieces rings)
  | multiPoint cs => .of (by decide +kernel) (forall₂_map (fun c => c.balanced_pieces.grouped) cs)
  | multiLineString lines => .of (by decide +kernel) (forall₂_map balanced_linePieces lines)
  | multiPolygon polygons => .of (by decide +kernel) (forall₂_map balanced_ringsPieces polygons)
  | collection members => .of (by decide +kernel) (balanced_piecesAll members)

theorem balanced_piecesAll : ∀ gs : List Geometry,
    List.Forall₂ Balanced (nestingAll gs) (piecesAll gs)
  | [] => .nil
  | g :: gs => .cons (typed_pieces g).balanced (balanced_piecesAll gs)

end

end Geometry

namespace Operand

variable {g : Grammar} {v : Vocabulary} {lo : Nat} {s : Cursor} {qs : List Piece}

/-! ## Passing over geometries -/

theorem many_none {step : Reader (Option α)} (h : step s = .ok (none, s)) :
    Reader.many step s = .ok ([], s) := by
  show Reader.repeated step s.ahead.length s = _
  cases s.ahead.length with
  | zero => rfl
  | succ n => rw [Reader.repeated, Reader.bind_of_ok h]; rfl

theorem skipTags_leftParen (h : s.kind 0 = .mark .leftParen) : skipTags s = .ok (false, s) := by
  have hk : Reader.peekKind s = .ok (.mark .leftParen, s) := by rw [← h]; rfl
  rw [skipTags, Reader.bind_of_ok (many_none (by rw [Reader.bind_of_ok hk]; rfl)),
    Reader.bind_of_ok hk]
  rfl

theorem skipTags_empty {t : Token} {s' : Cursor} (h : s.kind 0 = .identifier "EMPTY")
    (ha : Reader.advance s = .ok (t, s')) : skipTags s = .ok (true, s') := by
  have hk : Reader.peekKind s = .ok (.identifier "EMPTY", s) := by rw [← h]; rfl
  have hw : sameWord "EMPTY" "EMPTY" = true := by decide +kernel
  rw [skipTags, Reader.bind_of_ok (many_none (by
    rw [Reader.bind_of_ok hk]
    simp only [hw, Bool.not_true, Bool.and_false, Bool.false_eq_true, if_false]
    rfl)), Reader.bind_of_ok hk]
  simp only [hw, if_true]
  rw [Reader.bind_of_ok ha]
  rfl

/-- Balanced parentheses are passed over up to the limit of nesting. -/
theorem outcome_passOver {n : Nat} {ps : List Piece} (hb : Balanced n ps)
    (h : s.At g lo (groupedPieces ps ++ qs)) :
    Outcome
      (fun _ s' => ¬ (1 < n + 1 ∧ g.dialect.maxDepth < n + 1) ∧
        s'.lastStop = (g.place qs).offset ∧ s'.At g lo qs)
      (fun e => (1 < n + 1 ∧ g.dialect.maxDepth < n + 1) ∧ e.verdict = .deep ∧ lo ≤ e.span.start)
      (passOver g s) := by
  have hp : groupedPieces ps ++ qs = .mark .leftParen :: (ps ++ (.mark .rightParen :: qs)) := by
    simp [groupedPieces]
  rw [hp] at h
  obtain ⟨t, s', hadv, -, -, -, h'⟩ := h.advance
  have hexp : Reader.expect .leftParen s = .ok ((), s') := by
    have hk : Reader.peekKind s = .ok (.mark .leftParen, s) := by
      rw [show (TokenKind.mark .leftParen) = s.kind 0 from (h.kind_eq 0).symm]
      rfl
    rw [Reader.expect, Reader.expectKind, Reader.bind_of_ok hk, if_pos rfl, Reader.bind_of_ok hadv]
    rfl
  have hlo : lo ≤ (g.place (ps ++ .mark .rightParen :: qs)).offset := by
    have hs : charsOf ([.mark .leftParen] ++ (ps ++ .mark .rightParen :: qs)) <:+ g.source.toList :=
      h.suffix
    rw [g.place_append hs, Position.offset_after]
    exact h.lo_le.trans (Nat.le_add_right _ _)
  have hplace : (((g.place (ps ++ .mark .rightParen :: qs)).after (charsOf ps)).after
      Mark.rightParen.text.toList) = g.place qs := by
    rw [← g.place_append h'.suffix]
    exact (g.place_append (a := [.mark .rightParen]) h'.suffix_append).symm
  have hc := closing_balanced g.dialect.maxDepth s'.finish hb (Nat.le_refl 1)
    (g.place (ps ++ .mark .rightParen :: qs)) (.mark .rightParen :: qs)
  rw [passOver_eq hexp, h'.ahead]
  by_cases hn : n = 0 ∨ 1 + n ≤ g.dialect.maxDepth
  · rw [hc.1 hn, closing_last, hplace]
    have hq : s'.At g lo ((ps ++ [.mark .rightParen]) ++ qs) := by simpa using h'
    exact ⟨by omega, rfl, rfl, hq.suffix_append, h'.finish, hq.lo_le_append⟩
  · obtain ⟨e, he, hv, hle⟩ := hc.2 hn
    rw [he]
    exact ⟨by omega, hv, hlo.trans hle⟩

def textVerdict (g : Grammar) (shape : Geometry) : Verdict :=
  match g.readGeometry shape.text with
  | .ok _ => .fits
  | .error _ => .odd

theorem reads_handOver {shape : Geometry} {start : Token}
    (hst : start.span.start = (g.place (shape.pieces ++ qs)).offset)
    (hsuf : charsOf (shape.pieces ++ qs) <:+ g.source.toList)
    (hlo : lo ≤ start.span.start) (hl : s.lastStop = (g.place qs).offset) (h : s.At g lo qs) :
    g.Reads lo (textVerdict g shape) qs (Means v g · (.literal (.geometry shape)))
      (handOver g none start s) := by
  refine .get ?_
  rw [hl, hst, g.byteSlice_place hsuf, shape.charsOf_pieces]
  refine .spanFrom start fun span hspan => ?_
  simp only [String.ofList_toList, textVerdict]
  have hm := Means.geometry (v := v) (g := g) span shape
  rw [Geometry.reread] at hm
  cases hr : g.readGeometry shape.text with
  | ok read =>
    rw [hr] at hm
    exact .pure hm h
  | error e =>
    refine ⟨Verdict.noConfusion, rfl, ?_⟩
    show lo ≤ span.start
    rw [hspan]
    exact hlo

theorem reads_geometry {shape : Geometry} (h : s.At g lo (shape.pieces ++ qs)) :
    g.Reads lo (shape.verdict g) qs (Means v g · (.literal (.geometry shape)))
      (readGeometry g none s) := by
  have hsuf := h.suffix
  have ht := shape.typed_pieces
  rw [readGeometry_eq, Geometry.verdict]
  generalize hn : shape.nesting = n at ht ⊢
  generalize hps : shape.pieces = ps at ht h
  cases ht with
  | @empty name hw =>
    obtain ⟨t, s₁, hadv, -, hst, -, h₁⟩ := h.advance
    obtain ⟨t', s₂, hadv', -, -, hl, h₂⟩ := h₁.blank.advance
    have hk : s₁.kind 0 = .identifier "EMPTY" := h₁.kind_eq 0
    rw [Reader.bind_of_ok hadv, Reader.bind_of_ok (skipTags_empty hk hadv'), if_neg (by omega)]
    exact reads_handOver (by rw [hps]; exact hst) hsuf (by rw [hst]; exact h.lo_le) hl h₂
  | @full name n body hw hb =>
    obtain ⟨t, s₁, hadv, -, hst, -, h₁⟩ := h.advance
    have hk : s₁.kind 0 = .mark .leftParen := h₁.kind_eq 0
    rw [Reader.bind_of_ok hadv, Reader.bind_of_ok (skipTags_leftParen hk)]
    show g.Reads lo _ qs _ ((passOver g >>= fun _ => handOver g none t) s₁)
    refine Outcome.bind (outcome_passOver hb h₁) (fun _ s' hs => ?_) fun e he => ?_
    · rw [if_neg hs.1]
      exact reads_handOver (by rw [hps]; exact hst) hsuf (by rw [hst]; exact h.lo_le) hs.2.1 hs.2.2
    · rw [if_pos he.1]
      exact ⟨Verdict.noConfusion, he.2.1, he.2.2⟩

end Operand

end FeatureFilter
