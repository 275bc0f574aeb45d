import FeatureFilter.Proofs.Color
import FeatureFilter.Proofs.Phrase.Shape

/-!
# Reading single factors

Numbers, strings, names, dates, timestamps and geometries: the factors that hold no operands.
-/

namespace FeatureFilter

/-- A factor can end in front of the pieces: what follows neither makes a call or a geometry of a
word, nor makes the prefix of a geometry of it. -/
structure EndsFactor (qs : List Piece) : Prop where
  noGeometry : Operand.goesOnAsGeometry (kindAt qs 0) = false
  noSrid : kindAt qs 0 = .mark .equal → ∀ n, kindAt qs 1 = .number n →
    kindAt qs 2 ≠ .mark .semicolon

theorem EndsFactor.noParen {qs : List Piece} (h : EndsFactor qs) :
    kindAt qs 0 ≠ .mark .leftParen := by
  intro he
  have := h.noGeometry
  rw [he] at this
  cases this

namespace Operand

open Reader (deeper)

variable {g : Grammar} {v : Vocabulary} {lo : Nat} {s : Cursor} {qs : List Piece} {e : Expression}
  {below : Option (Reader Operand)} {w : List Char} {word : String} {l : Literal}

/-! ## Numbers -/

theorem reads_number (hl : Literal.readNumber (String.ofList w) = .ok l)
    (h : s.At g lo (.number w :: qs)) : g.Reads lo .fits qs (· = l) (readNumber s) := by
  refine .advance h fun t s' ht h' => ?_
  rw [ht]
  simp only [hl]
  exact .pure rfl h'

theorem reads_atNumber {ps : List Piece} (h : s.At g lo ps) {f : Bool → Reader β} {x : Verdict}
    {good : β → Prop}
    (hf : ∀ b, (b = true ↔ ∃ n, kindAt ps 0 = .number n) → g.Reads lo x qs good (f b s)) :
    g.Reads lo x qs good ((atNumber >>= f) s) := by
  rw [atNumber, bind_assoc]
  refine .peekKind h ?_
  split
  · rename_i n hn
    exact hf true (by simp [hn])
  · rename_i hn
    exact hf false (by simpa using hn)

theorem reads_factor_number {negative : Bool} (hl : Literal.readNumber (String.ofList w) = .ok l)
    (hm : ∀ span, Means v g (.literal span (if negative then l.negated else l)) e)
    (h : s.At g lo (signPieces negative ++ .number w :: qs)) :
    g.Reads lo .fits qs (Means v g · e) (readFactorOver g below s) := by
  rw [readFactorOver]
  cases negative with
  | false =>
    refine .peekKind h ?_
    show g.Reads lo .fits qs (Means v g · e) (readPrimary g (below.map readSum) s)
    refine .peek h fun t ht => ?_
    rw [ht]
    show g.Reads lo .fits qs (Means v g · e) ((readNumber >>= fun n => pure (.literal t.span n)) s)
    refine (reads_number hl h).map fun n s' hn h' => ?_
    rw [hn]
    exact .pure (hm _) h'
  | true =>
    refine .peekKind h ?_
    refine .advance h fun t s' _ h' => ?_
    refine reads_atNumber h' fun b hb => ?_
    rw [if_pos (hb.2 ⟨_, rfl⟩)]
    refine (reads_number hl h').map fun n s'' hn h'' => ?_
    refine .spanFrom t fun span _ => ?_
    rw [hn]
    exact .pure (hm _) h''

/-! ## Single tokens -/

theorem reads_unsigned {ps : List Piece} {good : Operand → Prop} {x : Verdict}
    (hs : sign? (kindAt ps 0) = none) (h : s.At g lo ps)
    (hf : g.Reads lo x qs good (readPrimary g (below.map readSum) s)) :
    g.Reads lo x qs good (readFactorOver g below s) := by
  rw [readFactorOver]
  refine .peekKind h ?_
  rw [hs]
  exact hf

theorem reads_string {content : String}
    (hm : ∀ span, Means v g (.literal span (stringLiteral g content)) e)
    (h : s.At g lo (.string content :: qs)) :
    g.Reads lo .fits qs (Means v g · e) (readPrimary g below s) := by
  refine .peek h fun t ht => ?_
  rw [ht]
  exact .advance h fun t' s' _ h' => .pure (hm _) h'

theorem reads_quoted {name : String}
    (hm : ∀ span, Means v g (.property span (.ofQuoted name span)) e)
    (h : s.At g lo (.quoted name :: qs)) :
    g.Reads lo .fits qs (Means v g · e) (readPrimary g below s) := by
  refine .peek h fun t ht => ?_
  rw [ht]
  exact .advance h fun t' s' _ h' => .pure (hm _) h'

theorem reads_boolean {b : Bool} (hm : ∀ span, Means v g (.literal span (.boolean b)) e)
    (h : s.At g lo (.keyword (if b then .isTrue else .isFalse) :: qs)) :
    g.Reads lo .fits qs (Means v g · e) (readPrimary g below s) := by
  refine .peek h fun t ht => ?_
  rw [ht]
  cases b with
  | true => exact .advance h fun t' s' _ h' => .pure (hm _) h'
  | false => exact .advance h fun t' s' _ h' => .pure (hm _) h'

/-! ## Words -/

/-- A word without quotes is looked at together with what follows it. -/
theorem reads_word {ps : List Piece} {good : Operand → Prop} {x : Verdict}
    (h : s.At g lo (.word w :: ps))
    (hf : g.Reads lo x qs good (readWord g below (String.ofList w) s)) :
    g.Reads lo x qs good (readPrimary g below s) := by
  refine .peek h fun t ht => ?_
  rw [ht]
  exact hf

theorem atSrid_eq {ps : List Piece} (h : s.At g lo (.word w :: ps))
    (hs : kindAt ps 0 = .mark .equal → ∀ n, kindAt ps 1 = .number n →
      kindAt ps 2 ≠ .mark .semicolon) : atSrid s = false := by
  rw [atSrid, h.kind_eq, h.kind_eq, h.kind_eq]
  split
  · rename_i h1 h2 h3
    exact absurd h3 (hs h1 _ h2)
  · rfl

/-- A word with nothing behind it that goes on with it is a property. -/
theorem reads_property (hm : ∀ span, Means v g (.property span (.ofWord (String.ofList w) span)) e)
    (hq : EndsFactor qs) (h : s.At g lo (.word w :: qs)) :
    g.Reads lo .fits qs (Means v g · e) (readPrimary g below s) := by
  refine reads_word h ?_
  have h1 : s.kind 1 = kindAt qs 0 := h.kind_eq 1
  refine .get ?_
  rw [atSrid_eq h hq.noSrid, h1, hq.noGeometry, Bool.and_false, Bool.and_false,
    if_neg Bool.false_ne_true, if_neg Bool.false_ne_true, if_pos hq.noParen]
  exact .advance h fun t' s' _ h' => .pure (hm _) h'

theorem readWord_paren {ps : List Piece} (hw : isGeometryWord (String.ofList w) = false)
    (h : s.At g lo (.word w :: .mark .leftParen :: ps)) :
    readWord g below (String.ofList w) s =
      (if sameWord (String.ofList w) "ENVELOPE" then readEnvelope
      else if sameWord (String.ofList w) "DATE" then readDate
      else if sameWord (String.ofList w) "TIMESTAMP" then readTimestamp g
      else if sameWord (String.ofList w) "INTERVAL" then readInterval g below
      else readCall g below (String.ofList w)) s := by
  have h1 : s.kind 1 = .mark .leftParen := h.kind_eq 1
  have h2 : atSrid s = false := atSrid_eq h fun he => by cases he
  show (if _ then _ else _ : Reader Operand) s = _
  rw [h1, h2, hw, Bool.and_false, Bool.false_and, if_neg Bool.false_ne_true,
    if_neg Bool.false_ne_true, if_neg (by simp)]

/-- The string in the parentheses of a date or timestamp. -/
theorem reads_quotedInstant {content : String}
    (h : s.At g lo (callPieces word [[.string content]] ++ qs)) :
    g.Reads lo .fits qs (fun p => p.2 = content) (readQuotedInstant s) := by
  have hp : callPieces word [[.string content]] ++ qs =
      .word word.toList :: .mark .leftParen :: .string content :: .mark .rightParen :: qs := by
    simp [callPieces, groupedPieces, joinedPieces]
  rw [hp] at h
  refine .advance h fun _ s₁ _ h₁ => ?_
  refine .expect h₁ fun s₂ h₂ => ?_
  refine .peek h₂ fun t ht => ?_
  rw [ht]
  refine .advance h₂ fun _ s₃ _ h₃ => ?_
  refine .expect h₃ fun s₄ h₄ => ?_
  exact .pure rfl h₄

theorem reads_date {d : Date} (hd : d.FourDigitYear)
    (hm : ∀ span, Means v g (.literal span (.date d)) e)
    (h : s.At g lo (callPieces "DATE" [[.string (String.ofList d.text)]] ++ qs)) :
    g.Reads lo .fits qs (Means v g · e) (readPrimary g below s) := by
  refine reads_word h ?_
  rw [readWord_paren (by decide +kernel) h, if_neg (by decide +kernel), if_pos (by decide +kernel)]
  refine .peek h fun t _ => ?_
  refine (reads_quotedInstant h).map fun p s' hp h' => ?_
  obtain ⟨t', content⟩ := p
  obtain rfl : content = String.ofList d.text := hp
  simp only [Literal.readDate, String.toList_ofList, Date.read?_text hd]
  exact .spanFrom t fun span _ => .pure (hm span) h'

theorem reads_timestamp {t : Timestamp} (ht : t.Legible)
    (hm : ∀ span, Means v g (.literal span (.timestamp t)) e)
    (h : s.At g lo (callPieces "TIMESTAMP" [[.string (String.ofList t.text)]] ++ qs)) :
    g.Reads lo .fits qs (Means v g · e) (readPrimary g below s) := by
  refine reads_word h ?_
  rw [readWord_paren (by decide +kernel) h, if_neg (by decide +kernel), if_neg (by decide +kernel),
    if_pos (by decide +kernel)]
  refine .peek h fun start _ => ?_
  refine (reads_quotedInstant h).map fun p s' hp h' => ?_
  obtain ⟨t', content⟩ := p
  obtain rfl : content = String.ofList t.text := hp
  simp only [Literal.readTimestamp, String.toList_ofList, ht.read_text]
  exact .spanFrom start fun span _ => .pure (hm span) h'

theorem reads_shape {shape : Geometry} (h : s.At g lo (shape.pieces ++ qs)) :
    g.Reads lo (shape.verdict g) qs (Means v g · (.literal (.geometry shape)))
      (readPrimary g below s) := by
  have hg := reads_geometry (v := v) h
  have ht := shape.typed_pieces
  generalize shape.nesting = n at ht
  generalize shape.pieces = ps at ht h
  -- both forms start with the type and go on as a geometry
  obtain ⟨name, rest, rfl, hw, hgo, he⟩ : ∃ name rest, ps = .word name.toList :: rest ∧
      isGeometryWord name = true ∧ goesOnAsGeometry (kindAt (rest ++ qs) 0) = true ∧
      kindAt (rest ++ qs) 0 ≠ .mark .equal := by
    cases ht with
    | empty hw =>
      have htag : isGeometryTag "EMPTY" = true := by decide +kernel
      exact ⟨_, _, rfl, hw, htag, nofun⟩
    | full hw _ => exact ⟨_, _, rfl, hw, rfl, nofun⟩
  refine reads_word h ?_
  have h1 : s.kind 1 = kindAt (rest ++ qs) 0 := h.kind_eq 1
  refine .get ?_
  rw [atSrid_eq h fun h0 => absurd h0 he, String.ofList_toList, h1, hw, hgo, Bool.and_false,
    if_neg Bool.false_ne_true, if_pos (by rfl)]
  exact hg

end Operand

end FeatureFilter
