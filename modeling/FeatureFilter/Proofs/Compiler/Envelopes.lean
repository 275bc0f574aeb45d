import FeatureFilter.Proofs.Compiler.Composition
import FeatureFilter.Proofs.Compiler.Geometries
import FeatureFilter.Proofs.Number.Resolved
import FeatureFilter.Proofs.Token.Numeral

/-!
# Envelopes as polygons

An envelope is the polygon of its corners, and either can be written. The ordinates are read by two
readers: in an envelope they are tokens, and a whole number is a 64-bit one first where it has a
place there; in a polygon the characters are read as a double at once. Both round the exact value of
the numeral once, to the nearest double, so that both give the same geometry.
-/

namespace FeatureFilter

open Span (nowhere)

/-! ## Ordinates -/

/-- Characters that are one number to the lexer, behind a sign where there is one. -/
def IsSignedNumber (cs : List Char) : Prop :=
  ∃ sign w, splitNumber? w = some (w, []) ∧ cs = signChars sign ++ w

/-- A numeral behind a sign, which is true for minus. -/
structure SignedNumeral where
  numeral : Numeral
  sign : Option Bool

namespace SignedNumeral

def chars (o : SignedNumeral) : List Char := signChars o.sign ++ o.numeral.chars

def value (o : SignedNumeral) : Binary64 :=
  (o.numeral.value (decide (o.sign = some true))).toBinary64

theorem read?_chars (o : SignedNumeral) : Binary64.read? o.chars = some o.value :=
  o.numeral.read?_chars o.sign

end SignedNumeral

theorem IsSignedNumber.exists_numeral {cs : List Char} (h : IsSignedNumber cs) :
    ∃ o : SignedNumeral, cs = o.chars := by
  obtain ⟨sign, w, hw, rfl⟩ := h
  obtain ⟨n, rfl⟩ := Numeral.exists_of_splitNumber? hw
  exact ⟨⟨n, sign⟩, rfl⟩

namespace Numeral

variable (n : Numeral)

/-- A whole number is rounded to the double that its numeral is rounded to. -/
theorem ofInt_eq {v : Int64} (h : n.Denotes (.integer v)) :
    Binary64.ofInt v.toInt = (n.value false).toBinary64 := by
  obtain ⟨hnonneg, -⟩ := Literal.toInt_neg_of_denotes h
  have hratio : Binary64.ofInt v.toInt = .ofRatio false v.toInt.natAbs 1 := by
    rw [Binary64.ofInt, decide_eq_false (by omega)]
  have hvalue : ((v.toInt.natAbs : Nat) : Rat) / (1 : Nat) = n.toRat := by
    rw [← h.2, Nat.cast_one, div_one, Nat.cast_natAbs, abs_of_nonneg hnonneg]
  have hnearest := Binary64.nearest_ofRatio v.toInt.natAbs Nat.one_pos
  rw [hvalue] at hnearest
  rw [hratio]
  exact hnearest.unique n.nearest_value (Binary64.isNegative_ofRatio ..) n.isNegative_value

theorem exists_ordinate : ∃ l, Literal.readNumber (String.ofList n.chars) = .ok l ∧
    Grammar.ordinate? l = some (n.value false).toBinary64 := by
  obtain ⟨l, hl, hdenotes⟩ := Literal.exists_readNumber n
  refine ⟨l, hl, ?_⟩
  cases l with
  | integer v => exact congrArg some (n.ofInt_eq hdenotes)
  | double x =>
    by_cases h : n.IsInt64
    · exact absurd h hdenotes.1
    · rw [Literal.readNumber_double h] at hl
      cases hl
      rfl
  | _ => cases hdenotes

end Numeral

namespace Grammar

theorem Spells.ordinate {g : Grammar} (o : SignedNumeral) :
    g.Spells o.chars (Ordinate · o.value) := by
  obtain ⟨n, sign⟩ := o
  obtain ⟨l, hl, hx⟩ := n.exists_ordinate
  have hnumber : g.Spells (n.chars ++ []) (Leads (.number (String.ofList n.chars)) (· = [])) :=
    lexeme (firm_number n [] stops_nil) nil
  rw [List.append_nil] at hnumber
  have hsigned (negative : Bool) (m : Mark)
      (hm : splitLexeme (signChars (some negative) ++ n.chars) =
        .ok (.mark m, signChars (some negative), n.chars))
      (hs : Operand.sign? (.mark m) = some negative) :
      g.Spells (signChars (some negative) ++ n.chars)
        (Ordinate · (n.value negative).toBinary64) := by
    refine (lexeme hm hnumber).imp ?_
    rintro _ ⟨s, _, rfl, hmark, t, _, rfl, ht, rfl⟩
    have hordinate := Ordinate.signed (hmark ▸ hs) ht hl hx
    rwa [← Binary64.signed, n.signed_value] at hordinate
  cases sign with
  | none =>
    refine hnumber.imp ?_
    rintro _ ⟨t, _, rfl, ht, rfl⟩
    exact .unsigned ht hl hx
  | some negative =>
    cases negative with
    | true => exact hsigned true .minus rfl rfl
    | false => exact hsigned false .plus rfl rfl

/-- Something behind a comma and a blank. -/
theorem Spells.comma {g : Grammar} {cs xs : List Char} {P Q : List Token → Prop}
    (hP : g.Spells cs P) (hQ : g.Spells xs Q) : g.Spells (cs ++ ',' :: ' ' :: xs) fun ts =>
      ∃ us vs, ts = us ++ vs ∧ P us ∧ Leads (.mark .comma) Q vs :=
  hP.append (stops_cons.2 (by decide)) (hQ.blank.mark .comma (stops_blank _))

def envelopeChars (w s e n : List Char) : List Char :=
  "ENVELOPE".toList ++ '(' :: (w ++ ',' :: ' ' :: (s ++ ',' :: ' ' :: (e ++ ',' :: ' ' ::
    (n ++ [')']))))

theorem Spells.envelope {g : Grammar} {m : Nat} (w s e n : SignedNumeral) :
    g.Spells (envelopeChars w.chars s.chars e.chars n.chars)
      (g.IsOperand m · (.geometry nowhere (.envelope w.value s.value e.value n.value) none)) := by
  have hclose := (ordinate (g := g) n).append (stops_cons.2 (by decide)) rightParen
  have hlist := (ordinate w).comma ((ordinate s).comma ((ordinate e).comma hclose))
  refine (hlist.opening (by decide +kernel)).imp ?_
  rintro _ ⟨t, _, rfl, ht, p, _, rfl, hp, ws, _, rfl, hw, c₁, _, rfl, hc₁, ss, _, rfl, hs, c₂, _,
    rfl, hc₂, es, _, rfl, he, c₃, _, rfl, hc₃, ns, _, rfl, hn, p', _, rfl, hp', rfl⟩
  exact IsOperand.primary fun _ =>
    .envelope ht (by decide +kernel) hp hw hc₁ hs hc₂ he hc₃ hn hp'

end Grammar

/-! ## Corners -/

namespace Wkt

section Ordinates

variable (o : SignedNumeral)

theorem plain_signed : ∀ c ∈ o.chars,
    (c ≠ '(' ∧ c ≠ ')' ∧ c ≠ '\'' ∧ c ≠ '"') ∧ isWhiteSpace c = false := by
  intro c hc
  have hrun := o.numeral.numberRun_chars o.sign endsNumeral_nil
  rw [List.append_nil] at hrun
  rw [SignedNumeral.chars, ← hrun] at hc
  rcases mem_numberRun hc with (hd | rfl) | rfl | rfl | rfl | rfl
  · refine ⟨⟨?_, ?_, ?_, ?_⟩, isWhiteSpace_of_isDigit hd⟩
    all_goals exact isDigit_ne hd (by decide)
  all_goals decide

theorem isNumber_signed {cs rest : List Char} (hr : EndsNumeral rest)
    (hcs : cs = o.chars ++ rest ∨ cs = ' ' :: (o.chars ++ rest)) : IsNumber cs o.value rest := by
  have htrim : trimStart (o.chars ++ rest) = o.chars ++ rest := by
    obtain ⟨n, sign⟩ := o
    match sign with
    | none => exact trimStart_numeral n rest
    | some true | some false => rfl
  refine ⟨o.chars, ?_, o.numeral.numberRun_chars o.sign hr, o.read?_chars⟩
  rcases hcs with rfl | rfl
  · exact htrim
  · exact htrim

end Ordinates

/-- Two ordinates with a blank between them. -/
def cornerChars (p : SignedNumeral × SignedNumeral) : List Char := p.1.chars ++ ' ' :: p.2.chars

def corner (p : SignedNumeral × SignedNumeral) : Coord := ⟨p.1.value, p.2.value, none⟩

theorem isCoord_corner (p : SignedNumeral × SignedNumeral) {rest : List Char}
    (hr : BehindItem rest) : IsCoord (cornerChars p ++ rest) (corner p) rest := by
  have hblank : EndsNumeral (' ' :: (p.2.chars ++ rest)) := by
    intro c hc
    cases hc
    decide
  refine .plane (isNumber_signed p.1 hblank (.inl ?_))
    (isNumber_signed p.2 hr.behindOrdinate.endsNumeral (.inr rfl)) ?_
  · simp [cornerChars]
  · rw [trimStart_of_noSpace hr.noSpace]
    obtain ⟨c, cs, rfl, rfl | rfl⟩ := hr <;> rfl

/-- Corners with commas between them, one at least. -/
def outlineChars (p : SignedNumeral × SignedNumeral) (ps : List (SignedNumeral × SignedNumeral)) :
    List Char :=
  cornerChars p ++ commaChars cornerChars ps

theorem further_corners (ps : List (SignedNumeral × SignedNumeral)) (rest : List Char) :
    Further IsCoord (commaChars cornerChars ps ++ ')' :: rest) (ps.map corner) (')' :: rest) := by
  induction ps with
  | nil => exact .nil
  | cons p ps ih =>
    have hbehind : BehindItem (commaChars cornerChars ps ++ ')' :: rest) := by
      cases ps with
      | nil => exact ⟨_, _, rfl, .inr rfl⟩
      | cons q ps => exact ⟨_, _, rfl, .inl rfl⟩
    have hp := isCoord_corner p hbehind
    rw [← List.append_assoc] at hp
    have hcomma : IsMark ',' (commaChars cornerChars (p :: ps) ++ ')' :: rest)
        (cornerChars p ++ commaChars cornerChars ps ++ ')' :: rest) := rfl
    exact .cons hcomma hp ih

def polygonChars (p : SignedNumeral × SignedNumeral) (ps : List (SignedNumeral × SignedNumeral)) :
    List Char :=
  "POLYGON((".toList ++ (outlineChars p ps ++ [')', ')'])

theorem read_polygon (p : SignedNumeral × SignedNumeral)
    (ps : List (SignedNumeral × SignedNumeral)) :
    read (String.ofList (polygonChars p ps)) = .ok (.polygon [(p :: ps).map corner]) := by
  have hfirst : BehindItem (commaChars cornerChars ps ++ [')', ')']) := by
    cases ps with
    | nil => exact ⟨_, _, rfl, .inr rfl⟩
    | cons q ps => exact ⟨_, _, rfl, .inl rfl⟩
  have hring : CommaList IsCoord (outlineChars p ps ++ [')', ')']) ((p :: ps).map corner)
      [')', ')'] := by
    rw [outlineChars, List.append_assoc]
    exact .intro (isCoord_corner p hfirst) (further_corners ps [')'])
  have hname : IsName "POLYGON" (polygonChars p ps)
      ('(' :: '(' :: (outlineChars p ps ++ [')', ')'])) :=
    ⟨"POLYGON".toList, ⟨rfl, by decide, List.all_eq_true.1 (by decide),
      fun c hc => by cases hc; rfl⟩, by decide⟩
  have hgeometry : IsGeometry 0 (polygonChars p ps) (.polygon [(p :: ps).map corner]) [] :=
    .full (t := .polygon) hname .plain
      (.intro rfl (.polygon (.intro (.intro rfl hring rfl) .nil)) rfl)
  refine read_eq_ok_iff.2 ⟨[], ?_, rfl⟩
  rw [String.toList_ofList]
  exact hgeometry.level (Nat.le_refl _)

/-! ## Parentheses and white space -/

/-- A character that is no parenthesis and no quote makes no difference to the parentheses, and one
that is no white space but a blank none to the tokens. -/
def IsInner (c : Char) : Prop :=
  (c ≠ '(' ∧ c ≠ ')' ∧ c ≠ '\'' ∧ c ≠ '"') ∧ (isWhiteSpace c = true → isBlank c = true)

theorem isInner_outline (p : SignedNumeral × SignedNumeral)
    (ps : List (SignedNumeral × SignedNumeral)) : ∀ c ∈ outlineChars p ps, IsInner c := by
  have hblank : IsInner ' ' := ⟨by decide, fun _ => rfl⟩
  have hcomma : IsInner ',' := ⟨by decide, fun h => by cases h⟩
  have hordinate (o : SignedNumeral) : ∀ c ∈ o.chars, IsInner c := fun c hc =>
    ⟨(plain_signed o c hc).1, fun h => by rw [(plain_signed o c hc).2] at h; cases h⟩
  have hcorner (p : SignedNumeral × SignedNumeral) : ∀ c ∈ cornerChars p, IsInner c :=
    List.forall_mem_append.2 ⟨hordinate p.1, List.forall_mem_cons.2 ⟨hblank, hordinate p.2⟩⟩
  refine List.forall_mem_append.2 ⟨hcorner p, fun c hc => ?_⟩
  obtain ⟨q, -, hc⟩ := List.mem_flatMap.1 hc
  exact (List.forall_mem_cons.2 ⟨hcomma, hcorner q⟩) c hc

theorem peak_append {u : List Char} (h : ∀ c ∈ u, IsInner c) (d : Nat) (cs : List Char) :
    peak d (u ++ cs) = peak d cs := by
  induction u with
  | nil => rfl
  | cons c u ih =>
    obtain ⟨⟨⟨hl, hr, hq, hq'⟩, -⟩, hu⟩ := List.forall_mem_cons.1 h
    rw [List.cons_append, peak, if_neg (by simp [hq, hq']), if_neg hl, if_neg hr, ih hu]

theorem peak_polygon (p : SignedNumeral × SignedNumeral)
    (ps : List (SignedNumeral × SignedNumeral)) : peak 0 (polygonChars p ps) = 2 :=
  peak_append (isInner_outline p ps) 2 [')', ')']

theorem blanks_polygon (p : SignedNumeral × SignedNumeral)
    (ps : List (SignedNumeral × SignedNumeral)) :
    ∀ c ∈ polygonChars p ps, isWhiteSpace c = true → isBlank c = true := by
  have hplain {cs : List Char} (hcs : (cs.all fun c => !isWhiteSpace c) = true) {c : Char}
      (hc : c ∈ cs) : isWhiteSpace c = false := by
    simpa using List.all_eq_true.1 hcs c hc
  refine List.forall_mem_append.2 ⟨?_, List.forall_mem_append.2
    ⟨fun c hc => (isInner_outline p ps c hc).2, ?_⟩⟩
  -- neither the name of the type nor a parenthesis has a blank in it
  · exact fun c hc hspace => absurd (hplain (by decide) hc) (by simp [hspace])
  · exact fun c hc hspace => absurd (hplain (by decide) hc) (by simp [hspace])

end Wkt

/-! ## Compiling -/

namespace Compiler

def envelopeText (west south east north : String) : String :=
  "ENVELOPE(" ++ west ++ ", " ++ south ++ ", " ++ east ++ ", " ++ north ++ ")"

/-- The polygon of the corners between the given sides. -/
def rectangleText (west south east north : String) : String :=
  "POLYGON((" ++ west ++ " " ++ south ++ "," ++ west ++ " " ++ north ++ "," ++
    east ++ " " ++ north ++ "," ++ east ++ " " ++ south ++ "," ++ west ++ " " ++ south ++ "))"

variable {c : Compiler}

theorem expression_polygon (hread : c.readGeometry = Wkt.read) (hdepth : 2 ≤ c.dialect.maxDepth)
    (p : SignedNumeral × SignedNumeral) (ps : List (SignedNumeral × SignedNumeral)) :
    c.expression (String.ofList (Wkt.polygonChars p ps)) =
      .ok (.literal (.geometry (.polygon [(p :: ps).map Wkt.corner]))) := by
  refine (expression_geometry hread (Wkt.read_polygon p ps) ?_ ?_).1
  · rw [String.toList_ofList]
    exact Wkt.blanks_polygon p ps
  · rw [String.toList_ofList, Wkt.peak_polygon]
    exact hdepth

theorem expression_envelope_of_signed (c : Compiler) (w s e n : SignedNumeral) :
    c.expression (envelopeText (.ofList w.chars) (.ofList s.chars) (.ofList e.chars)
      (.ofList n.chars)) =
        .ok (.literal (.geometry (.envelope w.value s.value e.value n.value))) := by
  have hchars : (envelopeText (.ofList w.chars) (.ofList s.chars) (.ofList e.chars)
      (.ofList n.chars)).toList = Grammar.envelopeChars w.chars s.chars e.chars n.chars := by
    unfold envelopeText Grammar.envelopeChars
    simp
  refine expression_of_spells ?_ ((Operand.denotes_geometry (s := nowhere)).2 ⟨rfl, rfl⟩)
  rw [hchars]
  exact Grammar.Spells.envelope w s e n

theorem expression_rectangle_of_signed (hread : c.readGeometry = Wkt.read)
    (hdepth : 2 ≤ c.dialect.maxDepth) (w s e n : SignedNumeral) :
    c.expression (rectangleText (.ofList w.chars) (.ofList s.chars) (.ofList e.chars)
      (.ofList n.chars)) =
        .ok (.literal (.geometry (.envelope w.value s.value e.value n.value))) := by
  have htext : rectangleText (.ofList w.chars) (.ofList s.chars) (.ofList e.chars)
      (.ofList n.chars) =
        String.ofList (Wkt.polygonChars (w, s) [(w, n), (e, n), (e, s), (w, s)]) := by
    rw [← String.toList_inj]
    unfold rectangleText Wkt.polygonChars
    simp [Wkt.outlineChars, Wkt.cornerChars, commaChars]
  have hcorners : [(w, s), (w, n), (e, n), (e, s), (w, s)].map Wkt.corner =
      [⟨w.value, s.value, none⟩, ⟨w.value, n.value, none⟩, ⟨e.value, n.value, none⟩,
        ⟨e.value, s.value, none⟩, ⟨w.value, s.value, none⟩] := rfl
  rw [htext, expression_polygon hread hdepth, hcorners, Geometry.envelope]

/-- An envelope and the polygon of its corners are compiled to the same geometry, bit by bit,
whatever the numbers are: those of a text are read as the nearest doubles of their values by either
reader. -/
theorem expression_envelope (hread : c.readGeometry = Wkt.read) (hdepth : 2 ≤ c.dialect.maxDepth)
    {west south east north : String} (hw : IsSignedNumber west.toList)
    (hs : IsSignedNumber south.toList) (he : IsSignedNumber east.toList)
    (hn : IsSignedNumber north.toList) :
    ∃ w s e n, Binary64.read? west.toList = some w ∧ Binary64.read? south.toList = some s ∧
      Binary64.read? east.toList = some e ∧ Binary64.read? north.toList = some n ∧
      c.expression (envelopeText west south east north) =
        .ok (.literal (.geometry (.envelope w s e n))) ∧
      c.expression (rectangleText west south east north) =
        .ok (.literal (.geometry (.envelope w s e n))) := by
  obtain ⟨w, hw⟩ := hw.exists_numeral
  obtain ⟨s, hs⟩ := hs.exists_numeral
  obtain ⟨e, he⟩ := he.exists_numeral
  obtain ⟨n, hn⟩ := hn.exists_numeral
  obtain rfl : String.ofList w.chars = west := by rw [← hw, String.ofList_toList]
  obtain rfl : String.ofList s.chars = south := by rw [← hs, String.ofList_toList]
  obtain rfl : String.ofList e.chars = east := by rw [← he, String.ofList_toList]
  obtain rfl : String.ofList n.chars = north := by rw [← hn, String.ofList_toList]
  simp only [String.toList_ofList]
  exact ⟨w.value, s.value, e.value, n.value, w.read?_chars, s.read?_chars, e.read?_chars,
    n.read?_chars, expression_envelope_of_signed c w s e n,
    expression_rectangle_of_signed hread hdepth w s e n⟩

/-- A zero with a sign, a whole number between two doubles, a point in front and an exponent, and a
whole number beyond the 64-bit ones. -/
theorem expression_envelope_spellings : ∃ w s e n,
    standard.expression "ENVELOPE(-0, 9007199254740993, .5e1, +9223372036854775808)" =
      .ok (.literal (.geometry (.envelope w s e n))) ∧
    standard.expression
      ("POLYGON((-0 9007199254740993,-0 +9223372036854775808,.5e1 +9223372036854775808," ++
        ".5e1 9007199254740993,-0 9007199254740993))") =
      .ok (.literal (.geometry (.envelope w s e n))) := by
  have hw : IsSignedNumber "-0".toList := ⟨some true, ['0'], by decide, by decide⟩
  have hs : IsSignedNumber "9007199254740993".toList := ⟨none, _, by decide, rfl⟩
  have he : IsSignedNumber ".5e1".toList := ⟨none, _, by decide, rfl⟩
  have hn : IsSignedNumber "+9223372036854775808".toList :=
    ⟨some false, "9223372036854775808".toList, by decide, by decide⟩
  obtain ⟨w, s, e, n, -, -, -, -, henvelope, hrectangle⟩ :=
    expression_envelope (c := standard) rfl (by decide) hw hs he hn
  exact ⟨w, s, e, n, henvelope, hrectangle⟩

end Compiler

end FeatureFilter
