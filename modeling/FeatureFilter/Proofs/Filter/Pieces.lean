import FeatureFilter.Proofs.Filter.Tree
import FeatureFilter.Proofs.Token.Name

/-!
# The pieces of a filter tree

The text of a tree as blanks and lexemes (`charsOf_pieces`), which the lexer takes apart again
(`Filter.chunk_pieces`) as long as the functions are called by names that are single words.
-/

namespace FeatureFilter

/-! ## Pieces -/

def signPieces (negative : Bool) : List Piece := if negative then [.mark .minus] else []

def longPieces (n : Int64) : List Piece :=
  signPieces (n.toInt < 0) ++ [.number (Nat.toDigits 10 n.toInt.natAbs)]

/-- A number as a layout writes it; those that are not finite are words. -/
def Layout.pieces (l : Layout) : Binary64 → List Piece
  | .finite x => signPieces x.negative ++ [.number (l.bodyText x.shortest)]
  | .infinity negative => signPieces negative ++ [.word "inf".toList]
  | .nan => [.word "NaN".toList]

def Coord.pieces (c : Coord) : List Piece :=
  Layout.ordinate.pieces c.x ++ .blank :: (Layout.ordinate.pieces c.y ++
    (match c.z with
      | some z => .blank :: Layout.ordinate.pieces z
      | none => []))

def listPieces (items : List (List Piece)) : List Piece :=
  groupedPieces (joinedPieces [.mark .comma] items)

namespace Geometry

def linePieces (cs : List Coord) : List Piece := listPieces (cs.map Coord.pieces)

def ringsPieces (rings : List (List Coord)) : List Piece := listPieces (rings.map linePieces)

/-- The word of a type and its list, or `EMPTY` when there is none. -/
def typedPieces (name : String) (items : List (List Piece)) : List Piece :=
  if items.isEmpty then [.word name.toList, .blank, .word "EMPTY".toList]
  else .word name.toList :: listPieces items

mutual

def pieces : Geometry → List Piece
  | point none => typedPieces "POINT" []
  | point (some c) => typedPieces "POINT" [c.pieces]
  | lineString cs => typedPieces "LINESTRING" (cs.map Coord.pieces)
  | polygon rings => typedPieces "POLYGON" (rings.map linePieces)
  | multiPoint cs => typedPieces "MULTIPOINT" (cs.map fun c => groupedPieces c.pieces)
  | multiLineString lines => typedPieces "MULTILINESTRING" (lines.map linePieces)
  | multiPolygon polygons => typedPieces "MULTIPOLYGON" (polygons.map ringsPieces)
  | collection members => typedPieces "GEOMETRYCOLLECTION" (piecesAll members)

def piecesAll : List Geometry → List (List Piece)
  | [] => []
  | g :: gs => g.pieces :: piecesAll gs

end

end Geometry

def propertyPieces (path : String) : List Piece :=
  if (splitAtChar '/' path.toList).all isPlainName then [.word (pathWord path)]
  else [.quoted path]

def callPieces (name : String) (args : List (List Piece)) : List Piece :=
  .word name.toList :: groupedPieces (joinedPieces [.mark .comma, .blank] args)

def ArithmeticOp.mark : ArithmeticOp → Mark
  | add => .plus
  | sub => .minus
  | mul => .star
  | div => .slash

def ComparisonOp.mark : ComparisonOp → Mark
  | eq => .equal
  | ne => .notEqual
  | lt => .less
  | le => .lessOrEqual
  | gt => .greater
  | ge => .greaterOrEqual

def infixPieces (m : Mark) (left right : List Piece) : List Piece :=
  left ++ .blank :: .mark m :: .blank :: right

mutual

def Value.pieces : Value → List Piece
  | .long n => longPieces n
  | .double x => Layout.literal.pieces x
  | .string s => [.string s]
  | .boolean b => [.keyword (if b then .isTrue else .isFalse)]
  | .date d => callPieces "DATE" [[.string (String.ofList d.text)]]
  | .timestamp t => callPieces "TIMESTAMP" [[.string (String.ofList t.text)]]
  | .interval start stop => callPieces "INTERVAL" [start.pieces, stop.pieces]
  | .geometry g => g.pieces
  | .color c => [.string c.text]

def Expression.pieces : Expression → List Piece
  | .literal v => v.pieces
  | .property path => propertyPieces path
  | .call name args => callPieces name (Expression.piecesAll args)
  | .arithmetic op left right =>
    infixPieces op.mark
      (if needsGroup op false left then groupedPieces left.pieces else left.pieces)
      (if needsGroup op true right then groupedPieces right.pieces else right.pieces)

def Expression.piecesAll : List Expression → List (List Piece)
  | [] => []
  | e :: es => e.pieces :: Expression.piecesAll es

end

namespace Filter

def keywordPieces (ks : List Keyword) : List Piece := ks.flatMap fun k => [.blank, .keyword k]

def comparisonPieces (op : ComparisonOp) (left right : Expression) : List Piece :=
  infixPieces op.mark left.pieces right.pieces

/-- `NOT` in front of the keyword that follows, where it is asked for. -/
def negatedKeyword (negated : Bool) (k : Keyword) : List Keyword :=
  if negated then [.not, k] else [k]

def betweenPieces (negated : Bool) (value low high : Expression) : List Piece :=
  value.pieces ++ (keywordPieces (negatedKeyword negated .between) ++ .blank :: (low.pieces ++
    (keywordPieces [.and] ++ .blank :: high.pieces)))

def likePieces (negated : Bool) (value : Expression) (pattern : String) (matchCase : Bool) :
    List Piece :=
  value.pieces ++ (keywordPieces (if negated then [.not] else []) ++ .blank ::
    (if matchCase then .keyword .like else .word "ILIKE".toList) :: .blank :: [.string pattern])

def isNullPieces (negated : Bool) (value : Expression) : List Piece :=
  value.pieces ++ keywordPieces (if negated then [.is, .not, .null] else [.is, .null])

def inPieces (negated : Bool) (value : Expression) (choices : List Expression) : List Piece :=
  value.pieces ++ (keywordPieces (negatedKeyword negated .inList) ++ .blank ::
    groupedPieces (joinedPieces [.mark .comma, .blank] (Expression.piecesAll choices)))

/-- A comparison of two whole numbers of one digit. -/
def digitsPieces (a b : Char) : List Piece := infixPieces .equal [.number [a]] [.number [b]]

def notPieces (ps : List Piece) : List Piece := .keyword .not :: .blank :: ps

def chainPieces (k : Keyword) (clauses : List (List Piece)) : List Piece :=
  joinedPieces [.blank, .keyword k, .blank] clauses

mutual

def pieces : Filter → List Piece
  | compare op left right => comparisonPieces op left right
  | between value low high => betweenPieces false value low high
  | like value pattern matchCase => likePieces false value pattern matchCase
  | isNull value => isNullPieces false value
  | spatial op left right => callPieces op.functionName [left.pieces, right.pieces]
  | temporal op left right => callPieces op.functionName [left.pieces, right.pieces]
  | all clauses =>
    if clauses.isEmpty then digitsPieces '1' '1' else chainPieces .and (clausePieces clauses)
  | any clauses =>
    if clauses.isEmpty then digitsPieces '1' '0'
    else match inList? clauses with
      | some (value, choices) => inPieces false value choices
      | none => chainPieces .or (clausePieces clauses)
  | negation clause => negationPieces clause

def negationPieces : Filter → List Piece
  | between value low high => betweenPieces true value low high
  | like value pattern matchCase => likePieces true value pattern matchCase
  | isNull value => isNullPieces true value
  | all clauses =>
    if clauses.isEmpty then notPieces (digitsPieces '1' '1')
    else notPieces (groupedPieces (chainPieces .and (clausePieces clauses)))
  | any clauses =>
    if clauses.isEmpty then notPieces (digitsPieces '1' '0')
    else match inList? clauses with
      | some (value, choices) => inPieces true value choices
      | none => notPieces (groupedPieces (chainPieces .or (clausePieces clauses)))
  | compare op left right => notPieces (comparisonPieces op left right)
  | spatial op left right => notPieces (callPieces op.functionName [left.pieces, right.pieces])
  | temporal op left right => notPieces (callPieces op.functionName [left.pieces, right.pieces])
  | negation clause => notPieces (negationPieces clause)

def clausePieces : List Filter → List (List Piece)
  | [] => []
  | f :: fs => (if f.isChain then groupedPieces f.pieces else f.pieces) :: clausePieces fs

end

end Filter

/-! ## Their characters -/

@[simp] theorem charsOf_mark (m : Mark) (ps : List Piece) :
    charsOf (.mark m :: ps) = m.text.toList ++ charsOf ps := rfl

@[simp] theorem charsOf_blank (ps : List Piece) : charsOf (.blank :: ps) = ' ' :: charsOf ps := rfl

@[simp] theorem charsOf_word (w : List Char) (ps : List Piece) :
    charsOf (.word w :: ps) = w ++ charsOf ps := rfl

@[simp] theorem charsOf_number (w : List Char) (ps : List Piece) :
    charsOf (.number w :: ps) = w ++ charsOf ps := rfl

@[simp] theorem charsOf_keyword (k : Keyword) (ps : List Piece) :
    charsOf (.keyword k :: ps) = k.text.toList ++ charsOf ps := rfl

@[simp] theorem charsOf_string (s : String) (ps : List Piece) :
    charsOf (.string s :: ps) = (stringText s).toList ++ charsOf ps := by
  simp [charsOf_cons, Piece.string, Piece.chars, stringText, Quoted.writeText]

@[simp] theorem charsOf_quoted (s : String) (ps : List Piece) :
    charsOf (.quoted s :: ps) = (Quoted.writeText '"' s).toList ++ charsOf ps := by
  simp [charsOf_cons, Piece.quoted, Piece.chars, Quoted.writeText]

def Writes (pss : List (List Piece)) (ss : List String) : Prop :=
  pss.map charsOf = ss.map String.toList

theorem charsOf_joinedPieces {pss : List (List Piece)} {ss : List String} (h : Writes pss ss)
    {sep : List Piece} (separator : String) (hs : charsOf sep = separator.toList) :
    charsOf (joinedPieces sep pss) = (joined separator ss).toList := by
  induction pss generalizing ss with
  | nil =>
    cases ss with
    | nil => rfl
    | cons s ss => cases h
  | cons a pss ih =>
    cases ss with
    | nil => cases h
    | cons s ss =>
      obtain ⟨ha, hrest⟩ := List.cons.inj h
      cases pss with
      | nil =>
        cases ss with
        | nil => exact ha
        | cons t ts => cases hrest
      | cons b pss =>
        cases ss with
        | nil => cases hrest
        | cons t ts =>
          rw [joinedPieces, joined, charsOf_append, charsOf_append, ih hrest, ha, hs,
            String.toList_append, String.toList_append]

theorem charsOf_groupedPieces (ps : List Piece) :
    charsOf (groupedPieces ps) = '(' :: (charsOf ps ++ [')']) := by
  simp [groupedPieces, Mark.text]

theorem charsOf_grouped {ps : List Piece} {s : String} (h : charsOf ps = s.toList) :
    charsOf (groupedPieces ps) = (grouped s).toList := by
  rw [charsOf_groupedPieces, h, grouped]
  simp

theorem charsOf_signPieces (negative : Bool) :
    charsOf (signPieces negative) = if negative then ['-'] else [] := by
  cases negative <;> rfl

theorem charsOf_longPieces (n : Int64) : charsOf (longPieces n) = (toString n.toInt).toList := by
  rw [toList_toString_int, longPieces, charsOf_append, charsOf_signPieces, charsOf_number,
    charsOf_nil, List.append_nil]
  simp

theorem Layout.charsOf_pieces (l : Layout) (x : Binary64) :
    charsOf (l.pieces x) = (l.text x).toList := by
  cases x with
  | finite x =>
    rw [pieces, text, String.toList_ofList, decimalText_eq, charsOf_append, charsOf_signPieces,
      charsOf_number, charsOf_nil, List.append_nil, x.shortest_negative]
  | infinity negative => cases negative <;> simp [pieces, text, charsOf_signPieces]
  | nan => simp [pieces, text]

theorem Coord.charsOf_pieces (c : Coord) : charsOf c.pieces = c.text.toList := by
  obtain ⟨x, y, z⟩ := c
  cases z <;> simp [pieces, text, Layout.charsOf_pieces]

theorem charsOf_listPieces {pss : List (List Piece)} {ss : List String} (h : Writes pss ss) :
    charsOf (listPieces pss) = (listText ss).toList := by
  rw [listPieces, charsOf_groupedPieces, charsOf_joinedPieces h "," rfl, listText]
  simp

theorem writes_map {f : α → List Piece} {g : α → String} (h : ∀ x, charsOf (f x) = (g x).toList)
    (xs : List α) : Writes (xs.map f) (xs.map g) := by
  simp [Writes, h]

namespace Geometry

theorem charsOf_linePieces (cs : List Coord) : charsOf (linePieces cs) = (lineText cs).toList :=
  charsOf_listPieces (writes_map Coord.charsOf_pieces cs)

theorem charsOf_ringsPieces (rings : List (List Coord)) :
    charsOf (ringsPieces rings) = (ringsText rings).toList :=
  charsOf_listPieces (writes_map charsOf_linePieces rings)

theorem charsOf_typedPieces (name : String) {pss : List (List Piece)} {ss : List String}
    (h : Writes pss ss) {empty : Bool} (he : empty = ss.isEmpty) :
    charsOf (typedPieces name pss) =
      (if empty then name ++ " EMPTY" else name ++ listText ss).toList := by
  subst he
  cases pss with
  | nil =>
    cases ss with
    | nil => simp [typedPieces]
    | cons s ss => cases h
  | cons a pss =>
    cases ss with
    | nil => cases h
    | cons s ss =>
      simp only [typedPieces, List.isEmpty_cons, Bool.false_eq_true, if_false, charsOf_word,
        String.toList_append, charsOf_listPieces h]

mutual

theorem charsOf_pieces : ∀ g : Geometry, charsOf g.pieces = g.text.toList
  | point none => by
    have hw : Writes [] [] := rfl
    rw [pieces, charsOf_typedPieces "POINT" hw rfl]
    rfl
  | point (some c) => by
    have hw : Writes [c.pieces] [c.text] := writes_map Coord.charsOf_pieces [c]
    rw [pieces, charsOf_typedPieces "POINT" hw rfl, text]
    simp [listText, joined]
  | lineString cs => charsOf_typedPieces _ (writes_map Coord.charsOf_pieces cs) (by simp)
  | polygon rings => charsOf_typedPieces _ (writes_map charsOf_linePieces rings) (by simp)
  | multiPoint cs => charsOf_typedPieces _
      (writes_map (fun c => charsOf_grouped c.charsOf_pieces) cs) (by simp)
  | multiLineString lines => charsOf_typedPieces _ (writes_map charsOf_linePieces lines) (by simp)
  | multiPolygon polygons =>
    charsOf_typedPieces _ (writes_map charsOf_ringsPieces polygons) (by simp)
  | collection members => charsOf_typedPieces _ (writes_piecesAll members) (by
      cases members <;> rfl)

theorem writes_piecesAll : ∀ gs : List Geometry, Writes (piecesAll gs) (textAll gs)
  | [] => rfl
  | g :: gs => by
    have h := writes_piecesAll gs
    simp only [Writes, piecesAll, textAll, List.map_cons, charsOf_pieces g] at h ⊢
    rw [h]

end

end Geometry

/-! ## Expressions -/

theorem charsOf_propertyPieces (path : String) :
    charsOf (propertyPieces path) = (propertyText path).toList := by
  unfold propertyPieces propertyText
  split <;> simp [pathWord]

theorem charsOf_callPieces (name : String) {pss : List (List Piece)} (ss : List String)
    (h : Writes pss ss) :
    charsOf (callPieces name pss) = (name ++ grouped (joined ", " ss)).toList := by
  rw [callPieces, charsOf_word, String.toList_append,
    charsOf_grouped (charsOf_joinedPieces h ", " rfl)]

theorem ArithmeticOp.toList_symbol (op : ArithmeticOp) :
    op.symbol.toList = op.mark.text.toList := by
  cases op <;> rfl

theorem ComparisonOp.toList_symbol (op : ComparisonOp) :
    op.symbol.toList = op.mark.text.toList := by
  cases op <;> rfl

theorem charsOf_infixPieces (m : Mark) (left right : List Piece) :
    charsOf (infixPieces m left right) =
      charsOf left ++ ' ' :: (m.text.toList ++ ' ' :: charsOf right) := by
  simp [infixPieces]

mutual

theorem Value.charsOf_pieces : ∀ v : Value, charsOf v.pieces = v.text.toList
  | .long n => charsOf_longPieces n
  | .double x => Layout.literal.charsOf_pieces x
  | .string s => by simp [Value.pieces, Value.text]
  | .boolean b => by cases b <;> rfl
  | .date d => by
    rw [Value.pieces, charsOf_callPieces "DATE" [stringText (String.ofList d.text)]]
    · rw [Value.text]
      simp [joined, grouped]
    · simp [Writes]
  | .timestamp t => by
    rw [Value.pieces, charsOf_callPieces "TIMESTAMP" [stringText (String.ofList t.text)]]
    · rw [Value.text]
      simp [joined, grouped]
    · simp [Writes]
  | .interval start stop => by
    rw [Value.pieces, charsOf_callPieces "INTERVAL" [start.text, stop.text]]
    · rw [Value.text]
      simp [joined, grouped]
    · simp [Writes, start.charsOf_pieces, stop.charsOf_pieces]
  | .geometry g => g.charsOf_pieces
  | .color c => by simp [Value.pieces, Value.text]

theorem Expression.charsOf_pieces : ∀ e : Expression, charsOf e.pieces = e.text.toList
  | .literal v => v.charsOf_pieces
  | .property path => charsOf_propertyPieces path
  | .call name args => charsOf_callPieces name _ (Expression.writes_piecesAll args)
  | .arithmetic op left right => by
    have hl (b : Bool) : charsOf (if b then groupedPieces left.pieces else left.pieces) =
        (if b then grouped left.text else left.text).toList := by
      cases b with
      | true => exact charsOf_grouped left.charsOf_pieces
      | false => exact left.charsOf_pieces
    have hr (b : Bool) : charsOf (if b then groupedPieces right.pieces else right.pieces) =
        (if b then grouped right.text else right.text).toList := by
      cases b with
      | true => exact charsOf_grouped right.charsOf_pieces
      | false => exact right.charsOf_pieces
    rw [Expression.pieces, charsOf_infixPieces, hl, hr, Expression.text]
    simp [op.toList_symbol]

theorem Expression.writes_piecesAll :
    ∀ es : List Expression, Writes (Expression.piecesAll es) (Expression.textAll es)
  | [] => rfl
  | e :: es => by
    have h := Expression.writes_piecesAll es
    simp only [Writes, Expression.piecesAll, Expression.textAll, List.map_cons,
      e.charsOf_pieces] at h ⊢
    rw [h]

end

/-! ## Filters -/

namespace Filter

theorem charsOf_comparisonPieces (op : ComparisonOp) (left right : Expression) :
    charsOf (comparisonPieces op left right) = (comparisonText op left right).toList := by
  rw [comparisonPieces, charsOf_infixPieces, comparisonText]
  simp [op.toList_symbol, Expression.charsOf_pieces]

theorem charsOf_betweenPieces (negated : Bool) (value low high : Expression) :
    charsOf (betweenPieces negated value low high) =
      (betweenText negated value low high).toList := by
  cases negated <;>
    simp [betweenPieces, betweenText, keywordPieces, negatedKeyword, Expression.charsOf_pieces,
      Keyword.text]

theorem charsOf_likePieces (negated : Bool) (value : Expression) (pattern : String)
    (matchCase : Bool) : charsOf (likePieces negated value pattern matchCase) =
      (likeText negated value pattern matchCase).toList := by
  cases negated <;> cases matchCase <;>
    simp [likePieces, likeText, keywordPieces, Expression.charsOf_pieces, Keyword.text]

theorem charsOf_isNullPieces (negated : Bool) (value : Expression) :
    charsOf (isNullPieces negated value) =
      (value.text ++ if negated then " IS NOT NULL" else " IS NULL").toList := by
  cases negated <;>
    simp [isNullPieces, keywordPieces, Expression.charsOf_pieces, Keyword.text]

theorem charsOf_inPieces (negated : Bool) (value : Expression) (choices : List Expression) :
    charsOf (inPieces negated value choices) = (inText negated value choices).toList := by
  have hg : charsOf (groupedPieces (joinedPieces [.mark .comma, .blank]
      (Expression.piecesAll choices))) =
        (grouped (joined ", " (Expression.textAll choices))).toList :=
    charsOf_grouped (charsOf_joinedPieces (Expression.writes_piecesAll choices) _ rfl)
  cases negated <;>
    simp [inPieces, inText, keywordPieces, negatedKeyword, Expression.charsOf_pieces,
      Keyword.text, hg]

theorem charsOf_callPieces (name : String) (left right : Expression) :
    charsOf (callPieces name [left.pieces, right.pieces]) = (callText name left right).toList := by
  rw [FeatureFilter.charsOf_callPieces name [left.text, right.text]]
  · rw [callText]
    simp [joined, grouped]
  · simp [Writes, Expression.charsOf_pieces]

theorem charsOf_notPieces {ps : List Piece} {s : String} (h : charsOf ps = s.toList) :
    charsOf (notPieces ps) = ("NOT " ++ s).toList := by
  simp [notPieces, h, Keyword.text]

mutual

theorem charsOf_pieces : ∀ f : Filter, charsOf f.pieces = f.text.toList
  | compare op left right => charsOf_comparisonPieces op left right
  | between value low high => charsOf_betweenPieces false value low high
  | like value pattern matchCase => charsOf_likePieces false value pattern matchCase
  | isNull value => charsOf_isNullPieces false value
  | spatial op left right => charsOf_callPieces op.functionName left right
  | temporal op left right => charsOf_callPieces op.functionName left right
  | all clauses => by
    rw [pieces, text]
    split
    · rfl
    · exact charsOf_joinedPieces (writes_clausePieces clauses) _ rfl
  | any clauses => by
    rw [pieces, text]
    split
    · rfl
    · cases inList? clauses with
      | some p => exact charsOf_inPieces false p.1 p.2
      | none => exact charsOf_joinedPieces (writes_clausePieces clauses) _ rfl
  | negation clause => charsOf_negationPieces clause

theorem charsOf_negationPieces : ∀ f : Filter, charsOf f.negationPieces = f.negationText.toList
  | between value low high => charsOf_betweenPieces true value low high
  | like value pattern matchCase => charsOf_likePieces true value pattern matchCase
  | isNull value => charsOf_isNullPieces true value
  | all clauses => by
    rw [negationPieces, negationText]
    split
    · rfl
    · exact charsOf_notPieces
        (charsOf_grouped (charsOf_joinedPieces (writes_clausePieces clauses) _ rfl))
  | any clauses => by
    rw [negationPieces, negationText]
    split
    · rfl
    · cases inList? clauses with
      | some p => exact charsOf_inPieces true p.1 p.2
      | none =>
        exact charsOf_notPieces
          (charsOf_grouped (charsOf_joinedPieces (writes_clausePieces clauses) _ rfl))
  | compare op left right => charsOf_notPieces (charsOf_comparisonPieces op left right)
  | spatial op left right => charsOf_notPieces (charsOf_callPieces op.functionName left right)
  | temporal op left right => charsOf_notPieces (charsOf_callPieces op.functionName left right)
  | negation clause => charsOf_notPieces (charsOf_negationPieces clause)

theorem writes_clausePieces : ∀ fs : List Filter, Writes (clausePieces fs) (clauseTexts fs)
  | [] => rfl
  | f :: fs => by
    have h := writes_clausePieces fs
    have hf : charsOf (if f.isChain then groupedPieces f.pieces else f.pieces) =
        (if f.isChain then grouped f.text else f.text).toList := by
      split
      · exact charsOf_grouped f.charsOf_pieces
      · exact f.charsOf_pieces
    simp only [Writes, clausePieces, clauseTexts, List.map_cons, hf] at h ⊢
    rw [h]

end

end Filter

/-! ## Taking the pieces apart -/

/-- In front of what ends a lexeme, the lexer takes the pieces apart. -/
def Chunk (ps : List Piece) : Prop :=
  ∀ qs, Lexable qs → Stops (charsOf qs) → Lexable (ps ++ qs)

/-- The pieces start with a blank, a comma or a parenthesis. -/
def StartsStop (ps : List Piece) : Prop := ∀ qs, Stops (charsOf (ps ++ qs))

namespace Chunk

theorem nil : Chunk [] := fun _ h _ => h

theorem blank {ps : List Piece} (h : Chunk ps) : Chunk (.blank :: ps) := fun qs hq hs => h qs hq hs

theorem solid {kind : TokenKind} {w : List Char} {ps : List Piece} (hw : Solid kind w)
    (h : Chunk ps) : Chunk (.lexeme kind w :: ps) := fun qs hq hs => .solid hw (h qs hq hs)

theorem single {kind : TokenKind} {w : List Char} (hw : Firm kind w) : Chunk [.lexeme kind w] :=
  fun _ hq hs => .firm hw hs hq

theorem append {a b : List Piece} (ha : Chunk a) (hb : Chunk b) (hs : StartsStop b) :
    Chunk (a ++ b) := by
  intro qs hq hqs
  rw [List.append_assoc]
  exact ha (b ++ qs) (hb qs hq hqs) (hs qs)

theorem firm {kind : TokenKind} {w : List Char} {ps : List Piece} (hw : Firm kind w)
    (h : Chunk ps) (hs : StartsStop ps) : Chunk (.lexeme kind w :: ps) := (single hw).append h hs

end Chunk

theorem startsStop_blank (ps : List Piece) : StartsStop (.blank :: ps) :=
  fun _ => stops_cons.2 (.inl rfl)

theorem startsStop_comma (ps : List Piece) : StartsStop (.mark .comma :: ps) :=
  fun _ => stops_cons.2 (.inr (.inl rfl))

theorem startsStop_leftParen (ps : List Piece) : StartsStop (.mark .leftParen :: ps) :=
  fun _ => stops_cons.2 (.inr (.inr (.inl rfl)))

theorem startsStop_rightParen (ps : List Piece) : StartsStop (.mark .rightParen :: ps) :=
  fun _ => stops_cons.2 (.inr (.inr (.inr rfl)))

theorem Chunk.joined {sep : List Piece} (hs : ∀ ps, StartsStop (sep ++ ps))
    (hsep : ∀ ps, Chunk ps → Chunk (sep ++ ps)) {pss : List (List Piece)}
    (h : ∀ ps ∈ pss, Chunk ps) : Chunk (joinedPieces sep pss) := by
  induction pss with
  | nil => exact .nil
  | cons a pss ih =>
    cases pss with
    | nil => exact h a (List.mem_cons_self ..)
    | cons b pss =>
      rw [joinedPieces, List.append_assoc]
      exact (h a (List.mem_cons_self ..)).append
        (hsep _ (ih fun ps hps => h ps (List.mem_cons_of_mem _ hps))) (hs _)

theorem Chunk.grouped {ps : List Piece} (h : Chunk ps) : Chunk (groupedPieces ps) :=
  .solid solid_leftParen (h.append (.solid solid_rightParen .nil) (startsStop_rightParen _))

theorem startsStop_grouped (ps : List Piece) : StartsStop (groupedPieces ps) :=
  startsStop_leftParen _

theorem chunk_commas {pss : List (List Piece)} (h : ∀ ps ∈ pss, Chunk ps) :
    Chunk (joinedPieces [.mark .comma] pss) :=
  .joined (fun _ => startsStop_comma _) (fun _ hps => .solid solid_comma hps) h

theorem chunk_arguments {pss : List (List Piece)} (h : ∀ ps ∈ pss, Chunk ps) :
    Chunk (joinedPieces [.mark .comma, .blank] pss) :=
  .joined (fun _ => startsStop_comma _) (fun _ hps => .solid solid_comma (.blank hps)) h

theorem chunk_word {w : List Char} (h : isIdentifier w = true) : Chunk [.word w] :=
  .single (firm_word h)

theorem chunk_string (s : String) : Chunk [.string s] := .single (firm_string s)

theorem chunk_sign (negative : Bool) {ps : List Piece} (h : Chunk ps) :
    Chunk (signPieces negative ++ ps) := by
  cases negative with
  | true => exact .solid solid_minus h
  | false => exact h

/-! ### Numbers and geometries -/

theorem chunk_longPieces (n : Int64) : Chunk (longPieces n) := by
  refine chunk_sign _ (.single ?_)
  have h := firm_number (Layout.wholeNumeral n.toInt.natAbs)
  rwa [Layout.wholeNumeral_chars] at h

theorem Layout.chunk_pieces (l : Layout) (x : Binary64) : Chunk (l.pieces x) := by
  cases x with
  | finite x =>
    obtain ⟨n, hn, -⟩ := l.exists_body x
    rw [pieces, hn]
    exact chunk_sign _ (.single (firm_number n))
  | infinity negative => exact chunk_sign _ (chunk_word (by decide +kernel))
  | nan => exact chunk_word (by decide +kernel)

theorem Coord.chunk_pieces (c : Coord) : Chunk c.pieces := by
  obtain ⟨x, y, z⟩ := c
  refine (Layout.chunk_pieces _ x).append (.blank ?_) (startsStop_blank _)
  cases z with
  | none =>
    have := Layout.ordinate.chunk_pieces y
    simpa using this
  | some z =>
    exact (Layout.chunk_pieces _ y).append (.blank (Layout.chunk_pieces _ z)) (startsStop_blank _)

theorem chunk_listPieces {pss : List (List Piece)} (h : ∀ ps ∈ pss, Chunk ps) :
    Chunk (listPieces pss) := (chunk_commas h).grouped

theorem chunk_map {f : α → List Piece} (h : ∀ x, Chunk (f x)) (xs : List α) :
    ∀ ps ∈ xs.map f, Chunk ps := by
  intro ps hps
  obtain ⟨x, -, rfl⟩ := List.mem_map.1 hps
  exact h x

namespace Geometry

theorem chunk_linePieces (cs : List Coord) : Chunk (linePieces cs) :=
  chunk_listPieces (chunk_map Coord.chunk_pieces cs)

theorem chunk_ringsPieces (rings : List (List Coord)) : Chunk (ringsPieces rings) :=
  chunk_listPieces (chunk_map chunk_linePieces rings)

theorem chunk_typedPieces {name : String} (hn : isIdentifier name.toList = true)
    {pss : List (List Piece)} (h : ∀ ps ∈ pss, Chunk ps) : Chunk (typedPieces name pss) := by
  unfold typedPieces
  split
  · exact .firm (firm_word hn) (.blank (chunk_word (by decide +kernel))) (startsStop_blank _)
  · exact .firm (firm_word hn) (chunk_listPieces h) (startsStop_grouped _)

mutual

theorem chunk_pieces : ∀ g : Geometry, Chunk g.pieces
  | point none => chunk_typedPieces (by decide +kernel) (by simp)
  | point (some c) =>
    chunk_typedPieces (by decide +kernel) (chunk_map Coord.chunk_pieces [c])
  | lineString cs => chunk_typedPieces (by decide +kernel) (chunk_map Coord.chunk_pieces cs)
  | polygon rings => chunk_typedPieces (by decide +kernel) (chunk_map chunk_linePieces rings)
  | multiPoint cs =>
    chunk_typedPieces (by decide +kernel) (chunk_map (fun c => c.chunk_pieces.grouped) cs)
  | multiLineString lines =>
    chunk_typedPieces (by decide +kernel) (chunk_map chunk_linePieces lines)
  | multiPolygon polygons =>
    chunk_typedPieces (by decide +kernel) (chunk_map chunk_ringsPieces polygons)
  | collection members => chunk_typedPieces (by decide +kernel) (chunk_piecesAll members)

theorem chunk_piecesAll : ∀ gs : List Geometry, ∀ ps ∈ piecesAll gs, Chunk ps
  | [] => by simp [piecesAll]
  | g :: gs => by
    have h := chunk_piecesAll gs
    have hg := chunk_pieces g
    intro ps hps
    rcases List.mem_cons.1 hps with rfl | hps
    · exact hg
    · exact h ps hps

end

end Geometry

/-! ### Expressions -/

theorem chunk_propertyPieces (path : String) : Chunk (propertyPieces path) := by
  unfold propertyPieces
  split
  · rename_i h
    exact chunk_word (isIdentifier_pathWord h)
  · exact .single (firm_quoted path)

theorem chunk_callPieces {name : String} (hn : isIdentifier name.toList = true)
    {pss : List (List Piece)} (h : ∀ ps ∈ pss, Chunk ps) : Chunk (callPieces name pss) :=
  .firm (firm_word hn) (chunk_arguments h).grouped (startsStop_grouped _)

theorem chunk_infixPieces (m : Mark) {left right : List Piece} (hl : Chunk left)
    (hr : Chunk right) : Chunk (infixPieces m left right) :=
  hl.append (.blank (.firm (firm_mark m) (.blank hr) (startsStop_blank _))) (startsStop_blank _)

variable {d : Dialect}

mutual

theorem Value.chunk_pieces : ∀ v : Value, v.Every (Expression.Plain d) → Chunk v.pieces
  | .long n, _ => chunk_longPieces n
  | .double x, _ => Layout.literal.chunk_pieces x
  | .string s, _ => chunk_string s
  | .boolean b, _ => .single (firm_keyword _)
  | .date d, _ => chunk_callPieces (by decide +kernel) (by
      simpa using chunk_string _)
  | .timestamp t, _ => chunk_callPieces (by decide +kernel) (by
      simpa using chunk_string _)
  | .interval start stop, h => chunk_callPieces (by decide +kernel) (by
      simpa using ⟨start.chunk_pieces h.1, stop.chunk_pieces h.2⟩)
  | .geometry g, _ => g.chunk_pieces
  | .color c, _ => chunk_string c.text

theorem Expression.chunk_pieces : ∀ e : Expression, e.Legible d → Chunk e.pieces
  | .literal v, h => v.chunk_pieces h.2
  | .property path, _ => chunk_propertyPieces path
  | .call name args, h => chunk_callPieces h.1.identifier (Expression.chunk_piecesAll args h.2)
  | .arithmetic op left right, h => by
    have hl := left.chunk_pieces h.2.1
    have hr := right.chunk_pieces h.2.2
    refine chunk_infixPieces _ ?_ ?_
    · split
      · exact hl.grouped
      · exact hl
    · split
      · exact hr.grouped
      · exact hr

theorem Expression.chunk_piecesAll : ∀ es : List Expression,
    Expression.EveryOne (Expression.Plain d) es → ∀ ps ∈ Expression.piecesAll es, Chunk ps
  | [], _ => by simp [Expression.piecesAll]
  | e :: es, h => by
    have he := e.chunk_pieces h.1
    have hes := Expression.chunk_piecesAll es h.2
    intro ps hps
    rcases List.mem_cons.1 hps with rfl | hps
    · exact he
    · exact hes ps hps

end

/-! ### Filters -/

namespace Filter

theorem chunk_keywordPieces (ks : List Keyword) {ps : List Piece} (h : Chunk ps) :
    Chunk (keywordPieces ks ++ .blank :: ps) := by
  induction ks with
  | nil => exact .blank h
  | cons k ks ih =>
    refine .blank (.firm (firm_keyword k) ih ?_)
    cases ks <;> exact startsStop_blank _

theorem chunk_keywords (ks : List Keyword) : Chunk (keywordPieces ks) := by
  induction ks with
  | nil => exact .nil
  | cons k ks ih =>
    cases ks with
    | nil => exact .blank (.single (firm_keyword k))
    | cons k' ks => exact .blank (.firm (firm_keyword k) ih (startsStop_blank _))

theorem startsStop_keywordPieces_blank (ks : List Keyword) (ps : List Piece) :
    StartsStop (keywordPieces ks ++ .blank :: ps) := by
  cases ks <;> exact startsStop_blank _

theorem chunk_betweenPieces (negated : Bool) {value low high : Expression}
    (hv : value.Legible d) (hl : low.Legible d) (hh : high.Legible d) :
    Chunk (betweenPieces negated value low high) :=
  value.chunk_pieces hv |>.append (chunk_keywordPieces _ (low.chunk_pieces hl |>.append
    (chunk_keywordPieces _ (high.chunk_pieces hh)) (startsStop_keywordPieces_blank _ _)))
    (startsStop_keywordPieces_blank _ _)

theorem chunk_likePieces (negated : Bool) {value : Expression} (pattern : String)
    (matchCase : Bool) (hv : value.Legible d) :
    Chunk (likePieces negated value pattern matchCase) := by
  refine value.chunk_pieces hv |>.append (chunk_keywordPieces _ ?_)
    (startsStop_keywordPieces_blank _ _)
  have hp := (chunk_string pattern).blank
  cases matchCase with
  | true => exact .firm (firm_keyword _) hp (startsStop_blank _)
  | false => exact .firm (firm_word (by decide +kernel)) hp (startsStop_blank _)

theorem chunk_isNullPieces (negated : Bool) {value : Expression} (hv : value.Legible d) :
    Chunk (isNullPieces negated value) := by
  refine value.chunk_pieces hv |>.append (chunk_keywords _) ?_
  cases negated <;> exact startsStop_blank _

theorem chunk_inPieces (negated : Bool) {value : Expression} {choices : List Expression}
    (hv : value.Legible d) (hc : Expression.EveryOne (Expression.Plain d) choices) :
    Chunk (inPieces negated value choices) :=
  value.chunk_pieces hv |>.append (chunk_keywordPieces _
    (chunk_arguments (Expression.chunk_piecesAll choices hc)).grouped)
    (startsStop_keywordPieces_blank _ _)

theorem chunk_notPieces {ps : List Piece} (h : Chunk ps) : Chunk (notPieces ps) :=
  .firm (firm_keyword _) (.blank h) (startsStop_blank _)

theorem chunk_pair {name : String} (hn : isIdentifier name.toList = true) {left right : Expression}
    (hl : left.Legible d) (hr : right.Legible d) :
    Chunk (callPieces name [left.pieces, right.pieces]) :=
  chunk_callPieces hn (by simpa using ⟨left.chunk_pieces hl, right.chunk_pieces hr⟩)

theorem isIdentifier_spatial (op : SpatialOp) : isIdentifier op.functionName.toList = true := by
  cases op <;> decide +kernel

theorem isIdentifier_temporal (op : TemporalOp) : isIdentifier op.functionName.toList = true := by
  cases op <;> decide +kernel

theorem chunk_chainPieces (k : Keyword) {pss : List (List Piece)} (h : ∀ ps ∈ pss, Chunk ps) :
    Chunk (chainPieces k pss) :=
  .joined (fun _ => startsStop_blank _)
    (fun _ hps => .blank (.firm (firm_keyword k) (.blank hps) (startsStop_blank _))) h

theorem chunk_digitsPieces (a b : Char) (ha : a.isDigit = true) (hb : b.isDigit = true) :
    Chunk (digitsPieces a b) := by
  have h (c : Char) (hc : c.isDigit = true) : Chunk [.number [c]] :=
    .single (firm_number (Layout.numeral [c] none none (by simp) (by simp [hc]) (by simp)))
  exact chunk_infixPieces _ (h a ha) (h b hb)

mutual

theorem chunk_pieces : ∀ f : Filter, f.Legible d → Chunk f.pieces
  | compare _ left right, h =>
    chunk_infixPieces _ (left.chunk_pieces h.2.1) (right.chunk_pieces h.2.2)
  | between _ _ _, h => chunk_betweenPieces false h.2.1 h.2.2.1 h.2.2.2
  | like _ pattern matchCase, h => chunk_likePieces false pattern matchCase h.2
  | isNull _, h => chunk_isNullPieces false h.2
  | spatial op _ _, h => chunk_pair (isIdentifier_spatial op) h.2.1 h.2.2
  | temporal op _ _, h => chunk_pair (isIdentifier_temporal op) h.2.1 h.2.2
  | all clauses, h => by
    rw [pieces]
    split
    · exact chunk_digitsPieces _ _ rfl rfl
    · exact chunk_chainPieces _ (chunk_clausePieces clauses h.2)
  | any clauses, h => by
    rw [pieces]
    split
    · exact chunk_digitsPieces _ _ rfl rfl
    · split
      · rename_i hin
        obtain ⟨hv, hc⟩ := every_of_inList? hin h.2
        exact chunk_inPieces false hv hc
      · exact chunk_chainPieces _ (chunk_clausePieces clauses h.2)
  | negation clause, h => chunk_negationPieces clause h.2

theorem chunk_negationPieces : ∀ f : Filter, f.Legible d → Chunk f.negationPieces
  | compare _ left right, h =>
    chunk_notPieces (chunk_infixPieces _ (left.chunk_pieces h.2.1) (right.chunk_pieces h.2.2))
  | between _ _ _, h => chunk_betweenPieces true h.2.1 h.2.2.1 h.2.2.2
  | like _ pattern matchCase, h => chunk_likePieces true pattern matchCase h.2
  | isNull _, h => chunk_isNullPieces true h.2
  | spatial op _ _, h => chunk_notPieces (chunk_pair (isIdentifier_spatial op) h.2.1 h.2.2)
  | temporal op _ _, h => chunk_notPieces (chunk_pair (isIdentifier_temporal op) h.2.1 h.2.2)
  | all clauses, h => by
    rw [negationPieces]
    split
    · exact chunk_notPieces (chunk_digitsPieces _ _ rfl rfl)
    · exact chunk_notPieces (chunk_chainPieces _ (chunk_clausePieces clauses h.2)).grouped
  | any clauses, h => by
    rw [negationPieces]
    split
    · exact chunk_notPieces (chunk_digitsPieces _ _ rfl rfl)
    · split
      · rename_i hin
        obtain ⟨hv, hc⟩ := every_of_inList? hin h.2
        exact chunk_inPieces true hv hc
      · exact chunk_notPieces (chunk_chainPieces _ (chunk_clausePieces clauses h.2)).grouped
  | negation clause, h => chunk_notPieces (chunk_negationPieces clause h.2)

theorem chunk_clausePieces :
    ∀ fs : List Filter, EveryOne (Filter.Plain d) (Expression.Plain d) fs →
      ∀ ps ∈ clausePieces fs, Chunk ps
  | [], _ => by simp [clausePieces]
  | f :: fs, h => by
    have hf := chunk_pieces f h.1
    have hfs := chunk_clausePieces fs h.2
    intro ps hps
    rcases List.mem_cons.1 hps with rfl | hps
    · split
      · exact hf.grouped
      · exact hf
    · exact hfs ps hps

end

end Filter

theorem Chunk.lexable {ps : List Piece} (h : Chunk ps) : Lexable ps := by
  have := h [] trivial stops_nil
  rwa [List.append_nil] at this

theorem Filter.tokenize_text {f : Filter} (h : f.Legible d) :
    tokenize f.text = .ok (tokensAt .start f.pieces) := by
  have := tokenize_charsOf (f.chunk_pieces h).lexable
  rwa [f.charsOf_pieces, String.ofList_toList] at this

end FeatureFilter
