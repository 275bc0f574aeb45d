import FeatureFilter.Phrase.Condition
import FeatureFilter.Proofs.Syntax.Bare

/-!
# The rules of the grammar

Which tokens are which phrases, said without a reader: nothing is looked ahead at, and no attempt is
given up. A category is a kind of phrases; the rules of a category name the categories of the parts.
Parts that are one level deeper belong to a category of their own, and there is none when no level
is left, so that `IsOperand g n` and `IsCondition g n` are the phrases with at most `n` levels of
nesting. Phrases are given without their places.
-/

namespace FeatureFilter

open Span (nowhere)

/-- A kind of phrases: which tokens are a phrase of the kind, and which phrase. -/
abbrev Category (α : Type) := List Token → α → Prop

namespace Category

variable {α β γ : Type}

/-- The phrases one level deeper, if a level is left. -/
def below (c : Nat → Category α) : Nat → Option (Category α)
  | 0 => none
  | n + 1 => some (c n)

theorem below_eq_some {c : Nat → Category α} {n : Nat} {d : Category α} :
    below c n = some d ↔ ∃ k, n = k + 1 ∧ d = c k := by
  cases n with
  | zero => exact ⟨nofun, nofun⟩
  | succ k => simp [below, eq_comm]

/-- Items with a token in front of each that links it to what stands before. -/
inductive Linked (link? : TokenKind → Option β) (item : Category α) : Category (List (β × α)) where
  | nil : Linked link? item [] []
  | cons {t : Token} {ts us : List Token} {b : β} {a : α} {xs : List (β × α)}
    (link : link? t.kind = some b) (head : item ts a) (tail : Linked link? item us xs) :
    Linked link? item (t :: (ts ++ us)) ((b, a) :: xs)

inductive Sequence (link? : TokenKind → Option β) (item : Category α)
    (build : α → List (β × α) → γ) : Category γ where
  | intro {ts us : List Token} {a : α} {xs : List (β × α)} (head : item ts a)
    (tail : Linked link? item us xs) : Sequence link? item build (ts ++ us) (build a xs)

theorem Sequence.single {link? : TokenKind → Option β} {item : Category α}
    {build : α → List (β × α) → γ} {ts : List Token} {a : α} (h : item ts a) :
    Sequence link? item build ts (build a []) := by
  have hs : Sequence link? item build (ts ++ []) (build a []) := .intro h .nil
  rwa [List.append_nil] at hs

theorem Sequence.pair {link? : TokenKind → Option β} {item : Category α}
    {build : α → List (β × α) → γ} {ts us : List Token} {t : Token} {a a' : α} {b : β}
    (h : item ts a) (link : link? t.kind = some b) (h' : item us a') :
    Sequence link? item build (ts ++ t :: us) (build a [(b, a')]) := by
  have hs : Sequence link? item build (ts ++ t :: (us ++ [])) (build a [(b, a')]) :=
    .intro h (.cons link h' .nil)
  rwa [List.append_nil] at hs

end Category

open Category (Sequence)

abbrev linkOf (kind : TokenKind) : TokenKind → Option Unit :=
  fun k => if k = kind then some () else none

abbrev Category.CommaList (item : Category α) : Category (List α) :=
  Sequence (linkOf (.mark .comma)) item fun a xs => a :: xs.map (·.2)

/-- Where the last of the tokens ends, `stop` being the end of what stands before them. -/
def stopOf (stop : Nat) : List Token → Nat
  | [] => stop
  | t :: ts => stopOf t.span.stop ts

namespace Grammar

/-! ## Geometries -/

/-- A tag between the type of a geometry and its coordinates, `EMPTY` aside. -/
def IsTag (t : Token) : Prop :=
  ∃ w, t.kind = .identifier w ∧ isGeometryTag w = true ∧ sameWord w "EMPTY" = false

/-- Tokens that close all of `depth` open parentheses, the last of them with the last token. No more
than `limit` are open where another one is opened. -/
inductive Closes (limit : Nat) : Nat → List Token → Prop where
  | last {t : Token} (ht : t.kind = .mark .rightParen) : Closes limit 1 [t]
  | close {t : Token} {depth : Nat} {ts : List Token} (ht : t.kind = .mark .rightParen)
    (h : Closes limit (depth + 1) ts) : Closes limit (depth + 2) (t :: ts)
  | deepen {t : Token} {depth : Nat} {ts : List Token} (ht : t.kind = .mark .leftParen)
    (hd : depth + 1 ≤ limit) (h : Closes limit (depth + 1) ts) : Closes limit depth (t :: ts)
  | other {t : Token} {depth : Nat} {ts : List Token} (hl : t.kind ≠ .mark .leftParen)
    (hr : t.kind ≠ .mark .rightParen) (h : Closes limit depth ts) : Closes limit depth (t :: ts)

/-- What stands behind the type of a geometry. -/
inductive ShapeRest (limit : Nat) : List Token → Prop where
  | empty {tags : List Token} {t : Token} {w : String} (htags : ∀ t ∈ tags, IsTag t)
    (ht : t.kind = .identifier w) (hw : sameWord w "EMPTY" = true) : ShapeRest limit (tags ++ [t])
  | full {tags ts : List Token} {t : Token} (htags : ∀ t ∈ tags, IsTag t)
    (ht : t.kind = .mark .leftParen) (h : Closes limit 1 ts) : ShapeRest limit (tags ++ t :: ts)

/-- A geometry, whose text is read on its own. -/
inductive Shape (g : Grammar) : Category Geometry where
  | intro {t : Token} {ts : List Token} {w : String} {cs : List Char} {shape : Geometry}
    (ht : t.kind = .identifier w) (hw : isGeometryWord w = true)
    (hts : ShapeRest g.dialect.maxDepth ts)
    (hcs : byteSlice g.source.toList t.span.start (stopOf t.span.stop ts) = some cs)
    (hshape : g.readGeometry (String.ofList cs) = .ok shape) : Shape g (t :: ts) shape

def ordinate? : Literal → Option Binary64
  | .integer n => some (.ofInt n.toInt)
  | .double x => some x
  | _ => none

inductive Ordinate : Category Binary64 where
  | unsigned {t : Token} {w : String} {l : Literal} {x : Binary64} (ht : t.kind = .number w)
    (hl : Literal.readNumber w = .ok l) (hx : ordinate? l = some x) : Ordinate [t] x
  | signed {s t : Token} {negative : Bool} {w : String} {l : Literal} {x : Binary64}
    (hs : Operand.sign? s.kind = some negative) (ht : t.kind = .number w)
    (hl : Literal.readNumber w = .ok l) (hx : ordinate? l = some x) :
    Ordinate [s, t] (if negative then x.neg else x)

/-! ## Operands -/

def close? (g : Grammar) : TokenKind → Option Mark
  | .mark .leftParen => some .rightParen
  | .mark .leftBracket => if g.dialect.allows .bracketGrouping then some .rightBracket else none
  | _ => none

/-- A function that can be called by the name: it starts neither a geometry nor another literal, and
is not refused. -/
structure Calls (g : Grammar) (name : String) : Prop where
  noGeometry : isGeometryWord name = false
  noEnvelope : sameWord name "ENVELOPE" = false
  noDate : sameWord name "DATE" = false
  noTimestamp : sameWord name "TIMESTAMP" = false
  noInterval : sameWord name "INTERVAL" = false
  allowed : g.dialect.rejects name = false

/-- The bound of an interval that a string stands for by itself. -/
def stringBound? (g : Grammar) (span : Span) (content : String) : Option Operand :=
  if content = openMarker then some (.openBound span)
  else match Literal.readTimestamp (g.dialect.allows .naiveTimestamps) content with
    | .ok i => some (.literal span (.timestamp i))
    | .error _ =>
      match Literal.readDate content with
      | .ok d => some (.literal span (.date d))
      | .error _ => none

/-- A bound of an interval. No other operand starts with a string that is a bound by itself. -/
inductive Bound (g : Grammar) (inner : Category Operand) : Category Operand where
  | string {t : Token} {content : String} {o : Operand} (ht : t.kind = .string content)
    (ho : g.stringBound? nowhere content = some o) : Bound g inner [t] o
  | operand {ts : List Token} {o : Operand} (h : inner ts o)
    (hs : ∀ t content, ts.head? = some t → t.kind = .string content →
      g.stringBound? nowhere content = none) : Bound g inner ts o

/-- Operands without a sign or an operator; `inner` are the operands inside them. -/
inductive Primary (g : Grammar) (inner : Option (Category Operand)) : Category Operand where
  | number {t : Token} {w : String} {l : Literal} (ht : t.kind = .number w)
    (hl : Literal.readNumber w = .ok l) : Primary g inner [t] (.literal nowhere l)
  | string {t : Token} {content : String} (ht : t.kind = .string content) :
    Primary g inner [t] (.literal nowhere (Operand.stringLiteral g content))
  | boolean {t : Token} (b : Bool) (ht : t.kind = .keyword (if b then .isTrue else .isFalse)) :
    Primary g inner [t] (.literal nowhere (.boolean b))
  | group {t t' : Token} {ts : List Token} {m : Mark} {o : Operand} {item : Category Operand}
    (ht : g.close? t.kind = some m) (level : inner = some item) (h : item ts o)
    (ht' : t'.kind = .mark m) : Primary g inner (t :: (ts ++ [t'])) o
  | quoted {t : Token} {name : String} (ht : t.kind = .quotedIdentifier name) :
    Primary g inner [t] (.property nowhere (.ofQuoted name nowhere))
  | word {t : Token} {w : String} (ht : t.kind = .identifier w) :
    Primary g inner [t] (.property nowhere (.ofWord w nowhere))
  | callEmpty {t p p' : Token} {name : String} (ht : t.kind = .identifier name)
    (hname : g.Calls name) (hp : p.kind = .mark .leftParen) (level : inner.isSome)
    (hp' : p'.kind = .mark .rightParen) : Primary g inner [t, p, p'] (.call nowhere name [])
  | call {t p p' : Token} {ts : List Token} {name : String} {args : List Operand}
    {item : Category Operand} (ht : t.kind = .identifier name) (hname : g.Calls name)
    (hp : p.kind = .mark .leftParen) (level : inner = some item) (h : item.CommaList ts args)
    (hp' : p'.kind = .mark .rightParen) :
    Primary g inner (t :: p :: (ts ++ [p'])) (.call nowhere name args)
  | envelope {t p p' c₁ c₂ c₃ : Token} {ws ss es ns : List Token} {word : String}
    {west south east north : Binary64} (ht : t.kind = .identifier word)
    (hword : sameWord word "ENVELOPE" = true) (hp : p.kind = .mark .leftParen)
    (hw : Ordinate ws west) (hc₁ : c₁.kind = .mark .comma)
    (hs : Ordinate ss south) (hc₂ : c₂.kind = .mark .comma)
    (he : Ordinate es east) (hc₃ : c₃.kind = .mark .comma)
    (hn : Ordinate ns north) (hp' : p'.kind = .mark .rightParen) :
    Primary g inner (t :: p :: (ws ++ c₁ :: (ss ++ c₂ :: (es ++ c₃ :: (ns ++ [p'])))))
      (.geometry nowhere (.envelope west south east north) .none)
  | date {t p s p' : Token} {word content : String} {d : Date} (ht : t.kind = .identifier word)
    (hword : sameWord word "DATE" = true) (hp : p.kind = .mark .leftParen)
    (hs : s.kind = .string content) (hd : Literal.readDate content = .ok d)
    (hp' : p'.kind = .mark .rightParen) :
    Primary g inner [t, p, s, p'] (.literal nowhere (.date d))
  | timestamp {t p s p' : Token} {word content : String} {i : Timestamp}
    (ht : t.kind = .identifier word) (hword : sameWord word "TIMESTAMP" = true)
    (hp : p.kind = .mark .leftParen) (hs : s.kind = .string content)
    (hi : Literal.readTimestamp (g.dialect.allows .naiveTimestamps) content = .ok i)
    (hp' : p'.kind = .mark .rightParen) :
    Primary g inner [t, p, s, p'] (.literal nowhere (.timestamp i))
  | interval {t p c p' : Token} {as bs : List Token} {word : String} {a b : Operand}
    {item : Category Operand} (ht : t.kind = .identifier word)
    (hword : sameWord word "INTERVAL" = true) (hp : p.kind = .mark .leftParen)
    (level : inner = some item) (ha : Bound g item as a) (hc : c.kind = .mark .comma)
    (hb : Bound g item bs b) (hp' : p'.kind = .mark .rightParen) :
    Primary g inner (t :: p :: (as ++ c :: (bs ++ [p']))) (.interval nowhere a b)
  | geometry {ts : List Token} {shape : Geometry} (h : g.Shape ts shape) :
    Primary g inner ts (.geometry nowhere shape .none)
  | srid {t e n c : Token} {ts : List Token} {word numeral : String} {srid : Int64}
    {shape : Geometry} (ht : t.kind = .identifier word) (hword : sameWord word "SRID" = true)
    (he : e.kind = .mark .equal) (hn : n.kind = .number numeral)
    (hsrid : readInt64? numeral.toList = some srid) (hc : c.kind = .mark .semicolon)
    (h : g.Shape ts shape) :
    Primary g inner (t :: e :: n :: c :: ts) (.geometry nowhere shape (some srid))

abbrev Operators (op? : TokenKind → Option ArithmeticOp) (item : Category Operand) :
    Category Operand :=
  Sequence op? item fun o links =>
    links.foldl (fun left link => .arithmetic nowhere link.1 left link.2) o

abbrev Product (factor : Category Operand) : Category Operand :=
  Operators Operand.productOp? factor

abbrev Sum (factor : Category Operand) : Category Operand :=
  Operators Operand.sumOp? (Product factor)

def StartsNumber (ts : List Token) : Prop := ∃ t w, ts.head? = some t ∧ t.kind = .number w

/-- Factors with their signs; `below` are the factors one level deeper. -/
inductive Factor (g : Grammar) (below : Option (Category Operand)) : Category Operand where
  | primary {ts : List Token} {o : Operand} (h : Primary g (below.map Sum) ts o) :
    Factor g below ts o
  | number {s t : Token} {negative : Bool} {w : String} {l : Literal}
    (hs : Operand.sign? s.kind = some negative) (ht : t.kind = .number w)
    (hl : Literal.readNumber w = .ok l) :
    Factor g below [s, t] (.literal nowhere (if negative then l.negated else l))
  | signed {s : Token} {ts : List Token} {negative : Bool} {o : Operand} {factor : Category Operand}
    (hs : Operand.sign? s.kind = some negative) (hts : ¬ StartsNumber ts)
    (level : below = some factor) (h : factor ts o) : Factor g below (s :: ts)
      (if negative then .arithmetic nowhere .mul (.literal nowhere (.integer (-1))) o else o)

def IsFactor (g : Grammar) : Nat → Category Operand
  | 0 => Factor g none
  | n + 1 => Factor g (some (IsFactor g n))

theorem isFactor_eq (g : Grammar) (n : Nat) :
    g.IsFactor n = Factor g (Category.below g.IsFactor n) := by
  cases n <;> rfl

abbrev IsOperand (g : Grammar) (n : Nat) : Category Operand := Sum (IsFactor g n)

theorem IsFactor.isOperand {g : Grammar} {n : Nat} {ts : List Token} {o : Operand}
    (h : g.IsFactor n ts o) : g.IsOperand n ts o :=
  .single (.single h)

/-- What is a factor whatever stands in parentheses is an operand by itself. -/
theorem IsOperand.primary {g : Grammar} {n : Nat} {ts : List Token} {o : Operand}
    (h : ∀ inner, Primary g inner ts o) : g.IsOperand n ts o := by
  have hfactor : g.IsFactor n ts o := isFactor_eq g n ▸ .primary (h _)
  exact hfactor.isOperand

/-! ## Conditions -/

inductive Nots : Bool → List Token → Prop where
  | no : Nots false []
  | yes {t : Token} (ht : t.kind = .keyword .not) : Nots true [t]

/-- What is said about a value: `operand` are operands, and `inner` the operands in a list. Nothing
need be said about a call. -/
inductive Said (g : Grammar) (operand : Category Operand) (inner : Option (Category Operand))
    (x : Operand) : Category Condition where
  | compare {t : Token} {ts : List Token} {op : ComparisonOp} {y : Operand}
    (ht : Condition.comparisonOp? t.kind = some op) (hy : operand ts y) :
    Said g operand inner x (t :: ts) (.compare nowhere op x y)
  | between {t t' : Token} {ns ls hs : List Token} {negated : Bool} {l h : Operand}
    (hn : Nots negated ns) (ht : t.kind = .keyword .between) (hl : operand ls l)
    (ht' : t'.kind = .keyword .and) (hh : operand hs h) :
    Said g operand inner x (ns ++ t :: (ls ++ t' :: hs)) (.between nowhere negated x l h)
  | like {t p : Token} {ns : List Token} {negated : Bool} {pattern : String}
    (hn : Nots negated ns) (ht : t.kind = .keyword .like) (hp : p.kind = .string pattern) :
    Said g operand inner x (ns ++ [t, p]) (.like nowhere negated x pattern true)
  | ilike {t p : Token} {ns : List Token} {negated : Bool} {w pattern : String}
    (hallow : g.dialect.allows .ilike = true) (hn : Nots negated ns) (ht : t.kind = .identifier w)
    (hw : sameWord w "ILIKE" = true) (hp : p.kind = .string pattern) :
    Said g operand inner x (ns ++ [t, p]) (.like nowhere negated x pattern false)
  | isNull {t n : Token} {ns : List Token} {negated : Bool} (ht : t.kind = .keyword .is)
    (hn : Nots negated ns) (hnull : n.kind = .keyword .null) :
    Said g operand inner x (t :: (ns ++ [n])) (.isNull nowhere negated x)
  | inList {t p p' : Token} {ns cs : List Token} {negated : Bool} {choices : List Operand}
    {item : Category Operand} (hn : Nots negated ns) (ht : t.kind = .keyword .inList)
    (hp : p.kind = .mark .leftParen) (level : inner = some item) (hcs : item.CommaList cs choices)
    (hp' : p'.kind = .mark .rightParen) :
    Said g operand inner x (ns ++ t :: p :: (cs ++ [p'])) (.inList nowhere negated x choices)
  | call {name : String} {args : List Operand} (hx : x = .call nowhere name args) :
    Said g operand inner x [] (.call nowhere name args)

def GroupedCall (g : Grammar) (ts : List Token) (o : Operand) : Prop :=
  (∃ t m, ts.head? = some t ∧ g.close? t.kind = some m) ∧
    ∃ name args, o = .call nowhere name args

def StartsNotIlike (ts : List Token) : Prop :=
  ∃ t u us w, ts = t :: u :: us ∧ t.kind = .keyword .not ∧ u.kind = .identifier w ∧
    sameWord w "ILIKE" = true

/-- Predicates. `NOT ILIKE` does not stand behind a call in parentheses: that is read as a group. -/
inductive Predicate (g : Grammar) (operand : Category Operand) (inner : Option (Category Operand)) :
    Category Condition where
  | intro {xs ts : List Token} {x : Operand} {c : Condition} (hx : operand xs x)
    (said : Said g operand inner x ts c) (hts : StartsNotIlike ts → ¬ g.GroupedCall xs x) :
    Predicate g operand inner (xs ++ ts) c

/-- Conditions with a keyword between them; a single one stands for itself. -/
abbrev Clauses (k : Keyword) (join : Span → List Condition → Condition)
    (item : Category Condition) : Category Condition :=
  Sequence (linkOf (.keyword k)) item fun c links =>
    if links.isEmpty then c else join nowhere (c :: links.map (·.2))

abbrev Disjunction (item : Category Condition) : Category Condition :=
  Clauses .or .any (Clauses .and .all item)

theorem Disjunction.single {item : Category Condition} {ts : List Token} {c : Condition}
    (h : item ts c) : Disjunction item ts c := by
  have hall : Clauses .and .all item ts c := Category.Sequence.single h
  exact Category.Sequence.single hall

/-- Predicates and groups behind any number of `NOT`; `below` are those one level deeper. -/
inductive Negation (g : Grammar) (operand : Category Operand) (inner : Option (Category Operand))
    (below : Option (Category Condition)) : Category Condition where
  | not {t : Token} {ts : List Token} {c : Condition} {negation : Category Condition}
    (ht : t.kind = .keyword .not) (level : below = some negation) (h : negation ts c) :
    Negation g operand inner below (t :: ts) (.negation nowhere c)
  | group {t t' : Token} {ts : List Token} {m : Mark} {c : Condition}
    {negation : Category Condition} (ht : g.close? t.kind = some m)
    (level : below = some negation) (h : Disjunction negation ts c) (ht' : t'.kind = .mark m) :
    Negation g operand inner below (t :: (ts ++ [t'])) c
  | predicate {ts : List Token} {c : Condition} (h : Predicate g operand inner ts c) :
    Negation g operand inner below ts c

def IsNegation (g : Grammar) : Nat → Category Condition
  | 0 => Negation g (IsOperand g 0) none none
  | n + 1 => Negation g (IsOperand g (n + 1)) (some (IsOperand g n)) (some (IsNegation g n))

theorem isNegation_eq (g : Grammar) (n : Nat) :
    g.IsNegation n = Negation g (g.IsOperand n) (Category.below g.IsOperand n)
      (Category.below g.IsNegation n) := by
  cases n <;> rfl

abbrev IsCondition (g : Grammar) (n : Nat) : Category Condition := Disjunction (IsNegation g n)

theorem IsCondition.call {g : Grammar} {n : Nat} {ts : List Token} {name : String}
    {args : List Operand} (h : g.IsOperand n ts (.call nowhere name args)) :
    g.IsCondition n ts (.call nowhere name args) := by
  refine Disjunction.single ?_
  have hp : Predicate g (g.IsOperand n) (Category.below g.IsOperand n) (ts ++ [])
      (.call nowhere name args) :=
    .intro h (.call rfl) fun ⟨_, _, _, _, h, _⟩ => nomatch h
  rw [List.append_nil] at hp
  exact isNegation_eq g n ▸ .predicate hp

end Grammar

end FeatureFilter
