import FeatureFilter.Proofs.Color
import FeatureFilter.Proofs.Filter.Nesting
import FeatureFilter.Proofs.Filter.Spine
import FeatureFilter.Proofs.Syntax.Denotation
import FeatureFilter.Proofs.Syntax.Rules
import FeatureFilter.Proofs.Token.Lexed

/-!
# The trees of phrases

What is known of a tree because a phrase denotes it: its text stands for it, its functions are known
and allowed, and its text takes few more levels of nesting than the phrase does. An operand needs no
parentheses that the phrase does not have, but the word of a negative infinity is behind a sign. A
chain of clauses is written without the parentheses that were around it, and a single level of `NOT`
or of parentheses may become two.
-/

namespace FeatureFilter

open Span (nowhere)
open Category (Sequence Linked)

/-! ## Levels of operands -/

namespace Expression

variable {p k : Nat} {e left right : Expression} {op : ArithmeticOp}

/-- How many levels of nesting an operand takes where operators of precedence `p` need
parentheses. -/
def nestingAt (p : Nat) (e : Expression) : Nat := e.nesting + (e.groupedAt p).toNat

theorem nestingAt_le (p : Nat) (e : Expression) : e.nestingAt p ≤ e.nesting + 1 :=
  Nat.add_le_add_left (Bool.toNat_le _) _

theorem nesting_le_nestingAt (p : Nat) (e : Expression) : e.nesting ≤ e.nestingAt p :=
  Nat.le_add_right _ _

/-- What needs parentheses needs them next to stronger operators, too. -/
theorem nestingAt_le_succ (p : Nat) (e : Expression) : e.nestingAt p ≤ e.nestingAt (p + 1) := by
  cases h : e.groupedAt p with
  | false =>
    rw [nestingAt, h]
    exact e.nesting_le_nestingAt (p + 1)
  | true => rw [nestingAt, nestingAt, h, (head_of_groupedAt h).2.2]

theorem nesting_arithmetic : (arithmetic op left right).nesting =
    max (left.nestingAt (op.precedence - 1)) (right.nestingAt op.precedence) := by
  rw [nesting, needsGroup_false, needsGroup_true]
  rfl

end Expression

/-! ## Operands -/

/-- A geometry as a text can draw it: the rectangle of an envelope, or what is read from a part of
the text. -/
inductive Grammar.Draws (g : Grammar) : Geometry → Prop where
  | envelope {west south east north : Binary64} (hw : (west == west) = true)
    (hs : (south == south) = true) (he : (east == east) = true) (hn : (north == north) = true) :
    Draws g (.envelope west south east north)
  | shape {ts : List Token} {s : Geometry} (hts : Stands g.source ts) (h : g.Shape ts s) : Draws g s

/-- A node as a text can say it: the text stands for the node, its function is known and allowed,
its number is a number, and its geometry is drawn by the text. -/
structure Expression.Written (g : Grammar) (v : Vocabulary) (e : Expression) : Prop where
  plain : e.Plain g.dialect
  known : e.Known v
  allowed : e.Allowed g.dialect
  number : ∀ x, e = .literal (.double x) → (x == x) = true
  drawn : ∀ s, e = .literal (.geometry s) → g.Draws s

/-- An operand as a text can say it, with no more than `k` levels where operators of precedence `p`
need parentheses. -/
structure Expression.Settled (g : Grammar) (v : Vocabulary) (p k : Nat) (e : Expression) :
    Prop where
  written : e.Every (Expression.Written g v)
  levels : e.nestingAt p ≤ k

namespace Expression.Settled

variable {g : Grammar} {v : Vocabulary} {p k : Nat} {e : Expression}

theorem nesting_le (h : e.Settled g v p k) : e.nesting ≤ k :=
  (e.nesting_le_nestingAt p).trans h.levels

theorem mono {k' : Nat} (h : e.Settled g v p k) (hk : k ≤ k') : e.Settled g v p k' :=
  ⟨h.written, h.levels.trans hk⟩

theorem lower (h : e.Settled g v (p + 1) k) : e.Settled g v p k :=
  ⟨h.written, (e.nestingAt_le_succ p).trans h.levels⟩

/-- In parentheses an operand can stand anywhere. -/
theorem grouped (h : e.Settled g v 0 k) : e.Settled g v p (k + 1) :=
  ⟨h.written, (e.nestingAt_le p).trans (Nat.succ_le_succ h.nesting_le)⟩

theorem written_all {es : List Expression} (h : ∀ e ∈ es, e.Settled g v p k) :
    Expression.EveryOne (Expression.Written g v) es :=
  (Expression.everyOne_iff es).2 fun e he => (h e he).written

theorem nestingAll_le {es : List Expression} (h : ∀ e ∈ es, e.Settled g v p k) :
    Expression.nestingAll es ≤ k := by
  induction es with
  | nil => exact Nat.zero_le k
  | cons e es ih =>
    exact Nat.max_le.2 ⟨(h e (List.mem_cons_self ..)).nesting_le,
      ih fun e' he' => h e' (List.mem_cons_of_mem _ he')⟩

end Expression.Settled

namespace Operand

variable {g : Grammar} {v : Vocabulary} {p k : Nat} {o : Operand}

/-- Whatever the operand denotes is settled. If it is a call, so is what its arguments denote, even
where the function cannot be called for its value. -/
structure Settles (g : Grammar) (v : Vocabulary) (p k : Nat) (o : Operand) : Prop where
  settled : ∀ e, o.Denotes v e → e.Settled g v p k
  args : ∀ s name args, o = .call s name args → ∀ a ∈ args, ∀ e, a.Denotes v e →
    e.Every (Expression.Written g v) ∧ e.nesting + 1 ≤ k

/-- Whatever the operand denotes as a bound of an interval is settled, and a bound. -/
def SettlesBound (g : Grammar) (v : Vocabulary) (k : Nat) (o : Operand) : Prop :=
  ∀ e, o.DenotesBound v e → e.Settled g v 0 k ∧ e.IsBound

theorem Settles.imp {p' k' : Nat} (h : o.Settles g v p k) (hk : k ≤ k')
    (hp : ∀ e : Expression, e.Settled g v p k → e.Settled g v p' k') : o.Settles g v p' k' :=
  ⟨fun e he => hp e (h.settled e he), fun s name args ho a ha e he =>
    (h.args s name args ho a ha e he).imp_right hk.trans'⟩

theorem settled_of_forall₂ {os : List Operand} {es : List Expression}
    (h : ∀ o ∈ os, o.Settles g v p k) (hes : List.Forall₂ (Denotes v) os es) :
    ∀ e ∈ es, e.Settled g v p k := by
  intro e he
  obtain ⟨i, hi, rfl⟩ := List.mem_iff_getElem.1 he
  have hlen : i < os.length := by rwa [hes.length_eq]
  exact (h _ (List.getElem_mem hlen)).settled _ (hes.get hlen hi)

end Operand

/-! ## Literals -/

/-- A literal as a text can say it. -/
structure Literal.Written (d : Dialect) (l : Literal) : Prop where
  plain : l.toValue.Plain d
  number : ∀ x, l = .double x → (x == x) = true

section Literals

variable {g : Grammar} {v : Vocabulary} {p k : Nat} {l : Literal}

theorem Expression.settled_literal {u : Value} (hw : Expression.Written g v (.literal u))
    (hu : u.Every (Expression.Written g v)) (hn : u.nesting ≤ k) :
    (Expression.literal u).Settled g v p k :=
  ⟨⟨hw, hu⟩, hn⟩

/-- A number takes at most one level: that of the sign of a negative infinity. -/
theorem Literal.Written.settled (h : l.Written g.dialect) :
    (Expression.literal l.toValue).Settled g v p (k + 1) := by
  refine Expression.settled_literal ⟨h.plain, trivial, trivial, fun x hx => ?_, ?_⟩ ?_ ?_
  · cases l with
    | double y =>
      cases hx
      exact h.number _ rfl
    | _ => cases hx
  · cases l <;> nofun
  · cases l <;> trivial
  · refine (show l.toValue.nesting ≤ 1 from ?_).trans (Nat.le_add_left 1 k)
    cases l with
    | double x =>
      cases x with
      | infinity negative => cases negative <;> decide
      | _ => exact Nat.zero_le 1
    | _ => exact Nat.zero_le 1

theorem Literal.Written.settles (h : l.Written g.dialect) :
    (Operand.literal nowhere l).Settles g v p (k + 1) := by
  refine ⟨fun e he => ?_, nofun⟩
  rw [Operand.denotes_literal.1 he]
  exact h.settled

theorem Literal.written_number {w : String} (hw : StartsNumeral w.toList)
    (h : Literal.readNumber w = .ok l) (negative : Bool) :
    (if negative then l.negated else l).Written g.dialect := by
  rcases Literal.cases_of_readNumber hw h with ⟨n, rfl, hn⟩ | ⟨x, rfl, hx⟩
  · refine ⟨?_, by cases negative <;> nofun⟩
    cases negative with
    | false => exact Int.lt_of_lt_of_le (by decide) hn
    | true =>
      show -0x8000000000000000 < (-n).toInt
      have := n.toInt_lt
      rw [Int64.toInt_neg, Int.bmod_eq_of_le (by omega) (by omega)]
      omega
  · refine ⟨by cases negative <;> trivial, ?_⟩
    cases negative with
    | false =>
      rintro _ ⟨⟩
      exact hx
    | true =>
      rintro _ ⟨⟩
      exact Binary64.neg_beq_self hx

theorem Literal.written_string (g : Grammar) (content : String) :
    (Operand.stringLiteral g content).Written g.dialect := by
  unfold Operand.stringLiteral
  split
  · rename_i c hc
    split
    · rename_i hcolor
      exact ⟨⟨hcolor, Color.lt_of_read? hc⟩, nofun⟩
    · rename_i hcolor
      exact ⟨fun h => absurd h hcolor, nofun⟩
  · rename_i hnone
    exact ⟨fun _ => hnone, nofun⟩

theorem Literal.written_date {content : String} {d : Date} (h : Literal.readDate content = .ok d) :
    (Literal.date d).Written g.dialect := by
  refine ⟨?_, nofun⟩
  unfold Literal.readDate at h
  split at h
  · rename_i hd
    cases h
    exact Date.fourDigitYear_of_read? hd
  · cases h

theorem Literal.written_timestamp {content : String} {naive : Bool} {t : Timestamp}
    (h : Literal.readTimestamp naive content = .ok t) :
    (Literal.timestamp t).Written g.dialect := by
  refine ⟨?_, nofun⟩
  unfold Literal.readTimestamp at h
  split at h
  · rename_i ht
    cases h
    exact Timestamp.legible_of_read ht
  · rename_i ht
    split at h
    · cases h
      obtain ⟨hyear, hregular⟩ := Timestamp.of_read_naive ht
      exact ⟨hyear, hregular⟩
    · cases h
  · cases h

/-- An operand is a bound of an interval by itself, or as the open bound. -/
theorem Operand.Settles.bound {o : Operand} (h : o.Settles g v 0 (k + 1)) :
    o.SettlesBound g v (k + 1) := by
  rintro e (⟨s, rfl, rfl⟩ | ⟨hbound, he⟩)
  · have hw : (Literal.string openMarker).Written g.dialect := ⟨fun _ => rfl, nofun⟩
    exact ⟨hw.settled, rfl⟩
  · refine ⟨h.settled e he, ?_⟩
    cases o with
    | literal s l =>
      rw [denotes_literal.1 he]
      cases l with
      | date d => trivial
      | timestamp t => trivial
      | _ => cases hbound
    | property s n =>
      rw [denotes_property.1 he]
      trivial
    | call s name args =>
      obtain ⟨-, es, -, rfl⟩ := denotes_call.1 he
      trivial
    | _ => cases hbound

theorem Operand.settlesBound_string {content : String} {o : Operand}
    (h : g.stringBound? nowhere content = some o) : o.SettlesBound g v (k + 1) := by
  refine Operand.Settles.bound ?_
  unfold Grammar.stringBound? at h
  split at h
  · cases h
    exact ⟨fun e he => absurd he not_denotes_openBound, nofun⟩
  · split at h
    · rename_i ht
      cases h
      exact (Literal.written_timestamp ht).settles
    · split at h
      · rename_i hd
        cases h
        exact (Literal.written_date hd).settles
      · cases h

end Literals

/-! ## Operands -/

namespace Grammar

variable {g : Grammar} {v : Vocabulary} {p k n : Nat} {item : Category Operand} {ts : List Token}
  {o : Operand}

/-- Operands of the category settle, where the tokens are those of a text. -/
def Settling (g : Grammar) (v : Vocabulary) (p k : Nat) (item : Category Operand) : Prop :=
  ∀ ⦃ts o⦄, item ts o → Stands g.source ts → o.Settles g v p k

theorem Settling.linked {op? : TokenKind → Option ArithmeticOp}
    (hitem : g.Settling v (p + 1) k item)
    (hop : ∀ kind op, op? kind = some op → op.precedence = p + 1)
    {xs : List (ArithmeticOp × Operand)}
    (h : Linked op? item ts xs) (hts : Stands g.source ts) (ho : o.Settles g v p k) :
    (xs.foldl (fun left link => .arithmetic nowhere link.1 left link.2) o).Settles g v p k := by
  induction h generalizing o with
  | nil => exact ho
  | @cons t ts us op a xs link head _ ih =>
    refine ih hts.tail.right ⟨fun e he => ?_, nofun⟩
    obtain ⟨l, r, hl, hr, rfl⟩ := Operand.denotes_arithmetic.1 he
    have hp := hop _ _ link
    have hls := ho.settled l hl
    have hrs := (hitem head hts.tail.left).settled r hr
    refine ⟨⟨⟨trivial, trivial, trivial, nofun, nofun⟩, hls.written, hrs.written⟩, ?_⟩
    have hgroup : (Expression.arithmetic op l r).groupedAt p = false :=
      decide_eq_false (by omega)
    rw [Expression.nestingAt, hgroup, Expression.nesting_arithmetic, hp, Nat.add_sub_cancel]
    exact Nat.max_le.2 ⟨hls.levels, hrs.levels⟩

/-- Operators of one precedence need no parentheses around their operands. -/
theorem Settling.operators {op? : TokenKind → Option ArithmeticOp}
    (hitem : g.Settling v (p + 1) k item)
    (hop : ∀ kind op, op? kind = some op → op.precedence = p + 1) :
    g.Settling v p k (Operators op? item) := by
  rintro _ _ ⟨head, tail⟩ hts
  exact hitem.linked hop tail hts.right ((hitem head hts.left).imp k.le_refl fun _ h => h.lower)

theorem Settling.sum (hitem : g.Settling v 2 k item) : g.Settling v 0 k (Sum item) := by
  refine Settling.operators (Settling.operators hitem fun kind op h => ?_) fun kind op h => ?_
  · unfold Operand.productOp? at h
    split at h <;> cases h <;> rfl
  · unfold Operand.sumOp? at h
    split at h <;> cases h <;> rfl

theorem Settling.commaList (hitem : g.Settling v p k item) {os : List Operand}
    (h : item.CommaList ts os) (hts : Stands g.source ts) : ∀ o ∈ os, o.Settles g v p k := by
  obtain ⟨head, tail⟩ := h
  refine List.forall_mem_cons.2 ⟨hitem head hts.left, ?_⟩
  replace hts := hts.right
  induction tail with
  | nil => exact nofun
  | cons _ head' _ ih =>
    exact List.forall_mem_cons.2 ⟨hitem head' hts.tail.left, ih hts.tail.right⟩

theorem settles_call {t p' : Token} {rest : List Token} {name : String} {args : List Operand}
    (ht : t.kind = .identifier name) (hname : g.Calls name) (hp : p'.kind = .mark .leftParen)
    (hts : Stands g.source (t :: p' :: rest)) (h : ∀ o ∈ args, o.Settles g v 0 k) :
    (Operand.call nowhere name args).Settles g v p (k + 1) := by
  refine ⟨fun e he => ?_, fun _ _ _ ho a ha e he => ?_⟩
  rotate_left
  · cases ho
    have := (h a ha).settled e he
    exact ⟨this.written, Nat.succ_le_succ this.nesting_le⟩
  obtain ⟨hcan, es, hes, rfl⟩ := Operand.denotes_call.1 he
  have hall := Operand.settled_of_forall₂ h hes
  have hnames : t.Names p' := (List.isChain_cons_cons.1 hts.lexed.names).1
  have hcall : Callable name := by
    refine ⟨hnames name ht hp, hname.noGeometry, ?_⟩
    simp only [literalWords, List.mem_cons, List.not_mem_nil, or_false]
    rintro w (rfl | rfl | rfl | rfl)
    exacts [hname.noEnvelope, hname.noDate, hname.noTimestamp, hname.noInterval]
  refine ⟨⟨⟨hcall, fun span => ?_, hname.allowed, nofun, nofun⟩,
    Expression.Settled.written_all hall⟩, Nat.succ_le_succ (Expression.Settled.nestingAll_le hall)⟩
  rw [Vocabulary.checkValueCall_iff, ← hes.length_eq]
  exact hcan

theorem settles_geometry {shape : Geometry} {srid : Option Int64} (h : g.Draws shape) :
    (Operand.geometry nowhere shape srid).Settles g v p k := by
  refine ⟨fun e he => ?_, nofun⟩
  obtain ⟨-, rfl⟩ := Operand.denotes_geometry.1 he
  refine Expression.settled_literal ⟨trivial, trivial, trivial, nofun, ?_⟩ trivial (Nat.zero_le k)
  rintro _ ⟨⟩
  exact h

theorem Ordinate.beq_self {x : Binary64} (h : Ordinate ts x) (hts : Lexed ts) :
    (x == x) = true := by
  have hread {t : Token} {w : String} {l : Literal} {x : Binary64} (ht : t.kind = .number w)
      (hn : t.Unsigned) (hl : Literal.readNumber w = .ok l) (hx : ordinate? l = some x) :
      (x == x) = true := by
    rcases Literal.cases_of_readNumber (hn w ht) hl with ⟨n, rfl, -⟩ | ⟨y, rfl, hy⟩
    · rw [← Option.some.inj (hx : some (Binary64.ofInt n.toInt) = some x)]
      exact Binary64.ofInt_beq_self _
    · cases hx
      exact hy
  cases h with
  | unsigned ht hl hx => exact hread ht (hts.unsigned _ (List.mem_singleton_self _)) hl hx
  | @signed s t negative w l x hs ht hl hx =>
    have hx := hread ht (hts.unsigned t (by simp)) hl hx
    cases negative with
    | false => exact hx
    | true => exact Binary64.neg_beq_self hx

theorem settlesBound (hitem : g.Settling v 0 (k + 1) item) (h : Bound g item ts o)
    (hts : Stands g.source ts) : o.SettlesBound g v (k + 1) := by
  cases h with
  | string ht ho => exact Operand.settlesBound_string ho
  | operand h _ => exact (hitem h hts).bound

/-- Operands without a sign or an operator take one level more than those inside them. -/
theorem settling_primary {inner : Option (Category Operand)}
    (hinner : ∀ item, inner = some item → ∃ m, k = m + 1 ∧ g.Settling v 0 (m + 1) item) :
    g.Settling v 2 (k + 1) (Primary g inner) := by
  intro ts o h hts
  cases h with
  | number ht hl =>
    have hw :=
      Literal.written_number (g := g) (hts.lexed.unsigned _ (List.mem_cons_self ..) _ ht) hl false
    exact hw.settles
  | string ht => exact (Literal.written_string g _).settles
  | boolean b ht =>
    have hw : (Literal.boolean b).Written g.dialect := ⟨trivial, nofun⟩
    exact hw.settles
  | group ht level h ht' =>
    obtain ⟨m, rfl, hitem⟩ := hinner _ level
    exact (hitem h hts.tail.left).imp (Nat.le_succ _) fun _ h => h.grouped
  | quoted ht =>
    refine ⟨fun e he => ?_, nofun⟩
    rw [Operand.denotes_property.1 he]
    exact ⟨⟨trivial, trivial, trivial, nofun, nofun⟩, Nat.zero_le _⟩
  | word ht =>
    refine ⟨fun e he => ?_, nofun⟩
    rw [Operand.denotes_property.1 he]
    exact ⟨⟨trivial, trivial, trivial, nofun, nofun⟩, Nat.zero_le _⟩
  | callEmpty ht hname hp _ hp' => exact settles_call ht hname hp hts nofun
  | call ht hname hp level h hp' =>
    obtain ⟨m, rfl, hitem⟩ := hinner _ level
    exact settles_call ht hname hp hts (hitem.commaList h hts.tail.tail.left)
  | envelope ht hword hp hw hc₁ hs hc₂ he hc₃ hn hp' =>
    have hws := hts.tail.tail
    have hss := hws.right.tail
    have hes := hss.right.tail
    exact settles_geometry (.envelope (hw.beq_self hws.left.lexed) (hs.beq_self hss.left.lexed)
      (he.beq_self hes.left.lexed) (hn.beq_self hes.right.tail.left.lexed))
  | date _ _ _ _ hd _ => exact (Literal.written_date hd).settles
  | timestamp _ _ _ _ hi _ => exact (Literal.written_timestamp hi).settles
  | interval _ _ _ level ha _ hb _ =>
    obtain ⟨m, rfl, hitem⟩ := hinner _ level
    have has := settlesBound hitem ha hts.tail.tail.left
    have hbs := settlesBound hitem hb hts.tail.tail.right.tail.left
    refine ⟨fun e he => ?_, nofun⟩
    obtain ⟨a, b, ha, hb, rfl⟩ := Operand.denotes_interval.1 he
    obtain ⟨ha, hba⟩ := has a ha
    obtain ⟨hb, hbb⟩ := hbs b hb
    exact Expression.settled_literal ⟨⟨hba, hbb⟩, trivial, trivial, nofun, nofun⟩
      ⟨ha.written, hb.written⟩ (Nat.succ_le_succ (Nat.max_le.2 ⟨ha.nesting_le, hb.nesting_le⟩))
  | geometry h => exact settles_geometry (.shape hts h)
  | srid _ _ _ _ _ _ h => exact settles_geometry (.shape hts.tail.tail.tail.tail h)

theorem settling_factor {below : Option (Category Operand)}
    (hbelow : ∀ factor, below = some factor → ∃ m, k = m + 1 ∧ g.Settling v 2 (m + 1) factor) :
    g.Settling v 2 (k + 1) (Factor g below) := by
  intro ts o h hts
  cases h with
  | primary h =>
    refine settling_primary (fun item hitem => ?_) h hts
    obtain ⟨factor, hfactor, rfl⟩ := Option.map_eq_some_iff.1 hitem
    obtain ⟨m, hm, hs⟩ := hbelow factor hfactor
    exact ⟨m, hm, hs.sum⟩
  | number hs ht hl =>
    have hw := Literal.written_number (g := g)
      (hts.lexed.unsigned _ (List.mem_cons_of_mem _ (List.mem_cons_self ..)) _ ht) hl
    exact (hw _).settles
  | @signed s ts negative o factor hs _ level h =>
    obtain ⟨m, rfl, hfactor⟩ := hbelow _ level
    have ho := hfactor h hts.tail
    cases negative with
    | false => exact ho.imp (Nat.le_succ _) fun _ h => h.mono (Nat.le_succ _)
    | true =>
      refine ⟨fun e he => ?_, nofun⟩
      obtain ⟨l, r, hl, hr, rfl⟩ := Operand.denotes_arithmetic.1 he
      have hone : (Literal.integer (-1)).Written g.dialect :=
        ⟨show -0x8000000000000000 < (-1 : Int64).toInt by decide, nofun⟩
      have hrs := ho.settled r hr
      rw [Operand.denotes_literal.1 hl]
      refine ⟨⟨⟨trivial, trivial, trivial, nofun, nofun⟩, (hone.settled (p := 0) (k := 0)).written,
        hrs.written⟩, Nat.succ_le_succ ?_⟩
      rw [Expression.nesting_arithmetic]
      exact Nat.max_le.2 ⟨Nat.zero_le _, hrs.levels⟩

theorem settling_isFactor (g : Grammar) (v : Vocabulary) (n : Nat) :
    g.Settling v 2 (n + 1) (g.IsFactor n) := by
  induction n with
  | zero => exact settling_factor nofun
  | succ n ih =>
    refine settling_factor ?_
    rintro _ ⟨⟩
    exact ⟨n, rfl, ih⟩

/-- What an operand with `n` levels denotes takes one level more at most. -/
theorem settling_isOperand (g : Grammar) (v : Vocabulary) (n : Nat) :
    g.Settling v 0 (n + 1) (g.IsOperand n) :=
  (settling_isFactor g v n).sum

end Grammar

/-! ## Levels of filters -/

namespace Filter

variable {k : Nat} {f : Filter}

/-- How many levels of nesting a filter takes as a clause of a chain. -/
def clauseNesting (f : Filter) : Nat := f.nesting + f.isChain.toNat

theorem nesting_le_clauseNesting (f : Filter) : f.nesting ≤ f.clauseNesting := Nat.le_add_right _ _

theorem clauseNesting_le (f : Filter) : f.clauseNesting ≤ f.nesting + 1 :=
  Nat.add_le_add_left (Bool.toNat_le _) _

theorem clausesNesting_le {fs : List Filter} (h : ∀ f ∈ fs, f.clauseNesting ≤ k) :
    clausesNesting fs ≤ k := by
  induction fs with
  | nil => exact Nat.zero_le k
  | cons f fs ih =>
    rw [clausesNesting]
    exact Nat.max_le.2 ⟨h f (List.mem_cons_self ..), ih fun f' hf' =>
      h f' (List.mem_cons_of_mem _ hf')⟩

/-- `NOT` takes a level more than the clause that it stands in front of. -/
theorem negationNesting_le (f : Filter) : f.negationNesting ≤ f.clauseNesting + 1 := by
  cases f with
  | any clauses =>
    rw [clauseNesting, negationNesting, nesting, isChain]
    cases inList? clauses with
    | some p => exact Nat.le_add_right_of_le (Nat.le_add_right _ _)
    | none => exact Nat.le_refl _
  | all clauses => exact Nat.le_refl _
  | compare op left right => exact Nat.le_refl _
  | spatial op left right => exact Nat.le_refl _
  | temporal op left right => exact Nat.le_refl _
  | between value low high => exact Nat.le_succ _
  | like value pattern matchCase => exact Nat.le_succ _
  | isNull value => exact Nat.le_succ _
  | negation f => exact Nat.le_refl _

/-- The choices of an `IN` list are a level deeper than in the equalities that it stands for. -/
theorem inNesting_le {clauses : List Filter} {value : Expression} {choices : List Expression}
    (hin : inList? clauses = some (value, choices))
    (h : ∀ left right, compare .eq left right ∈ clauses → max left.nesting right.nesting ≤ k) :
    inNesting value choices ≤ k + 1 := by
  obtain ⟨right, rest, hclauses, hchoices⟩ := of_inList? hin
  refine Nat.max_le.2 ⟨?_, Nat.succ_le_succ ?_⟩
  · have hmem : compare .eq value right ∈ clauses := by
      rw [hclauses]
      exact List.mem_cons_self ..
    exact Nat.le_succ_of_le ((Nat.le_max_left _ _).trans (h _ _ hmem))
  · clear hin hclauses
    induction hchoices with
    | nil => exact Nat.zero_le k
    | cons hf _ ih =>
      obtain ⟨left, rfl, -⟩ := hf
      refine Nat.max_le.2 ⟨?_, ih fun l r hlr => h l r (List.mem_cons_of_mem _ hlr)⟩
      exact (Nat.le_max_right _ _).trans (h _ _ (List.mem_cons_self ..))

end Filter

/-! ## Conditions -/

/-- All numbers and geometries in the filter equal themselves. -/
abbrev Filter.AllEqual (f : Filter) : Prop := f.Every (fun _ => True) Expression.EqualsItself

/-- A filter as a text can say it, the sides of an equality taking no more than `n` levels. -/
structure Filter.Settled (g : Grammar) (v : Vocabulary) (n : Nat) (f : Filter) : Prop where
  written : f.Every (Filter.Plain g.dialect) (Expression.Written g v)
  sides : ∀ left right, f = .compare .eq left right → max left.nesting right.nesting ≤ n

namespace Condition

variable {g : Grammar} {v : Vocabulary} {k n : Nat} {levels : Filter → Nat} {x : Operand}
  {c : Condition} {f : Filter} {negated : Bool}

/-- Whatever the condition denotes is settled, and does not take more than `k` levels. -/
def Settles (g : Grammar) (v : Vocabulary) (n : Nat) (levels : Filter → Nat) (k : Nat)
    (c : Condition) : Prop :=
  ∀ f, c.Denotes v f → f.Settled g v n ∧ (f.AllEqual → levels f ≤ k)

theorem settled_negatedIf
    (hf : f.Every (Filter.Plain g.dialect) (Expression.Written g v))
    (hc : ∀ op left right, f ≠ .compare op left right)
    (hn : f.AllEqual → f.clauseNesting ≤ k ∧ f.negationNesting ≤ k) :
    (negatedIf negated f).Settled g v n ∧
      ((negatedIf negated f).AllEqual → (negatedIf negated f).clauseNesting ≤ k) := by
  cases negated with
  | false => exact ⟨⟨hf, fun l r he => absurd he (hc _ l r)⟩, fun heq => (hn heq).1⟩
  | true => exact ⟨⟨⟨trivial, hf⟩, nofun⟩, fun heq => (hn heq.2).2⟩

end Condition

namespace Grammar

variable {g : Grammar} {v : Vocabulary} {k n : Nat} {levels : Filter → Nat} {ts : List Token}
  {operand : Category Operand} {inner : Option (Category Operand)} {item : Category Condition}
  {c : Condition}

def SettlingAll (g : Grammar) (v : Vocabulary) (n : Nat) (levels : Filter → Nat) (k : Nat)
    (item : Category Condition) : Prop :=
  ∀ ⦃ts c⦄, item ts c → Stands g.source ts → c.Settles g v n levels k

theorem settled_choices {x : Expression} {es : List Expression} {negated : Bool}
    (hx : x.Settled g v 0 (n + 1)) (hes : ∀ e ∈ es, e.Settled g v 0 n) (hne : es ≠ []) :
    (Condition.negatedIf negated (.any (es.map (.compare .eq x)))).Settled g v (n + 1) ∧
      ((Condition.negatedIf negated (.any (es.map (.compare .eq x)))).AllEqual →
        (Condition.negatedIf negated (.any (es.map (.compare .eq x)))).clauseNesting ≤ n + 1) := by
  refine Condition.settled_negatedIf ⟨?_, ?_⟩ nofun fun heq => ?_
  · obtain ⟨e, es, rfl⟩ := List.exists_cons_of_ne_nil hne
    cases es with
    | nil => exact .inr ⟨x, e, rfl⟩
    | cons e' es => exact .inl (by simp)
  · refine (Filter.everyOne_iff _).2 fun f hf => ?_
    obtain ⟨e, he, rfl⟩ := List.mem_map.1 hf
    exact ⟨trivial, hx.written, (hes e he).written⟩
  · have hself : (x == x) = true := by
      obtain ⟨e, es, rfl⟩ := List.exists_cons_of_ne_nil hne
      exact Expression.beq_self_of_every heq.2.1.2.1
    have hin := Filter.inList?_map hself hne
    have hle : Filter.inNesting x es ≤ n + 1 :=
      Nat.max_le.2 ⟨hx.nesting_le, Nat.succ_le_succ (Expression.Settled.nestingAll_le hes)⟩
    rw [Filter.clauseNesting, Filter.nesting, Filter.negationNesting, Filter.isChain, hin]
    exact ⟨hle, hle⟩

/-- What is said about a value takes a level more than its operands at most. -/
theorem settles_said (hoperand : g.Settling v 0 (n + 1) operand)
    (hinner : ∀ item, inner = some item → ∃ m, n = m + 1 ∧ g.Settling v 0 (m + 1) item)
    {x : Operand} (hx : x.Settles g v 0 (n + 1)) (h : Said g operand inner x ts c)
    (hts : Stands g.source ts) : c.Settles g v (n + 1) Filter.clauseNesting (n + 1) := by
  intro f hf
  cases h with
  | compare ht hy =>
    obtain ⟨l, hl, r, hr, rfl⟩ := Condition.denotes_compare.1 hf
    have hls := hx.settled l hl
    have hrs := (hoperand hy hts.tail).settled r hr
    have hle : max l.nesting r.nesting ≤ n + 1 := Nat.max_le.2 ⟨hls.nesting_le, hrs.nesting_le⟩
    refine ⟨⟨⟨trivial, hls.written, hrs.written⟩, ?_⟩, fun _ => hle⟩
    rintro _ _ ⟨⟩
    exact hle
  | between hn ht hl ht' hh =>
    obtain ⟨x, hx', l, hl', h, hh', rfl⟩ := Condition.denotes_between.1 hf
    have hxs := hx.settled x hx'
    have hls := (hoperand hl hts.right.tail.left).settled l hl'
    have hhs := (hoperand hh hts.right.tail.right.tail).settled h hh'
    have hle : max x.nesting (max l.nesting h.nesting) ≤ n + 1 :=
      Nat.max_le.2 ⟨hxs.nesting_le, Nat.max_le.2 ⟨hls.nesting_le, hhs.nesting_le⟩⟩
    exact Condition.settled_negatedIf ⟨trivial, hxs.written, hls.written, hhs.written⟩ nofun
      fun _ => ⟨hle, hle⟩
  | like hn ht hp =>
    obtain ⟨x, hx', rfl⟩ := Condition.denotes_like.1 hf
    have hxs := hx.settled x hx'
    exact Condition.settled_negatedIf ⟨.inl rfl, hxs.written⟩ nofun
      fun _ => ⟨hxs.nesting_le, hxs.nesting_le⟩
  | ilike hallow hn ht hw hp =>
    obtain ⟨x, hx', rfl⟩ := Condition.denotes_like.1 hf
    have hxs := hx.settled x hx'
    exact Condition.settled_negatedIf ⟨.inr hallow, hxs.written⟩ nofun
      fun _ => ⟨hxs.nesting_le, hxs.nesting_le⟩
  | isNull ht hn hnull =>
    obtain ⟨x, hx', rfl⟩ := Condition.denotes_isNull.1 hf
    have hxs := hx.settled x hx'
    exact Condition.settled_negatedIf ⟨trivial, hxs.written⟩ nofun
      fun _ => ⟨hxs.nesting_le, hxs.nesting_le⟩
  | inList hn ht hp level hcs hp' =>
    obtain ⟨m, rfl, hitem⟩ := hinner _ level
    obtain ⟨x, hx', es, hes, rfl⟩ := Condition.denotes_inList.1 hf
    have hall := Operand.settled_of_forall₂ (hitem.commaList hcs hts.right.tail.tail.left) hes
    have hne : es ≠ [] := by
      rintro rfl
      cases hes
      cases hcs
    exact settled_choices (hx.settled x hx') hall hne
  | call hxc =>
    obtain ⟨left, right, r, rfl, -, a, ha, b, hb, rfl⟩ := Condition.denotes_call.1 hf
    obtain ⟨has, ha⟩ := hx.args _ _ _ hxc left (by simp) a ha
    obtain ⟨hbs, hb⟩ := hx.args _ _ _ hxc right (by simp) b hb
    have hle : Expression.nestingAll [a, b] + 1 ≤ n + 1 := by
      simp only [Expression.nestingAll]
      omega
    cases r with
    | spatial op => exact ⟨⟨⟨trivial, has, hbs⟩, nofun⟩, fun _ => hle⟩
    | temporal op => exact ⟨⟨⟨trivial, has, hbs⟩, nofun⟩, fun _ => hle⟩

theorem SettlingAll.imp {levels' : Filter → Nat} {k' n' : Nat}
    (h : g.SettlingAll v n levels k item) (hn : n ≤ n')
    (hk : ∀ f, levels f ≤ k → levels' f ≤ k') : g.SettlingAll v n' levels' k' item := by
  intro ts c hc hts f hf
  obtain ⟨hs, hle⟩ := h hc hts f hf
  exact ⟨⟨hs.written, fun l r he => (hs.sides l r he).trans hn⟩, fun heq => hk f (hle heq)⟩

/-- The clauses of a chain of two or more. -/
theorem SettlingAll.linked {keyword : Keyword} (hitem : g.SettlingAll v n levels k item)
    {xs : List (Unit × Condition)} (h : Linked (linkOf (.keyword keyword)) item ts xs)
    (hts : Stands g.source ts) : ∀ c ∈ xs.map (·.2), c.Settles g v n levels k := by
  induction h with
  | nil => exact nofun
  | cons _ head _ ih => exact List.forall_mem_cons.2 ⟨hitem head hts.tail.left, ih hts.tail.right⟩

/-- A chain takes as many levels as its clauses do. -/
theorem SettlingAll.clauses {keyword : Keyword} {join : Span → List Condition → Condition}
    (hitem : g.SettlingAll v n Filter.clauseNesting k item)
    (hjoin : ∀ cs, 2 ≤ cs.length → (∀ c ∈ cs, c.Settles g v n Filter.clauseNesting k) →
      (join nowhere cs).Settles g v n Filter.nesting k) :
    g.SettlingAll v n Filter.nesting k (Clauses keyword join item) := by
  rintro _ _ ⟨head, tail⟩ hts
  have hall := hitem.linked tail hts.right
  have hhead := hitem head hts.left
  cases tail with
  | nil => exact fun f hf => (hhead f hf).imp_right fun h heq =>
      f.nesting_le_clauseNesting.trans (h heq)
  | cons _ _ _ => exact hjoin _ (by simp) (List.forall_mem_cons.2 ⟨hhead, hall⟩)

theorem settled_clauses {cs : List Condition} {fs : List Filter}
    (h : ∀ c ∈ cs, c.Settles g v n levels k) (hfs : List.Forall₂ (Condition.Denotes v) cs fs) :
    ∀ f ∈ fs, f.Settled g v n ∧ (f.AllEqual → levels f ≤ k) := by
  intro f hf
  obtain ⟨i, hi, rfl⟩ := List.mem_iff_getElem.1 hf
  have hlen : i < cs.length := by rwa [hfs.length_eq]
  exact h _ (List.getElem_mem hlen) _ (hfs.get hlen hi)

theorem settles_all {cs : List Condition} (htwo : 2 ≤ cs.length)
    (h : ∀ c ∈ cs, c.Settles g v n Filter.clauseNesting k) :
    (Condition.all nowhere cs).Settles g v n Filter.nesting k := by
  intro f hf
  obtain ⟨fs, hfs, rfl⟩ := Condition.denotes_all.1 hf
  have hall := settled_clauses h hfs
  have hlen : 2 ≤ fs.length := hfs.length_eq ▸ htwo
  refine ⟨⟨⟨hlen, ?_⟩, nofun⟩, fun heq => ?_⟩
  · exact (Filter.everyOne_iff fs).2 fun f hf => (hall f hf).1.written
  · have heqs := (Filter.everyOne_iff fs).1 heq.2
    exact Filter.clausesNesting_le fun f hf => (hall f hf).2 (heqs f hf)

/-- Equalities with one left side become an `IN` list, whose choices are a level deeper. -/
theorem settles_any {cs : List Condition} (hk : n + 1 ≤ k) (htwo : 2 ≤ cs.length)
    (h : ∀ c ∈ cs, c.Settles g v n Filter.clauseNesting k) :
    (Condition.any nowhere cs).Settles g v n Filter.nesting k := by
  intro f hf
  obtain ⟨fs, hfs, rfl⟩ := Condition.denotes_any.1 hf
  have hall := settled_clauses h hfs
  have hlen : 2 ≤ fs.length := hfs.length_eq ▸ htwo
  refine ⟨⟨⟨.inl hlen, ?_⟩, nofun⟩, fun heq => ?_⟩
  · exact (Filter.everyOne_iff fs).2 fun f hf => (hall f hf).1.written
  · have heqs := (Filter.everyOne_iff fs).1 heq.2
    rw [Filter.nesting]
    cases hin : Filter.inList? fs with
    | none => exact Filter.clausesNesting_le fun f hf => (hall f hf).2 (heqs f hf)
    | some p =>
      exact (Filter.inNesting_le hin fun l r hlr => (hall _ hlr).1.sides l r rfl).trans hk

theorem SettlingAll.disjunction (hitem : g.SettlingAll v n Filter.clauseNesting k item)
    (hk : n ≤ k) : g.SettlingAll v n Filter.nesting (k + 1) (Disjunction item) := by
  have hand : g.SettlingAll v n Filter.nesting k (Clauses .and .all item) :=
    hitem.clauses fun cs => settles_all
  refine SettlingAll.clauses (hand.imp n.le_refl fun f hf => ?_) fun cs =>
    settles_any (Nat.succ_le_succ hk)
  exact f.clauseNesting_le.trans (Nat.succ_le_succ hf)

theorem settling_negation {below : Option (Category Condition)}
    (hoperand : g.Settling v 0 (n + 1) operand)
    (hinner : ∀ item, inner = some item → ∃ m, n = m + 1 ∧ g.Settling v 0 (m + 1) item)
    (hbelow : ∀ negation, below = some negation → ∃ m, n = m + 1 ∧
      g.SettlingAll v (m + 1) Filter.clauseNesting (2 * m + 1) negation) :
    g.SettlingAll v (n + 1) Filter.clauseNesting (2 * n + 1) (Negation g operand inner below) := by
  intro ts c h hts
  cases h with
  | not ht level h =>
    obtain ⟨m, rfl, hneg⟩ := hbelow _ level
    intro f hf
    obtain ⟨a, ha, rfl⟩ := Condition.denotes_negation.1 hf
    obtain ⟨hs, hle⟩ := hneg h hts.tail a ha
    refine ⟨⟨⟨trivial, hs.written⟩, nofun⟩, fun heq => ?_⟩
    show a.negationNesting ≤ _
    have := hle heq.2
    have := a.negationNesting_le
    omega
  | group ht level h ht' =>
    obtain ⟨m, rfl, hneg⟩ := hbelow _ level
    refine (hneg.disjunction (by omega)).imp (Nat.le_succ _) (fun f hf => ?_) h hts.tail.left
    have := f.clauseNesting_le
    omega
  | predicate h =>
    obtain ⟨hx, said, -⟩ := h
    intro f hf
    obtain ⟨hs, hle⟩ := settles_said hoperand hinner (hoperand hx hts.left) said hts.right f hf
    exact ⟨hs, fun heq => (hle heq).trans (by omega)⟩

theorem settling_isNegation (g : Grammar) (v : Vocabulary) (n : Nat) :
    g.SettlingAll v (n + 1) Filter.clauseNesting (2 * n + 1) (g.IsNegation n) := by
  induction n with
  | zero => exact settling_negation (settling_isOperand g v 0) nofun nofun
  | succ n ih =>
    refine settling_negation (settling_isOperand g v (n + 1)) ?_ ?_
    · rintro _ ⟨⟩
      exact ⟨n, rfl, settling_isOperand g v n⟩
    · rintro _ ⟨⟩
      exact ⟨n, rfl, ih⟩

/-- What a condition with `n` levels denotes takes `2 * n + 2` levels at most. -/
theorem settling_isCondition (g : Grammar) (v : Vocabulary) (n : Nat) :
    g.SettlingAll v (n + 1) Filter.nesting (2 * n + 2) (g.IsCondition n) :=
  (settling_isNegation g v n).disjunction (by omega)

end Grammar

end FeatureFilter
