import FeatureFilter.Proofs.Calendar
import FeatureFilter.Proofs.Syntax.Denotation
import FeatureFilter.Proofs.Syntax.Operands
import FeatureFilter.Proofs.Token.Gluing

/-!
# Wider grammars

A grammar is wider than another one when it allows all that the other one allows: as many levels of
nesting, the same extensions and the same names. The text of one may hold the text of the other
(`Grammar.WidensAt`), as a rule the wider one's (`Grammar.Widens`). Phrases of the narrower grammar
that mean something are phrases of the wider one, wherever they stand (`Grammar.Widens.isOperand`,
`Grammar.Widens.isCondition`). Those that mean nothing need not be: with timestamps without an
offset a string that was an operand becomes the bound of an interval. Where timestamps are read
alike, all operands are the same (`Grammar.WidensAt.isOperand_same`).
-/

namespace FeatureFilter

open Span (nowhere)
open Category (Linked Sequence)

theorem stopOf_matches {place : Nat → Nat → Prop} {ts' us : List Token} {stop' stop : Nat}
    (h : Token.AllMatch place ts' us) (hs : place stop' stop) :
    place (stopOf stop' ts') (stopOf stop us) := by
  induction h generalizing stop' stop with
  | nil => exact hs
  | cons ht _ ih => exact ih ht.stop

/-- What is one phrase and has the property is the same phrase of the other category in another
place. -/
def Category.Moves {α : Type} (place : Nat → Nat → Prop) (p : α → Prop) (c c' : Category α) :
    Prop :=
  ∀ ⦃ts' ts a⦄, Token.AllMatch place ts' ts → p a → c ts a → c' ts' a

/-- The same for phrases a level deeper: wherever a level is left, one is left in the other
category. -/
def Category.MovesBelow {α : Type} (place : Nat → Nat → Prop) (p : α → Prop)
    (c c' : Option (Category α)) : Prop :=
  ∀ d, c = some d → ∃ d', c' = some d' ∧ d.Moves place p d'

section Sequence

variable {α β γ : Type} {place : Nat → Nat → Prop} {p : α → Prop} {item item' : Category α}
  {link? : TokenKind → Option β}

theorem Category.Moves.linked (h : item.Moves place p item') :
    Category.Moves place (fun xs => ∀ x ∈ xs, p x.2) (Linked link? item) (Linked link? item') := by
  intro ts' ts xs hts hp hxs
  induction hxs generalizing ts' with
  | nil =>
    cases hts
    exact .nil
  | cons link head _ ih =>
    obtain _ | ⟨ht, hts⟩ := hts
    obtain ⟨ts₁, ts₂, rfl, h₁, h₂⟩ := Token.AllMatch.split hts
    obtain ⟨ha, hp⟩ := List.forall_mem_cons.1 hp
    exact .cons (ht.kind ▸ link) (h h₁ ha head) (ih h₂ hp)

theorem Category.Moves.sequence {q : γ → Prop} {build : α → List (β × α) → γ}
    (h : item.Moves place p item') (hq : ∀ a xs, q (build a xs) → p a ∧ ∀ x ∈ xs, p x.2) :
    Category.Moves place q (Sequence link? item build) (Sequence link? item' build) := by
  rintro ts' ts _ hts hp ⟨head, tail⟩
  obtain ⟨ts₁, ts₂, rfl, h₁, h₂⟩ := Token.AllMatch.split hts
  obtain ⟨ha, hxs⟩ := hq _ _ hp
  exact .intro (h h₁ ha head) (h.linked h₂ hxs tail)

theorem Category.Moves.commaList (h : item.Moves place p item') :
    Category.Moves place (fun xs => ∀ x ∈ xs, p x) item.CommaList item'.CommaList :=
  h.sequence fun _ _ hp => ⟨hp _ (List.mem_cons_self ..), fun _ hx =>
    hp _ (List.mem_cons_of_mem _ (List.mem_map_of_mem hx))⟩

theorem Category.MovesBelow.map {f f' : Category α → Category β} {q : β → Prop}
    {c c' : Option (Category α)} (h : Category.MovesBelow place p c c')
    (hf : ∀ d d', d.Moves place p d' → (f d).Moves place q (f' d')) :
    Category.MovesBelow place q (c.map f) (c'.map f') := by
  intro e he
  obtain ⟨d, hd, rfl⟩ := Option.map_eq_some_iff.1 he
  obtain ⟨d', rfl, hm⟩ := h d hd
  exact ⟨f' d', rfl, hf d d' hm⟩

end Sequence

/-! ## Phrases with a meaning -/

namespace Operand

variable {v : Vocabulary} {o left right start stop : Operand} {s : Span}

/-- The operand means something, or is a call whose arguments do: that can be a condition. -/
def HasMeaning (v : Vocabulary) (o : Operand) : Prop :=
  (∃ e, o.Denotes v e) ∨
    ∃ s name args es, o = .call s name args ∧ List.Forall₂ (Denotes v) args es

def HasBoundMeaning (v : Vocabulary) (o : Operand) : Prop := ∃ e, o.DenotesBound v e

theorem hasMeaning_of_forall₂ {os : List Operand} {es : List Expression}
    (h : List.Forall₂ (Denotes v) os es) : ∀ o ∈ os, o.HasMeaning v := by
  induction h with
  | nil => exact nofun
  | cons ho _ ih => exact List.forall_mem_cons.2 ⟨.inl ⟨_, ho⟩, ih⟩

theorem HasMeaning.args {name : String} {args : List Operand}
    (h : (call s name args).HasMeaning v) : ∀ o ∈ args, o.HasMeaning v := by
  obtain ⟨_, he⟩ | ⟨_, _, _, es, ⟨⟩, hes⟩ := h
  · obtain ⟨-, es, hes, -⟩ := denotes_call.1 he
    exact hasMeaning_of_forall₂ hes
  · exact hasMeaning_of_forall₂ hes

theorem HasMeaning.sides {op : ArithmeticOp} (h : (arithmetic s op left right).HasMeaning v) :
    left.HasMeaning v ∧ right.HasMeaning v := by
  obtain ⟨_, he⟩ | ⟨_, _, _, _, ⟨⟩, -⟩ := h
  obtain ⟨l, r, hl, hr, -⟩ := denotes_arithmetic.1 he
  exact ⟨.inl ⟨l, hl⟩, .inl ⟨r, hr⟩⟩

theorem HasMeaning.bounds (h : (interval s start stop).HasMeaning v) :
    start.HasBoundMeaning v ∧ stop.HasBoundMeaning v := by
  obtain ⟨_, he⟩ | ⟨_, _, _, _, ⟨⟩, -⟩ := h
  obtain ⟨a, b, ha, hb, -⟩ := denotes_interval.1 he
  exact ⟨⟨a, ha⟩, b, hb⟩

end Operand

namespace Condition

variable {v : Vocabulary} {c : Condition} {s : Span}

def HasMeaning (v : Vocabulary) (c : Condition) : Prop := ∃ f, c.Denotes v f

theorem hasMeaning_of_forall₂ {cs : List Condition} {fs : List Filter}
    (h : List.Forall₂ (Denotes v) cs fs) : ∀ c ∈ cs, c.HasMeaning v := by
  induction h with
  | nil => exact nofun
  | cons hc _ ih => exact List.forall_mem_cons.2 ⟨⟨_, hc⟩, ih⟩

theorem HasMeaning.inner (h : (negation s c).HasMeaning v) : c.HasMeaning v := by
  obtain ⟨_, hf⟩ := h
  obtain ⟨a, ha, -⟩ := denotes_negation.1 hf
  exact ⟨a, ha⟩

theorem HasMeaning.clauses {cs : List Condition} :
    (any s cs).HasMeaning v ∨ (all s cs).HasMeaning v → ∀ c ∈ cs, c.HasMeaning v := by
  rintro (⟨_, hf⟩ | ⟨_, hf⟩)
  · obtain ⟨fs, hfs, -⟩ := denotes_any.1 hf
    exact hasMeaning_of_forall₂ hfs
  · obtain ⟨fs, hfs, -⟩ := denotes_all.1 hf
    exact hasMeaning_of_forall₂ hfs

end Condition

/-! ## Operands that start with a string -/

namespace Grammar

def StartsString (ts : List Token) : Prop :=
  ∃ t content, ts.head? = some t ∧ t.kind = .string content

/-- No phrase of the category is an open bound, and none that starts with a string can be the bound
of an interval. -/
def NoBound (item : Category Operand) : Prop :=
  ∀ ⦃ts o⦄, item ts o → (∀ s, o ≠ .openBound s) ∧ (StartsString ts → ¬ o.IsBound)

theorem linked_of_mem {α β : Type} {link? : TokenKind → Option β} {item : Category α}
    {ts : List Token} {links : List (β × α)} (h : Category.Linked link? item ts links) :
    ∀ l ∈ links, ∃ k, link? k = some l.1 := by
  induction h with
  | nil => exact nofun
  | cons link _ _ ih => exact List.forall_mem_cons.2 ⟨⟨_, link⟩, ih⟩

theorem Operators.top {op? : TokenKind → Option ArithmeticOp} {item : Category Operand}
    {ts : List Token} {o : Operand} (h : Operators op? item ts o) :
    item ts o ∨ ∃ k op l r, op? k = some op ∧ o = .arithmetic nowhere op l r := by
  obtain ⟨head, tail⟩ := h
  rename_i ts us a links
  obtain rfl | ⟨init, last, rfl⟩ := List.eq_nil_or_concat links
  · cases tail
    rw [List.append_nil]
    exact .inl head
  · obtain ⟨k, hk⟩ := linked_of_mem tail last (by simp)
    exact .inr ⟨k, last.1, _, last.2, hk, by rw [List.concat_eq_append, List.foldl_append]; rfl⟩

theorem Operators.cases {op? : TokenKind → Option ArithmeticOp} {item : Category Operand}
    {ts : List Token} {o : Operand} (h : Operators op? item ts o) :
    item ts o ∨ ∃ op l r, o = .arithmetic nowhere op l r :=
  h.top.imp_right fun ⟨_, op, l, r, _, ho⟩ => ⟨op, l, r, ho⟩

theorem NoBound.operators {op? : TokenKind → Option ArithmeticOp} {item : Category Operand}
    (h : NoBound item) : NoBound (Operators op? item) := by
  intro ts o ho
  obtain hitem | ⟨op, l, r, rfl⟩ := Operators.cases ho
  · exact h hitem
  · exact ⟨nofun, fun _ => id⟩

theorem Factor.noBound {g : Grammar} {below : Option (Category Operand)}
    (hb : ∀ factor, below = some factor → NoBound factor) : NoBound (Factor g below) := by
  have head {t : Token} {ts : List Token} (hs : StartsString (t :: ts)) :
      ∃ content, t.kind = .string content := by
    obtain ⟨_, content, ht, hk⟩ := hs
    cases ht
    exact ⟨content, hk⟩
  intro ts o h
  cases h with
  | number hs =>
    refine ⟨nofun, fun hts => ?_⟩
    obtain ⟨content, hk⟩ := head hts
    rw [hk] at hs
    cases hs
  | @signed s ts negative o factor hs _ level ho =>
    refine ⟨?_, fun hts => ?_⟩
    · cases negative with
      | true => exact nofun
      | false => exact (hb factor level ho).1
    · obtain ⟨content, hk⟩ := head hts
      rw [hk] at hs
      cases hs
  | primary h =>
    cases h with
    | string hk =>
      refine ⟨nofun, fun _ => ?_⟩
      unfold Operand.stringLiteral
      split
      · split <;> exact id
      · exact id
    | group hclose level ho =>
      obtain ⟨factor, hfactor, rfl⟩ := Option.map_eq_some_iff.1 level
      refine ⟨((hb factor hfactor).operators.operators ho).1, fun hts => ?_⟩
      obtain ⟨content, hk⟩ := head hts
      rw [hk] at hclose
      cases hclose
    | geometry hshape =>
      refine ⟨nofun, fun hts => ?_⟩
      cases hshape with
      | intro hk =>
        obtain ⟨content, hk'⟩ := head hts
        cases hk.symm.trans hk'
    | boolean b hk =>
      refine ⟨nofun, fun hts => ?_⟩
      obtain ⟨content, hk'⟩ := head hts
      rw [hk'] at hk
      cases b <;> cases hk
    | _ hk =>
      refine ⟨nofun, fun hts => ?_⟩
      obtain ⟨content, hk'⟩ := head hts
      cases hk.symm.trans hk'

theorem IsFactor.noBound {g : Grammar} : ∀ n, NoBound (IsFactor g n)
  | 0 => Factor.noBound nofun
  | n + 1 => Factor.noBound fun factor h => by
    cases h
    exact IsFactor.noBound n

/-! ## Wider grammars -/

/-- The grammar `g'` allows all that `g` allows, and its text holds what the text of `g` holds;
`place` says where. -/
structure WidensAt (g' g : Grammar) (place : Nat → Nat → Prop) : Prop where
  levels : g.dialect.maxDepth ≤ g'.dialect.maxDepth
  allows : ∀ e, g.dialect.allows e = true → g'.dialect.allows e = true
  accepts : ∀ name, g.dialect.rejects name = false → g'.dialect.rejects name = false
  colors : g'.dialect.colorLiterals = g.dialect.colorLiterals
  shapes : g'.readGeometry = g.readGeometry
  slices : ∀ {a' b' a b cs}, place a' a → place b' b → byteSlice g.source.toList a b = some cs →
    byteSlice g'.source.toList a' b' = some cs

/-- The grammar `g'` allows all that `g` allows, and its text holds the text of `g`, `k` bytes
further behind. -/
abbrev Widens (g' g : Grammar) (k : Nat) : Prop := g'.WidensAt g fun a' a => a' = a + k

/-- The property `p` of operands goes down to the operands inside them, and `q` to the bounds of
intervals; with `q` a bound is the same bound for the grammar `g'`, in another place. -/
structure Descends (g' g : Grammar) (place : Nat → Nat → Prop) (p q : Operand → Prop) : Prop where
  args : ∀ {s name args}, p (.call s name args) → ∀ o ∈ args, p o
  sides : ∀ {s op left right}, p (.arithmetic s op left right) → p left ∧ p right
  bounds : ∀ {s start stop}, p (.interval s start stop) → q start ∧ q stop
  bound : ∀ {item item' : Category Operand}, item.Moves place p item' → NoBound item →
    Category.Moves place q (Bound g item) (Bound g' item')

theorem Descends.links {g' g : Grammar} {place : Nat → Nat → Prop} {p q : Operand → Prop}
    (hd : Descends g' g place p q) {links : List (ArithmeticOp × Operand)} {a : Operand}
    (h : p (links.foldl (fun left link => .arithmetic nowhere link.1 left link.2) a)) :
    p a ∧ ∀ link ∈ links, p link.2 := by
  induction links generalizing a with
  | nil => exact ⟨h, nofun⟩
  | cons link links ih =>
    obtain ⟨ha, hlinks⟩ := ih h
    exact ⟨(hd.sides ha).1, List.forall_mem_cons.2 ⟨(hd.sides ha).2, hlinks⟩⟩

namespace Widens

variable {place : Nat → Nat → Prop} {v : Vocabulary} {ts' ts : List Token}

theorem hasMeaning_value {g : Grammar} {operand : Category Operand}
    {inner : Option (Category Operand)}
    {x : Operand} {c : Condition} (h : Said g operand inner x ts c) (hc : c.HasMeaning v) :
    x.HasMeaning v := by
  obtain ⟨f, hf⟩ := hc
  cases h with
  | compare _ _ =>
    obtain ⟨l, hl, -⟩ := Condition.denotes_compare.1 hf
    exact .inl ⟨l, hl⟩
  | between _ _ _ _ _ =>
    obtain ⟨y, hy, -⟩ := Condition.denotes_between.1 hf
    exact .inl ⟨y, hy⟩
  | like _ _ _ =>
    obtain ⟨y, hy, -⟩ := Condition.denotes_like.1 hf
    exact .inl ⟨y, hy⟩
  | ilike _ _ _ _ _ =>
    obtain ⟨y, hy, -⟩ := Condition.denotes_like.1 hf
    exact .inl ⟨y, hy⟩
  | isNull _ _ _ =>
    obtain ⟨y, hy, -⟩ := Condition.denotes_isNull.1 hf
    exact .inl ⟨y, hy⟩
  | inList _ _ _ _ _ _ =>
    obtain ⟨y, hy, -⟩ := Condition.denotes_inList.1 hf
    exact .inl ⟨y, hy⟩
  | call hx =>
    obtain ⟨left, right, r, rfl, -, a, ha, b, hb, -⟩ := Condition.denotes_call.1 hf
    exact .inr ⟨_, _, _, _, hx, .cons ha (.cons hb .nil)⟩

theorem startsNotIlike (hm : Token.AllMatch place ts' ts) (h : StartsNotIlike ts') :
    StartsNotIlike ts := by
  obtain ⟨n, i, us, w, rfl, hn, hi, hw⟩ := h
  obtain _ | ⟨hmn, _ | ⟨hmi, -⟩⟩ := hm
  exact ⟨_, _, _, w, rfl, hmn.kind ▸ hn, hmi.kind ▸ hi, hw⟩

end Widens

namespace WidensAt

open Operand (HasMeaning HasBoundMeaning)
open Category (Moves MovesBelow)
open Token (Matches AllMatch)

variable {g' g : Grammar} {place : Nat → Nat → Prop} {p q : Operand → Prop} {v : Vocabulary}
  {ts' ts : List Token} {t' t : Token} {n n' : Nat}

/-! ### Geometries -/

theorem isTag (h : Matches place t' t) (ht : IsTag t) : IsTag t' := by
  obtain ⟨w, hw, htag⟩ := ht
  exact ⟨w, h.kind.trans hw, htag⟩

theorem areTags (h : AllMatch place ts' ts) (hts : ∀ t ∈ ts, IsTag t) : ∀ t ∈ ts', IsTag t := by
  induction h with
  | nil => exact nofun
  | cons ht _ ih =>
    obtain ⟨htag, htags⟩ := List.forall_mem_cons.1 hts
    exact List.forall_mem_cons.2 ⟨isTag ht htag, ih htags⟩

theorem closes {limit limit' depth : Nat} (hl : limit ≤ limit') (h : Closes limit depth ts) :
    AllMatch place ts' ts → Closes limit' depth ts' := by
  induction h generalizing ts' with
  | last ht =>
    rintro (_ | ⟨hm, _ | _⟩)
    exact .last (hm.kind.trans ht)
  | close ht _ ih =>
    rintro (_ | ⟨hm, hts⟩)
    exact .close (hm.kind.trans ht) (ih hts)
  | deepen ht hd _ ih =>
    rintro (_ | ⟨hm, hts⟩)
    exact .deepen (hm.kind.trans ht) (hd.trans hl) (ih hts)
  | other hopen hclose _ ih =>
    rintro (_ | ⟨hm, hts⟩)
    exact .other (hm.kind ▸ hopen) (hm.kind ▸ hclose) (ih hts)

theorem shapeRest {limit limit' : Nat} (hl : limit ≤ limit') (hm : AllMatch place ts' ts)
    (h : ShapeRest limit ts) : ShapeRest limit' ts' := by
  cases h with
  | empty htags ht hw =>
    obtain ⟨tags, _, rfl, hmtags, _ | ⟨hmt, _ | _⟩⟩ := hm.split
    exact .empty (areTags hmtags htags) (hmt.kind.trans ht) hw
  | full htags ht hts =>
    obtain ⟨tags, _, rfl, hmtags, _ | ⟨hmt, hmts⟩⟩ := hm.split
    exact .full (areTags hmtags htags) (hmt.kind.trans ht) (closes hl hts hmts)

theorem shape (hw : g'.WidensAt g place) {s : Geometry} (hm : AllMatch place ts' ts)
    (h : g.Shape ts s) : g'.Shape ts' s := by
  obtain ⟨ht, hword, hts, hcs, hshape⟩ := h
  obtain _ | ⟨hmt, hmts⟩ := hm
  exact .intro (hmt.kind.trans ht) hword (shapeRest hw.levels hmts hts)
    (hw.slices hmt.start (stopOf_matches hmts hmt.stop) hcs) (hw.shapes ▸ hshape)

theorem ordinate {x : Binary64} (hm : AllMatch place ts' ts) (h : Ordinate ts x) :
    Ordinate ts' x := by
  cases h with
  | unsigned ht hl hx =>
    obtain _ | ⟨hmt, _ | _⟩ := hm
    exact .unsigned (hmt.kind.trans ht) hl hx
  | signed hs ht hl hx =>
    obtain _ | ⟨hms, _ | ⟨hmt, _ | _⟩⟩ := hm
    exact .signed (hms.kind ▸ hs) (hmt.kind.trans ht) hl hx

/-! ### Operands -/

theorem close?_eq_some (hw : g'.WidensAt g place) {kind : TokenKind} {m : Mark}
    (h : g.close? kind = some m) : g'.close? kind = some m := by
  unfold close? at h ⊢
  split at h
  · exact h
  · split at h
    · rename_i hb
      rw [if_pos (hw.allows _ hb)]
      exact h
    · cases h
  · cases h

theorem calls (hw : g'.WidensAt g place) {name : String} (h : g.Calls name) : g'.Calls name :=
  { h with allowed := hw.accepts name h.allowed }

theorem stringLiteral (hw : g'.WidensAt g place) (content : String) :
    Operand.stringLiteral g' content = Operand.stringLiteral g content := by
  rw [Operand.stringLiteral, Operand.stringLiteral, hw.colors]

/-- A date is no timestamp, not even without an offset. -/
theorem readTimestamp_of_readDate {naive : Bool} {content : String} {d : Date}
    (h : Literal.readDate content = .ok d) :
    Literal.readTimestamp naive content = .error (.invalidTimestamp content) := by
  rw [Literal.readDate] at h
  split at h
  · rename_i hd
    obtain ⟨⟨d', rest⟩, hfront, hend⟩ := Option.bind_eq_some_iff.1 hd
    obtain rfl : rest = [] := by
      cases rest with
      | nil => rfl
      | cons c cs => cases hend
    rw [Literal.readTimestamp, Timestamp.read, Timestamp.readCivil, hfront]
    rfl
  · cases h

theorem readTimestamp (hw : g'.WidensAt g place) {content : String} {i : Timestamp}
    (h : Literal.readTimestamp (g.dialect.allows .naiveTimestamps) content = .ok i) :
    Literal.readTimestamp (g'.dialect.allows .naiveTimestamps) content = .ok i := by
  cases hn : g.dialect.allows .naiveTimestamps with
  | true => rwa [hw.allows _ hn, ← hn]
  | false =>
    rw [hn, Literal.readTimestamp] at h
    rw [Literal.readTimestamp]
    split at h <;> simp_all

theorem stringBound? (hw : g'.WidensAt g place) {content : String} {o : Operand}
    (h : g.stringBound? nowhere content = some o) : g'.stringBound? nowhere content = some o := by
  unfold Grammar.stringBound? at h ⊢
  split at h
  · rename_i hopen
    rw [if_pos hopen]
    exact h
  · rename_i hopen
    rw [if_neg hopen]
    split at h
    · rename_i hi
      rw [hw.readTimestamp hi]
      exact h
    · split at h
      · rename_i hd
        rw [readTimestamp_of_readDate hd]
        exact h
      · cases h

theorem descends_meaning (hw : g'.WidensAt g place) :
    Descends g' g place (HasMeaning v) (HasBoundMeaning v) where
  args := HasMeaning.args
  sides := HasMeaning.sides
  bounds := HasMeaning.bounds
  bound := by
    rintro item item' hitem hno ts' ts o hm ⟨e, he⟩ h
    cases h with
    | string ht ho =>
      obtain _ | ⟨hmt, _ | _⟩ := hm
      exact .string (hmt.kind.trans ht) (hw.stringBound? ho)
    | operand ho _ =>
      obtain ⟨hopen, hstring⟩ := hno ho
      rcases he with ⟨s, rfl, -⟩ | ⟨hb, he⟩
      · exact absurd rfl (hopen s)
      · refine .operand (hitem hm (.inl ⟨e, he⟩) ho) fun t' content ht' hk => ?_
        obtain _ | ⟨hmt, -⟩ := hm
        · cases ht'
        · cases ht'
          exact absurd hb (hstring ⟨_, content, rfl, hmt.kind ▸ hk⟩)

/-- Where timestamps are read in the same way all bounds stay the same. -/
theorem descends_same (hw : g'.WidensAt g place)
    (hn : g'.dialect.allows .naiveTimestamps = g.dialect.allows .naiveTimestamps) :
    Descends g' g place (fun _ => True) (fun _ => True) where
  args _ _ _ := trivial
  sides _ := ⟨trivial, trivial⟩
  bounds _ := ⟨trivial, trivial⟩
  bound := by
    intro item item' hitem _ ts' ts o hm _ h
    cases h with
    | string ht ho =>
      obtain _ | ⟨hmt, _ | _⟩ := hm
      exact .string (hmt.kind.trans ht) (hw.stringBound? ho)
    | operand ho hs =>
      refine .operand (hitem hm trivial ho) fun t' content ht' hk => ?_
      obtain _ | ⟨hmt, -⟩ := hm
      · cases ht'
      · cases ht'
        have hnone := hs _ content rfl (hmt.kind ▸ hk)
        rw [Grammar.stringBound?] at hnone ⊢
        rwa [hn]

theorem operators (hd : Descends g' g place p q) {op? : TokenKind → Option ArithmeticOp}
    {item item' : Category Operand} (h : item.Moves place p item') :
    Moves place p (Operators op? item) (Operators op? item') :=
  h.sequence fun _ _ => hd.links

theorem sum (hd : Descends g' g place p q) {factor factor' : Category Operand}
    (h : factor.Moves place p factor') : Moves place p (Sum factor) (Sum factor') :=
  operators hd (operators hd h)

theorem primary (hw : g'.WidensAt g place) (hd : Descends g' g place p q)
    {inner inner' : Option (Category Operand)} (hi : MovesBelow place p inner inner')
    (hno : ∀ item, inner = some item → NoBound item) :
    Moves place p (Primary g inner) (Primary g' inner') := by
  intro ts' ts o hm ho h
  cases h with
  | number ht hl =>
    obtain _ | ⟨hmt, _ | _⟩ := hm
    exact .number (hmt.kind.trans ht) hl
  | string ht =>
    obtain _ | ⟨hmt, _ | _⟩ := hm
    rw [← hw.stringLiteral]
    exact .string (hmt.kind.trans ht)
  | boolean b ht =>
    obtain _ | ⟨hmt, _ | _⟩ := hm
    exact .boolean b (hmt.kind.trans ht)
  | group ht level h ht' =>
    obtain _ | ⟨hmt, hm⟩ := hm
    obtain ⟨us, _, rfl, hus, _ | ⟨hmt', _ | _⟩⟩ := AllMatch.split hm
    obtain ⟨item', level', hitem⟩ := hi _ level
    exact .group (hmt.kind ▸ hw.close?_eq_some ht) level' (hitem hus ho h) (hmt'.kind.trans ht')
  | quoted ht =>
    obtain _ | ⟨hmt, _ | _⟩ := hm
    exact .quoted (hmt.kind.trans ht)
  | word ht =>
    obtain _ | ⟨hmt, _ | _⟩ := hm
    exact .word (hmt.kind.trans ht)
  | callEmpty ht hname hp level hp' =>
    obtain _ | ⟨hmt, _ | ⟨hmp, _ | ⟨hmp', _ | _⟩⟩⟩ := hm
    obtain ⟨item, hitem⟩ := Option.isSome_iff_exists.1 level
    obtain ⟨item', level', -⟩ := hi _ hitem
    exact .callEmpty (hmt.kind.trans ht) (hw.calls hname) (hmp.kind.trans hp)
      (level' ▸ rfl) (hmp'.kind.trans hp')
  | call ht hname hp level h hp' =>
    obtain _ | ⟨hmt, _ | ⟨hmp, hm⟩⟩ := hm
    obtain ⟨us, _, rfl, hus, _ | ⟨hmp', _ | _⟩⟩ := AllMatch.split hm
    obtain ⟨item', level', hitem⟩ := hi _ level
    exact .call (hmt.kind.trans ht) (hw.calls hname) (hmp.kind.trans hp) level'
      (hitem.commaList hus (hd.args ho) h) (hmp'.kind.trans hp')
  | envelope ht hword hp hwest hc₁ hsouth hc₂ heast hc₃ hnorth hp' =>
    obtain _ | ⟨hmt, _ | ⟨hmp, hm⟩⟩ := hm
    obtain ⟨ws, _, rfl, hws, _ | ⟨hm₁, hm⟩⟩ := AllMatch.split hm
    obtain ⟨ss, _, rfl, hss, _ | ⟨hm₂, hm⟩⟩ := AllMatch.split hm
    obtain ⟨es, _, rfl, hes, _ | ⟨hm₃, hm⟩⟩ := AllMatch.split hm
    obtain ⟨ns, _, rfl, hns, _ | ⟨hmp', _ | _⟩⟩ := AllMatch.split hm
    exact .envelope (hmt.kind.trans ht) hword (hmp.kind.trans hp) (ordinate hws hwest)
      (hm₁.kind.trans hc₁) (ordinate hss hsouth) (hm₂.kind.trans hc₂) (ordinate hes heast)
      (hm₃.kind.trans hc₃) (ordinate hns hnorth) (hmp'.kind.trans hp')
  | date ht hword hp hs hd hp' =>
    obtain _ | ⟨hmt, _ | ⟨hmp, _ | ⟨hms, _ | ⟨hmp', _ | _⟩⟩⟩⟩ := hm
    exact .date (hmt.kind.trans ht) hword (hmp.kind.trans hp) (hms.kind.trans hs) hd
      (hmp'.kind.trans hp')
  | timestamp ht hword hp hs hi hp' =>
    obtain _ | ⟨hmt, _ | ⟨hmp, _ | ⟨hms, _ | ⟨hmp', _ | _⟩⟩⟩⟩ := hm
    exact .timestamp (hmt.kind.trans ht) hword (hmp.kind.trans hp) (hms.kind.trans hs)
      (hw.readTimestamp hi) (hmp'.kind.trans hp')
  | interval ht hword hp level ha hc hb hp' =>
    obtain _ | ⟨hmt, _ | ⟨hmp, hm⟩⟩ := hm
    obtain ⟨as, _, rfl, has, _ | ⟨hmc, hm⟩⟩ := AllMatch.split hm
    obtain ⟨bs, _, rfl, hbs, _ | ⟨hmp', _ | _⟩⟩ := AllMatch.split hm
    obtain ⟨item', level', hitem⟩ := hi _ level
    have hbound := hd.bound hitem (hno _ level)
    obtain ⟨hoa, hob⟩ := hd.bounds ho
    exact .interval (hmt.kind.trans ht) hword (hmp.kind.trans hp) level' (hbound has hoa ha)
      (hmc.kind.trans hc) (hbound hbs hob hb) (hmp'.kind.trans hp')
  | geometry h => exact .geometry (hw.shape hm h)
  | srid ht hword he hn hsrid hc h =>
    obtain _ | ⟨hmt, _ | ⟨hme, _ | ⟨hmn, _ | ⟨hmc, hm⟩⟩⟩⟩ := hm
    exact .srid (hmt.kind.trans ht) hword (hme.kind.trans he) (hmn.kind.trans hn) hsrid
      (hmc.kind.trans hc) (hw.shape hm h)

theorem startsNumber (hm : AllMatch place ts' ts) (h : StartsNumber ts') : StartsNumber ts := by
  obtain ⟨t', w, ht, hk⟩ := h
  obtain _ | ⟨hmt, -⟩ := hm
  · cases ht
  · cases ht
    exact ⟨_, w, rfl, hmt.kind ▸ hk⟩

theorem factor (hw : g'.WidensAt g place) (hd : Descends g' g place p q)
    {below below' : Option (Category Operand)} (hb : MovesBelow place p below below')
    (hno : ∀ factor, below = some factor → NoBound factor) :
    Moves place p (Factor g below) (Factor g' below') := by
  intro ts' ts o hm ho h
  cases h with
  | primary h =>
    refine .primary (hw.primary hd (hb.map fun _ _ => sum hd) (fun item hitem => ?_) hm ho h)
    obtain ⟨factor, hfactor, rfl⟩ := Option.map_eq_some_iff.1 hitem
    exact (hno factor hfactor).operators.operators
  | number hs ht hl =>
    obtain _ | ⟨hms, _ | ⟨hmt, _ | _⟩⟩ := hm
    exact .number (hms.kind ▸ hs) (hmt.kind.trans ht) hl
  | @signed s ts negative o factor hs hn level h =>
    obtain _ | ⟨hms, hm⟩ := hm
    obtain ⟨factor', level', hfactor⟩ := hb _ level
    refine .signed (hms.kind ▸ hs) (fun h => hn (startsNumber hm h)) level' (hfactor hm ?_ h)
    cases negative with
    | true => exact (hd.sides ho).2
    | false => exact ho

theorem isFactor (hw : g'.WidensAt g place) (hd : Descends g' g place p q) :
    ∀ {n n' : Nat}, n ≤ n' → Moves place p (g.IsFactor n) (g'.IsFactor n')
  | 0, n', _ => by
    rw [isFactor_eq, isFactor_eq]
    exact hw.factor hd nofun nofun
  | n + 1, n', hn => by
    obtain ⟨m, rfl⟩ : ∃ m, n' = m + 1 := ⟨n' - 1, by omega⟩
    refine hw.factor hd ?_ ?_
    · rintro _ ⟨⟩
      exact ⟨_, rfl, hw.isFactor hd (Nat.le_of_succ_le_succ hn)⟩
    · rintro _ ⟨⟩
      exact IsFactor.noBound n

/-- An operand with a meaning is the same operand for a wider grammar. -/
theorem isOperand (hw : g'.WidensAt g place) {n n' : Nat} (hn : n ≤ n') :
    Moves place (HasMeaning v) (g.IsOperand n) (g'.IsOperand n') :=
  sum hw.descends_meaning (hw.isFactor hw.descends_meaning hn)

/-- Where timestamps are read in the same way every operand is the same operand for a wider grammar.
-/
theorem isOperand_same (hw : g'.WidensAt g place)
    (hnaive : g'.dialect.allows .naiveTimestamps = g.dialect.allows .naiveTimestamps) {n n' : Nat}
    (hn : n ≤ n') : Moves place (fun _ => True) (g.IsOperand n) (g'.IsOperand n') :=
  sum (hw.descends_same hnaive) (hw.isFactor (hw.descends_same hnaive) hn)

theorem belowOperand (hw : g'.WidensAt g place) {n n' : Nat} (hn : n ≤ n') :
    MovesBelow place (HasMeaning v) (Category.below g.IsOperand n)
      (Category.below g'.IsOperand n') := by
  intro item hitem
  obtain ⟨m, rfl, rfl⟩ := Category.below_eq_some.1 hitem
  obtain ⟨m', rfl⟩ : ∃ m', n' = m' + 1 := ⟨n' - 1, by omega⟩
  exact ⟨_, rfl, hw.isOperand (Nat.le_of_succ_le_succ hn)⟩

/-! ### Conditions -/

theorem nots {negated : Bool} (hm : AllMatch place ts' ts) (h : Nots negated ts) :
    Nots negated ts' := by
  cases h with
  | no =>
    cases hm
    exact .no
  | yes ht =>
    obtain _ | ⟨hmt, _ | _⟩ := hm
    exact .yes (hmt.kind.trans ht)

/-- The operands of what is said about a value mean something when the predicate does. -/
theorem said (hw : g'.WidensAt g place) {operand operand' : Category Operand}
    {inner inner' : Option (Category Operand)} {x : Operand}
    (hoperand : operand.Moves place (HasMeaning v) operand')
    (hi : MovesBelow place (HasMeaning v) inner inner') :
    Moves place (Condition.HasMeaning v) (Said g operand inner x) (Said g' operand' inner' x) := by
  rintro ts' ts c hm ⟨f, hf⟩ h
  cases h with
  | compare ht hy =>
    obtain _ | ⟨hmt, hm⟩ := hm
    obtain ⟨-, -, r, hr, -⟩ := Condition.denotes_compare.1 hf
    exact .compare (hmt.kind ▸ ht) (hoperand hm (.inl ⟨r, hr⟩) hy)
  | between hn ht hl ht' hh =>
    obtain ⟨ns, _, rfl, hns, _ | ⟨hmt, hm⟩⟩ := AllMatch.split hm
    obtain ⟨ls, _, rfl, hls, _ | ⟨hmt', hhs⟩⟩ := AllMatch.split hm
    obtain ⟨-, -, l, hl', h, hh', -⟩ := Condition.denotes_between.1 hf
    exact .between (nots hns hn) (hmt.kind.trans ht) (hoperand hls (.inl ⟨l, hl'⟩) hl)
      (hmt'.kind.trans ht') (hoperand hhs (.inl ⟨h, hh'⟩) hh)
  | like hn ht hp =>
    obtain ⟨ns, _, rfl, hns, _ | ⟨hmt, _ | ⟨hmp, _ | _⟩⟩⟩ := AllMatch.split hm
    exact .like (nots hns hn) (hmt.kind.trans ht) (hmp.kind.trans hp)
  | ilike hallow hn ht hword hp =>
    obtain ⟨ns, _, rfl, hns, _ | ⟨hmt, _ | ⟨hmp, _ | _⟩⟩⟩ := AllMatch.split hm
    exact .ilike (hw.allows _ hallow) (nots hns hn) (hmt.kind.trans ht) hword (hmp.kind.trans hp)
  | isNull ht hn hnull =>
    obtain _ | ⟨hmt, hm⟩ := hm
    obtain ⟨ns, _, rfl, hns, _ | ⟨hmn, _ | _⟩⟩ := AllMatch.split hm
    exact .isNull (hmt.kind.trans ht) (nots hns hn) (hmn.kind.trans hnull)
  | inList hn ht hp level hcs hp' =>
    obtain ⟨ns, _, rfl, hns, _ | ⟨hmt, _ | ⟨hmp, hm⟩⟩⟩ := AllMatch.split hm
    obtain ⟨cs, _, rfl, hmcs, _ | ⟨hmp', _ | _⟩⟩ := AllMatch.split hm
    obtain ⟨-, -, es, hes, -⟩ := Condition.denotes_inList.1 hf
    obtain ⟨item', level', hitem⟩ := hi _ level
    exact .inList (nots hns hn) (hmt.kind.trans ht) (hmp.kind.trans hp) level'
      (hitem.commaList hmcs (Operand.hasMeaning_of_forall₂ hes) hcs) (hmp'.kind.trans hp')
  | call hx =>
    cases hm
    exact .call hx

/-- What an operand can start with opens a group for the narrower grammar, too, if for the wider. -/
theorem close?_of_mayStart {kind : TokenKind} {m : Mark}
    (h : g'.close? kind = some m) (hs : Operand.mayStart g kind = true) :
    g.close? kind = some m := by
  unfold close? at h ⊢
  split at h
  · exact h
  · split at h
    · have hb : g.dialect.allows .bracketGrouping = true := hs
      rw [if_pos hb]
      exact h
    · cases h
  · cases h

theorem groupedCall {x : Operand} {c : Category Operand}
    (hs : c.StartsWith (Operand.mayStart g)) (hx : c ts x) (hm : AllMatch place ts' ts)
    (h : g'.GroupedCall ts' x) : g.GroupedCall ts x := by
  obtain ⟨⟨t', m, ht', hclose⟩, hcall⟩ := h
  obtain ⟨t, us, rfl, hmay⟩ := hs hx
  obtain _ | ⟨hmt, -⟩ := hm
  cases ht'
  exact ⟨⟨t, m, rfl, close?_of_mayStart (hmt.kind ▸ hclose) hmay⟩, hcall⟩

theorem predicate (hw : g'.WidensAt g place) {operand operand' : Category Operand}
    {inner inner' : Option (Category Operand)}
    (hoperand : operand.Moves place (HasMeaning v) operand')
    (hs : operand.StartsWith (Operand.mayStart g))
    (hi : MovesBelow place (HasMeaning v) inner inner') :
    Moves place (Condition.HasMeaning v) (Predicate g operand inner)
      (Predicate g' operand' inner') := by
  rintro ts' ts c hm hc ⟨hx, hsaid, hilike⟩
  obtain ⟨xs, us, rfl, hxs, hus⟩ := AllMatch.split hm
  refine .intro (hoperand hxs (Widens.hasMeaning_value hsaid hc) hx)
    (hw.said hoperand hi hus hc hsaid) ?_
  exact fun h hcall => hilike (Widens.startsNotIlike hus h) (groupedCall hs hx hxs hcall)

theorem clauses {keyword : Keyword} {join : Span → List Condition → Condition}
    {item item' : Category Condition} (h : item.Moves place (Condition.HasMeaning v) item')
    (hjoin : ∀ cs, (join nowhere cs).HasMeaning v → ∀ c ∈ cs, c.HasMeaning v) :
    Moves place (Condition.HasMeaning v) (Clauses keyword join item)
      (Clauses keyword join item') := by
  refine h.sequence fun c links hc => ?_
  cases links with
  | nil => exact ⟨hc, nofun⟩
  | cons link links =>
    obtain ⟨hc, hlinks⟩ := List.forall_mem_cons.1 (hjoin _ hc)
    exact ⟨hc, fun x hx => hlinks _ (List.mem_map_of_mem hx)⟩

theorem disjunction {item item' : Category Condition}
    (h : item.Moves place (Condition.HasMeaning v) item') :
    Moves place (Condition.HasMeaning v) (Disjunction item) (Disjunction item') :=
  clauses (clauses h fun _ hc => Condition.HasMeaning.clauses (.inr hc)) fun _ hc =>
    Condition.HasMeaning.clauses (.inl hc)

theorem negation (hw : g'.WidensAt g place) {operand operand' : Category Operand}
    {inner inner' : Option (Category Operand)} {below below' : Option (Category Condition)}
    (hoperand : operand.Moves place (HasMeaning v) operand')
    (hs : operand.StartsWith (Operand.mayStart g))
    (hi : MovesBelow place (HasMeaning v) inner inner')
    (hb : MovesBelow place (Condition.HasMeaning v) below below') :
    Moves place (Condition.HasMeaning v) (Negation g operand inner below)
      (Negation g' operand' inner' below') := by
  intro ts' ts c hm hc h
  cases h with
  | not ht level h =>
    obtain _ | ⟨hmt, hm⟩ := hm
    obtain ⟨item', level', hitem⟩ := hb _ level
    exact .not (hmt.kind.trans ht) level' (hitem hm hc.inner h)
  | group ht level h ht' =>
    obtain _ | ⟨hmt, hm⟩ := hm
    obtain ⟨us, _, rfl, hus, _ | ⟨hmt', _ | _⟩⟩ := AllMatch.split hm
    obtain ⟨item', level', hitem⟩ := hb _ level
    exact .group (hmt.kind ▸ hw.close?_eq_some ht) level' (disjunction hitem hus hc h)
      (hmt'.kind.trans ht')
  | predicate h => exact .predicate (hw.predicate hoperand hs hi hm hc h)

theorem isNegation (hw : g'.WidensAt g place) {n n' : Nat} (hn : n ≤ n') :
    Moves place (Condition.HasMeaning v) (g.IsNegation n) (g'.IsNegation n') := by
  induction n generalizing n' with
  | zero =>
    rw [isNegation_eq, isNegation_eq]
    exact hw.negation (hw.isOperand hn) (IsOperand.startsWith 0) (hw.belowOperand hn) nofun
  | succ n ih =>
    rw [isNegation_eq, isNegation_eq]
    refine hw.negation (hw.isOperand hn) (IsOperand.startsWith _) (hw.belowOperand hn) ?_
    obtain ⟨m, rfl⟩ : ∃ m, n' = m + 1 := ⟨n' - 1, by omega⟩
    rintro _ ⟨⟩
    exact ⟨_, rfl, ih (Nat.le_of_succ_le_succ hn)⟩

/-- A condition with a meaning is the same condition for a wider grammar. -/
theorem isCondition (hw : g'.WidensAt g place) {n n' : Nat} (hn : n ≤ n') :
    Moves place (Condition.HasMeaning v) (g.IsCondition n) (g'.IsCondition n') :=
  disjunction (hw.isNegation hn)

end WidensAt

/-! ## More levels -/

theorem Widens.refl (g : Grammar) : g.Widens g 0 where
  levels := Nat.le_refl _
  allows _ h := h
  accepts _ h := h
  colors := rfl
  shapes := rfl
  slices := by
    rintro _ _ a b cs rfl rfl hcs
    exact hcs

/-- An operand may be nested less deep than is allowed. -/
theorem IsOperand.mono {g : Grammar} {n n' : Nat} {ts : List Token} {o : Operand} (hn : n ≤ n')
    (h : g.IsOperand n ts o) : g.IsOperand n' ts o :=
  (Widens.refl g).isOperand_same rfl hn (Token.AllMoved.refl ts) trivial h

end Grammar

end FeatureFilter
