import FeatureFilter.Compiler
import FeatureFilter.Proofs.Syntax.Groups
import FeatureFilter.Proofs.Syntax.Texts

/-!
# Which error of two attempts is reported

An opening parenthesis is read as a group of conditions and, when that comes to nothing or an
operator follows, as the start of a predicate. Of two errors the one further on is reported
(`Condition.primary_error`). Where the group was read and an operator follows there is no error of
the group: that of the predicate is reported, wherever it is. It does not lie in front of the
operator when the group is a call, and lies inside any other group.
-/

namespace FeatureFilter

open Reader
open Compiler (standard)
open Span (nowhere)

theorem ordered_of_tokenize {text : String} {tokens : List Token} {s : Cursor}
    (h : tokenize text = .ok tokens) (hs : s.ahead <:+ tokens) (hne : s.ahead ≠ []) :
    s.Ordered := by
  obtain ⟨ts, q, rfl, hts⟩ := tokenize_eq_ok.1 h
  have hstart (t : Token) (ht : t ∈ ts) : t.span.start < t.span.stop :=
    (hts.covers.exact t ht).nonempty
  have hstarts : (ts ++ [Token.finishAt q]).Pairwise fun a b => a.span.start < b.span.start := by
    refine List.pairwise_append.2 ⟨?_, List.pairwise_singleton .., fun t ht u hu => ?_⟩
    · exact hts.ordered.imp_of_mem fun ha _ hle => Nat.lt_of_lt_of_le (hstart _ ha) hle
    · rw [List.mem_singleton.1 hu]
      exact Nat.lt_of_lt_of_le (hstart t ht) (hts.bounds t ht).2
  refine ⟨hstarts.sublist hs.sublist, Token.finishAt q, ?_, rfl⟩
  obtain ⟨front, hfront⟩ := hs
  have hlast := congrArg List.getLast? hfront
  rw [List.getLast?_append, List.getLast?_concat, List.getLast?_eq_some_getLast hne,
    Option.some_or, Option.some.injEq] at hlast
  rw [← hlast]
  exact List.getLast_mem hne

/-! ## Groups that are calls -/

namespace Grammar

theorem IsCondition.isOperand {g : Grammar} {n : Nat} {ds : List Token} {name : String}
    {args : List Operand} (h : g.IsCondition n ds (.call nowhere name args)) :
    g.IsOperand n ds (.call nowhere name args) := by
  induction n using Nat.strongRecOn generalizing ds with
  | _ n ih =>
  generalize hc : Condition.call nowhere name args = c at h
  obtain ⟨⟨head, tail⟩, tail'⟩ := h
  cases tail' with
  | cons => cases hc
  | nil =>
  cases tail with
  | cons => cases hc
  | nil =>
  rw [List.append_nil, List.append_nil]
  rename_i a
  obtain rfl : Condition.call nowhere name args = a := hc
  rw [isNegation_eq] at head
  cases head with
  | group ht level h ht' =>
    obtain ⟨k, rfl, rfl⟩ := Category.below_eq_some.1 level
    have hfactor : g.IsFactor (k + 1) _ _ :=
      .primary (.group ht rfl (ih k (Nat.lt_succ_self k) h) ht')
    exact hfactor.isOperand
  | predicate h =>
    obtain ⟨hx, said, -⟩ := h
    cases said with
    | call hcall =>
      rw [List.append_nil]
      exact hcall ▸ hx

end Grammar

namespace Operand

variable {R : Span → Prop}

mutual

/-- What holds of all spans holds of those of an operand. -/
theorem spans_of_forall (hR : ∀ s, R s) : ∀ o : Operand, o.Spans R
  | .literal s _ | .openBound s | .geometry s _ _ => by
    unfold Spans
    exact hR s
  | .property s name => by
    unfold Spans
    exact ⟨hR s, hR name.span⟩
  | .call s _ args => by
    unfold Spans
    exact ⟨hR s, allSpans_of_forall hR args⟩
  | .arithmetic s _ left right => by
    unfold Spans
    exact ⟨hR s, spans_of_forall hR left, spans_of_forall hR right⟩
  | .interval s start stop => by
    unfold Spans
    exact ⟨hR s, spans_of_forall hR start, spans_of_forall hR stop⟩

theorem allSpans_of_forall (hR : ∀ s, R s) : ∀ os : List Operand, AllSpans R os
  | [] => by
    unfold AllSpans
    exact trivial
  | o :: os => by
    unfold AllSpans
    exact ⟨spans_of_forall hR o, allSpans_of_forall hR os⟩

end

end Operand

namespace Condition

variable {g : Grammar} {s s₁ : Cursor} {ys : List Token} {y : Operand} {c : Condition} {k n : Nat}
  {m : Mark} {e : SyntaxError}

/-- An opening parenthesis as a group of conditions, `n` levels being left. -/
def groupAt (g : Grammar) (n : Nat) : Reader Condition :=
  readGroup g ((Reader.below (readNegation g) n).map readChains) .rightParen

def predicateAt (g : Grammar) (n : Nat) : Reader Condition :=
  readPredicate g (Operand.read g n) (Reader.below (Operand.read g) n)

def primaryAt (g : Grammar) (n : Nat) : Reader Condition :=
  readPrimary g (Operand.read g n) (Reader.below (Operand.read g) n)
    ((Reader.below (readNegation g) n).map readChains)

theorem primaryAt_eq (hk : s.kind 0 = .mark .leftParen) :
    primaryAt g n s = orPredicate (groupAt g n) (predicateAt g n) s := by
  have hclose : groupClose g s = .ok (some .rightParen, s) :=
    (groupClose_eq fun h => by rw [hk] at h; cases h).trans (by rw [hk]; rfl)
  exact bind_of_ok hclose

theorem predicateAt_eq (hk : s.kind 0 = .mark .leftParen) :
    predicateAt g n s = (Operand.read g n >>= fun value =>
      readRest g (Operand.read g n) (Reader.below (Operand.read g) n) (s.token 0) value) s := by
  have hrefuse : refuseRemoved s = .ok ((), s) := by
    rw [refuseRemoved, get_bind, hk]
    rfl
  rw [predicateAt, readPredicate_eq, bind_of_ok hrefuse, peek_bind]

theorem keepsBelow_read {P R : Span → Prop} [Span.Joins P R] (g : Grammar) (n : Nat) :
    KeepsBelow P R (Operand.Spans R) (Reader.below (Operand.read g) n) := by
  intro x hx
  cases n with
  | zero => cases hx
  | succ n =>
    cases hx
    exact Operand.keeps_read g n

theorem start_le_of_operand (ho : s.Ordered) (hk : s.kind 0 = .mark .leftParen)
    (hy : g.IsOperand k ys y) (hys : s.next.Takes ys s₁) (hclose : s₁.kind 0 = .mark .rightParen)
    (h : predicateAt g (k + 1) s = .error e) : s₁.next.start ≤ e.span.start := by
  have hm : g.close? (s.kind 0) = some .rightParen := by
    rw [hk]
    rfl
  have hlast : s₁.Takes [s₁.token 0] s₁.next :=
    .cons_of_kind hclose nofun (.refl (by simpa using hys.finish'))
  have htakes : s.Takes (s.token 0 :: (ys ++ [s₁.token 0])) s₁.next :=
    .cons_of_kind hk nofun (hys.append hlast)
  obtain ⟨o, hgroup, -⟩ := Operand.readGroup_complete (Operand.fits_read g k) hm hy hclose htakes
  have hplaced := (htakes.ordered ho).placed
  have hfactor : Stays (Span.From s₁.next.start) (fun _ => True) (Operand.Spans fun _ => True)
      (Operand.readFactor g (k + 1) s) := by
    rw [Operand.readFactor_group hm, hgroup]
    exact ⟨Operand.spans_of_forall (fun _ => trivial) o, hplaced⟩
  have hkeeps := Operand.keeps_factor (P := Span.From s₁.next.start) (R := fun _ => True) g (k + 1)
  have hvalue : Stays (Span.From s₁.next.start) (fun _ => True) (Operand.Spans fun _ => True)
      (Operand.read g (k + 1) s) :=
    Operand.stays_chain rfl (Operand.keeps_chain rfl hkeeps)
      (Operand.stays_chain rfl hkeeps hfactor)
  have hpredicate : Stays (Span.From s₁.next.start) (fun _ => True) (Spans fun _ => True)
      (predicateAt g (k + 1) s) := by
    rw [predicateAt_eq hk]
    exact hvalue.bind fun o s' ho hs' => stays_rest (Operand.keeps_read g (k + 1))
      (keepsBelow_read g (k + 1)) hs' trivial ho
  rw [h] at hpredicate
  exact hpredicate

theorem start_lt_of_condition (ho : s.Ordered) (hk : s.kind 0 = .mark .leftParen)
    (hc : g.IsCondition k ys c) (hno : ∀ name args, c ≠ .call nowhere name args)
    (hys : s.next.Takes ys s₁) (hclose : s₁.kind 0 = .mark .rightParen)
    (h : predicateAt g (k + 1) s = .error e) : e.span.start < s₁.next.start := by
  have hm : g.close? (s.kind 0) = some .rightParen := by
    rw [hk]
    rfl
  have hf : s.finish.kind = .finish := by simpa using hys.finish
  have hnext : s.next.Ordered := (Cursor.takes_next hf (by rw [hk]; nofun)).ordered ho
  have hlast : s₁.Takes [s₁.token 0] s₁.next :=
    .cons_of_kind hclose nofun (.refl (by simpa using hys.finish'))
  have hwithin := Operand.within_read hnext hc hys (g.endsPredicate_of_close hm hclose)
  have hgroup := Operand.upTo_group_of_within hf hm hc hys hclose hwithin
  obtain ⟨e', he', hle⟩ : ∃ e',
      Operand.readGroup g (some (Operand.read g k)) .rightParen s = .error e' ∧
        e'.span.start ≤ s₁.start := by
    cases hr : Operand.readGroup g (some (Operand.read g k)) .rightParen s with
    | error e' =>
      rw [hr] at hgroup
      exact ⟨e', rfl, hgroup⟩
    | ok r =>
      rw [hr] at hgroup
      obtain ⟨-, name, args, hcall⟩ := hgroup
      exact absurd hcall (hno name args)
  have hvalue : Operand.read g (k + 1) s = .error e' :=
    Operand.readSum_of_error ((Operand.readFactor_group hm).trans he')
  rw [predicateAt_eq hk, bind_of_error hvalue] at h
  cases h
  exact Nat.lt_of_le_of_lt hle (hlast.start_lt (hys.ordered hnext))

/-! ## Both attempts -/

theorem start_furthest (e e' : SyntaxError) :
    (e.furthest e').span.start = max e.span.start e'.span.start := by
  rw [SyntaxError.furthest]
  split <;> omega

/-- What is reported where an opening parenthesis is read as a predicate in vain. When it could not
be read as a group, either, it is the error that starts further on. When it could, and an operator
follows, it is the error of the predicate. That one starts at the operator or behind it when the
group is a call, and in front of it, inside the group, when it is not. -/
theorem primary_error {g : Grammar} {n : Nat} {text : String} {tokens : List Token} {s : Cursor}
    {e' : SyntaxError} (htokens : tokenize text = .ok tokens) (hs : s.ahead <:+ tokens)
    (hf : s.finish.kind = .finish) (hk : s.kind 0 = .mark .leftParen)
    (hp : predicateAt g n s = .error e') :
    (∀ e, groupAt g n s = .error e → ∃ r, primaryAt g n s = .error r ∧ (r = e ∨ r = e') ∧
      r.span.start = max e.span.start e'.span.start) ∧
    ∀ c s₁, groupAt g n s = .ok (c, s₁) → atOperator s₁ = true → primaryAt g n s = .error e' ∧
      ((∃ span name args, c = .call span name args) → e'.span.start = max s₁.start e'.span.start) ∧
      ((∀ span name args, c ≠ .call span name args) → e'.span.start < s₁.start) := by
  rw [primaryAt_eq hk, orPredicate]
  constructor
  · intro e hg
    rw [hg, hp]
    refine ⟨e.furthest e', rfl, ?_, start_furthest e e'⟩
    rw [SyntaxError.furthest]
    split
    · exact .inr rfl
    · exact .inl rfl
  · intro c s₁ hg hop
    have hne : s.ahead ≠ [] := by
      intro he
      rw [Cursor.kind, Cursor.token, he] at hk
      cases hf.symm.trans hk
    have ho := ordered_of_tokenize htokens hs hne
    have hm : g.close? (s.kind 0) = some .rightParen := by
      rw [hk]
      rfl
    obtain ⟨item, ds, s₂, level, hc, hds, hclose, hlast, -⟩ :=
      readGroup_sound (levels g n).chains hm hf hg
    obtain ⟨negation, hlevel, rfl⟩ := Option.map_eq_some_iff.1 level
    obtain ⟨k, rfl, rfl⟩ := Category.below_eq_some.1 hlevel
    obtain rfl := hlast.next_single
    refine ⟨by rw [hg]; simp only [hop, if_true, hp], ?_, fun hno => ?_⟩
    · rintro ⟨span, name, args, rfl⟩
      rw [bare] at hc
      exact (Nat.max_eq_right (start_le_of_operand ho hk (Grammar.IsCondition.isOperand hc) hds
        hclose hp)).symm
    · refine start_lt_of_condition ho hk hc (fun name args hcall => ?_) hds hclose hp
      cases c with
      | call span name' args' => exact hno span name' args' rfl
      | _ =>
        rw [bare] at hcall
        cases hcall

def failure? (text : String) (x : Reader Condition) : Option Nat :=
  (tokenize text).toOption.bind fun tokens =>
    match x (.ofTokens text tokens) with
    | .ok _ => none
    | .error e => some e.span.start

theorem exists_failure {text : String} {tokens : List Token} {x : Reader Condition} {start : Nat}
    (htokens : tokenize text = .ok tokens) (h : failure? text x = some start) :
    ∃ e, x (.ofTokens text tokens) = .error e ∧ e.span.start = start := by
  rw [failure?, htokens] at h
  obtain ⟨_, ht, h⟩ := Option.bind_eq_some_iff.1 h
  cases ht
  cases hr : x (.ofTokens text tokens) with
  | ok r =>
    rw [hr] at h
    cases h
  | error e =>
    rw [hr] at h
    exact ⟨e, rfl, Option.some.inj h⟩

/-- Where a text starts with a parenthesis in which an operand stands and nothing follows the
comparison, the error of the predicate is the one further on. -/
theorem primary_error_sum : ∃ tokens e e' r, tokenize "(a + 1) = )" = .ok tokens ∧
    groupAt (standard.grammar "(a + 1) = )") 64 (.ofTokens "(a + 1) = )" tokens) = .error e ∧
    predicateAt (standard.grammar "(a + 1) = )") 64 (.ofTokens "(a + 1) = )" tokens) = .error e' ∧
    primaryAt (standard.grammar "(a + 1) = )") 64 (.ofTokens "(a + 1) = )" tokens) = .error r ∧
    e.span.start = 6 ∧ e'.span.start = 10 ∧ r.span.start = max e.span.start e'.span.start := by
  obtain ⟨tokens, htokens⟩ := exists_ok (x := tokenize "(a + 1) = )") (by decide +kernel)
  let g := standard.grammar "(a + 1) = )"
  have hk : (tokenize "(a + 1) = )").toOption.map
      (fun tokens => (Cursor.ofTokens "(a + 1) = )" tokens).kind 0) = some (.mark .leftParen) := by
    decide +kernel
  rw [htokens] at hk
  have hgroup : failure? "(a + 1) = )" (groupAt g 64) = some 6 := by decide +kernel
  have hpredicate : failure? "(a + 1) = )" (predicateAt g 64) = some 10 := by decide +kernel
  obtain ⟨e, hg, he⟩ := exists_failure htokens hgroup
  obtain ⟨e', hp, he'⟩ := exists_failure htokens hpredicate
  obtain ⟨r, hr, -, hmax⟩ :=
    (primary_error htokens (List.suffix_refl _) rfl (Option.some.inj hk) hp).1 e hg
  exact ⟨tokens, e, e', r, htokens, hg, hp, hr, he, he', hmax⟩

/-- Behind a group that was read and is no call the error is that of the predicate, though the
operator stands further on. -/
theorem primary_error_comparison :
    ¬ ∀ (text : String) (tokens : List Token) (s s₁ : Cursor) (n : Nat)
    (c : Condition) (e' r : SyntaxError), tokenize text = .ok tokens → s.ahead <:+ tokens →
    s.finish.kind = .finish → s.kind 0 = .mark .leftParen →
    groupAt (standard.grammar text) n s = .ok (c, s₁) → atOperator s₁ = true →
    predicateAt (standard.grammar text) n s = .error e' →
    primaryAt (standard.grammar text) n s = .error r →
    r.span.start = max s₁.start e'.span.start := by
  intro hclaim
  obtain ⟨tokens, htokens⟩ := exists_ok (x := tokenize "(a = 1) = 2") (by decide +kernel)
  let g := standard.grammar "(a = 1) = 2"
  have hk : (tokenize "(a = 1) = 2").toOption.map
      (fun tokens => (Cursor.ofTokens "(a = 1) = 2" tokens).kind 0) = some (.mark .leftParen) := by
    decide +kernel
  have hgroup : (tokenize "(a = 1) = 2").toOption.bind (fun tokens =>
      (groupAt g 64 (.ofTokens "(a = 1) = 2" tokens)).toOption.map fun r =>
        (atOperator r.2, r.2.start)) = some (true, 8) := by decide +kernel
  have hpredicate : failure? "(a = 1) = 2" (predicateAt g 64) = some 3 := by decide +kernel
  have hprimary : failure? "(a = 1) = 2" (primaryAt g 64) = some 3 := by decide +kernel
  rw [htokens] at hk hgroup
  obtain ⟨⟨c, s₁⟩, hg, hs₁⟩ := Option.map_eq_some_iff.1 hgroup
  obtain ⟨hop, hstart⟩ := Prod.mk.inj hs₁
  obtain ⟨e', hp, he'⟩ := exists_failure htokens hpredicate
  obtain ⟨r, hr, hr'⟩ := exists_failure htokens hprimary
  have hmax := hclaim "(a = 1) = 2" tokens (.ofTokens "(a = 1) = 2" tokens) s₁ 64 c e' r htokens
    (List.suffix_refl _) rfl (Option.some.inj hk) (ok_of_toOption hg) hop hp hr
  rw [hstart, he', hr'] at hmax
  exact absurd hmax (by decide)

end Condition

end FeatureFilter
