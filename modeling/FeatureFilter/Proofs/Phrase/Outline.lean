import FeatureFilter.Proofs.Phrase.Spans

/-!
# Outlines of phrases

The outline of a phrase is the tree of the spans of the phrase and of its parts. While a text is
read the spans are places in the list of its tokens: trees that lie one behind the other between two
of these places (`Spread`) can be moved apart, put together and bracketed by a node, and with the
places go their spans, since tokens follow each other in the text (`InOrder`).
-/

namespace FeatureFilter

/-- A span, and below it the spans of the parts. -/
inductive SpanTree where
  | node (span : Span) (parts : List SpanTree)

namespace SpanTree

def span : SpanTree → Span
  | node s _ => s

def parts : SpanTree → List SpanTree
  | node _ trees => trees

inductive Every (P : SpanTree → Prop) : SpanTree → Prop
  | intro {t : SpanTree} (here : P t) (below : ∀ p ∈ t.parts, p.Every P) : Every P t

end SpanTree

/-! ## Outlines -/

namespace Operand

mutual

def outline : Operand → SpanTree
  | literal s _ | openBound s | geometry s _ _ => .node s []
  | property s name => .node s [.node name.span []]
  | call s _ args => .node s (outlines args)
  | arithmetic s _ left right => .node s [left.outline, right.outline]
  | interval s start stop => .node s [start.outline, stop.outline]

def outlines : List Operand → List SpanTree
  | [] => []
  | o :: os => o.outline :: outlines os

end

theorem outlines_eq (os : List Operand) : outlines os = os.map outline := by
  induction os with
  | nil => rfl
  | cons o os ih => rw [outlines, List.map_cons, ih]

theorem span_outline (o : Operand) : o.outline.span = o.span := by
  cases o <;> rfl

/-- Another place of the whole leaves the places of the parts as they are. -/
theorem outline_withSpan (s : Span) (o : Operand) :
    (o.withSpan s).outline = .node s o.outline.parts := by
  cases o <;> rfl

end Operand

namespace Condition

mutual

def outline : Condition → SpanTree
  | any s clauses | all s clauses => .node s (outlines clauses)
  | negation s clause => .node s [clause.outline]
  | compare s _ left right => .node s [left.outline, right.outline]
  | between s _ value low high => .node s [value.outline, low.outline, high.outline]
  | like s _ value _ _ | isNull s _ value => .node s [value.outline]
  | inList s _ value choices => .node s (value.outline :: Operand.outlines choices)
  | call s _ args => .node s (Operand.outlines args)

def outlines : List Condition → List SpanTree
  | [] => []
  | c :: cs => c.outline :: outlines cs

end

theorem outlines_eq (cs : List Condition) : outlines cs = cs.map outline := by
  induction cs with
  | nil => rfl
  | cons c cs ih => rw [outlines, List.map_cons, ih]

theorem span_outline (c : Condition) : c.outline.span = c.span := by
  cases c <;> rfl

end Condition

/-! ## Tokens in order -/

/-- From the start of one token to the end of another one. -/
def Token.spanTo (first last : Token) : Span := { first.span with stop := last.span.stop }

/-- The tokens stand one behind the other. -/
structure InOrder (tokens : List Token) : Prop where
  apart : tokens.Pairwise fun a b => a.span.stop ≤ b.span.start
  start_le_stop : ∀ t ∈ tokens, t.span.start ≤ t.span.stop

namespace InOrder

variable {tokens : List Token} {m n : Nat} {a b : Token}

theorem stop_le_start (h : InOrder tokens) (hlt : m < n) (ha : tokens[m]? = some a)
    (hb : tokens[n]? = some b) : a.span.stop ≤ b.span.start := by
  obtain ⟨hm, rfl⟩ := List.getElem?_eq_some_iff.1 ha
  obtain ⟨hn, rfl⟩ := List.getElem?_eq_some_iff.1 hb
  exact List.pairwise_iff_getElem.1 h.apart m n hm hn hlt

theorem start_le (h : InOrder tokens) (hle : m ≤ n) (ha : tokens[m]? = some a)
    (hb : tokens[n]? = some b) : a.span.start ≤ b.span.start := by
  rcases Nat.eq_or_lt_of_le hle with rfl | hlt
  · cases ha.symm.trans hb
    exact Nat.le_refl _
  · exact Nat.le_trans (h.start_le_stop a (List.mem_of_getElem? ha)) (h.stop_le_start hlt ha hb)

theorem stop_le (h : InOrder tokens) (hle : m ≤ n) (ha : tokens[m]? = some a)
    (hb : tokens[n]? = some b) : a.span.stop ≤ b.span.stop := by
  rcases Nat.eq_or_lt_of_le hle with rfl | hlt
  · cases ha.symm.trans hb
    exact Nat.le_refl _
  · exact Nat.le_trans (h.stop_le_start hlt ha hb) (h.start_le_stop b (List.mem_of_getElem? hb))

end InOrder

/-! ## Trees among tokens -/

/-- The trees lie one behind the other from the token at `i` on and in front of the one at `j`. The
span of each goes from one token to another one, and the trees below it lie between these. -/
inductive Spread (tokens : List Token) : Nat → Nat → List SpanTree → Prop
  | nil {i j : Nat} (h : i ≤ j) : Spread tokens i j []
  | cons {i j m n : Nat} {first last : Token} {parts trees : List SpanTree} (hi : i ≤ m)
      (hle : m ≤ n) (hfirst : tokens[m]? = some first) (hlast : tokens[n]? = some last)
      (below : Spread tokens m (n + 1) parts) (rest : Spread tokens (n + 1) j trees) :
      Spread tokens i j (.node (first.spanTo last) parts :: trees)

namespace Spread

variable {tokens : List Token} {i j i' j' m n : Nat} {first last t : Token} {tree : SpanTree}
  {parts trees : List SpanTree}

theorem le (h : Spread tokens i j trees) : i ≤ j := by
  induction h with
  | nil h => exact h
  | cons => omega

theorem widen (h : Spread tokens i j trees) (hi : i' ≤ i) (hj : j ≤ j') :
    Spread tokens i' j' trees := by
  induction h generalizing i' j' with
  | nil h => exact .nil (by omega)
  | cons hi' hle hfirst hlast below _ _ ih =>
    exact .cons (by omega) hle hfirst hlast below (ih (Nat.le_refl _) hj)

theorem append (h : Spread tokens i m parts) (h' : Spread tokens m j trees) :
    Spread tokens i j (parts ++ trees) := by
  induction h with
  | nil h => exact h'.widen h (Nat.le_refl _)
  | cons hi hle hfirst hlast below _ _ ih => exact .cons hi hle hfirst hlast below (ih h')

theorem split (h : Spread tokens i j (parts ++ trees)) :
    ∃ m, Spread tokens i m parts ∧ Spread tokens m j trees := by
  induction parts generalizing i with
  | nil => exact ⟨i, .nil (Nat.le_refl _), h⟩
  | cons tree parts ih =>
    cases h with
    | cons hi hle hfirst hlast below rest =>
      obtain ⟨m, hparts, htrees⟩ := ih rest
      exact ⟨m, .cons hi hle hfirst hlast below hparts, htrees⟩

theorem node (h : Spread tokens m (n + 1) parts) (hle : m ≤ n) (hfirst : tokens[m]? = some first)
    (hlast : tokens[n]? = some last) :
    Spread tokens m (n + 1) [.node (first.spanTo last) parts] :=
  .cons (Nat.le_refl _) hle hfirst hlast h (.nil (Nat.le_refl _))

theorem token (ht : tokens[m]? = some t) (h : Spread tokens m (m + 1) parts) :
    Spread tokens m (m + 1) [.node t.span parts] :=
  h.node (Nat.le_refl _) ht ht

theorem inner (h : Spread tokens i j [tree]) : Spread tokens i j tree.parts := by
  cases h with
  | cons hi _ _ _ below rest => exact below.widen hi rest.le

theorem lt (h : Spread tokens i j (tree :: trees)) : i < j := by
  cases h with
  | cons hi hle _ _ _ rest =>
    have := rest.le
    omega

theorem lt_length (h : Spread tokens i j (tree :: trees)) : i < tokens.length := by
  cases h with
  | cons hi _ hfirst _ _ _ =>
    obtain ⟨hm, -⟩ := List.getElem?_eq_some_iff.1 hfirst
    omega

/-- A span that goes on through the spans of trees that follow it ends with the last of these. -/
theorem foldl_through (ho : InOrder tokens) (h : Spread tokens (n + 1) j trees)
    (hlast : tokens[n]? = some last) :
    ∃ n' last', n ≤ n' ∧ n' < j ∧ tokens[n']? = some last' ∧ Spread tokens (n + 1) (n' + 1) trees ∧
      trees.foldl (fun span tree => span.through tree.span) (first.spanTo last) =
        first.spanTo last' := by
  induction trees generalizing n last with
  | nil => exact ⟨n, last, Nat.le_refl _, h.le, hlast, .nil (Nat.le_refl _), rfl⟩
  | cons tree trees ih =>
    cases h with
    | @cons _ _ m' m'' first' last'' parts _ hi hle hfirst' hlast' below rest =>
      obtain ⟨n', last', hn', hj, hlast'', hspread, hfold⟩ := ih rest hlast'
      refine ⟨n', last', by omega, hj, hlast'', .cons hi hle hfirst' hlast' below hspread, ?_⟩
      have hstop := ho.stop_le (show n ≤ m'' by omega) hlast hlast'
      have hthrough : (first.spanTo last).through (first'.spanTo last'') = first.spanTo last'' := by
        show { first.span with stop := max last''.span.stop last.span.stop } = _
        rw [Nat.max_eq_left hstop]
        rfl
      rw [List.foldl_cons, SpanTree.span, hthrough, hfold]

/-- Trees are put together by the span from the first through the last of them. -/
theorem through (ho : InOrder tokens) (h : Spread tokens i j (tree :: trees)) :
    Spread tokens i j
      [.node (trees.foldl (fun span tree => span.through tree.span) tree.span)
        (tree :: trees)] := by
  cases h with
  | cons hi hle hfirst hlast below rest =>
    obtain ⟨n', last', hn', hj, hlast', hspread, hfold⟩ := rest.foldl_through ho hlast
    rw [SpanTree.span, hfold]
    have hnode := (Spread.cons (Nat.le_refl _) hle hfirst hlast below hspread).node
      (by omega) hfirst hlast'
    exact hnode.widen hi hj

end Spread

/-! ## Trees in a text -/

/-- The span of the tree is a part of the text that goes from the start of a token to the end of one
not before it. It contains the spans of the trees right below it, which follow each other. -/
structure SpanTree.Nested (source : List Char) (tokens : List Token) (t : SpanTree) : Prop where
  placed : t.span.Placed source
  ends : ∃ (m n : Nat) (first last : Token), m ≤ n ∧ tokens[m]? = some first ∧
    tokens[n]? = some last ∧ first.kind ≠ .finish ∧ last.kind ≠ .finish ∧ t.span = first.spanTo last
  within : ∀ p ∈ t.parts, t.span.start ≤ p.span.start ∧ p.span.stop ≤ t.span.stop
  apart : t.parts.Pairwise fun p q => p.span.stop ≤ q.span.start

namespace Spread

variable {source : List Char} {tokens : List Token} {i j : Nat} {t : SpanTree}
  {trees : List SpanTree}

theorem exists_tokens (h : Spread tokens i j trees) (ht : t ∈ trees) :
    ∃ m n first last, i ≤ m ∧ m ≤ n ∧ n < j ∧ tokens[m]? = some first ∧ tokens[n]? = some last ∧
      t.span = first.spanTo last := by
  induction h with
  | nil => exact absurd ht List.not_mem_nil
  | @cons i j m n first last parts trees hi hle hfirst hlast _ rest _ ih =>
    rcases List.mem_cons.1 ht with rfl | ht
    · exact ⟨m, n, first, last, hi, hle, rest.le, hfirst, hlast, rfl⟩
    · obtain ⟨m', n', first', last', hm', hrest⟩ := ih ht
      exact ⟨m', n', first', last', by omega, hrest⟩

theorem apart (ho : InOrder tokens) (h : Spread tokens i j trees) :
    trees.Pairwise fun p q => p.span.stop ≤ q.span.start := by
  induction h with
  | nil => exact .nil
  | cons _ _ _ hlast _ rest _ ih =>
    refine .cons (fun q hq => ?_) ih
    obtain ⟨m, _, first, _, hm, -, -, hfirst, -, hspan⟩ := rest.exists_tokens hq
    rw [hspan]
    exact ho.stop_le_start hm hlast hfirst

/-- Trees among the tokens of a text are well nested in the text. -/
theorem nested (ho : InOrder tokens) (hplaced : ∀ t ∈ tokens, t.span.Placed source)
    (h : Spread tokens i j trees)
    (hkind : ∀ n t, n < j → tokens[n]? = some t → t.kind ≠ .finish) :
    ∀ t ∈ trees, t.Every (SpanTree.Nested source tokens) := by
  induction h with
  | nil => exact nofun
  | @cons i j m n first last parts trees hi hle hfirst hlast below rest ihb ihr =>
    refine List.forall_mem_cons.2 ⟨.intro ?_ ?_, ihr hkind⟩
    · have hn := rest.le
      refine ⟨⟨?_, ?_, ?_⟩, ⟨m, n, first, last, hle, hfirst, hlast, hkind m first (by omega) hfirst,
        hkind n last hn hlast, rfl⟩, fun p hp => ?_, below.apart ho⟩
      · exact (hplaced first (List.mem_of_getElem? hfirst)).start
      · exact (hplaced last (List.mem_of_getElem? hlast)).stop
      · exact Nat.le_trans (ho.start_le_stop first (List.mem_of_getElem? hfirst))
          (ho.stop_le hle hfirst hlast)
      · obtain ⟨m', n', first', last', hm', -, hn', hfirst', hlast', hspan⟩ :=
          below.exists_tokens hp
        rw [hspan]
        exact ⟨ho.start_le hm' hfirst hfirst', ho.stop_le (Nat.lt_succ_iff.1 hn') hlast' hlast⟩
    · exact ihb fun n' t hn' => hkind n' t (Nat.lt_of_lt_of_le hn' rest.le)

end Spread

/-! ## Cursors -/

/-- The cursor stands behind the first `k` tokens, none of which is the end. -/
structure Cursor.Behind (tokens : List Token) (k : Nat) (s : Cursor) : Prop where
  ahead : s.ahead = tokens.drop k
  passed : ∀ n t, n < k → tokens[n]? = some t → t.kind ≠ .finish
  last : ∀ n, n + 1 = k → ∃ t, tokens[n]? = some t ∧ s.lastStop = t.span.stop
  finish : s.finish.kind = .finish

namespace Cursor.Behind

variable {tokens ts : List Token} {i k : Nat} {s s' : Cursor} {t : Token} {parts : List SpanTree}

theorem token_of_lt (h : s.Behind tokens k) (hlt : k < tokens.length) :
    tokens[k]? = some (s.token 0) := by
  rw [Cursor.token, h.ahead, List.getElem?_drop, Nat.add_zero, List.getElem?_eq_getElem hlt]
  rfl

theorem token (h : s.Behind tokens k) (hk : s.kind 0 ≠ .finish) :
    tokens[k]? = some (s.token 0) := by
  refine h.token_of_lt (Nat.lt_of_not_le fun hle => hk ?_)
  rw [kind, Cursor.token, h.ahead, List.drop_eq_nil_of_le hle]
  exact h.finish

theorem next (h : s.Behind tokens k) (hk : s.kind 0 ≠ .finish) : s.next.Behind tokens (k + 1) := by
  have ht := h.token hk
  have htakes := takes_next h.finish hk
  have hdrop := (List.drop_eq_getElem?_toList_append (l := tokens) (i := k))
  rw [ht] at hdrop
  refine ⟨?_, fun n t hn hnt => ?_, fun n hn => ?_, htakes.finish'⟩
  · have hahead := htakes.ahead
    rw [h.ahead, hdrop] at hahead
    exact (List.append_cancel_left hahead).symm
  · rcases Nat.lt_succ_iff_lt_or_eq.1 hn with hn | rfl
    · exact h.passed n t hn hnt
    · cases ht.symm.trans hnt
      exact hk
  · obtain rfl := Nat.succ.inj hn
    exact ⟨s.token 0, ht, htakes.lastStop⟩

theorem next_of_kind {kind : TokenKind} (h : s.Behind tokens k) (hk : s.kind 0 = kind)
    (hne : kind ≠ .finish) : s.next.Behind tokens (k + 1) :=
  h.next (hk ▸ hne)

theorem takes (h : s.Behind tokens k) (ht : s.Takes ts s') : s'.Behind tokens (k + ts.length) := by
  induction ts generalizing s k with
  | nil => exact ht.eq_of_nil ▸ h
  | cons t ts ih =>
    have hk : s.kind 0 ≠ .finish := ht.kind_cons ▸ ht.kinds t (List.mem_cons_self ..)
    rw [List.length_cons, Nat.add_comm ts.length, ← Nat.add_assoc]
    exact ih (h.next hk) ht.next_cons

/-- From an earlier token to the last one taken, with the trees between them below. -/
theorem spread (ho : InOrder tokens) (h : s.Behind tokens k) (ht : tokens[i]? = some t) (hi : i < k)
    (hs : Spread tokens i k parts) :
    Spread tokens i k [.node { t.span with stop := max s.lastStop t.span.stop } parts] := by
  obtain ⟨n, rfl⟩ : ∃ n, k = n + 1 := ⟨k - 1, by omega⟩
  obtain ⟨u, hu, hstop⟩ := h.last n rfl
  have hle : i ≤ n := Nat.lt_succ_iff.1 hi
  rw [hstop, Nat.max_eq_left (ho.stop_le hle ht hu)]
  exact hs.node hle ht hu

end Cursor.Behind

end FeatureFilter
