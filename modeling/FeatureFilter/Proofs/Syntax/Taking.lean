import FeatureFilter.Proofs.Syntax.Rules

/-!
# Taking tokens

`s.Takes ts s'` says that the cursor `s'` stands behind the tokens `ts` that follow `s`. The steps
of readers are computed at a cursor; `Reader.Fits` says that a reader reads a category: what it
reads is of the category, and it reads whatever is of the category and followed by what may follow
it.
-/

namespace FeatureFilter

/-! ## Cursors -/

namespace Cursor

def next (s : Cursor) : Cursor :=
  match s.ahead with
  | [] => s
  | t :: ts => { s with ahead := ts, lastStop := t.span.stop }

/-- The cursor `s'` stands behind the tokens. The end of a text is no token that can be taken. -/
structure Takes (s : Cursor) (ts : List Token) (s' : Cursor) : Prop where
  ahead : s.ahead = ts ++ s'.ahead
  lastStop : s'.lastStop = stopOf s.lastStop ts
  finish_eq : s'.finish = s.finish
  finish : s.finish.kind = .finish
  kinds : ∀ t ∈ ts, t.kind ≠ .finish

end Cursor

theorem stopOf_append (stop : Nat) (ts us : List Token) :
    stopOf stop (ts ++ us) = stopOf (stopOf stop ts) us := by
  induction ts generalizing stop with
  | nil => rfl
  | cons t ts ih => exact ih _

/-- A token that stands for something is not the end of the text. -/
theorem TokenKind.ne_finish {κ : Type} {f : TokenKind → Option κ} {k : TokenKind} {b : κ}
    (h : f k = some b) (hf : f .finish = none) : k ≠ .finish := by
  rintro rfl
  rw [hf] at h
  cases h

namespace Cursor

variable {s s' s'' : Cursor} {t : Token} {ts us : List Token}

@[simp] theorem next_finish (s : Cursor) : s.next.finish = s.finish := by
  obtain ⟨_ | _, _, _⟩ := s <;> rfl

theorem kind_next (s : Cursor) (n : Nat) : s.next.kind n = s.kind (n + 1) := by
  obtain ⟨_ | _, _, _⟩ := s <;> rfl

namespace Takes

theorem refl (h : s.finish.kind = .finish) : s.Takes [] s := ⟨rfl, rfl, rfl, h, nofun⟩

theorem append (h : s.Takes ts s') (h' : s'.Takes us s'') : s.Takes (ts ++ us) s'' where
  ahead := by rw [h.ahead, h'.ahead, List.append_assoc]
  lastStop := by rw [h'.lastStop, h.lastStop, stopOf_append]
  finish_eq := h'.finish_eq.trans h.finish_eq
  finish := h.finish
  kinds t ht := (List.mem_append.1 ht).elim (h.kinds t) (h'.kinds t)

theorem finish' (h : s.Takes ts s') : s'.finish.kind = .finish := h.finish_eq ▸ h.finish

/-- Tokens can be taken in two parts. -/
theorem split (h : s.Takes (ts ++ us) s'') : ∃ s', s.Takes ts s' ∧ s'.Takes us s'' := by
  refine ⟨⟨us ++ s''.ahead, stopOf s.lastStop ts, s.finish⟩, ⟨?_, rfl, rfl, h.finish, ?_⟩,
    ⟨rfl, ?_, h.finish_eq, h.finish, ?_⟩⟩
  · rw [h.ahead, List.append_assoc]
  · exact fun t ht => h.kinds t (List.mem_append_left _ ht)
  · rw [h.lastStop, stopOf_append]
  · exact fun t ht => h.kinds t (List.mem_append_right _ ht)

theorem unique (h : s.Takes ts s') (h' : s.Takes ts s'') : s' = s'' := by
  obtain ⟨ahead, stop, finish⟩ := s'
  obtain ⟨ahead', stop', finish'⟩ := s''
  obtain rfl : ahead = ahead' := List.append_cancel_left (h.ahead.symm.trans h'.ahead)
  obtain rfl : stop = stop' := h.lastStop.trans h'.lastStop.symm
  obtain rfl : finish = finish' := h.finish_eq.trans h'.finish_eq.symm
  rfl

theorem token_cons (h : s.Takes (t :: ts) s') : s.token 0 = t := by
  rw [token, h.ahead]
  rfl

theorem kind_cons (h : s.Takes (t :: ts) s') : s.kind 0 = t.kind := congrArg _ h.token_cons

theorem next_cons (h : s.Takes (t :: ts) s') : s.next.Takes ts s' where
  ahead := by
    rw [next, h.ahead]
    rfl
  lastStop := by
    rw [h.lastStop, next, h.ahead]
    rfl
  finish_eq := by
    rw [h.finish_eq, next, h.ahead]
    rfl
  finish := by
    rw [next, h.ahead]
    exact h.finish
  kinds t ht := h.kinds t (List.mem_cons_of_mem _ ht)

theorem next_single (h : s.Takes [t] s') : s' = s.next := by
  have hn := h.next_cons
  exact (hn.unique (.refl hn.finish)).symm ▸ rfl

/-- Tokens that are taken number no more than those ahead. -/
theorem length_le (h : s.Takes ts s') : ts.length ≤ s.ahead.length := by
  rw [h.ahead, List.length_append]
  exact Nat.le_add_right _ _

theorem eq_of_nil (h : s.Takes [] s') : s = s' := (Takes.refl h.finish).unique h

end Takes

theorem takes_next (hf : s.finish.kind = .finish) (h : s.kind 0 ≠ .finish) :
    s.Takes [s.token 0] s.next := by
  obtain ⟨ahead, stop, finish⟩ := s
  cases ahead with
  | nil => exact absurd hf h
  | cons t ts => exact ⟨rfl, rfl, rfl, hf, fun u hu => by rw [List.mem_singleton.1 hu]; exact h⟩

theorem Takes.cons_next (h : s.next.Takes ts s') (hf : s.finish.kind = .finish)
    (hk : s.kind 0 ≠ .finish) : s.Takes (s.token 0 :: ts) s' :=
  (takes_next hf hk).append h

theorem Takes.cons_of_kind {k : TokenKind} (hk : s.kind 0 = k) (hne : k ≠ .finish)
    (h : s.next.Takes ts s') : s.Takes (s.token 0 :: ts) s' :=
  h.cons_next (by simpa using (next_finish s ▸ h.finish)) (hk ▸ hne)

end Cursor

/-! ## Steps of readers -/

namespace Reader

variable {α β : Type} {s s' : Cursor} {a : α} {b : β} {r : β × Cursor} {x : Reader α}
  {f : α → Reader β}

/-- A run that leaves out what is left of the tokens. -/
theorem run'_eq : x.run' s = (x s).map Prod.fst := by
  show Functor.map Prod.fst (x s) = _
  cases x s <;> rfl

theorem bind_eq_ok : (x >>= f) s = .ok r ↔ ∃ a s', x s = .ok (a, s') ∧ f a s' = .ok r := by
  constructor
  · intro h
    cases hx : x s with
    | ok p =>
      refine ⟨p.1, p.2, rfl, ?_⟩
      have hb : (x >>= f) s = f p.1 p.2 := by
        show (x s).bind _ = _
        rw [hx]
        rfl
      rwa [← hb]
    | error e =>
      have hb : (x >>= f) s = .error e := by
        show (x s).bind _ = _
        rw [hx]
        rfl
      rw [hb] at h
      cases h
  · rintro ⟨a, s', hx, hf⟩
    show (x s).bind _ = _
    rw [hx]
    exact hf

theorem bind_of_ok (h : x s = .ok (a, s')) : (x >>= f) s = f a s' := by
  show (x s).bind _ = _
  rw [h]
  rfl

theorem bind_of_error {e : SyntaxError} (h : x s = .error e) : (x >>= f) s = .error e := by
  show (x s).bind _ = _
  rw [h]
  rfl

theorem pure_eq_ok {a' : α} : (pure a : Reader α) s = .ok (a', s') ↔ a = a' ∧ s = s' := by
  show Except.ok (a, s) = .ok (a', s') ↔ _
  simp

@[simp] theorem peek_bind {f : Token → Reader β} : (peek >>= f) s = f (s.token 0) s := rfl

@[simp] theorem peekKind_bind {f : TokenKind → Reader β} : (peekKind >>= f) s = f (s.kind 0) s :=
  rfl

@[simp] theorem get_bind {f : Cursor → Reader β} : ((get : Reader Cursor) >>= f) s = f s s := rfl

theorem advance_eq (s : Cursor) : advance s = .ok (s.token 0, s.next) := by
  obtain ⟨ahead, stop, finish⟩ := s
  cases ahead <;> rfl

@[simp] theorem advance_bind {f : Token → Reader β} : (advance >>= f) s = f (s.token 0) s.next :=
  bind_of_ok (advance_eq s)

theorem advance_bind_eq_ok {f : Token → Reader β} :
    (advance >>= f) s = .ok r ↔ f (s.token 0) s.next = .ok r := by
  rw [advance_bind]

@[simp] theorem spanFrom_bind {t : Token} {f : Span → Reader β} :
    (spanFrom t >>= f) s = f { t.span with stop := max s.lastStop t.span.stop } s := rfl

/-- A reader ends with giving what it read the place it was read from. -/
theorem spanFrom_pure_eq_ok {t : Token} {f : Span → α} :
    (spanFrom t >>= fun span => (pure (f span) : Reader α)) s = .ok (a, s') ↔
      a = f { t.span with stop := max s.lastStop t.span.stop } ∧ s' = s := by
  rw [spanFrom_bind, pure_eq_ok, eq_comm, @eq_comm _ s]

theorem failHere_ne_ok {expected : String} {hint : Option String} {p : α × Cursor} :
    (failHere expected hint : Reader α) s ≠ .ok p := nofun

theorem expectKind_bind {k : TokenKind} {expected : String} {f : Unit → Reader β} :
    (expectKind k expected >>= f) s =
      if s.kind 0 = k then f () s.next else .error (mismatch (s.token 0) expected none) := by
  unfold expectKind
  by_cases h : s.kind 0 = k
  · rw [if_pos h]
    refine bind_of_ok ?_
    show (if s.kind 0 = k then _ else _ : Reader Unit) s = _
    rw [if_pos h, advance_bind]
    rfl
  · rw [if_neg h]
    show ((if s.kind 0 = k then _ else _ : Reader Unit) s).bind _ = _
    rw [if_neg h]
    rfl

theorem expectKind_bind_eq_ok {k : TokenKind} {expected : String} {f : Unit → Reader β} :
    (expectKind k expected >>= f) s = .ok r ↔ s.kind 0 = k ∧ f () s.next = .ok r := by
  rw [expectKind_bind]
  split <;> simp [*]

theorem expect_bind_eq_ok {m : Mark} {f : Unit → Reader β} :
    (expect m >>= f) s = .ok r ↔ s.kind 0 = .mark m ∧ f () s.next = .ok r :=
  expectKind_bind_eq_ok

theorem ite_eq_ok {p : Prop} [Decidable p] {x y : Reader α} {r : α × Cursor} :
    (if p then x else y) s = .ok r ↔ p ∧ x s = .ok r ∨ ¬ p ∧ y s = .ok r := by
  split <;> simp [*]

theorem deeper_eq_ok {γ : Type} {g : Grammar} {below : Option γ} {body : γ → Reader β} :
    deeper g below body s = .ok r ↔ ∃ x, below = some x ∧ body x s = .ok r := by
  cases below with
  | none => exact ⟨nofun, nofun⟩
  | some x => exact ⟨fun h => ⟨x, rfl, h⟩, fun ⟨_, h, h'⟩ => by cases h; exact h'⟩

theorem eat_bind {m : Mark} {f : Bool → Reader β} :
    (eat m >>= f) s = if s.kind 0 = .mark m then f true s.next else f false s := by
  unfold eat
  by_cases h : s.kind 0 = .mark m
  · rw [if_pos h]
    refine bind_of_ok ?_
    show (if s.kind 0 = .mark m then _ else _ : Reader Bool) s = _
    rw [if_pos h, advance_bind]
    rfl
  · rw [if_neg h]
    refine bind_of_ok ?_
    show (if s.kind 0 = .mark m then _ else _ : Reader Bool) s = _
    rw [if_neg h]
    rfl

/-! ## Readers of categories -/

/-- The reader reads the category, whose phrases are shown by `shape`: all that it reads is of the
category, and it reads what is of the category up to where it `ends`. -/
structure Fits (ends : Cursor → Prop) (shape : α → β) (category : Category β) (x : Reader α) :
    Prop where
  sound : ∀ {s a s'}, s.finish.kind = .finish → x s = .ok (a, s') →
    ∃ ts, s.Takes ts s' ∧ category ts (shape a)
  complete : ∀ {s ts b s'}, s.Takes ts s' → category ts b → ends s' →
    ∃ a, x s = .ok (a, s') ∧ shape a = b

/-- Two phrases of the category from the same place on, each up to where it ends, are the same. -/
theorem Fits.unique {ends : Cursor → Prop} {shape : α → β} {category : Category β} {x : Reader α}
    (h : Fits ends shape category x) {ts us : List Token} {a b : β} {s₁ s₂ : Cursor}
    (ha : category ts a) (hb : category us b) (ht : s.Takes ts s₁) (hu : s.Takes us s₂)
    (h₁ : ends s₁) (h₂ : ends s₂) : ts = us ∧ a = b ∧ s₁ = s₂ := by
  obtain ⟨a, hra, rfl⟩ := h.complete ht ha h₁
  obtain ⟨b, hrb, rfl⟩ := h.complete hu hb h₂
  rw [hra] at hrb
  cases hrb
  exact ⟨List.append_cancel_right (ht.ahead.symm.trans hu.ahead), rfl, rfl⟩

/-- What is read below: nothing when no level is left. -/
inductive FitsBelow (ends : Cursor → Prop) (shape : α → β) :
    Option (Category β) → Option (Reader α) → Prop where
  | none : FitsBelow ends shape none none
  | some {category : Category β} {x : Reader α} (h : Fits ends shape category x) :
    FitsBelow ends shape (some category) (some x)

namespace FitsBelow

variable {ends : Cursor → Prop} {shape : α → β} {inner : Option (Category β)}
  {below : Option (Reader α)}

theorem of_reader {x : Reader α} (h : FitsBelow ends shape inner below)
    (hx : below = Option.some x) :
    ∃ category, inner = Option.some category ∧ Fits ends shape category x := by
  cases h with
  | none => cases hx
  | some h => exact ⟨_, rfl, Option.some.inj hx ▸ h⟩

theorem of_category {category : Category β} (h : FitsBelow ends shape inner below)
    (hc : inner = Option.some category) :
    ∃ x, below = Option.some x ∧ Fits ends shape category x := by
  cases h with
  | none => cases hc
  | some h => exact ⟨_, rfl, Option.some.inj hc ▸ h⟩

theorem isSome_eq (h : FitsBelow ends shape inner below) : inner.isSome = below.isSome := by
  cases h <;> rfl

theorem map {γ δ : Type} {ends' : Cursor → Prop} {shape' : γ → δ}
    {rule : Category β → Category δ} {f : Reader α → Reader γ}
    (h : FitsBelow ends shape inner below)
    (hf : ∀ category x, Fits ends shape category x → Fits ends' shape' (rule category) (f x)) :
    FitsBelow ends' shape' (inner.map rule) (below.map f) := by
  cases h with
  | none => exact .none
  | some h => exact .some (hf _ _ h)

end FitsBelow

section Sequences

variable {γ δ κ : Type} {ends : Cursor → Prop} {shape : α → β} {category : Category β}
  {item : Reader α}
  {link? : TokenKind → Option κ}

theorem linked_eq_ok {o : Option (κ × α)} : linked link? item s = .ok (o, s') ↔
    (link? (s.kind 0) = none ∧ o = none ∧ s = s') ∨
      ∃ b a, link? (s.kind 0) = some b ∧ item s.next = .ok (a, s') ∧ o = some (b, a) := by
  unfold linked
  rw [peekKind_bind]
  cases hl : link? (s.kind 0) with
  | none =>
    refine pure_eq_ok.trans ⟨fun h => .inl ⟨rfl, h.1.symm, h.2⟩, ?_⟩
    rintro (⟨_, rfl, rfl⟩ | ⟨_, _, hb, _⟩)
    · exact ⟨rfl, rfl⟩
    · cases hb
  | some b =>
    simp only [reduceCtorEq, false_and, false_or, Option.some.injEq, advance_bind, bind_eq_ok,
      pure_eq_ok]
    constructor
    · rintro ⟨a, _, ha, rfl, rfl⟩
      exact ⟨b, a, rfl, ha, rfl⟩
    · rintro ⟨_, a, rfl, ha, rfl⟩
      exact ⟨a, s', ha, rfl, rfl⟩

theorem many_eq (step : Reader (Option α)) (s : Cursor) :
    many step s = repeated step s.ahead.length s := rfl

theorem sound_repeated (h : Fits ends shape category item) (hfinish : link? .finish = none)
    (n : Nat) {xs : List (κ × α)} (hf : s.finish.kind = .finish)
    (hr : repeated (linked link? item) n s = .ok (xs, s')) :
    ∃ ts, s.Takes ts s' ∧ Category.Linked link? category ts (xs.map (Prod.map id shape)) := by
  induction n generalizing s xs with
  | zero =>
    obtain ⟨rfl, rfl⟩ := pure_eq_ok.1 hr
    exact ⟨[], .refl hf, .nil⟩
  | succ n ih =>
    obtain ⟨o, s₁, hl, hr⟩ := bind_eq_ok.1 hr
    rcases linked_eq_ok.1 hl with ⟨_, rfl, rfl⟩ | ⟨b, a, hb, ha, rfl⟩
    · obtain ⟨rfl, rfl⟩ := pure_eq_ok.1 hr
      exact ⟨[], .refl hf, .nil⟩
    · obtain ⟨ys, s₂, hys, hr⟩ := bind_eq_ok.1 hr
      obtain ⟨rfl, rfl⟩ := pure_eq_ok.1 hr
      have hk : s.kind 0 ≠ .finish := TokenKind.ne_finish hb hfinish
      obtain ⟨ts, hts, hc⟩ := h.sound (Cursor.takes_next hf hk).finish' ha
      obtain ⟨us, hus, hl⟩ := ih hts.finish' hys
      exact ⟨_, (hts.append hus).cons_next hf hk, .cons hb hc hl⟩

theorem complete_repeated (h : Fits ends shape category item)
    (hends : ∀ s : Cursor, (link? (s.kind 0)).isSome → ends s) {n : Nat} {ts : List Token}
    {ys : List (κ × β)} (ht : s.Takes ts s') (hl : Category.Linked link? category ts ys)
    (he : ends s') (hstop : link? (s'.kind 0) = none) (hn : ts.length ≤ n) :
    ∃ xs, repeated (linked link? item) n s = .ok (xs, s') ∧ xs.map (Prod.map id shape) = ys := by
  induction hl generalizing s n with
  | nil =>
    obtain rfl := ht.unique (.refl ht.finish)
    cases n with
    | zero => exact ⟨[], rfl, rfl⟩
    | succ n =>
      refine ⟨[], ?_, rfl⟩
      have hnone : linked link? item s' = .ok (none, s') := linked_eq_ok.2 (.inl ⟨hstop, rfl, rfl⟩)
      exact bind_of_ok hnone
  | @cons t us vs b y ys link head tail ih =>
    obtain ⟨s₁, hus, hvs⟩ := ht.next_cons.split
    have hlink : link? (s.kind 0) = some b := by rw [ht.kind_cons, link]
    have hs₁ : ends s₁ := by
      cases tail with
      | nil =>
        obtain rfl := hvs.unique (.refl hvs.finish)
        exact he
      | cons link' _ _ =>
        refine hends s₁ ?_
        rw [hvs.kind_cons, link']
        rfl
    obtain ⟨a, ha, rfl⟩ := h.complete hus head hs₁
    cases n with
    | zero => simp at hn
    | succ n =>
      have hlen : vs.length ≤ n := by
        simp only [List.length_cons, List.length_append] at hn
        omega
      obtain ⟨xs, hxs, rfl⟩ := ih hvs hlen
      have hsome := linked_eq_ok.2 (.inr ⟨b, a, hlink, ha, rfl⟩)
      refine ⟨(b, a) :: xs, ?_, rfl⟩
      refine (bind_of_ok hsome).trans ?_
      exact (bind_of_ok hxs).trans rfl

theorem Fits.sequence (h : Fits ends shape category item) (hfinish : link? .finish = none)
    (hends : ∀ s : Cursor, (link? (s.kind 0)).isSome → ends s) {x : Reader γ}
    {build : α → List (κ × α) → γ} {shape' : γ → δ} {build' : β → List (κ × β) → δ}
    (hx : x = do
      let a ← item
      let xs ← many (linked link? item)
      return build a xs)
    (hbuild : ∀ a xs, shape' (build a xs) = build' (shape a) (xs.map (Prod.map id shape))) :
    Fits (fun s => ends s ∧ link? (s.kind 0) = none) shape'
      (Category.Sequence link? category build') x where
  sound hf hr := by
    subst hx
    obtain ⟨a, s₁, ha, hr⟩ := bind_eq_ok.1 hr
    obtain ⟨xs, s₂, hxs, hr⟩ := bind_eq_ok.1 hr
    obtain ⟨rfl, rfl⟩ := pure_eq_ok.1 hr
    obtain ⟨ts, hts, hc⟩ := h.sound hf ha
    obtain ⟨us, hus, hl⟩ := sound_repeated h hfinish _ hts.finish' hxs
    rw [hbuild]
    exact ⟨_, hts.append hus, .intro hc hl⟩
  complete ht hc he := by
    subst hx
    cases hc with
    | @intro ts us b ys head tail =>
    obtain ⟨s₁, hts, hus⟩ := ht.split
    have hs₁ : ends s₁ := by
      cases tail with
      | nil =>
        obtain rfl := hus.unique (.refl hus.finish)
        exact he.1
      | cons link _ _ =>
        refine hends s₁ ?_
        rw [hus.kind_cons, link]
        rfl
    obtain ⟨a, ha, rfl⟩ := h.complete hts head hs₁
    obtain ⟨xs, hxs, rfl⟩ := complete_repeated h hends hus tail he.1 he.2 hus.length_le
    rw [← many_eq] at hxs
    exact ⟨build a xs, (bind_of_ok ha).trans ((bind_of_ok hxs).trans rfl), hbuild a xs⟩

end Sequences

end Reader

end FeatureFilter
