import FeatureFilter.Geometry.Wkt
import FeatureFilter.Proofs.Number.Text

/-!
# What readers of well-known text take

`Reads p r cs v rest`: on the text `cs` the reader `r` gives `v` and leaves `rest` if `p` holds, and
fails otherwise. The relation is closed under sequencing, so that what a reader does on a written
text follows from what its steps do, failures included.
-/

namespace FeatureFilter.Wkt

/-- The reader gives `v` and leaves `rest`, wherever the text starts. -/
def Takes (r : Reader α) (cs : List Char) (v : α) (rest : List Char) : Prop :=
  ∀ offset, ∃ offset', r ⟨offset, cs⟩ = .ok (v, ⟨offset', rest⟩)

def Fails (r : Reader α) (cs : List Char) : Prop :=
  ∀ offset, ∃ e, r ⟨offset, cs⟩ = .error e

structure Reads (p : Prop) (r : Reader α) (cs : List Char) (v : α) (rest : List Char) : Prop where
  takes : p → Takes r cs v rest
  fails : ¬p → Fails r cs

/-! ## Sequencing -/

theorem Takes.pure (v : α) (cs : List Char) : Takes (pure v) cs v cs :=
  fun offset => ⟨offset, rfl⟩

theorem Takes.bind {r : Reader α} {f : α → Reader β} {cs mid rest : List Char} {v : α} {w : β}
    (h : Takes r cs v mid) (h' : Takes (f v) mid w rest) : Takes (r >>= f) cs w rest := by
  intro offset
  obtain ⟨offset', hr⟩ := h offset
  obtain ⟨offset'', hf⟩ := h' offset'
  refine ⟨offset'', ?_⟩
  show (r ⟨offset, cs⟩ >>= fun p => f p.1 p.2) = _
  rw [hr]
  exact hf

theorem Takes.bind_fails {r : Reader α} {f : α → Reader β} {cs mid : List Char} {v : α}
    (h : Takes r cs v mid) (h' : Fails (f v) mid) : Fails (r >>= f) cs := by
  intro offset
  obtain ⟨offset', hr⟩ := h offset
  obtain ⟨e, hf⟩ := h' offset'
  refine ⟨e, ?_⟩
  show (r ⟨offset, cs⟩ >>= fun p => f p.1 p.2) = _
  rw [hr]
  exact hf

theorem Fails.bind {r : Reader α} {cs : List Char} (h : Fails r cs) (f : α → Reader β) :
    Fails (r >>= f) cs := by
  intro offset
  obtain ⟨e, hr⟩ := h offset
  refine ⟨e, ?_⟩
  show (r ⟨offset, cs⟩ >>= fun p => f p.1 p.2) = _
  rw [hr]
  rfl

theorem Takes.reads {r : Reader α} {cs rest : List Char} {v : α} (h : Takes r cs v rest) :
    Reads True r cs v rest := ⟨fun _ => h, fun hn => absurd trivial hn⟩

theorem Fails.reads {r : Reader α} {cs rest : List Char} {v : α} (h : Fails r cs) :
    Reads False r cs v rest := ⟨False.elim, fun _ => h⟩

namespace Reads

variable {p q : Prop} {r : Reader α} {f : α → Reader β} {cs mid rest : List Char} {v : α} {w : β}

theorem congr (h : Reads p r cs v rest) (hpq : p ↔ q) : Reads q r cs v rest := propext hpq ▸ h

theorem bind (h : Reads p r cs v mid) (h' : Reads q (f v) mid w rest) :
    Reads (p ∧ q) (r >>= f) cs w rest := by
  refine ⟨fun hpq => (h.takes hpq.1).bind (h'.takes hpq.2), fun hn => ?_⟩
  by_cases hp : p
  · exact (h.takes hp).bind_fails (h'.fails fun hq => hn ⟨hp, hq⟩)
  · exact (h.fails hp).bind f

/-- A first step that always succeeds. -/
theorem after (h : Takes r cs v mid) (h' : Reads q (f v) mid w rest) :
    Reads q (r >>= f) cs w rest :=
  (h.reads.bind h').congr (iff_of_eq (true_and q))

/-- A last step that always succeeds. -/
theorem andThen (h : Reads p r cs v mid) (h' : Takes (f v) mid w rest) :
    Reads p (r >>= f) cs w rest :=
  (h.bind h'.reads).congr (iff_of_eq (and_true p))

end Reads

/-! ## White space and marks -/

def NoSpace (cs : List Char) : Prop := ∀ c, cs.head? = some c → isWhiteSpace c = false

theorem noSpace_cons {c : Char} {cs : List Char} : NoSpace (c :: cs) ↔ isWhiteSpace c = false := by
  simp [NoSpace]

theorem noSpace_nil : NoSpace [] := by
  intro c hc
  cases hc

theorem trimStart_of_noSpace {cs : List Char} (h : NoSpace cs) : trimStart cs = cs := by
  cases cs with
  | nil => rfl
  | cons c cs => simp [trimStart, noSpace_cons.1 h]

theorem isWhiteSpace_of_isDigit {c : Char} (h : c.isDigit = true) : isWhiteSpace c = false := by
  simp only [Char.isDigit, Bool.and_eq_true, decide_eq_true_eq] at h
  have h1 : 48 ≤ c.toNat := h.1
  have h2 : c.toNat ≤ 57 := h.2
  simp only [isWhiteSpace, inRanges, whiteSpaceRanges, List.any_cons, List.any_nil, Bool.or_false,
    Bool.or_eq_false_iff, Bool.and_eq_false_iff, decide_eq_false_iff_not]
  omega

theorem takes_skipSpace {cs : List Char} (h : NoSpace cs) : Takes skipSpace cs () cs := by
  intro offset
  exact ⟨_, by rw [skipSpace, trimStart_of_noSpace h]⟩

theorem takes_skipSpace_blank {cs : List Char} (h : NoSpace cs) :
    Takes skipSpace (' ' :: cs) () cs := by
  intro offset
  refine ⟨offset + byteLength ((' ' :: cs).takeWhile isWhiteSpace), ?_⟩
  have ht : trimStart (' ' :: cs) = cs := trimStart_of_noSpace h
  rw [skipSpace, ht]

theorem takes_peek {cs : List Char} (h : NoSpace cs) : Takes peek cs cs.head? cs := by
  refine (takes_skipSpace h).bind ?_
  exact fun offset => ⟨offset, rfl⟩

theorem takes_peek_blank {cs : List Char} (h : NoSpace cs) :
    Takes peek (' ' :: cs) cs.head? cs := by
  refine (takes_skipSpace_blank h).bind ?_
  exact fun offset => ⟨offset, rfl⟩

theorem takes_take (n : Nat) (cs : List Char) : Takes (take n) cs (cs.take n) (cs.drop n) :=
  fun _ => ⟨_, rfl⟩

theorem takes_take_append (w cs : List Char) : Takes (take w.length) (w ++ cs) w cs := by
  have h := takes_take w.length (w ++ cs)
  rwa [List.take_left, List.drop_left] at h

theorem takes_eat {c : Char} {cs : List Char} (h : isWhiteSpace c = false) :
    Takes (eat c) (c :: cs) true cs := by
  refine (takes_peek (noSpace_cons.2 h)).bind ?_
  rw [List.head?_cons, if_pos rfl]
  exact (takes_take 1 (c :: cs)).bind (.pure true cs)

theorem takes_eat_other {c d : Char} {cs : List Char} (h : isWhiteSpace c = false) (hd : c ≠ d) :
    Takes (eat d) (c :: cs) false (c :: cs) := by
  refine (takes_peek (noSpace_cons.2 h)).bind ?_
  rw [List.head?_cons, if_neg (by simpa using hd)]
  exact .pure false _

theorem fails_failHere (expected : String) (position : Option Nat) (cs : List Char) :
    Fails (failHere expected position : Reader α) cs := by
  intro offset
  exact ⟨_, rfl⟩

theorem takes_expect {c : Char} {cs : List Char} (h : isWhiteSpace c = false) :
    Takes (expect c) (c :: cs) () cs := by
  refine (takes_eat h).bind ?_
  exact .pure () cs

theorem fails_expect {c d : Char} {cs : List Char} (h : isWhiteSpace c = false) (hd : c ≠ d) :
    Fails (expect d) (c :: cs) := by
  refine (takes_eat_other h hd).bind_fails ?_
  exact fails_failHere _ _ _

theorem takes_open (cs : List Char) : Takes (expect '(') ('(' :: cs) () cs := takes_expect rfl

theorem takes_close (cs : List Char) : Takes (expect ')') (')' :: cs) () cs := takes_expect rfl

theorem fails_open (cs : List Char) : Fails (expect '(') (')' :: cs) := fails_expect rfl (by decide)

theorem takes_comma (cs : List Char) : Takes (eat ',') (',' :: cs) true cs := takes_eat rfl

theorem takes_no_comma (cs : List Char) : Takes (eat ',') (')' :: cs) false (')' :: cs) :=
  takes_eat_other rfl (by decide)

/-- A step that depends on how long the text is. -/
theorem Reads.withLength {f : Nat → Reader α} {q : Prop} {cs rest : List Char} {v : α}
    (h : Reads q (f cs.length) cs v rest) :
    Reads q ((get : Reader Input) >>= fun i => f i.chars.length) cs v rest :=
  ⟨fun hq offset => h.takes hq offset, fun hq offset => h.fails hq offset⟩

/-- A step that depends on where the text starts. -/
theorem Reads.withOffset {f : Nat → Reader α} {q : Prop} {cs rest : List Char} {v : α}
    (h : ∀ n, Reads q (f n) cs v rest) :
    Reads q ((get : Reader Input) >>= fun i => f i.offset) cs v rest :=
  ⟨fun hq offset => (h offset).takes hq offset, fun hq offset => (h offset).fails hq offset⟩

theorem Fails.withOffset {f : Nat → Reader α} {cs : List Char} (h : ∀ n, Fails (f n) cs) :
    Fails ((get : Reader Input) >>= fun i => f i.offset) cs :=
  fun offset => h offset offset

theorem Fails.withLength {f : Nat → Reader α} {cs : List Char} (h : Fails (f cs.length) cs) :
    Fails ((get : Reader Input) >>= fun i => f i.chars.length) cs :=
  fun offset => h offset

/-- The letters at the front are looked at and left, and so is what follows a blank. -/
theorem takes_peekWord_of {w cs cs' : List Char} (h : Takes skipSpace cs' () (w ++ cs))
    (hw : ∀ c ∈ w, c.isAlpha = true) (hc : ∀ c, cs.head? = some c → c.isAlpha = false) :
    Takes peekWord cs' w (w ++ cs) := by
  refine h.bind ?_
  have ht : (w ++ cs).takeWhile Char.isAlpha = w := by
    rw [List.takeWhile_append_of_pos hw]
    cases cs with
    | nil => simp
    | cons c cs => simp [hc c rfl]
  intro offset
  refine ⟨offset, ?_⟩
  show Except.ok ((w ++ cs).takeWhile Char.isAlpha, _) = _
  rw [ht]

theorem takes_peekWord {w cs : List Char} (hs : NoSpace (w ++ cs)) (hw : ∀ c ∈ w, c.isAlpha = true)
    (hc : ∀ c, cs.head? = some c → c.isAlpha = false) : Takes peekWord (w ++ cs) w (w ++ cs) :=
  takes_peekWord_of (takes_skipSpace hs) hw hc

theorem takes_peekWord_blank {w cs : List Char} (hs : NoSpace (w ++ cs))
    (hw : ∀ c ∈ w, c.isAlpha = true) (hc : ∀ c, cs.head? = some c → c.isAlpha = false) :
    Takes peekWord (' ' :: (w ++ cs)) w (w ++ cs) :=
  takes_peekWord_of (takes_skipSpace_blank hs) hw hc

/-! ## Numbers and coordinates -/

theorem takes_number {cs run rest : List Char} {x : Binary64} (hs : NoSpace (run ++ rest))
    (hr : numberRun true (run ++ rest) = run) (hne : run ≠ [])
    (hx : Binary64.read? run = some x) (hcs : cs = run ++ rest ∨ cs = ' ' :: (run ++ rest)) :
    Takes number cs x rest := by
  have hskip : Takes skipSpace cs () (run ++ rest) := by
    rcases hcs with rfl | rfl
    · exact takes_skipSpace hs
    · exact takes_skipSpace_blank hs
  refine hskip.bind ?_
  intro offset
  have hne' : run.isEmpty = false := by simpa using hne
  obtain ⟨offset', ht⟩ := takes_take_append run rest offset
  refine ⟨offset', ?_⟩
  show (if (numberRun true (run ++ rest)).isEmpty = true then failHere "number" none
    else _ : Reader Binary64) ⟨offset, run ++ rest⟩ = _
  rw [hr, hne', if_neg Bool.false_ne_true, hx]
  show (take run.length >>= fun _ => Pure.pure x : Reader Binary64) ⟨offset, run ++ rest⟩ = _
  show (take run.length ⟨offset, run ++ rest⟩ >>= fun p => (Pure.pure x : Reader Binary64) p.2) = _
  rw [ht]
  rfl

theorem fails_number {cs body : List Char} (run : List Char) (hs : NoSpace body)
    (hr : numberRun true body = run) (hx : run = [] ∨ Binary64.read? run = none)
    (hcs : cs = body ∨ cs = ' ' :: body) : Fails number cs := by
  have hskip : Takes skipSpace cs () body := by
    rcases hcs with rfl | rfl
    · exact takes_skipSpace hs
    · exact takes_skipSpace_blank hs
  refine hskip.bind_fails ?_
  intro offset
  show ∃ e, (if (numberRun true body).isEmpty = true then failHere "number" none
    else _ : Reader Binary64) ⟨offset, body⟩ = _
  rw [hr]
  by_cases hne : run = []
  · rw [hne, if_pos List.isEmpty_nil]
    exact fails_failHere _ _ _ offset
  · have hne' : run.isEmpty = false := by simpa using hne
    rw [hne', if_neg Bool.false_ne_true, hx.resolve_left hne]
    exact ⟨_, rfl⟩

/-- What stands behind an ordinate: a blank, a comma or a closing parenthesis. -/
def BehindOrdinate (cs : List Char) : Prop :=
  ∃ c rest, cs = c :: rest ∧ (c = ' ' ∨ c = ',' ∨ c = ')')

theorem BehindOrdinate.endsNumeral {cs : List Char} (h : BehindOrdinate cs) : EndsNumeral cs := by
  obtain ⟨c, rest, rfl, hc⟩ := h
  intro d hd
  cases hd
  rcases hc with rfl | rfl | rfl <;> decide

theorem exists_ordinate (x : Finite) :
    ∃ n : Numeral, (Layout.ordinate.text (.finite x)).toList =
        signChars (if x.negative then some true else none) ++ n.chars ∧
      (n.value false).toBinary64.signed x.negative = .finite x := by
  obtain ⟨n, hn, hv, -⟩ := Layout.ordinate.exists_body x
  refine ⟨n, ?_, hv⟩
  rw [Layout.text, String.toList_ofList, Layout.decimalText_eq, hn, x.shortest_negative]
  cases x.negative <;> rfl

/-- An ordinate is read back from its text, whether or not it is finite. -/
theorem read?_ordinate (x : Binary64) :
    Binary64.read? (Layout.ordinate.text x).toList = some x := by
  cases x with
  | finite x =>
    obtain ⟨n, hn, hv⟩ := exists_ordinate x
    have hread := n.read?_chars (if x.negative then some true else none)
    have hneg : decide ((if x.negative then some true else none) = some true) = x.negative := by
      cases x.negative <;> rfl
    rw [hneg, ← n.signed_value, hv] at hread
    rw [hn, hread]
  | infinity negative => cases negative <;> decide
  | nan => decide

theorem ordinate_head (x : Binary64) : ∃ c cs, (Layout.ordinate.text x).toList = c :: cs ∧
    isWhiteSpace c = false ∧
    (startsNumber (some c) = true ∨ x.isFinite = false ∧ (c = 'i' ∨ c = 'N')) := by
  cases x with
  | finite x =>
    obtain ⟨n, hn, -⟩ := exists_ordinate x
    obtain ⟨c, cs, hc, hc'⟩ := n.chars_eq_cons
    rw [hn, hc]
    cases x.negative with
    | true => exact ⟨'-', c :: cs, rfl, rfl, .inl rfl⟩
    | false =>
      refine ⟨c, cs, rfl, ?_, .inl ?_⟩
      · rcases hc' with h | rfl
        · exact isWhiteSpace_of_isDigit h
        · rfl
      · rcases hc' with h | rfl
        · simp [startsNumber, h]
        · rfl
  | infinity negative =>
    cases negative with
    | true => exact ⟨'-', ['i', 'n', 'f'], rfl, rfl, .inl rfl⟩
    | false => exact ⟨'i', ['n', 'f'], rfl, rfl, .inr ⟨rfl, .inl rfl⟩⟩
  | nan => exact ⟨'N', ['a', 'N'], rfl, rfl, .inr ⟨rfl, .inr rfl⟩⟩

theorem noSpace_ordinate (x : Binary64) (rest : List Char) :
    NoSpace ((Layout.ordinate.text x).toList ++ rest) := by
  obtain ⟨c, cs, hc, hw, -⟩ := ordinate_head x
  rw [hc]
  exact noSpace_cons.2 hw

theorem reads_number (x : Binary64) {cs rest : List Char} (h : BehindOrdinate rest)
    (hcs : cs = (Layout.ordinate.text x).toList ++ rest ∨
      cs = ' ' :: ((Layout.ordinate.text x).toList ++ rest)) :
    Reads (x.isFinite = true) number cs x rest := by
  have hspace := noSpace_ordinate x rest
  cases x with
  | finite x =>
    obtain ⟨n, hn, hv⟩ := exists_ordinate x
    rw [hn] at hcs hspace
    have hrun := n.numberRun_chars (if x.negative then some true else none) h.endsNumeral
    have hread := read?_ordinate (.finite x)
    rw [hn] at hread
    obtain ⟨c, cs', hc, -⟩ := n.chars_eq_cons
    refine (takes_number hspace hrun ?_ hread hcs).reads.congr (by simp [Binary64.isFinite])
    rw [hc]
    cases x.negative <;> simp [signChars]
  | infinity negative =>
    refine Fails.reads (v := Binary64.infinity negative) ?_ |>.congr (by simp [Binary64.isFinite])
    cases negative with
    | true => exact fails_number ['-'] hspace rfl (.inr rfl) hcs
    | false => exact fails_number [] hspace rfl (.inl rfl) hcs
  | nan =>
    refine Fails.reads (v := Binary64.nan) ?_ |>.congr (by simp [Binary64.isFinite])
    exact fails_number [] hspace rfl (.inl rfl) hcs

end FeatureFilter.Wkt
