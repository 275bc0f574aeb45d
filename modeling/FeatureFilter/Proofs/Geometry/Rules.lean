import FeatureFilter.Proofs.Geometry.Grammar

/-!
# Readers of well-known text and their rules

A reader obeys a rule when it gives what stands in front by the rule, and nothing else (`Obeys`).
White space in front makes no difference to either. A text is read as a geometry when it is one by
the grammar with only white space behind it (`read_eq_ok_iff`).
-/

namespace FeatureFilter.Wkt

variable {α β : Type} {cs mid : List Char} {i i₁ : Input}

/-- The texts differ at most in the white space in front. -/
def Same (cs ds : List Char) : Prop := trimStart cs = trimStart ds

theorem same_trimStart (cs : List Char) : Same cs (trimStart cs) := (trimStart_trimStart cs).symm

/-- At an input that stands for the text, the reader gives what stands in front of the text by the
rule, and leaves what is left then, up to white space. Where nothing does, it fails. -/
structure ObeysAt (r : Reader α) (R : Rule α) (cs : List Char) (i : Input) : Prop where
  sound : ∀ ⦃a i'⦄, r i = .ok (a, i') → ∃ rest, R cs a rest ∧ Same rest i'.chars
  complete : ∀ ⦃a rest⦄, R cs a rest → ∃ i', r i = .ok (a, i') ∧ Same rest i'.chars

/-- The reader gives what stands at the front by the rule. -/
def Obeys (r : Reader α) (R : Rule α) : Prop := ∀ ⦃cs i⦄, Same cs i.chars → ObeysAt r R cs i

theorem ObeysAt.congr {r : Reader α} {R S : Rule α} (h : ObeysAt r R cs i)
    (hR : ∀ a rest, R cs a rest ↔ S mid a rest) : ObeysAt r S mid i := by
  constructor
  · intro a i' he
    obtain ⟨rest, ha, hrest⟩ := h.sound he
    exact ⟨rest, (hR a rest).1 ha, hrest⟩
  · intro a rest ha
    exact h.complete ((hR a rest).2 ha)

/-- A first step that gives something. -/
theorem ObeysAt.step {r : Reader α} {f : α → Reader β} {R : Rule β} {a : α}
    (hr : r i = .ok (a, i₁)) (h : ObeysAt (f a) R cs i₁) : ObeysAt (r >>= f) R cs i := by
  have he : (r >>= f) i = f a i₁ := by
    show (r i >>= fun p => f p.1 p.2) = _
    rw [hr]
    rfl
  constructor
  · intro b i' hb
    exact h.sound (he ▸ hb)
  · intro b rest hb
    rw [he]
    exact h.complete hb

namespace Obeys

variable {r r' : Reader α} {f : α → Reader β} {R R' : Rule α} {S : α → Rule β}

theorem congr (h : Obeys r R) (hR : ∀ cs a rest, R cs a rest ↔ R' cs a rest) : Obeys r R' :=
  fun cs _ hi => (h hi).congr (hR cs)

theorem bind (h : Obeys r R) (hf : ∀ a, Obeys (f a) (S a)) :
    Obeys (r >>= f) fun cs b rest => ∃ a mid, R cs a mid ∧ S a mid b rest := by
  intro cs i hi
  constructor
  · intro b i' he
    have he : (r i >>= fun p => f p.1 p.2) = .ok (b, i') := he
    cases hr : r i with
    | error e =>
      rw [hr] at he
      cases he
    | ok p =>
      rw [hr] at he
      obtain ⟨mid, ha, hmid⟩ := (h hi).sound hr
      obtain ⟨rest, hb, hrest⟩ := (hf p.1 hmid).sound he
      exact ⟨rest, ⟨p.1, mid, ha, hb⟩, hrest⟩
  · rintro b rest ⟨a, mid, ha, hb⟩
    obtain ⟨i₁, hr, hmid⟩ := (h hi).complete ha
    obtain ⟨i₂, hf, hrest⟩ := (hf a hmid).complete hb
    refine ⟨i₂, ?_, hrest⟩
    show (r i >>= fun p => f p.1 p.2) = _
    rw [hr]
    exact hf

theorem pure (a : α) : Obeys (pure a) fun cs b rest => b = a ∧ rest = cs := by
  intro cs i hi
  constructor
  · intro b i' he
    cases he
    exact ⟨cs, ⟨rfl, rfl⟩, hi⟩
  · rintro b rest ⟨rfl, rfl⟩
    exact ⟨i, rfl, hi⟩

/-- A reader that never gives anything. -/
theorem never (h : ∀ i p, r i ≠ .ok p) : Obeys r fun _ _ _ => False :=
  fun _ i _ => ⟨fun _ _ he => absurd he (h i _), fun _ _ hf => hf.elim⟩

theorem ite {p : Prop} [Decidable p] (h : Obeys r R) (h' : Obeys r' R') :
    Obeys (if p then r else r') fun cs a rest => if p then R cs a rest else R' cs a rest := by
  by_cases hp : p
  · simpa only [if_pos hp] using h
  · simpa only [if_neg hp] using h'

/-- Something made from what is read. -/
theorem map {f : α → β} (h : Obeys r R) :
    Obeys (do let a ← r; return f a) fun cs b rest => ∃ a, R cs a rest ∧ b = f a := by
  refine (h.bind fun a => Obeys.pure (f a)).congr fun cs b rest => ?_
  constructor
  · rintro ⟨a, mid, ha, rfl, rfl⟩
    exact ⟨a, ha, rfl⟩
  · rintro ⟨a, ha, rfl⟩
    exact ⟨a, rest, ha, rfl, rfl⟩

end Obeys

/-! ## Marks, words and numbers -/

/-- A reader that looks at what comes behind the white space. -/
theorem Obeys.look {f : List Char → α} {r : Reader α} {k : α → Reader β} {R : Rule β}
    (hr : ∀ i, ∃ o, r i = .ok (f (trimStart i.chars), ⟨o, trimStart i.chars⟩))
    (h : ∀ cs o, ObeysAt (k (f (trimStart cs))) R cs ⟨o, trimStart cs⟩) : Obeys (r >>= k) R := by
  intro cs i hi
  obtain ⟨o, hr⟩ := hr i
  refine .step hr ?_
  rw [← show trimStart cs = trimStart i.chars from hi]
  exact h cs o

theorem Obeys.peek_bind {k : Option Char → Reader β} {R : Rule β}
    (h : ∀ cs o, ObeysAt (k (trimStart cs).head?) R cs ⟨o, trimStart cs⟩) :
    Obeys (peek >>= k) R :=
  Obeys.look (fun _ => ⟨_, rfl⟩) h

def lettersOf (cs : List Char) : List Char := (trimStart cs).takeWhile Char.isAlpha

theorem Obeys.peekWord_bind {k : List Char → Reader β} {R : Rule β}
    (h : ∀ cs o, ObeysAt (k (lettersOf cs)) R cs ⟨o, trimStart cs⟩) : Obeys (peekWord >>= k) R :=
  Obeys.look (fun _ => ⟨_, rfl⟩) h

theorem ObeysAt.take {k : Reader β} {R S : Rule β} {w : List Char} {n o : Nat} (hk : Obeys k S)
    (hcs : trimStart cs = w ++ mid) (hn : n = w.length)
    (hR : ∀ b rest, S mid b rest ↔ R cs b rest) :
    ObeysAt (take n >>= fun _ => k) R cs ⟨o, trimStart cs⟩ := by
  subst hn
  have htake : Wkt.take w.length ⟨o, trimStart cs⟩ = .ok (w, ⟨o + byteLength w, mid⟩) := by
    rw [hcs, Wkt.take, List.take_left, List.drop_left]
  exact .step htake ((hk rfl).congr hR)

theorem obeys_failHere (expected : String) (position : Option Nat) :
    Obeys (failHere expected position : Reader α) fun _ _ _ => False :=
  Obeys.never fun _ _ => nofun

theorem obeys_throw (e : Error) : Obeys (throw e : Reader α) fun _ _ _ => False :=
  Obeys.never fun _ _ => nofun

def HasMark (c : Char) (cs : List Char) : Prop := (trimStart cs).head? = some c

instance (c : Char) (cs : List Char) : Decidable (HasMark c cs) :=
  inferInstanceAs (Decidable (_ = _))

theorem hasMark_iff {c : Char} : HasMark c cs ↔ ∃ rest, IsMark c cs rest := by
  unfold HasMark IsMark
  cases trimStart cs with
  | nil => simp
  | cons d ds => simp

theorem obeys_eat (c : Char) : Obeys (eat c) fun cs eaten rest =>
    if eaten then IsMark c cs rest else ¬ HasMark c cs ∧ rest = cs := by
  refine .peek_bind fun cs o => ?_
  split
  · rename_i hc
    obtain ⟨mid, hmid⟩ := hasMark_iff.1 hc
    refine .take (w := [c]) (Obeys.pure true) hmid rfl fun b rest => ?_
    cases b with
    | true =>
      constructor
      · rintro ⟨-, rfl⟩
        exact hmid
      · intro h
        exact ⟨rfl, (List.cons.inj (h.symm.trans hmid)).2⟩
    | false => exact ⟨fun h => (nomatch h.1), fun h => absurd hc h.1⟩
  · rename_i hc
    refine (Obeys.pure false (same_trimStart cs)).congr fun b rest => ?_
    cases b with
    | true => exact ⟨fun h => (nomatch h.1), fun h => absurd (hasMark_iff.2 ⟨rest, h⟩) hc⟩
    | false => exact ⟨fun h => ⟨hc, h.2⟩, fun h => ⟨rfl, h.2⟩⟩

theorem obeys_expect (c : Char) : Obeys (expect c) fun cs _ rest => IsMark c cs rest := by
  have h : Obeys (expect c) _ := (obeys_eat c).bind fun eaten =>
    Obeys.ite (Obeys.pure ()) (obeys_failHere _ _)
  refine h.congr fun cs _ rest => ?_
  constructor
  · rintro ⟨eaten, mid, hm, h⟩
    cases eaten with
    | true =>
      obtain ⟨-, rfl⟩ := h
      exact hm
    | false => exact h.elim
  · intro hm
    exact ⟨true, rest, hm, rfl, rfl⟩

theorem isNumber_iff {x : Binary64} {rest : List Char} : IsNumber cs x rest ↔
    trimStart cs = numberRun true (trimStart cs) ++ rest ∧
      Binary64.read? (numberRun true (trimStart cs)) = some x := by
  constructor
  · rintro ⟨run, htext, hrun, hx⟩
    rw [htext, hrun]
    exact ⟨rfl, hx⟩
  · rintro ⟨htext, hx⟩
    exact ⟨_, htext, congrArg _ htext.symm, hx⟩

theorem obeys_number : Obeys number IsNumber := by
  intro cs i hi
  refine .step (show skipSpace i = .ok ((), ⟨_, trimStart i.chars⟩) from rfl) ?_
  refine .step (show (get : Reader Input) _ = .ok (_, _) from rfl) ?_
  rw [← show trimStart cs = trimStart i.chars from hi]
  obtain ⟨mid, hmid⟩ := exists_numberRun_append true (trimStart cs)
  dsimp only
  split
  · rename_i hempty
    refine (obeys_failHere _ _ (same_trimStart cs)).congr fun x rest => ?_
    rw [isNumber_iff, List.isEmpty_iff.1 hempty]
    exact ⟨False.elim, fun h => (nomatch h.2)⟩
  · split
    · rename_i hx
      refine (obeys_throw _ (same_trimStart cs)).congr fun x rest => ?_
      rw [isNumber_iff, hx]
      exact ⟨False.elim, fun h => (nomatch h.2)⟩
    · rename_i x hx
      refine .take (Obeys.pure x) hmid rfl fun y rest => ?_
      rw [isNumber_iff, hx]
      constructor
      · rintro ⟨rfl, rfl⟩
        exact ⟨hmid, rfl⟩
      · rintro ⟨hrest, hy⟩
        exact ⟨(Option.some.inj hy).symm, List.append_cancel_left (hrest.symm.trans hmid)⟩

/-! ## Coordinates -/

/-- A number starts with a digit, a sign or a point. -/
theorem IsNumber.starts {x : Binary64} {rest : List Char} (h : IsNumber cs x rest) :
    startsNumber (trimStart cs).head? = true := by
  obtain ⟨htext, hx⟩ := isNumber_iff.1 h
  obtain ⟨sign, n, hn⟩ := exists_numeral hx
  rw [htext, hn]
  match sign with
  | some true => rfl
  | some false => rfl
  | none =>
    obtain ⟨c, ds, hc, hd⟩ := n.chars_eq_cons
    rw [hc]
    rcases hd with hd | rfl
    · simp [signChars, startsNumber, hd]
    · rfl

/-- A third ordinate stands where the next character can start one. -/
theorem isCoord_iff {c : Coord} {rest : List Char} : IsCoord cs c rest ↔
    ∃ x mid, IsNumber cs x mid ∧ ∃ y mid', IsNumber mid y mid' ∧
      if startsNumber (trimStart mid').head? = true
        then ∃ z, IsNumber mid' z rest ∧ c = ⟨x, y, some z⟩
        else c = ⟨x, y, none⟩ ∧ rest = mid' := by
  constructor
  · rintro (⟨hx, hy, hz⟩ | ⟨hx, hy, hz⟩)
    · exact ⟨_, _, hx, _, _, hy, by rw [if_neg (by simp [hz])]; exact ⟨rfl, rfl⟩⟩
    · exact ⟨_, _, hx, _, _, hy, by rw [if_pos hz.starts]; exact ⟨_, hz, rfl⟩⟩
  · rintro ⟨x, mid, hx, y, mid', hy, h⟩
    split at h
    · obtain ⟨z, hz, rfl⟩ := h
      exact .space hx hy hz
    · rename_i hnone
      obtain ⟨rfl, rfl⟩ := h
      exact .plane hx hy (Bool.eq_false_iff.2 hnone)

theorem obeys_coord : Obeys coord IsCoord := by
  have hheight (x y : Binary64) : Obeys (do
      if startsNumber (← peek) then
        let z ← number
        return (⟨x, y, some z⟩ : Coord)
      else
        return ⟨x, y, none⟩) fun cs c rest => if startsNumber (trimStart cs).head? = true
          then ∃ z, IsNumber cs z rest ∧ c = ⟨x, y, some z⟩ else c = ⟨x, y, none⟩ ∧ rest = cs := by
    refine .peek_bind fun cs o => ?_
    have h := Obeys.ite (p := startsNumber (trimStart cs).head? = true)
      (obeys_number.map (f := fun z => (⟨x, y, some z⟩ : Coord))) (Obeys.pure ⟨x, y, none⟩)
    exact (h (i := ⟨o, trimStart cs⟩) (same_trimStart cs)).congr fun _ _ => Iff.rfl
  exact (obeys_number.bind fun x => obeys_number.bind fun y => hheight x y).congr
    fun _ _ _ => isCoord_iff.symm

theorem IsCoord.starts {c : Coord} {rest : List Char} (h : IsCoord cs c rest) :
    startsNumber (trimStart cs).head? = true := by
  cases h with
  | plane hx _ _ => exact hx.starts
  | space hx _ _ => exact hx.starts

/-! ## Lists -/

variable {item : Reader α} {R : Rule α}

/-- Items are read as long as there is a comma, but no more than `n`. -/
theorem obeys_moreItems (h : Obeys item R) (n : Nat) :
    Obeys (moreItems item n) fun cs as rest =>
      Further R cs as rest ∧ as.length ≤ n ∧ (as.length < n → ¬ HasMark ',' rest) := by
  induction n with
  | zero =>
    refine (Obeys.pure []).congr fun cs as rest => ?_
    constructor
    · rintro ⟨rfl, rfl⟩
      exact ⟨.nil, Nat.le_refl 0, fun h => absurd h (Nat.lt_irrefl 0)⟩
    · rintro ⟨has, hn, -⟩
      cases has with
      | nil => exact ⟨rfl, rfl⟩
      | cons _ _ _ => cases hn
  | succ n ih =>
    refine ((obeys_eat ',').bind fun eaten => Obeys.ite
      (h.bind fun a => ih.map) (Obeys.pure [])).congr fun cs as rest => ?_
    constructor
    · rintro ⟨eaten, mid, hm, h⟩
      cases eaten with
      | true =>
        obtain ⟨a, mid', ha, bs, ⟨hbs, hn, hstop⟩, rfl⟩ := h
        exact ⟨.cons hm ha hbs, Nat.succ_le_succ hn, fun hlt => hstop (Nat.lt_of_succ_lt_succ hlt)⟩
      | false =>
        obtain ⟨rfl, rfl⟩ := h
        exact ⟨hm.2 ▸ .nil, Nat.zero_le _, fun _ => hm.2 ▸ hm.1⟩
    · rintro ⟨has, hn, hstop⟩
      cases has with
      | nil => exact ⟨false, cs, ⟨hstop (Nat.succ_pos n), rfl⟩, rfl, rfl⟩
      | @cons _ mid mid' _ a bs comma head tail =>
        exact ⟨true, mid, comma, a, mid', head, bs,
          ⟨tail, Nat.le_of_succ_le_succ hn, fun hlt => hstop (Nat.succ_lt_succ hlt)⟩, rfl⟩

theorem obeys_furtherItems (hR : Shortens R) (h : Obeys item R) :
    Obeys (do let i ← get; moreItems item i.chars.length) fun cs as rest =>
      Further R cs as rest ∧ ¬ HasMark ',' rest := by
  intro cs i hi
  refine .step (show (get : Reader Input) i = .ok (i, i) from rfl) ?_
  refine (obeys_moreItems h i.chars.length hi).congr fun as rest => ?_
  constructor
  · rintro ⟨has, hn, hstop⟩
    refine ⟨has, fun hcomma => ?_⟩
    have := (has.length_le hR).1
    have := length_trimStart_le i.chars
    obtain ⟨ds, hds⟩ := hasMark_iff.1 hcomma
    have := hds.length_eq
    rw [show trimStart cs = trimStart i.chars from hi] at *
    exact hstop (by omega) hcomma
  · rintro ⟨has, hstop⟩
    refine ⟨has, ?_, fun _ => hstop⟩
    have := (has.length_le hR).1
    have := length_trimStart_le i.chars
    rw [show trimStart cs = trimStart i.chars from hi] at *
    omega

theorem obeys_listOf (hR : Shortens R) (h : Obeys item R) :
    Obeys (listOf item) (InParentheses (CommaList R)) := by
  refine ((obeys_expect '(').bind fun _ => h.bind fun a => (obeys_furtherItems hR h).bind fun as =>
    (obeys_expect ')').bind fun _ => Obeys.pure (a :: as)).congr fun cs as rest => ?_
  constructor
  · rintro ⟨_, mid, hl, a, mid', ha, bs, mid'', ⟨hbs, -⟩, _, _, hr, rfl, rfl⟩
    exact ⟨hl, ⟨ha, hbs⟩, hr⟩
  · rintro ⟨hl, ⟨ha, hbs⟩, hr⟩
    refine ⟨(), _, hl, _, _, ha, _, _, ⟨hbs, fun hcomma => ?_⟩, (), _, hr, rfl, rfl⟩
    rw [HasMark, hr] at hcomma
    cases hcomma

theorem obeys_line : Obeys line IsLine := obeys_listOf shortens_coord obeys_coord

theorem obeys_rings : Obeys rings IsRings := obeys_listOf shortens_line obeys_line

theorem obeys_memberPoint : Obeys memberPoint IsMemberPoint := by
  have hclosed : Obeys (do let c ← coord; expect ')'; return c) fun cs c rest =>
      ∃ mid, IsCoord cs c mid ∧ IsMark ')' mid rest := by
    refine (obeys_coord.bind fun c => (obeys_expect ')').bind fun _ => Obeys.pure c).congr
      fun cs c rest => ?_
    constructor
    · rintro ⟨_, mid, hc, _, _, hr, rfl, rfl⟩
      exact ⟨mid, hc, hr⟩
    · rintro ⟨mid, hc, hr⟩
      exact ⟨c, mid, hc, (), rest, hr, rfl, rfl⟩
  refine ((obeys_eat '(').bind fun eaten => Obeys.ite hclosed obeys_coord).congr
    fun cs c rest => ?_
  constructor
  · rintro ⟨eaten, mid, hl, h⟩
    cases eaten with
    | true =>
      obtain ⟨mid', hc, hr⟩ := h
      exact .inl ⟨hl, hc, hr⟩
    | false =>
      obtain ⟨-, rfl⟩ := hl
      exact .inr h
  · rintro (⟨hl, hc, hr⟩ | hc)
    · exact ⟨true, _, hl, _, hc, hr⟩
    · refine ⟨false, cs, ⟨fun hl => ?_, rfl⟩, hc⟩
      have hstart := hc.starts
      rw [show (trimStart cs).head? = _ from hl] at hstart
      cases hstart

/-! ## Words -/

theorem isWord_iff {w rest : List Char} :
    IsWord cs w rest ↔ w = lettersOf cs ∧ w ≠ [] ∧ trimStart cs = w ++ rest := by
  constructor
  · intro h
    refine ⟨?_, h.ne_nil, h.text⟩
    rw [lettersOf, h.text, List.takeWhile_append_of_pos h.letters]
    cases rest with
    | nil => simp
    | cons c rest => simp [h.ends c rfl]
  · rintro ⟨rfl, hne, htext⟩
    have hall : (lettersOf cs).all Char.isAlpha = true := List.all_takeWhile
    have hsplit : lettersOf cs ++ (trimStart cs).dropWhile Char.isAlpha = trimStart cs :=
      List.takeWhile_append_dropWhile
    obtain rfl : (trimStart cs).dropWhile Char.isAlpha = rest :=
      List.append_cancel_left (hsplit.trans htext)
    refine ⟨htext, hne, List.all_eq_true.1 hall, fun c hc => ?_⟩
    have hhead := List.head?_dropWhile_not Char.isAlpha (trimStart cs)
    rw [hc] at hhead
    simpa using hhead

def HasName (name : String) (cs : List Char) : Prop :=
  (lettersOf cs).map Char.toUpper = name.toList

theorem isName_iff {name : String} {rest : List Char} (hne : name.toList ≠ []) :
    IsName name cs rest ↔ HasName name cs ∧ trimStart cs = lettersOf cs ++ rest := by
  constructor
  · rintro ⟨w, hw, hname⟩
    obtain ⟨rfl, -, htext⟩ := isWord_iff.1 hw
    exact ⟨hname, htext⟩
  · rintro ⟨hname, htext⟩
    refine ⟨_, isWord_iff.2 ⟨rfl, fun hnil => hne ?_, htext⟩, hname⟩
    rw [← hname, hnil, List.map_nil]

theorem not_hasName_of_mark {c : Char} {name : String} {rest : List Char} (h : IsMark c cs rest)
    (hc : c.isAlpha = false) (hne : name.toList ≠ []) : ¬ HasName name cs := by
  intro hname
  rw [HasName, lettersOf, show trimStart cs = c :: rest from h, List.takeWhile_cons, hc] at hname
  exact hne hname.symm

/-- A reader that goes on behind a certain word if it comes next, and else in another way. -/
theorem Obeys.name {r : Reader β} {r' : List Char → Reader β} {R R' : Rule β} (name : String)
    (n : List Char → Nat) (hne : name.toList ≠ [])
    (hn : ∀ w, w.map Char.toUpper = name.toList → n w = w.length) (h : Obeys r R)
    (h' : ∀ w cs i, w = lettersOf cs → Same cs i.chars → ObeysAt (r' w) R' cs i) :
    Obeys (do
      let w ← peekWord
      if w.map Char.toUpper = name.toList then
        let _ ← take (n w)
        r
      else r' w) fun cs b rest =>
        (∃ mid, IsName name cs mid ∧ R mid b rest) ∨ (¬ HasName name cs ∧ R' cs b rest) := by
  refine .peekWord_bind fun cs o => ?_
  have hsplit : trimStart cs = lettersOf cs ++ (trimStart cs).dropWhile Char.isAlpha :=
    List.takeWhile_append_dropWhile.symm
  split
  · rename_i hname
    have hname : HasName name cs := hname
    refine .take h hsplit (hn _ hname) fun b rest => ?_
    constructor
    · intro hb
      exact .inl ⟨_, (isName_iff hne).2 ⟨hname, hsplit⟩, hb⟩
    · rintro (⟨mid, hmid, hb⟩ | ⟨hno, -⟩)
      · have := ((isName_iff hne).1 hmid).2
        exact List.append_cancel_left (this.symm.trans hsplit) ▸ hb
      · exact absurd hname hno
  · rename_i hname
    have hname : ¬ HasName name cs := hname
    refine (h' _ cs _ rfl (same_trimStart cs)).congr fun b rest => ?_
    constructor
    · intro hb
      exact .inr ⟨hname, hb⟩
    · rintro (⟨mid, hmid, -⟩ | ⟨-, hb⟩)
      · exact absurd ((isName_iff hne).1 hmid).1 hname
      · exact hb

/-! ## Geometries -/

def emptyWord : Reader Bool := do
  let word ← peekWord
  if word.map Char.toUpper = "EMPTY".toList then
    let _ ← take word.length
    return true
  else
    return false

theorem obeys_emptyWord : Obeys emptyWord fun cs empty rest =>
    if empty then IsName "EMPTY" cs rest else ¬ HasName "EMPTY" cs ∧ rest = cs := by
  have h : Obeys emptyWord _ := Obeys.name "EMPTY" List.length (by decide) (fun _ _ => rfl)
    (Obeys.pure true) fun _ _ _ _ hi => Obeys.pure false hi
  refine h.congr fun cs empty rest => ?_
  cases empty with
  | true => simp
  | false => simp

/-- No tag of ordinates comes next. -/
def NoTag (cs : List Char) : Prop := ¬ HasName "Z" cs ∧ ¬ HasName "M" cs ∧ ¬ HasName "ZM" cs

/-- The tag of three ordinates and the word `EMPTY`, each if it comes next. -/
def IsHeader : Rule Bool := fun cs empty rest =>
  ∃ mid, (IsName "Z" cs mid ∨ NoTag cs ∧ mid = cs) ∧
    if empty then IsName "EMPTY" mid rest else ¬ HasName "EMPTY" mid ∧ rest = mid

theorem obeys_header : Obeys header IsHeader := by
  have hrefused : ∀ w cs i, w = lettersOf cs → Same cs i.chars → ObeysAt (
      if w.map Char.toUpper = ['M'] ∨ w.map Char.toUpper = ['Z', 'M'] then
        throw (.unsupportedOrdinates (String.ofList w)) >>= fun _ : Unit => emptyWord
      else emptyWord) (fun cs empty rest => (¬ HasName "M" cs ∧ ¬ HasName "ZM" cs) ∧
        if empty then IsName "EMPTY" cs rest else ¬ HasName "EMPTY" cs ∧ rest = cs) cs i := by
    rintro w cs i rfl hi
    split
    · rename_i hm
      refine (((obeys_throw _).bind fun _ => obeys_emptyWord) hi).congr fun empty rest => ?_
      exact ⟨fun ⟨_, _, h, _⟩ => h.elim, fun ⟨h, _⟩ => absurd hm (not_or.2 h)⟩
    · rename_i hm
      exact (obeys_emptyWord hi).congr fun empty rest => ⟨fun h => ⟨not_or.1 hm, h⟩, fun h => h.2⟩
  have hone (w : List Char) (hw : w.map Char.toUpper = "Z".toList) : 1 = w.length := by
    rw [← List.length_map Char.toUpper, hw]
    rfl
  have h : Obeys header _ := Obeys.name "Z" (fun _ => 1) (by decide) hone obeys_emptyWord hrefused
  refine h.congr fun cs empty rest => ?_
  constructor
  · rintro (⟨mid, hz, hb⟩ | ⟨hz, ⟨hm, hzm⟩, hb⟩)
    · exact ⟨mid, .inl hz, hb⟩
    · exact ⟨cs, .inr ⟨⟨hz, hm, hzm⟩, rfl⟩, hb⟩
  · rintro ⟨mid, hz | ⟨⟨hz, hm, hzm⟩, rfl⟩, hb⟩
    · exact .inl ⟨mid, hz, hb⟩
    · exact .inr ⟨hz, ⟨hm, hzm⟩, hb⟩

theorem Obeys.contents {r : Reader α} {inner : Rule α} {S : Rule Geometry} (make : α → Geometry)
    (h : Obeys r (InParentheses inner))
    (hS : ∀ cs g rest, S cs g rest ↔ ∃ a, inner cs a rest ∧ g = make a) :
    Obeys (do let a ← r; return make a) (InParentheses S) := by
  refine h.map.congr fun cs g rest => ?_
  constructor
  · rintro ⟨a, ⟨hl, ha, hr⟩, rfl⟩
    exact ⟨hl, (hS _ _ _).2 ⟨a, ha, rfl⟩, hr⟩
  · rintro ⟨hl, hg, hr⟩
    obtain ⟨a, ha, rfl⟩ := (hS _ _ _).1 hg
    exact ⟨a, ⟨hl, ha, hr⟩, rfl⟩

variable {member : Reader Geometry} {M : Rule Geometry}

theorem obeys_body_full (hM : Shortens M) (h : Obeys member M) (t : GeometryType) :
    Obeys (body member t.name false) (InParentheses (Contents M t)) := by
  cases t with
  | point =>
    refine ((obeys_expect '(').bind fun _ => obeys_coord.bind fun c =>
      (obeys_expect ')').bind fun _ => Obeys.pure (Geometry.point (some c))).congr
      fun cs g rest => ?_
    constructor
    · rintro ⟨_, mid, hl, c, mid', hc, _, _, hr, rfl, rfl⟩
      exact ⟨hl, .point hc, hr⟩
    · rintro ⟨hl, hg, hr⟩
      cases hg with
      | point hc => exact ⟨(), _, hl, _, _, hc, (), _, hr, rfl, rfl⟩
  | lineString =>
    refine .contents .lineString obeys_line fun cs g rest => ?_
    exact ⟨fun | .lineString h => ⟨_, h, rfl⟩, by rintro ⟨_, h, rfl⟩; exact .lineString h⟩
  | polygon =>
    refine .contents .polygon obeys_rings fun cs g rest => ?_
    exact ⟨fun | .polygon h => ⟨_, h, rfl⟩, by rintro ⟨_, h, rfl⟩; exact .polygon h⟩
  | multiPoint =>
    refine .contents .multiPoint (obeys_listOf shortens_memberPoint obeys_memberPoint)
      fun cs g rest => ?_
    exact ⟨fun | .multiPoint h => ⟨_, h, rfl⟩, by rintro ⟨_, h, rfl⟩; exact .multiPoint h⟩
  | multiLineString =>
    refine .contents .multiLineString obeys_rings fun cs g rest => ?_
    exact ⟨fun | .multiLineString h => ⟨_, h, rfl⟩, by rintro ⟨_, h, rfl⟩; exact .multiLineString h⟩
  | multiPolygon =>
    refine .contents .multiPolygon (obeys_listOf shortens_rings obeys_rings) fun cs g rest => ?_
    exact ⟨fun | .multiPolygon h => ⟨_, h, rfl⟩, by rintro ⟨_, h, rfl⟩; exact .multiPolygon h⟩
  | collection =>
    refine .contents .collection (obeys_listOf hM h) fun cs g rest => ?_
    exact ⟨fun | .collection h => ⟨_, h, rfl⟩, by rintro ⟨_, h, rfl⟩; exact .collection h⟩

theorem obeys_body (hM : Shortens M) (h : Obeys member M) (name : String) (empty : Bool) :
    Obeys (body member name empty) fun cs g rest => ∃ t : GeometryType, t.name = name ∧
      if empty then g = t.empty ∧ rest = cs else InParentheses (Contents M t) cs g rest := by
  by_cases hname : ∃ t : GeometryType, t.name = name
  · obtain ⟨t, rfl⟩ := hname
    have hbody : Obeys (body member t.name empty) fun cs g rest =>
        if empty then g = t.empty ∧ rest = cs else InParentheses (Contents M t) cs g rest := by
      cases empty with
      | true => cases t <;> exact Obeys.pure _
      | false => exact obeys_body_full hM h t
    refine hbody.congr fun cs g rest => ?_
    constructor
    · intro hg
      exact ⟨t, rfl, hg⟩
    · rintro ⟨t', ht, hg⟩
      exact GeometryType.name_injective ht ▸ hg
  · refine Obeys.congr (R := fun _ _ _ => False) ?_ fun cs g rest => ⟨False.elim, fun h => ?_⟩
    · unfold body
      split
      · exact absurd ⟨.point, rfl⟩ hname
      · exact absurd ⟨.lineString, rfl⟩ hname
      · exact absurd ⟨.polygon, rfl⟩ hname
      · exact absurd ⟨.multiPoint, rfl⟩ hname
      · exact absurd ⟨.multiLineString, rfl⟩ hname
      · exact absurd ⟨.multiPolygon, rfl⟩ hname
      · exact absurd ⟨.collection, rfl⟩ hname
      · exact obeys_throw _
    · obtain ⟨t, ht, -⟩ := h
      exact hname ⟨t, ht⟩

def IsTyped (M : Rule Geometry) (t : GeometryType) : Rule Geometry := fun cs g rest =>
  ∃ empty mid, IsHeader cs empty mid ∧
    if empty then g = t.empty ∧ rest = mid else InParentheses (Contents M t) mid g rest

theorem isTyped_iff {t : GeometryType} {g : Geometry} {rest : List Char} :
    IsTyped M t cs g rest ↔ ∃ mid, Tagged cs mid ∧
      (IsName "EMPTY" mid rest ∧ g = t.empty ∨ InParentheses (Contents M t) mid g rest) := by
  constructor
  · rintro ⟨empty, mid, ⟨mid₁, htag, hempty⟩, hg⟩
    have htag : Tagged cs mid₁ := by
      rcases htag with hz | ⟨-, rfl⟩
      · exact .z hz
      · exact .plain
    cases empty with
    | true =>
      obtain ⟨rfl, rfl⟩ := hg
      exact ⟨mid₁, htag, .inl ⟨hempty, rfl⟩⟩
    | false =>
      obtain ⟨-, rfl⟩ := hempty
      exact ⟨mid, htag, .inr hg⟩
  · rintro ⟨mid, htag, h⟩
    -- where no tag is written, a word that is none or a parenthesis comes next
    have hno : NoTag mid := by
      rcases h with ⟨he, -⟩ | ⟨hl, -, -⟩
      · have hname : HasName "EMPTY" mid := ((isName_iff (by decide)).1 he).1
        rw [HasName] at hname
        refine ⟨?_, ?_, ?_⟩ <;> rw [HasName, hname] <;> decide
      · exact ⟨not_hasName_of_mark hl rfl (by decide), not_hasName_of_mark hl rfl (by decide),
          not_hasName_of_mark hl rfl (by decide)⟩
    have htag : IsName "Z" cs mid ∨ NoTag cs ∧ mid = cs := by
      cases htag with
      | plain => exact .inr ⟨hno, rfl⟩
      | z hz => exact .inl hz
    rcases h with ⟨he, rfl⟩ | ⟨hl, hc, hr⟩
    · exact ⟨true, rest, ⟨mid, htag, he⟩, rfl, rfl⟩
    · exact ⟨false, mid, ⟨mid, htag, not_hasName_of_mark hl rfl (by decide), rfl⟩, hl, hc, hr⟩

theorem typed_iff {g : Geometry} {rest : List Char} :
    Typed M cs g rest ↔ ∃ t mid, IsName (GeometryType.name t) cs mid ∧ IsTyped M t mid g rest := by
  constructor
  · intro h
    cases h with
    | empty type tag h => exact ⟨_, _, type, isTyped_iff.2 ⟨_, tag, .inl ⟨h, rfl⟩⟩⟩
    | full type tag h => exact ⟨_, _, type, isTyped_iff.2 ⟨_, tag, .inr h⟩⟩
  · rintro ⟨t, mid, type, h⟩
    obtain ⟨mid', tag, ⟨he, rfl⟩ | h⟩ := isTyped_iff.1 h
    · exact .empty type tag he
    · exact .full type tag h

theorem GeometryType.toList_name_ne_nil (t : GeometryType) : t.name.toList ≠ [] := by
  cases t <;> decide

theorem obeys_geometryOf (hM : Shortens M) (h : Obeys member M) :
    Obeys (geometryOf member) (Typed M) := by
  intro cs i hi
  refine .step (show (get : Reader Input) i = .ok (i, i) from rfl) ?_
  refine Obeys.peekWord_bind (fun cs o => ?_) hi
  have hsplit : trimStart cs = lettersOf cs ++ (trimStart cs).dropWhile Char.isAlpha :=
    List.takeWhile_append_dropWhile.symm
  split
  · rename_i hempty
    refine (obeys_failHere _ _ (same_trimStart cs)).congr fun g rest => ⟨False.elim, fun hg => ?_⟩
    obtain ⟨t, mid, ⟨w, hw, -⟩, -⟩ := typed_iff.1 hg
    exact hw.ne_nil ((isWord_iff.1 hw).1.trans (List.isEmpty_iff.1 hempty))
  · refine .take (obeys_header.bind fun empty => obeys_body hM h _ empty) hsplit rfl
      fun g rest => ?_
    rw [typed_iff]
    constructor
    · rintro ⟨empty, mid, hheader, t, ht, hg⟩
      refine ⟨t, _, (isName_iff t.toList_name_ne_nil).2 ⟨?_, hsplit⟩, empty, mid, hheader, hg⟩
      rw [HasName, ht, String.toList_ofList]
    · rintro ⟨t, mid, type, empty, mid', hheader, hg⟩
      obtain ⟨hname, htext⟩ := (isName_iff t.toList_name_ne_nil).1 type
      obtain rfl := List.append_cancel_left (hsplit.symm.trans htext)
      refine ⟨empty, mid', hheader, t, ?_, hg⟩
      rw [show (lettersOf cs).map Char.toUpper = t.name.toList from hname, String.ofList_toList]

theorem obeys_geometry (n : Nat) : Obeys (geometry n) (IsGeometry n) := by
  induction n with
  | zero => exact obeys_geometryOf (fun _ _ _ h => h.elim) (obeys_failHere _ _)
  | succ n ih => exact obeys_geometryOf (shortens_geometry n) ih

/-- A text is read as a geometry when it is one by the grammar and only white space stands behind
it. Levels of members can be counted up to any number from the length of the text on. -/
theorem read_eq_ok_iff {text : String} {g : Geometry} : read text = .ok g ↔
    ∃ rest, IsGeometry text.toList.length text.toList g rest ∧ trimStart rest = [] := by
  unfold read
  have h :=
    obeys_geometry text.toList.length
      (show Same text.toList (⟨0, text.toList⟩ : Input).chars from rfl)
  constructor
  · intro hread
    cases hg : geometry text.toList.length ⟨0, text.toList⟩ with
    | error e =>
      simp only [hg] at hread
      cases hread
    | ok p =>
      obtain ⟨g', i⟩ := p
      obtain ⟨rest, hgeometry, hrest⟩ := h.sound hg
      simp only [hg, skipSpace, bind, Except.bind] at hread
      split at hread
      · rename_i hempty
        cases hread
        exact ⟨rest, hgeometry, hrest.trans (List.isEmpty_iff.1 hempty)⟩
      · cases hread
  · rintro ⟨rest, hgeometry, hrest⟩
    obtain ⟨i, hg, hsame⟩ := h.complete hgeometry
    have hempty : (trimStart i.chars).isEmpty = true := by
      rw [← show trimStart rest = trimStart i.chars from hsame, hrest]
      rfl
    simp only [hg, skipSpace, bind, Except.bind, hempty, if_true]
    rfl

end FeatureFilter.Wkt
