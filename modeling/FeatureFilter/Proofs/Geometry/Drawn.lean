import FeatureFilter.Proofs.Filter.Nesting
import FeatureFilter.Proofs.Number.Written

/-!
# Geometries that are read

Whatever the reader of well-known text gives has no empty list inside another list, and no ordinate
that is not a number. Its own text has at most one level of parentheses more than the text that it
was read from (`Wkt.drawnAt_of_read`): those around the points of a `MULTIPOINT`.
-/

namespace FeatureFilter

namespace Geometry

/-- A geometry as a text can draw it. -/
structure Drawn (g : Geometry) : Prop where
  full : g.Full
  number : ∀ c ∈ g.coords, c.IsNumber

theorem Drawn.collection {gs : List Geometry} (h : ∀ g ∈ gs, g.Drawn) : (collection gs).Drawn := by
  refine ⟨(allFull_iff gs).2 fun g hg => (h g hg).full, fun c hc => ?_⟩
  obtain ⟨g, hg, hc⟩ := mem_coordsAll.1 hc
  exact (h g hg).number c hc

theorem Drawn.envelope {west south east north : Binary64} (hw : west ≠ .nan) (hs : south ≠ .nan)
    (he : east ≠ .nan) (hn : north ≠ .nan) : (envelope west south east north).Drawn := by
  have hz : (none : Option Binary64) ≠ some .nan := by simp
  refine ⟨by simp [Geometry.envelope, Full], ?_⟩
  simp only [Geometry.envelope, coords, List.flatten_cons, List.flatten_nil, List.append_nil,
    List.forall_mem_cons]
  exact ⟨⟨hw, hs, hz⟩, ⟨hw, hn, hz⟩, ⟨he, hn, hz⟩, ⟨he, hs, hz⟩, ⟨hw, hs, hz⟩, by simp⟩

end Geometry

/-! ## Parentheses -/

namespace Wkt

/-- How many parentheses are open at most, `d` being open in front. Texts in quotes are no part of a
geometry: nothing is counted from the first quote on. -/
def peak (d : Nat) : List Char → Nat
  | [] => d
  | c :: cs =>
    if c = '\'' ∨ c = '"' then d
    else if c = '(' then peak (d + 1) cs
    else if c = ')' then max d (peak (d - 1) cs)
    else peak d cs

theorem le_peak (d : Nat) (cs : List Char) : d ≤ peak d cs := by
  induction cs generalizing d with
  | nil => exact Nat.le_refl d
  | cons c cs ih =>
    rw [peak]
    split
    · exact Nat.le_refl d
    · split
      · exact (Nat.le_succ d).trans (ih _)
      · split
        · exact Nat.le_max_left _ _
        · exact ih d

theorem peak_mono {d e : Nat} (h : d ≤ e) (cs : List Char) : peak d cs ≤ peak e cs := by
  induction cs generalizing d e with
  | nil => exact h
  | cons c cs ih =>
    rw [peak, peak]
    split
    · exact h
    · split
      · exact ih (Nat.succ_le_succ h)
      · split
        · exact Nat.max_le.2 ⟨h.trans (Nat.le_max_left _ _),
            (ih (Nat.sub_le_sub_right h 1)).trans (Nat.le_max_right _ _)⟩
        · exact ih h

/-- A character that closes nothing and is no quote. -/
def ClosesNone (c : Char) : Prop := c ≠ ')' ∧ c ≠ '\'' ∧ c ≠ '"'

theorem peak_le_append {u : List Char} (h : ∀ c ∈ u, ClosesNone c) (d : Nat) (cs : List Char) :
    peak d cs ≤ peak d (u ++ cs) := by
  induction u with
  | nil => exact Nat.le_refl _
  | cons c u ih =>
    obtain ⟨⟨hclose, hquote, hquotes⟩, hu⟩ := List.forall_mem_cons.1 h
    rw [List.cons_append, peak, if_neg (by simp [hquote, hquotes])]
    simp only [hclose, if_false]
    split
    · exact (ih hu).trans (peak_mono (Nat.le_succ d) _)
    · exact ih hu

/-- No more than `m` parentheses are open at a time, `k` being open in front of the text. -/
def Open (k m : Nat) (cs : List Char) : Prop := peak k cs ≤ m

theorem Open.le {k m : Nat} {cs : List Char} (h : Open k m cs) : k ≤ m := (le_peak k cs).trans h

theorem Open.of_append {k m : Nat} {u cs : List Char} (h : Open k m (u ++ cs))
    (hu : ∀ c ∈ u, ClosesNone c) : Open k m cs :=
  (peak_le_append hu k cs).trans h

theorem Open.leftParen {k m : Nat} {cs : List Char} (h : Open k m ('(' :: cs)) :
    Open (k + 1) m cs := by
  simpa [Open, peak] using h

theorem Open.rightParen {k m : Nat} {cs : List Char} (h : Open (k + 1) m (')' :: cs)) :
    Open k m cs := by
  simp only [Open, peak] at h
  exact (Nat.le_max_right _ _).trans h

/-! ## What readers ensure -/

variable {α β : Type} {pre : List Char → Prop} {post : α → List Char → Prop} {k m : Nat}

/-- Where `pre` holds of the text in front of the reader, `post` holds of what it gives and of the
text that it leaves. -/
def Ensures (pre : List Char → Prop) (r : Reader α) (post : α → List Char → Prop) : Prop :=
  ∀ i a i', r i = .ok (a, i') → pre i.chars → post a i'.chars

namespace Ensures

theorem pure {a : α} (h : ∀ cs, pre cs → post a cs) : Ensures pre (pure a) post := by
  intro i a' i' he hpre
  cases he
  exact h _ hpre

theorem throw (e : Error) : Ensures pre (throw e) post := by
  intro i a i' he
  cases he

theorem bind {mid : α → List Char → Prop} {post : β → List Char → Prop} {r : Reader α}
    {f : α → Reader β} (h : Ensures pre r mid) (hf : ∀ a, Ensures (mid a) (f a) post) :
    Ensures pre (r >>= f) post := by
  intro i b i' he hpre
  have he : (r i >>= fun p => f p.1 p.2) = .ok (b, i') := he
  cases hr : r i with
  | error e =>
    rw [hr] at he
    cases he
  | ok p =>
    rw [hr] at he
    exact hf p.1 p.2 b i' he (h i p.1 p.2 hr hpre)

theorem mono {pre' : List Char → Prop} {post' : α → List Char → Prop} {r : Reader α}
    (h : Ensures pre r post) (hpre : ∀ cs, pre' cs → pre cs)
    (hpost : ∀ a cs, post a cs → post' a cs) : Ensures pre' r post' :=
  fun i a i' he hi => hpost a _ (h i a i' he (hpre _ hi))

theorem known {p : Prop} {r : Reader α} (h : p → Ensures pre r post) :
    Ensures (fun cs => pre cs ∧ p) r post :=
  fun i a i' he hi => h hi.2 i a i' he hi.1

end Ensures

/-- The number of open parentheses is as before, and what is given has the property. -/
abbrev Gives (k m : Nat) (P : α → Prop) (r : Reader α) : Prop :=
  Ensures (Open k m) r fun a cs => Open k m cs ∧ P a

theorem ensures_get : Ensures pre (get : Reader Input) fun i cs => pre cs ∧ i.chars = cs := by
  intro i a i' he hpre
  cases he
  exact ⟨hpre, rfl⟩

theorem ensures_skipSpace : Ensures (Open k m) skipSpace fun _ => Open k m := by
  intro i a i' he hopen
  cases he
  have hsplit : i.chars.takeWhile isWhiteSpace ++ trimStart i.chars = i.chars :=
    List.takeWhile_append_dropWhile
  rw [← hsplit] at hopen
  refine hopen.of_append fun c hc => ?_
  have hspace := List.all_eq_true.1 List.all_takeWhile c hc
  refine ⟨?_, ?_, ?_⟩ <;> rintro rfl <;> exact absurd hspace (by decide)

theorem ensures_peek : Ensures (Open k m) peek fun c cs => Open k m cs ∧ c = cs.head? :=
  ensures_skipSpace.bind fun _ => ensures_get.bind fun _ => .pure fun _ h => ⟨h.1, h.2 ▸ rfl⟩

theorem ensures_failHere (expected : String) (position : Option Nat) :
    Ensures pre (failHere expected position) post := by
  have hany {γ : Type} (pre : List Char → Prop) (r : Reader γ) : Ensures pre r fun _ _ => True :=
    fun _ _ _ _ _ => trivial
  exact (hany _ _).bind fun _ => (hany _ _).bind fun _ => .throw _

theorem ensures_take (n : Nat) :
    Ensures pre (take n) fun w cs => pre (w ++ cs) ∧ w = (w ++ cs).take n := by
  intro i a i' he hpre
  cases he
  simp only [List.take_append_drop, and_true]
  exact hpre

theorem ensures_eat (c : Char) :
    Ensures (Open k m) (eat c) fun b cs => Open k m (if b then c :: cs else cs) := by
  refine ensures_peek.bind fun d => ?_
  split
  · rename_i hd
    refine (ensures_take 1).bind fun w => .pure fun cs h => ?_
    obtain ⟨⟨hopen, hhead⟩, hw⟩ := h
    have hcs : w ++ cs = c :: cs := by
      cases hwcs : w ++ cs with
      | nil => simp [hwcs, hd] at hhead
      | cons e es =>
        rw [hwcs] at hhead hw
        rw [hd] at hhead
        cases hhead
        rw [hw] at hwcs
        exact hwcs.symm
    rwa [hcs] at hopen
  · exact .pure fun cs h => h.1

theorem ensures_expect {c : Char} :
    Ensures (Open k m) (expect c) fun _ cs => Open k m (c :: cs) := by
  refine (ensures_eat c).bind fun eaten => ?_
  cases eaten with
  | true => exact .pure fun cs h => h
  | false => exact ensures_failHere _ _

theorem ensures_open : Ensures (Open k m) (expect '(') fun _ => Open (k + 1) m :=
  ensures_expect.mono (fun _ h => h) fun _ _ h => h.leftParen

theorem ensures_close : Ensures (Open (k + 1) m) (expect ')') fun _ => Open k m :=
  ensures_expect.mono (fun _ h => h) fun _ _ h => h.rightParen

/-! ## Ordinates -/

theorem closesNone_of_mem_numberRun {signed : Bool} {cs : List Char} {c : Char}
    (h : c ∈ numberRun signed cs) : ClosesNone c := by
  refine ⟨?_, ?_, ?_⟩ <;> rintro rfl <;> exact absurd (mem_numberRun h) (by decide)

theorem mem_splitSign {cs : List Char} {c : Char} (h : c ∈ (Decimal.splitSign cs).2) : c ∈ cs := by
  unfold Decimal.splitSign at h
  split at h
  · exact List.mem_cons_of_mem _ h
  · exact List.mem_cons_of_mem _ h
  · exact h

/-- The run of a number holds no letter of the word for not-a-number. -/
theorem ne_nan_of_numberRun {signed : Bool} {cs : List Char} {x : Binary64}
    (h : Binary64.read? (numberRun signed cs) = some x) : x ≠ .nan := by
  refine Binary64.beq_self_iff.1 (Binary64.beq_self_of_read? (fun he => ?_) h)
  have hn : 'n' ∈ (Decimal.splitSign (numberRun signed cs)).2.map Char.toLower := by
    rw [he]
    decide
  obtain ⟨c, hc, hlower⟩ := List.mem_map.1 hn
  exact toLower_ne_of_mem_numberRun (mem_splitSign hc) hlower

theorem gives_number : Gives k m (· ≠ .nan) number := by
  refine ensures_skipSpace.bind fun _ => ensures_get.bind fun i => ?_
  show Ensures _ (if (numberRun true i.chars).isEmpty then failHere "number" none else _) _
  split
  · exact ensures_failHere _ _
  · split
    · exact .throw _
    · rename_i hx
      refine (ensures_take _).bind fun w => .pure fun cs h => ⟨?_, ne_nan_of_numberRun hx⟩
      obtain ⟨⟨hopen, hi⟩, hw⟩ := h
      rw [hi, take_numberRun] at hw
      exact hopen.of_append fun c hc => closesNone_of_mem_numberRun (hw ▸ hc)

theorem gives_coord : Gives k m Coord.IsNumber coord := by
  refine gives_number.bind fun x => .known fun hx => gives_number.bind fun y => .known fun hy => ?_
  refine (ensures_peek.mono (fun _ h => h) fun _ _ h => h.1).bind fun c => ?_
  split
  · exact gives_number.bind fun z => .known fun hz =>
      .pure fun cs h => ⟨h, hx, hy, fun h => hz (Option.some.inj h)⟩
  · exact .pure fun cs h => ⟨h, hx, hy, by simp⟩

/-! ## Lists -/

variable {P : α → Prop} {item : Reader α}

theorem ensures_comma : Ensures (Open k m) (eat ',') fun _ => Open k m := by
  refine (ensures_eat ',').mono (fun _ h => h) fun comma cs h => ?_
  cases comma with
  | true =>
    have hcomma : ∀ c ∈ [','], ClosesNone c := by simp [ClosesNone]
    exact Open.of_append (u := [',']) h hcomma
  | false => exact h

theorem gives_moreItems (h : Gives k m P item) (n : Nat) :
    Gives k m (fun as => ∀ a ∈ as, P a) (moreItems item n) := by
  induction n with
  | zero => exact .pure fun cs h => ⟨h, by simp⟩
  | succ n ih =>
    refine ensures_comma.bind fun comma => ?_
    split
    · exact h.bind fun a => .known fun ha => ih.bind fun as => .known fun has =>
        .pure fun cs h => ⟨h, List.forall_mem_cons.2 ⟨ha, has⟩⟩
    · exact .pure fun cs h => ⟨h, by simp⟩

/-- The items of a list are one level deeper than the list, which is not empty. -/
theorem gives_listOf (h : Gives (k + 1) m P item) :
    Gives k m (fun as => as ≠ [] ∧ k + 1 ≤ m ∧ ∀ a ∈ as, P a) (listOf item) := by
  refine ensures_open.bind fun _ => h.bind fun a => .known fun ha => ensures_get.bind fun i => ?_
  have hrest : Ensures (fun cs => Open (k + 1) m cs ∧ i.chars = cs)
      (moreItems item i.chars.length)
      fun as cs => Open (k + 1) m cs ∧ k + 1 ≤ m ∧ ∀ a ∈ as, P a :=
    (gives_moreItems h _).mono (fun _ h => h.1) fun _ _ h => ⟨h.1, h.1.le, h.2⟩
  refine hrest.bind fun as => .known fun has => ensures_close.bind fun _ => .pure fun cs h => ?_
  exact ⟨h, List.cons_ne_nil _ _, has.1, List.forall_mem_cons.2 ⟨ha, has.2⟩⟩

theorem gives_memberPoint : Gives k m Coord.IsNumber memberPoint := by
  refine (ensures_eat '(').bind fun opened => ?_
  cases opened with
  | true =>
    have hclosed : Ensures (Open (k + 1) m) (do let c ← coord; expect ')'; return c)
        fun c cs => Open k m cs ∧ c.IsNumber :=
      gives_coord.bind fun c => .known fun hc => ensures_close.bind fun _ =>
        .pure fun cs h => ⟨h, hc⟩
    exact hclosed.mono (fun _ h => h.leftParen) fun _ _ h => h
  | false => exact gives_coord

/-! ## Geometries -/

theorem listNesting_le {items : List Nat} {b : Nat} (h : ∀ x ∈ items, x ≤ b) :
    listNesting items ≤ b + 1 := by
  induction items with
  | nil => exact Nat.le_add_left 1 b
  | cons x xs ih =>
    obtain ⟨hx, hxs⟩ := List.forall_mem_cons.1 h
    have hrest : xs.foldr max 0 ≤ b := Nat.le_of_succ_le_succ (ih hxs)
    exact Nat.succ_le_succ (Nat.max_le.2 ⟨hx, hrest⟩)

theorem typedNesting_le {items : List Nat} {b : Nat} (h : ∀ x ∈ items, x ≤ b) :
    Geometry.typedNesting items ≤ b + 1 := by
  unfold Geometry.typedNesting
  split
  · exact Nat.zero_le _
  · exact listNesting_le h

theorem nestingAll_eq (gs : List Geometry) : Geometry.nestingAll gs = gs.map Geometry.nesting := by
  induction gs with
  | nil => rfl
  | cons g gs ih => rw [Geometry.nestingAll, ih, List.map_cons]

/-- What is read where `k` parentheses are open, and no more than `m` ever are. -/
structure DrawnAt (k m : Nat) (g : Geometry) : Prop where
  drawn : g.Drawn
  levels : k + g.nesting ≤ m + 1

theorem DrawnAt.empty {g : Geometry} (hk : k ≤ m) (hg : g.isEmpty = true) : DrawnAt k m g := by
  have hdrawn : g.Drawn ∧ g.nesting = 0 := by
    cases g with
    | point c => cases c with
      | none => exact ⟨⟨trivial, by simp [Geometry.coords]⟩, rfl⟩
      | some c => cases hg
    | lineString items | polygon items | multiPoint items | multiLineString items
    | multiPolygon items | collection items => cases items with
      | nil => exact ⟨⟨by simp [Geometry.Full, Geometry.AllFull],
          by simp [Geometry.coords, Geometry.coordsAll]⟩, rfl⟩
      | cons a as => cases hg
  exact ⟨hdrawn.1, by omega⟩

theorem gives_body {member : Reader Geometry} (h : Gives (k + 1) m (DrawnAt (k + 1) m) member)
    (name : String) (empty : Bool) : Gives k m (DrawnAt k m) (body member name empty) := by
  have hline {k : Nat} := gives_listOf (gives_coord (k := k + 1) (m := m))
  have hrings {k : Nat} := gives_listOf (hline (k := k + 1))
  unfold body
  cases empty with
  | true =>
    split
    any_goals exact .pure fun cs h => ⟨h, .empty h.le rfl⟩
    exact .throw _
  | false =>
    split
    · exact ensures_open.bind fun _ => gives_coord.bind fun c => .known fun hc =>
        ensures_close.bind fun _ => .pure fun cs h =>
          ⟨h, ⟨trivial, by simpa [Geometry.coords] using hc⟩, Nat.succ_le_succ h.le⟩
    · refine hline.bind fun cs => .known fun ⟨_, hle, hcs⟩ => .pure fun _ h =>
        ⟨h, ⟨trivial, hcs⟩, ?_⟩
      have hn : (Geometry.lineString cs).nesting ≤ 0 + 1 := typedNesting_le (by simp)
      omega
    · refine hrings.bind fun rings => .known fun ⟨_, hle, hr⟩ => .pure fun _ h => ⟨h,
        ⟨fun r hr' => (hr r hr').1, List.forall_mem_flatten.2 fun r hr' => (hr r hr').2.2⟩, ?_⟩
      have hn : (Geometry.polygon rings).nesting ≤ 1 + 1 := typedNesting_le (by simp)
      omega
    · refine (gives_listOf gives_memberPoint).bind fun cs => .known fun ⟨_, hle, hcs⟩ =>
        .pure fun _ h => ⟨h, ⟨trivial, hcs⟩, ?_⟩
      have hn : (Geometry.multiPoint cs).nesting ≤ 1 + 1 := typedNesting_le (by simp)
      omega
    · refine hrings.bind fun lines => .known fun ⟨_, hle, hl⟩ => .pure fun _ h => ⟨h,
        ⟨fun r hr => (hl r hr).1, List.forall_mem_flatten.2 fun r hr => (hl r hr).2.2⟩, ?_⟩
      have hn : (Geometry.multiLineString lines).nesting ≤ 1 + 1 := typedNesting_le (by simp)
      omega
    · refine (gives_listOf hrings).bind fun ps => .known fun ⟨hne, _, hp⟩ => .pure fun _ h => ⟨h,
        ⟨fun p hp' => ⟨(hp p hp').1, fun r hr => ((hp p hp').2.2 r hr).1⟩,
          List.forall_mem_flatten.2 <| List.forall_mem_flatten.2 fun p hp' r hr =>
            ((hp p hp').2.2 r hr).2.2⟩, ?_⟩
      have hn : (Geometry.multiPolygon ps).nesting ≤ 2 + 1 :=
        typedNesting_le (List.forall_mem_map.2 fun p _ => listNesting_le (by simp))
      obtain ⟨p, hmem⟩ := List.exists_mem_of_ne_nil ps hne
      have := (hp p hmem).2.1
      omega
    · refine (gives_listOf h).bind fun gs => .known fun ⟨_, hle, hgs⟩ => .pure fun _ h => ⟨h,
        .collection fun g hg => (hgs g hg).drawn, ?_⟩
      have hn : (Geometry.collection gs).nesting ≤ m - k + 1 := by
        refine typedNesting_le ?_
        rw [nestingAll_eq]
        exact List.forall_mem_map.2 fun g hg => by
          have := (hgs g hg).levels
          omega
      omega
    · exact .throw _

theorem ensures_peekWord :
    Ensures (Open k m) peekWord fun w cs => Open k m cs ∧ w = cs.takeWhile Char.isAlpha :=
  ensures_skipSpace.bind fun _ => ensures_get.bind fun _ => .pure fun _ h => ⟨h.1, h.2 ▸ rfl⟩

theorem ensures_takeLetters {w : List Char} {n : Nat} (hn : n ≤ w.length) :
    Ensures (fun cs => Open k m cs ∧ w = cs.takeWhile Char.isAlpha) (take n) fun _ => Open k m := by
  refine (ensures_take n).mono (fun _ h => h) fun taken cs h => ?_
  obtain ⟨⟨hopen, hw⟩, htaken⟩ := h
  refine hopen.of_append fun c hc => ?_
  have hsplit : w ++ (taken ++ cs).dropWhile Char.isAlpha = taken ++ cs := by
    rw [hw, List.takeWhile_append_dropWhile]
  rw [← hsplit, List.take_append_of_le_length hn] at htaken
  have hmem : c ∈ (taken ++ cs).takeWhile Char.isAlpha := hw ▸ List.mem_of_mem_take (htaken ▸ hc)
  have halpha := List.all_eq_true.1 List.all_takeWhile c hmem
  refine ⟨?_, ?_, ?_⟩ <;> rintro rfl <;> exact absurd halpha (by decide)

theorem ensures_header : Ensures (Open k m) header fun _ => Open k m := by
  have hend : Ensures (Open k m) (do
      let word ← peekWord
      if word.map Char.toUpper = "EMPTY".toList then
        let _ ← take word.length
        return true
      else return false) fun _ => Open k m := by
    refine ensures_peekWord.bind fun word => ?_
    split
    · exact (ensures_takeLetters (Nat.le_refl _)).bind fun _ => .pure fun _ h => h
    · exact .pure fun _ h => h.1
  refine ensures_peekWord.bind fun tag => ?_
  simp only
  split
  · rename_i hz
    have hlength : 1 ≤ tag.length := by
      rw [← List.length_map Char.toUpper, hz]
      exact Nat.le_refl 1
    exact (ensures_takeLetters hlength).bind fun _ => hend
  · split
    · exact (Ensures.throw _).bind fun _ => hend
    · exact hend.mono (fun _ h => h.1) fun _ _ h => h

theorem gives_geometryOf {member : Reader Geometry}
    (h : ∀ k m, Gives k m (DrawnAt k m) member) : Gives k m (DrawnAt k m) (geometryOf member) := by
  refine ensures_get.bind fun i => ?_
  refine Ensures.mono ?_ (fun _ h => h.1) fun _ _ h => h
  refine ensures_peekWord.bind fun word => ?_
  split
  · exact ensures_failHere _ _
  · exact (ensures_takeLetters (Nat.le_refl _)).bind fun _ => ensures_header.bind fun empty =>
      gives_body (h _ _) _ empty

theorem gives_geometry (n k m : Nat) : Gives k m (DrawnAt k m) (geometry n) := by
  induction n generalizing k m with
  | zero => exact gives_geometryOf fun _ _ => ensures_failHere _ _
  | succ n ih => exact gives_geometryOf ih

/-- What is read has no empty list inside another list, all its ordinates are numbers, and its text
takes at most one level of parentheses more than the text it was read from. -/
theorem drawnAt_of_read {text : String} {g : Geometry} (h : read text = .ok g) :
    DrawnAt 0 (peak 0 text.toList) g := by
  unfold read at h
  cases hg : geometry text.toList.length ⟨0, text.toList⟩ with
  | error e =>
    simp only [hg] at h
    cases h
  | ok p =>
    obtain ⟨g', rest⟩ := p
    have hdrawn := gives_geometry _ 0 (peak 0 text.toList) _ _ _ hg (Nat.le_refl _)
    simp only [hg, skipSpace, bind, Except.bind] at h
    split at h
    · cases h
      exact hdrawn.2
    · cases h

end Wkt

end FeatureFilter
