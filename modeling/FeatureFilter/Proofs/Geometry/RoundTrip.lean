import FeatureFilter.Proofs.Geometry.Reads

/-!
# Well-known text read back

The text of a geometry is read as the geometry when it can be written: all ordinates are finite, and
no list inside another one is empty (`Geometry.printable_iff`). Any other text of a geometry is
refused (`Wkt.read_text_error`).
-/

namespace FeatureFilter

def Coord.Finite (c : Coord) : Prop :=
  c.x.isFinite = true ∧ c.y.isFinite = true ∧ ∀ z, c.z = some z → z.isFinite = true

def Coord.IsNumber (c : Coord) : Prop := c.x ≠ .nan ∧ c.y ≠ .nan ∧ c.z ≠ some .nan

theorem Coord.Finite.isNumber {c : Coord} (h : c.Finite) : c.IsNumber := by
  refine ⟨?_, ?_, fun hz => ?_⟩
  · intro hx
    exact absurd h.1 (by simp [hx, Binary64.isFinite])
  · intro hy
    exact absurd h.2.1 (by simp [hy, Binary64.isFinite])
  · exact absurd (h.2.2 _ hz) (by simp [Binary64.isFinite])

/-- A line that can be written inside a list: it has points, and they are finite. -/
def LinePrintable (cs : List Coord) : Prop := cs ≠ [] ∧ ∀ c ∈ cs, c.Finite

def RingsPrintable (rings : List (List Coord)) : Prop := rings ≠ [] ∧ ∀ r ∈ rings, LinePrintable r

namespace Geometry

mutual

/-- Whether the text of the geometry stands for it: ordinates are finite, and only the outermost
list may be empty. -/
def Printable : Geometry → Prop
  | point c => ∀ p, c = some p → p.Finite
  | lineString cs | multiPoint cs => ∀ c ∈ cs, c.Finite
  | polygon rings | multiLineString rings => ∀ r ∈ rings, LinePrintable r
  | multiPolygon polygons => ∀ p ∈ polygons, RingsPrintable p
  | collection members => AllPrintable members

def AllPrintable : List Geometry → Prop
  | [] => True
  | g :: gs => g.Printable ∧ AllPrintable gs

end

mutual

/-- No list inside another list of the geometry is empty. Members of collections may be empty like
any other geometry. -/
def Full : Geometry → Prop
  | point _ | lineString _ | multiPoint _ => True
  | polygon rings | multiLineString rings => ∀ r ∈ rings, r ≠ []
  | multiPolygon polygons => ∀ p ∈ polygons, p ≠ [] ∧ ∀ r ∈ p, r ≠ []
  | collection members => AllFull members

def AllFull : List Geometry → Prop
  | [] => True
  | g :: gs => g.Full ∧ AllFull gs

end

mutual

/-- How deep collections are nested; those without members do not count. -/
def depth : Geometry → Nat
  | collection members => depthAll members
  | _ => 0

def depthAll : List Geometry → Nat
  | [] => 0
  | g :: gs => max (g.depth + 1) (depthAll gs)

end

end Geometry

/-! ## Texts as characters -/

theorem toList_joined_cons (separator s : String) (ss : List String) :
    (joined separator (s :: ss)).toList =
      s.toList ++ (ss.map String.toList).flatMap (separator.toList ++ ·) := by
  induction ss generalizing s with
  | nil => simp [joined]
  | cons t ss ih => simp [joined, ih]

def commaChars (txt : α → List Char) (xs : List α) : List Char := xs.flatMap fun x => ',' :: txt x

theorem toList_joined_comma (s : String) (ss : List String) :
    (joined "," (s :: ss)).toList = s.toList ++ commaChars String.toList ss := by
  rw [toList_joined_cons, commaChars, List.flatMap_map]
  rfl

theorem toList_listText_nil : (listText []).toList = ['(', ')'] := rfl

theorem toList_listText_cons (txt : α → String) (x : α) (xs : List α) (rest : List Char) :
    (listText ((x :: xs).map txt)).toList ++ rest =
      '(' :: ((txt x).toList ++ (commaChars (fun y => (txt y).toList) xs ++ ')' :: rest)) := by
  rw [listText, List.map_cons, String.toList_append, String.toList_append, toList_joined_comma]
  simp [commaChars, List.flatMap_map]

namespace Wkt

/-- What stands behind an item of a list: a comma or the closing parenthesis. -/
def BehindItem (cs : List Char) : Prop := ∃ c rest, cs = c :: rest ∧ (c = ',' ∨ c = ')')

theorem BehindItem.behindOrdinate {cs : List Char} (h : BehindItem cs) : BehindOrdinate cs := by
  obtain ⟨c, rest, rfl, hc⟩ := h
  exact ⟨c, rest, rfl, .inr hc⟩

theorem BehindItem.noSpace {cs : List Char} (h : BehindItem cs) : NoSpace cs := by
  obtain ⟨c, rest, rfl, hc⟩ := h
  refine noSpace_cons.2 ?_
  rcases hc with rfl | rfl <;> rfl

/-! ## Coordinates -/

/-- The letters that text for an ordinate that is no number starts with, and that a reader of what
stands behind a coordinate refuses. -/
def Stray (c : Char) : Prop := c = 'i' ∨ c = 'N'

instance (c : Char) : Decidable (Stray c) := inferInstanceAs (Decidable (_ ∨ _))

def RefusesStray (r : Reader α) : Prop := ∀ c cs, Stray c → Fails r (c :: cs)

/-- A coordinate is read when it is finite. A height that is no number is left unread, so that it is
the reader of what follows that refuses it. -/
theorem reads_coord (c : Coord) {f : Coord → Reader β} {q : Prop} {rest rest' : List Char} {w : β}
    (h : BehindItem rest) (hf : Reads q (f c) rest w rest') (hs : ∀ d, RefusesStray (f d)) :
    Reads (c.Finite ∧ q) (coord >>= f) (c.text.toList ++ rest) w rest' := by
  obtain ⟨x, y, z⟩ := c
  have hblank (b : List Char) : BehindOrdinate (' ' :: b) := ⟨' ', b, rfl, .inl rfl⟩
  simp only [coord, bind_assoc]
  cases z with
  | none =>
    have ht : (Coord.mk x y none).text.toList ++ rest = (Layout.ordinate.text x).toList ++
        (' ' :: ((Layout.ordinate.text y).toList ++ rest)) := by
      simp [Coord.text]
    have hn : startsNumber rest.head? = false := by
      obtain ⟨c, rest, rfl, hc⟩ := h
      rcases hc with rfl | rfl <;> rfl
    rw [ht]
    refine ((reads_number x (hblank _) (.inl rfl)).bind ((reads_number y h.behindOrdinate
      (.inr rfl)).bind (.after (takes_peek h.noSpace) (q := q) ?_))).congr ?_
    · rw [hn]
      simpa using hf
    · simp [Coord.Finite, and_assoc]
  | some z =>
    have ht : (Coord.mk x y (some z)).text.toList ++ rest = (Layout.ordinate.text x).toList ++
        (' ' :: ((Layout.ordinate.text y).toList ++
          (' ' :: ((Layout.ordinate.text z).toList ++ rest)))) := by
      simp [Coord.text]
    rw [ht]
    refine ((reads_number x (hblank _) (.inl rfl)).bind ((reads_number y (hblank _)
      (.inr rfl)).bind (.after (takes_peek_blank (noSpace_ordinate z rest))
        (q := z.isFinite = true ∧ q) ?_))).congr ?_
    · obtain ⟨c, cs, hc, -, hstart⟩ := ordinate_head z
      rcases hstart with hstart | ⟨hz, hstray⟩
      · have hhead : startsNumber ((Layout.ordinate.text z).toList ++ rest).head? = true := by
          rw [hc]
          exact hstart
        rw [hhead, if_pos rfl, bind_assoc]
        refine (reads_number z h.behindOrdinate (.inl rfl)).bind ?_
        simpa using hf
      · have hhead : startsNumber ((Layout.ordinate.text z).toList ++ rest).head? = false := by
          rw [hc]
          rcases hstray with rfl | rfl <;> rfl
        rw [hhead, if_neg Bool.false_ne_true, pure_bind]
        refine (Fails.reads (v := w) ?_).congr (by simp [hz])
        rw [hc]
        exact hs _ _ _ hstray
    · simp [Coord.Finite, and_assoc]

/-! ## Lists -/

/-- The reader reads items as `txt` writes them when `p` holds, whatever stands behind them in a
list, and refuses the end of the list. -/
structure ReadsItems (p : α → Prop) (item : Reader α) (txt : α → List Char) : Prop where
  reads : ∀ (x : α) {β : Type} {f : α → Reader β} {q : Prop} {rest rest' : List Char} {w : β},
    BehindItem rest → Reads q (f x) rest w rest' → (∀ y, RefusesStray (f y)) →
      Reads (p x ∧ q) (item >>= f) (txt x ++ rest) w rest'
  refuses : ∀ rest, Fails item (')' :: rest)

/-- A reader that takes an item whole, or else fails. -/
theorem ReadsItems.of {p : α → Prop} {item : Reader α} {txt : α → List Char}
    (h : ∀ x rest, BehindItem rest → Reads (p x) item (txt x ++ rest) x rest)
    (hr : ∀ rest, Fails item (')' :: rest)) : ReadsItems p item txt :=
  ⟨fun x _ _ _ _ _ _ hb hf _ => (h x _ hb).bind hf, hr⟩

theorem fails_expect_stray {d : Char} (hd : ¬ Stray d) {f : Unit → Reader α} :
    RefusesStray (expect d >>= f) := by
  intro c cs hc
  have hw : isWhiteSpace c = false := by rcases hc with rfl | rfl <;> rfl
  have hne : c ≠ d := by
    rintro rfl
    exact hd hc
  exact (fails_expect hw hne).bind f

variable {p : α → Prop} {item : Reader α} {txt : α → List Char}

theorem refusesStray_moreItems (n : Nat) {k : List α → Reader β} (hk : ∀ ys, RefusesStray (k ys)) :
    RefusesStray (moreItems item n >>= k) := by
  intro c cs hc
  cases n with
  | zero => exact (Takes.pure _ _).bind_fails (hk [] c cs hc)
  | succ n =>
    have hw : isWhiteSpace c = false := by rcases hc with rfl | rfl <;> rfl
    have hne : c ≠ ',' := by rcases hc with rfl | rfl <;> decide
    rw [moreItems, bind_assoc]
    refine (takes_eat_other hw hne).bind_fails ?_
    rw [if_neg Bool.false_ne_true, pure_bind]
    exact hk [] c cs hc

theorem reads_moreItems (h : ReadsItems p item txt) {q : Prop} {w : β} {rest rest' : List Char}
    (xs : List α) (n : Nat) (hn : xs.length ≤ n) {k : List α → Reader β}
    (hk : Reads q (k xs) (')' :: rest) w rest') (hs : ∀ ys, RefusesStray (k ys)) :
    Reads ((∀ x ∈ xs, p x) ∧ q) (moreItems item n >>= k) (commaChars txt xs ++ ')' :: rest) w
      rest' := by
  induction xs generalizing n k with
  | nil =>
    have hm : Takes (moreItems item n) (')' :: rest) [] (')' :: rest) := by
      cases n with
      | zero => exact .pure _ _
      | succ n =>
        rw [moreItems]
        refine (takes_no_comma rest).bind ?_
        exact .pure _ _
    exact (Reads.after hm hk).congr (by simp)
  | cons x xs ih =>
    obtain ⟨n, rfl⟩ : ∃ m, n = m + 1 := ⟨n - 1, by simp at hn; omega⟩
    have hb : BehindItem (commaChars txt xs ++ ')' :: rest) := by
      cases xs with
      | nil => exact ⟨')', rest, rfl, .inr rfl⟩
      | cons y ys => exact ⟨',', _, by simp [commaChars]; rfl, .inl rfl⟩
    have hc : commaChars txt (x :: xs) ++ ')' :: rest =
        ',' :: (txt x ++ (commaChars txt xs ++ ')' :: rest)) := by
      simp [commaChars]
    rw [hc, moreItems, bind_assoc]
    refine (Reads.after (takes_comma _) (q := p x ∧ (∀ y ∈ xs, p y) ∧ q) ?_).congr ?_
    · rw [if_pos rfl, bind_assoc]
      simp only [bind_assoc, pure_bind]
      refine h.reads x hb (ih n (by simpa using hn) hk fun ys => hs _) fun y => ?_
      exact refusesStray_moreItems n fun ys => hs _
    · simp [and_assoc]

theorem length_le_commaChars (txt : α → List Char) (xs : List α) :
    xs.length ≤ (commaChars txt xs).length := by
  induction xs with
  | nil => simp
  | cons x xs ih =>
    simp only [commaChars, List.flatMap_cons, List.length_append, List.length_cons] at ih ⊢
    omega

/-- A list in parentheses is read when it has items and all of them can be read. -/
theorem reads_listOf (h : ReadsItems p item txt) (xs : List α) (txt' : α → String)
    (htxt : ∀ x, (txt' x).toList = txt x) (rest : List Char) :
    Reads (xs ≠ [] ∧ ∀ x ∈ xs, p x) (listOf item) ((listText (xs.map txt')).toList ++ rest) xs
      rest := by
  cases xs with
  | nil =>
    rw [List.map_nil, toList_listText_nil]
    refine (Fails.reads (v := []) ?_).congr (by simp)
    exact (takes_open _).bind_fails ((h.refuses rest).bind _)
  | cons x xs =>
    rw [toList_listText_cons]
    simp only [htxt]
    have hb : BehindItem (commaChars txt xs ++ ')' :: rest) := by
      cases xs with
      | nil => exact ⟨')', rest, rfl, .inr rfl⟩
      | cons y ys => exact ⟨',', _, by simp [commaChars]; rfl, .inl rfl⟩
    have hlen : xs.length ≤ (commaChars txt xs ++ ')' :: rest).length := by
      have := length_le_commaChars txt xs
      rw [List.length_append]
      omega
    refine (Reads.after (takes_open _) (q := p x ∧ (∀ y ∈ xs, p y) ∧ True) ?_).congr (by simp)
    let closing (y : α) (n : Nat) : Reader (List α) :=
      moreItems item n >>= fun ys => expect ')' >>= fun _ => pure (y :: ys)
    refine h.reads x hb (Reads.withLength (f := closing x) ?_) fun y => ?_
    · refine reads_moreItems h xs _ hlen ?_ fun ys => ?_
      · exact ((takes_close rest).bind (.pure (x :: xs) rest)).reads
      · exact fails_expect_stray (by decide)
    · intro c cs hc
      refine Fails.withLength (f := closing y) ?_
      exact refusesStray_moreItems _ (fun ys => fails_expect_stray (by decide)) c cs hc

/-! ## Geometries -/

theorem readsItems_coord : ReadsItems Coord.Finite coord fun c => c.text.toList := by
  refine ⟨fun c _ _ _ _ _ _ hb hf hs => reads_coord c hb hf hs, fun rest => ?_⟩
  exact (fails_number [] (noSpace_cons.2 rfl) rfl (.inl rfl) (.inl rfl)).bind _

theorem readsItems_line :
    ReadsItems LinePrintable line fun cs => (Geometry.lineText cs).toList :=
  .of (fun cs rest _ => reads_listOf readsItems_coord cs _ (fun _ => rfl) rest)
    fun rest => (fails_open rest).bind _

theorem readsItems_rings :
    ReadsItems RingsPrintable rings fun rs => (Geometry.ringsText rs).toList :=
  .of (fun rs rest _ => reads_listOf readsItems_line rs _ (fun _ => rfl) rest)
    fun rest => (fails_open rest).bind _

theorem reads_closed (c : Coord) {f : Coord → α} (rest : List Char) :
    Reads c.Finite (coord >>= fun c => expect ')' >>= fun _ => pure (f c))
      (c.text.toList ++ ')' :: rest) (f c) rest := by
  refine (reads_coord c ⟨')', rest, rfl, .inr rfl⟩ ?_ fun d => ?_).congr (iff_of_eq (and_true _))
  · exact ((takes_close rest).bind (.pure (f c) rest)).reads
  · exact fails_expect_stray (by decide)

theorem readsItems_memberPoint :
    ReadsItems Coord.Finite memberPoint fun c => ("(" ++ c.text ++ ")").toList := by
  refine .of (fun c rest _ => ?_) fun rest => ?_
  · have ht : ("(" ++ c.text ++ ")").toList ++ rest = '(' :: (c.text.toList ++ ')' :: rest) := by
      simp
    rw [ht]
    refine .after (takes_eat rfl) ?_
    rw [if_pos rfl]
    exact reads_closed c rest
  · refine (takes_eat_other rfl (by decide)).bind_fails ?_
    exact (fails_number [] (noSpace_cons.2 rfl) rfl (.inl rfl) (.inl rfl)).bind _

def IsTypeWord (name : String) : Prop :=
  name.toList ≠ [] ∧ ∀ c ∈ name.toList, c.isAlpha = true ∧ c.toUpper = c ∧ isWhiteSpace c = false

/-- By the letters of the word: to test every character there is would not end. -/
instance (name : String) : Decidable (IsTypeWord name) :=
  @instDecidableAnd _ _ inferInstance (List.decidableBAll _ name.toList)

theorem IsTypeWord.map_toUpper {name : String} (h : IsTypeWord name) :
    String.ofList (name.toList.map Char.toUpper) = name := by
  have hm : name.toList.map Char.toUpper = name.toList := by
    rw [List.map_congr_left fun c hc => (h.2 c hc).2.1, List.map_id']
  rw [hm, String.ofList_toList]

theorem IsTypeWord.noSpace {name : String} (h : IsTypeWord name) (rest : List Char) :
    NoSpace (name.toList ++ rest) := by
  obtain ⟨c, cs, hc⟩ := List.exists_cons_of_ne_nil h.1
  rw [hc]
  exact noSpace_cons.2 (h.2 c (by rw [hc]; exact List.mem_cons_self ..)).2.2

/-- What stands behind a geometry: the end of the text or the next mark. -/
def BehindGeometry (cs : List Char) : Prop := cs = [] ∨ BehindItem cs

theorem BehindGeometry.noAlpha {cs : List Char} (h : BehindGeometry cs) :
    ∀ c, cs.head? = some c → c.isAlpha = false := by
  rintro c hc
  rcases h with rfl | ⟨d, rest, rfl, hd⟩
  · cases hc
  · cases hc
    rcases hd with rfl | rfl <;> rfl

variable {member : Reader Geometry} {name : String} {q : Prop} {w : Geometry}

/-- What reading a geometry comes to once it is known where its text starts. -/
def startedAt (member : Reader Geometry) (start : Nat) : Reader Geometry :=
  peekWord >>= fun word =>
    if word.isEmpty then failHere "geometry type" (some start)
    else take word.length >>= fun _ => header >>= fun empty =>
      body member (String.ofList (word.map Char.toUpper)) empty

/-- The word of a type, the tags behind it, and what they announce. -/
theorem reads_typeWord (hn : IsTypeWord name) {cs mid rest : List Char} {empty : Bool}
    (hc : ∀ c, cs.head? = some c → c.isAlpha = false) (hh : Takes header cs empty mid)
    (h : Reads q (body member name empty) mid w rest) :
    Reads q (geometryOf member) (name.toList ++ cs) w rest := by
  have hne : name.toList.isEmpty = false := by simpa using hn.1
  refine Reads.withOffset (f := startedAt member) fun n => ?_
  refine .after (takes_peekWord (hn.noSpace _) (fun c hc => (hn.2 c hc).1) hc) ?_
  rw [hne, if_neg Bool.false_ne_true]
  refine .after (takes_take_append _ _) ?_
  refine .after hh ?_
  rwa [hn.map_toUpper]

theorem takes_header (cs : List Char) : Takes header ('(' :: cs) false ('(' :: cs) := by
  have hnone : Takes peekWord ('(' :: cs) [] ('(' :: cs) :=
    takes_peekWord (w := []) (noSpace_cons.2 rfl) (by simp) (by rintro c ⟨⟩; rfl)
  refine hnone.bind ?_
  dsimp only [List.map_nil]
  rw [if_neg (by decide), if_neg (by decide)]
  refine hnone.bind ?_
  rw [if_neg (by decide)]
  exact .pure false _

theorem takes_header_empty {rest : List Char} (hr : BehindGeometry rest) :
    Takes header (' ' :: ("EMPTY".toList ++ rest)) true rest := by
  have hempty : IsTypeWord "EMPTY" := by decide
  have hword : Takes peekWord ("EMPTY".toList ++ rest) "EMPTY".toList ("EMPTY".toList ++ rest) :=
    takes_peekWord (hempty.noSpace _) (fun c hc => (hempty.2 c hc).1) hr.noAlpha
  have hblank : Takes peekWord (' ' :: ("EMPTY".toList ++ rest)) "EMPTY".toList
      ("EMPTY".toList ++ rest) :=
    takes_peekWord_blank (hempty.noSpace _) (fun c hc => (hempty.2 c hc).1) hr.noAlpha
  refine hblank.bind ?_
  dsimp only
  rw [if_neg (by decide), if_neg (by decide)]
  refine hword.bind ?_
  rw [if_pos (by decide)]
  exact (takes_take_append _ rest).bind (.pure true rest)

theorem reads_full (hn : IsTypeWord name) {cs rest : List Char}
    (h : Reads q (body member name false) ('(' :: cs) w rest) :
    Reads q (geometryOf member) (name.toList ++ '(' :: cs) w rest :=
  reads_typeWord hn (by rintro c ⟨⟩; rfl) (takes_header cs) h

theorem reads_empty (hn : IsTypeWord name) {rest : List Char} (hr : BehindGeometry rest)
    (h : Takes (body member name true) rest w rest) :
    Reads True (geometryOf member) ((name ++ " EMPTY").toList ++ rest) w rest := by
  have ht : (name ++ " EMPTY").toList ++ rest = name.toList ++ ' ' :: ("EMPTY".toList ++ rest) := by
    simp
  rw [ht]
  exact reads_typeWord hn (by rintro c ⟨⟩; rfl) (takes_header_empty hr) h.reads

theorem exists_listText (items : List String) (rest : List Char) :
    ∃ cs, (listText items).toList ++ rest = '(' :: cs :=
  ⟨_, by rw [listText, String.toList_append, String.toList_append]; rfl⟩

theorem reads_list (hn : IsTypeWord name) {items : List String} {rest : List Char}
    (h : Reads q (body member name false) ((listText items).toList ++ rest) w rest) :
    Reads q (geometryOf member) ((name ++ listText items).toList ++ rest) w rest := by
  obtain ⟨cs, hcs⟩ := exists_listText items rest
  rw [String.toList_append, List.append_assoc, hcs]
  rw [hcs] at h
  exact reads_full hn h

theorem reads_items (hn : IsTypeWord name) {make : List α → Geometry}
    (hempty : body member name true = pure (make []))
    (hbody : body member name false = listOf item >>= fun xs => pure (make xs))
    (h : ReadsItems p item txt) (xs : List α) {txt' : α → String}
    (htxt : ∀ x, (txt' x).toList = txt x) {rest : List Char} (hr : BehindGeometry rest) :
    Reads (∀ x ∈ xs, p x) (geometryOf member)
      ((if xs.isEmpty then name ++ " EMPTY" else name ++ listText (xs.map txt')).toList ++ rest)
      (make xs) rest := by
  cases xs with
  | nil =>
    refine (reads_empty hn hr ?_).congr (by simp)
    rw [hempty]
    exact .pure _ _
  | cons x xs =>
    rw [if_neg (by simp)]
    refine (reads_list hn (q := x :: xs ≠ [] ∧ ∀ y ∈ x :: xs, p y) ?_).congr (by simp)
    rw [hbody]
    exact (reads_listOf h (x :: xs) txt' htxt rest).andThen (.pure _ _)

theorem reads_flat (g : Geometry) (hg : ∀ gs, g ≠ .collection gs) {rest : List Char}
    (hr : BehindGeometry rest) :
    Reads g.Printable (geometryOf member) (g.text.toList ++ rest) g rest := by
  cases g with
  | point c =>
    cases c with
    | none =>
      refine (reads_empty (show IsTypeWord "POINT" by decide) hr (.pure _ _)).congr ?_
      simp [Geometry.Printable]
    | some c =>
      have ht : (Geometry.point (some c)).text.toList ++ rest =
          "POINT".toList ++ '(' :: (c.text.toList ++ ')' :: rest) := by
        simp [Geometry.text]
      rw [ht]
      refine (reads_full (by decide) (q := c.Finite) (w := .point (some c)) ?_).congr ?_
      · exact .after (takes_open _) (reads_closed c (f := fun c => Geometry.point (some c)) rest)
      · simp [Geometry.Printable]
  | lineString cs =>
    exact reads_items (by decide) rfl rfl readsItems_coord cs (fun _ => rfl) hr
  | polygon rings =>
    exact reads_items (by decide) rfl rfl readsItems_line rings (fun _ => rfl) hr
  | multiPoint cs =>
    exact reads_items (by decide) rfl rfl readsItems_memberPoint cs (fun _ => rfl) hr
  | multiLineString lines =>
    exact reads_items (by decide) rfl rfl readsItems_line lines (fun _ => rfl) hr
  | multiPolygon polygons =>
    exact reads_items (by decide) rfl rfl readsItems_rings polygons (fun _ => rfl) hr
  | collection gs => exact absurd rfl (hg gs)

end Wkt

namespace Geometry

theorem allPrintable_iff (gs : List Geometry) : AllPrintable gs ↔ ∀ g ∈ gs, g.Printable := by
  induction gs with
  | nil => simp [AllPrintable]
  | cons g gs ih => simp [AllPrintable, ih]

theorem allFull_iff (gs : List Geometry) : AllFull gs ↔ ∀ g ∈ gs, g.Full := by
  induction gs with
  | nil => simp [AllFull]
  | cons g gs ih => simp [AllFull, ih]

theorem mem_coordsAll {gs : List Geometry} {c : Coord} :
    c ∈ coordsAll gs ↔ ∃ g ∈ gs, c ∈ g.coords := by
  induction gs with
  | nil => simp [coordsAll]
  | cons g gs ih => simp [coordsAll, ih]

mutual

/-- A geometry can be written when its ordinates are finite and its inner lists are not empty. -/
theorem printable_iff : ∀ g : Geometry, g.Printable ↔ g.Full ∧ ∀ c ∈ g.coords, c.Finite
  | point c => by simp [Printable, Full, coords]
  | lineString cs | multiPoint cs => by simp [Printable, Full, coords]
  | polygon rings | multiLineString rings => by
    simp only [Printable, LinePrintable, Full, coords, List.forall_mem_flatten]
    exact ⟨fun h => ⟨fun r hr => (h r hr).1, fun r hr => (h r hr).2⟩,
      fun h r hr => ⟨h.1 r hr, h.2 r hr⟩⟩
  | multiPolygon polygons => by
    simp only [Printable, RingsPrintable, LinePrintable, Full, coords, List.forall_mem_flatten]
    constructor
    · intro h
      exact ⟨fun p hp => ⟨(h p hp).1, fun r hr => ((h p hp).2 r hr).1⟩,
        fun p hp r hr => ((h p hp).2 r hr).2⟩
    · intro h p hp
      exact ⟨(h.1 p hp).1, fun r hr => ⟨(h.1 p hp).2 r hr, h.2 p hp r hr⟩⟩
  | collection members => allPrintable_iff_full members

theorem allPrintable_iff_full : ∀ gs : List Geometry,
    AllPrintable gs ↔ AllFull gs ∧ ∀ c ∈ coordsAll gs, c.Finite
  | [] => by simp [AllPrintable, AllFull, coordsAll]
  | g :: gs => by
    simp only [AllPrintable, AllFull, coordsAll, List.forall_mem_append, printable_iff g,
      allPrintable_iff_full gs]
    exact and_and_and_comm

end

theorem depthAll_le_iff (gs : List Geometry) (n : Nat) :
    depthAll gs ≤ n ↔ ∀ g ∈ gs, g.depth + 1 ≤ n := by
  induction gs with
  | nil => simp [depthAll]
  | cons g gs ih => simp [depthAll, ih]

theorem coordsAll_eq (gs : List Geometry) : coordsAll gs = gs.flatMap coords := by
  induction gs with
  | nil => rfl
  | cons g gs ih => rw [coordsAll, ih, List.flatMap_cons]

theorem textAll_eq (gs : List Geometry) : textAll gs = gs.map text := by
  induction gs with
  | nil => rfl
  | cons g gs ih => rw [textAll, ih, List.map_cons]

theorem length_le_joined {s : String} {ss : List String} (h : s ∈ ss) :
    s.toList.length ≤ (joined "," ss).toList.length := by
  induction ss with
  | nil => cases h
  | cons t ts ih =>
    cases ts with
    | nil =>
      rw [List.mem_singleton.1 h]
      exact Nat.le_refl _
    | cons u us =>
      rw [joined, String.toList_append, String.toList_append, List.length_append,
        List.length_append]
      rcases List.mem_cons.1 h with rfl | h
      · omega
      · have := ih h
        omega

/-- The text is longer than its collections are deep. -/
theorem depth_le_length (g : Geometry) : g.depth ≤ g.text.toList.length := by
  match g with
  | point _ | lineString _ | polygon _ | multiPoint _ | multiLineString _ | multiPolygon _ =>
    exact Nat.zero_le _
  | collection gs =>
    rw [depth, depthAll_le_iff]
    intro g hg
    have hlen := depth_le_length g
    have hne : gs.isEmpty = false := by
      cases gs with
      | nil => cases hg
      | cons _ _ => rfl
    have hj := length_le_joined (List.mem_map_of_mem (f := text) hg)
    simp only [text, hne, Bool.false_eq_true, if_false, listText, String.toList_append,
      List.length_append, textAll_eq]
    have : "GEOMETRYCOLLECTION".toList.length = 18 := by decide
    omega

end Geometry

namespace Wkt

theorem fails_geometryOf_close {member : Reader Geometry} (rest : List Char) :
    Fails (geometryOf member) (')' :: rest) := by
  have hnone : Takes peekWord (')' :: rest) [] (')' :: rest) :=
    takes_peekWord (w := []) (noSpace_cons.2 rfl) (by simp) (by rintro c ⟨⟩; rfl)
  refine Fails.withOffset (f := startedAt member) fun n => ?_
  refine hnone.bind_fails ?_
  exact fails_failHere _ _ _

/-- With `n` levels a geometry is read when it can be written and is no deeper. -/
theorem reads_geometry (n : Nat) (g : Geometry) {rest : List Char} (hr : BehindGeometry rest) :
    Reads (g.Printable ∧ g.depth ≤ n) (geometry n) (g.text.toList ++ rest) g rest := by
  induction n generalizing g rest with
  | zero =>
    by_cases hg : ∃ gs, g = .collection gs
    · obtain ⟨gs, rfl⟩ := hg
      have hitem : ReadsItems (fun _ : Geometry => False)
          (failHere "geometry type" none : Reader Geometry) fun g => g.text.toList :=
        .of (fun g rest _ => (fails_failHere _ _ _).reads) fun rest => fails_failHere _ _ _
      rw [Geometry.text, Geometry.textAll_eq]
      refine (reads_items (by decide) rfl rfl hitem gs (fun _ => rfl) hr).congr ?_
      rw [Geometry.Printable, Geometry.depth, Geometry.allPrintable_iff, Geometry.depthAll_le_iff]
      exact ⟨fun h => ⟨fun g hg => (h g hg).elim, fun g hg => (h g hg).elim⟩,
        fun h g hg => absurd (h.2 g hg) (Nat.not_succ_le_zero _)⟩
    · refine (reads_flat g (fun gs h => hg ⟨gs, h⟩) hr).congr ?_
      have hd : g.depth = 0 := by
        cases g <;> first | rfl | exact absurd ⟨_, rfl⟩ hg
      simp [hd]
  | succ n ih =>
    by_cases hg : ∃ gs, g = .collection gs
    · obtain ⟨gs, rfl⟩ := hg
      have hitem : ReadsItems (fun g : Geometry => g.Printable ∧ g.depth ≤ n) (geometry n)
          fun g => g.text.toList := by
        refine .of (fun g rest hb => ih g (.inr hb)) fun rest => ?_
        cases n <;> exact fails_geometryOf_close rest
      rw [Geometry.text, Geometry.textAll_eq]
      refine (reads_items (by decide) rfl rfl hitem gs (fun _ => rfl) hr).congr ?_
      rw [Geometry.Printable, Geometry.depth, Geometry.allPrintable_iff, Geometry.depthAll_le_iff]
      simp only [Nat.add_le_add_iff_right, forall_and]
    · refine (reads_flat g (fun gs h => hg ⟨gs, h⟩) hr).congr ?_
      have hd : g.depth = 0 := by
        cases g <;> first | rfl | exact absurd ⟨_, rfl⟩ hg
      simp [hd]

/-- The text of a geometry that can be written is read as the geometry. -/
theorem read_text {g : Geometry} (h : g.Printable) : read g.text = .ok g := by
  have hend : BehindGeometry [] := .inl rfl
  have hr := (reads_geometry g.text.toList.length g hend).takes ⟨h, g.depth_le_length⟩ 0
  rw [List.append_nil] at hr
  obtain ⟨offset, hr⟩ := hr
  obtain ⟨offset', hs⟩ := takes_skipSpace noSpace_nil offset
  simp only [read, hr, bind, Except.bind, hs]
  rfl

/-- The text of any other geometry is refused. -/
theorem read_text_error {g : Geometry} (h : ¬ g.Printable) : ∃ e, read g.text = .error e := by
  have hend : BehindGeometry [] := .inl rfl
  obtain ⟨e, hr⟩ := (reads_geometry g.text.toList.length g hend).fails (fun hp => h hp.1) 0
  rw [List.append_nil] at hr
  refine ⟨e, ?_⟩
  simp only [read, hr]
  rfl

end Wkt

end FeatureFilter
