import FeatureFilter.Proofs.Geometry.Rules
import FeatureFilter.Proofs.Text.Slice

/-!
# Well-known text is read exactly

Readers of well-known text go from places of a text to places further on, and the errors that name
an offset name such a place, so that no offset falls inside a character (`Steady`). The numbers that
bound how many levels and items a reader looks for never decide: with larger ones it does the same
(`geometry_eq_of_length_le`, `moreItems_eq_of_length_le`). With the rules of the grammar this says
what the reader of a text does (`read_exact`).
-/

namespace FeatureFilter.Wkt

variable {α β : Type} {start i j k : Input} {n : Nat}

/-! ## Places -/

/-- The input stands behind characters of another one, and its offset counts their bytes. -/
def Input.LeadsTo (i j : Input) : Prop :=
  ∃ w, i.chars = w ++ j.chars ∧ j.offset = i.offset + byteLength w

namespace Input.LeadsTo

theorem refl (i : Input) : i.LeadsTo i := ⟨[], rfl, rfl⟩

theorem trans (hij : i.LeadsTo j) (hjk : j.LeadsTo k) : i.LeadsTo k := by
  obtain ⟨v, hv, hj⟩ := hij
  obtain ⟨w, hw, hk⟩ := hjk
  refine ⟨v ++ w, ?_, ?_⟩
  · rw [hv, hw, List.append_assoc]
  · rw [hk, hj, byteLength_append, Nat.add_assoc]

theorem length_le (h : i.LeadsTo j) : j.chars.length ≤ i.chars.length := by
  obtain ⟨w, hw, -⟩ := h
  rw [hw, List.length_append]
  exact Nat.le_add_left _ _

/-- A place of a text falls between two of its characters. -/
theorem isValid {text : String} (h : (⟨0, text.toList⟩ : Input).LeadsTo j) :
    String.Pos.Raw.IsValid text ⟨j.offset⟩ := by
  obtain ⟨w, hw, hj⟩ := h
  refine String.Pos.Raw.isValid_iff_exists_append.2
    ⟨String.ofList w, String.ofList j.chars, ?_, ?_⟩
  · rw [← String.ofList_append, ← hw, String.ofList_toList]
  · rw [hj, Nat.zero_add, String.rawEndPos, ← byteLength_toList, String.toList_ofList]

theorem offset_le {text : String} (h : (⟨0, text.toList⟩ : Input).LeadsTo j) :
    j.offset ≤ text.utf8ByteSize := by
  obtain ⟨w, hw, hj⟩ := h
  rw [hj, Nat.zero_add, ← byteLength_toList, show text.toList = w ++ j.chars from hw,
    byteLength_append]
  exact Nat.le_add_right _ _

end Input.LeadsTo

def Error.position? : Error → Option Nat
  | unexpectedToken _ _ position | trailingInput position => some position
  | unknownGeometryType _ | unsupportedOrdinates _ | invalidNumber _ => none

/-- From a place behind `start` the reader goes on to a place further on. Where it fails, the offset
that it names is that of a place behind `start`. -/
structure Steady (start : Input) (r : Reader α) : Prop where
  ok : ∀ ⦃i a j⦄, start.LeadsTo i → r i = .ok (a, j) → i.LeadsTo j
  error : ∀ ⦃i e p⦄, start.LeadsTo i → r i = .error e → e.position? = some p →
    ∃ j, start.LeadsTo j ∧ j.offset = p

namespace Steady

variable {r : Reader α} {f : α → Reader β}

theorem pure (a : α) : Steady start (pure a : Reader α) where
  ok := by
    intro i b j hi h
    cases h
    exact .refl i
  error := by
    intro i e p hi h
    cases h

theorem throw {e : Error} (he : e.position? = none) : Steady start (throw e : Reader α) where
  ok := by
    intro i b j hi h
    cases h
  error := by
    intro i e' p hi h hp
    cases h
    rw [he] at hp
    cases hp

theorem bind (h : Steady start r) (hf : ∀ a, Steady start (f a)) : Steady start (r >>= f) where
  ok := by
    intro i b k hi he
    change (r i >>= fun p => f p.1 p.2) = .ok (b, k) at he
    cases hr : r i with
    | error e =>
      rw [hr] at he
      cases he
    | ok p =>
      rw [hr] at he
      have hij := h.ok hi hr
      exact hij.trans ((hf p.1).ok (hi.trans hij) he)
  error := by
    intro i e p hi he hp
    change (r i >>= fun p => f p.1 p.2) = .error e at he
    cases hr : r i with
    | error e' =>
      rw [hr] at he
      cases he
      exact h.error hi hr hp
    | ok q =>
      rw [hr] at he
      exact (hf q.1).error (hi.trans (h.ok hi hr)) he hp

theorem look {f : Input → Reader β} (hf : ∀ i, start.LeadsTo i → Steady start (f i)) :
    Steady start (get >>= f) where
  ok := fun i _ _ hi he => (hf i hi).ok hi he
  error := fun i _ _ hi he hp => (hf i hi).error hi he hp

theorem ite {p : Prop} [Decidable p] {r' : Reader α} (h : Steady start r) (h' : Steady start r') :
    Steady start (if p then r else r') := by
  split
  · exact h
  · exact h'

end Steady

theorem steady_take (n : Nat) : Steady start (take n) where
  ok := by
    intro i w j hi h
    cases h
    exact ⟨i.chars.take n, (List.take_append_drop ..).symm, rfl⟩
  error := by
    intro i e p hi h
    cases h

theorem steady_skipSpace : Steady start skipSpace where
  ok := by
    intro i u j hi h
    cases h
    exact ⟨i.chars.takeWhile isWhiteSpace, List.takeWhile_append_dropWhile.symm, rfl⟩
  error := by
    intro i e p hi h
    cases h

theorem steady_peek : Steady start peek :=
  steady_skipSpace.bind fun _ => .look fun _ _ => .pure _

theorem steady_peekWord : Steady start peekWord :=
  steady_skipSpace.bind fun _ => .look fun _ _ => .pure _

/-- What is missing is named where the reader stands or at a place given to it. -/
theorem steady_failHere (expected : String) {position : Option Nat}
    (h : ∀ p, position = some p → ∃ j, start.LeadsTo j ∧ j.offset = p) :
    Steady start (failHere expected position : Reader α) := by
  refine steady_peek.bind fun c => .look fun i hi => ?_
  constructor
  · intro k b l hk he
    cases he
  · intro k e p hk he hp
    cases he
    obtain rfl : position.getD i.offset = p := Option.some.inj hp
    cases position with
    | none => exact ⟨i, hi, rfl⟩
    | some p => exact h p rfl

theorem steady_missing (expected : String) : Steady start (failHere expected none : Reader α) :=
  steady_failHere expected fun _ h => nomatch h

theorem steady_eat (c : Char) : Steady start (eat c) :=
  steady_peek.bind fun _ => .ite ((steady_take 1).bind fun _ => .pure _) (.pure _)

theorem steady_expect (c : Char) : Steady start (expect c) :=
  (steady_eat c).bind fun _ => .ite (.pure _) (steady_missing _)

theorem steady_number : Steady start number := by
  refine steady_skipSpace.bind fun _ => .look fun i _ => .ite (steady_missing _) ?_
  split
  · exact .throw rfl
  · exact (steady_take _).bind fun _ => .pure _

theorem steady_coord : Steady start coord :=
  steady_number.bind fun _ => steady_number.bind fun _ => steady_peek.bind fun _ =>
    .ite (steady_number.bind fun _ => .pure _) (.pure _)

theorem steady_moreItems {item : Reader α} (h : Steady start item) (n : Nat) :
    Steady start (moreItems item n) := by
  induction n with
  | zero => exact .pure _
  | succ n ih =>
    exact (steady_eat ',').bind fun _ => .ite (h.bind fun _ => ih.bind fun _ => .pure _) (.pure _)

theorem steady_listOf {item : Reader α} (h : Steady start item) : Steady start (listOf item) :=
  (steady_expect '(').bind fun _ => h.bind fun _ => .look fun _ _ =>
    (steady_moreItems h _).bind fun _ => (steady_expect ')').bind fun _ => .pure _

theorem steady_line : Steady start line := steady_listOf steady_coord

theorem steady_rings : Steady start rings := steady_listOf steady_line

theorem steady_memberPoint : Steady start memberPoint :=
  (steady_eat '(').bind fun _ =>
    .ite (steady_coord.bind fun _ => (steady_expect ')').bind fun _ => .pure _) steady_coord

theorem steady_header : Steady start header := by
  have hend : Steady start (do
      let word ← peekWord
      if word.map Char.toUpper = "EMPTY".toList then
        let _ ← take word.length
        return true
      else return false) :=
    steady_peekWord.bind fun _ => .ite ((steady_take _).bind fun _ => .pure _) (.pure _)
  exact steady_peekWord.bind fun _ => .ite ((steady_take 1).bind fun _ => hend)
    (.ite ((Steady.throw rfl).bind fun _ => hend) hend)

theorem steady_body {member : Reader Geometry} (h : Steady start member) (name : String)
    (empty : Bool) : Steady start (body member name empty) := by
  unfold body
  split
  · exact .ite (.pure _) ((steady_expect '(').bind fun _ => steady_coord.bind fun _ =>
      (steady_expect ')').bind fun _ => .pure _)
  · exact .ite (.pure _) (steady_line.bind fun _ => .pure _)
  · exact .ite (.pure _) (steady_rings.bind fun _ => .pure _)
  · exact .ite (.pure _) ((steady_listOf steady_memberPoint).bind fun _ => .pure _)
  · exact .ite (.pure _) (steady_rings.bind fun _ => .pure _)
  · exact .ite (.pure _) ((steady_listOf steady_rings).bind fun _ => .pure _)
  · exact .ite (.pure _) ((steady_listOf h).bind fun _ => .pure _)
  · exact .throw rfl

theorem steady_geometryOf {member : Reader Geometry} (h : Steady start member) :
    Steady start (geometryOf member) := by
  refine .look fun i hi => steady_peekWord.bind fun word => .ite ?_ ?_
  · refine steady_failHere _ fun p hp => ⟨i, hi, Option.some.inj hp⟩
  · exact (steady_take _).bind fun _ => steady_header.bind fun _ => steady_body h _ _

theorem steady_geometry (n : Nat) : Steady start (geometry n) := by
  induction n with
  | zero => exact steady_geometryOf (steady_missing _)
  | succ n ih => exact steady_geometryOf ih

/-- The offset that an error names is that of a place of the text. -/
theorem leadsTo_of_read_eq_error {text : String} {e : Error} {p : Nat} (h : read text = .error e)
    (hp : e.position? = some p) : ∃ j, (⟨0, text.toList⟩ : Input).LeadsTo j ∧ j.offset = p := by
  have hroot := Input.LeadsTo.refl ⟨0, text.toList⟩
  unfold read at h
  cases hg : geometry text.toList.length ⟨0, text.toList⟩ with
  | error e' =>
    simp only [hg] at h
    cases h
    exact (steady_geometry _).error hroot hg hp
  | ok q =>
    obtain ⟨g, i⟩ := q
    have hi := (steady_geometry _).ok hroot hg
    have hj := hi.trans (steady_skipSpace.ok hi (show skipSpace i = .ok ((), _) from rfl))
    simp only [hg, skipSpace, bind, Except.bind] at h
    split at h
    · cases h
    · cases h
      exact ⟨_, hj, Option.some.inj hp⟩

/-! ## Bounds that never decide -/

/-- The readers do the same on inputs of less than `n` characters. -/
def SameBelow (n : Nat) (r r' : Reader α) : Prop := ∀ i, i.chars.length < n → r i = r' i

def NoLonger (r : Reader α) : Prop := ∀ ⦃i a j⦄, r i = .ok (a, j) → j.chars.length ≤ i.chars.length

theorem Steady.noLonger {r : Reader α} (h : ∀ start, Steady start r) : NoLonger r :=
  fun i _ _ he => ((h i).ok (.refl i) he).length_le

/-- After a first step the readers go on alike wherever that step leads. -/
theorem bind_apply_congr {r : Reader α} {f f' : α → Reader β}
    (h : ∀ a j, r i = .ok (a, j) → f a j = f' a j) : (r >>= f) i = (r >>= f') i := by
  show (r i >>= fun p => f p.1 p.2) = (r i >>= fun p => f' p.1 p.2)
  cases hr : r i with
  | error e => rfl
  | ok p => exact h p.1 p.2 hr

namespace SameBelow

variable {r r' : Reader α} {f f' : α → Reader β}

theorem refl (r : Reader α) : SameBelow n r r := fun _ _ => rfl

theorem bind (h : SameBelow n r r') (hr : NoLonger r) (hf : ∀ a, SameBelow n (f a) (f' a)) :
    SameBelow n (r >>= f) (r' >>= f') := by
  intro i hi
  rw [show (r' >>= f') i = (r >>= f') i from
    congrArg (fun x : Except Error (α × Input) => x >>= fun p => f' p.1 p.2) (h i hi).symm]
  exact bind_apply_congr fun a j he => hf a j (Nat.lt_of_le_of_lt (hr he) hi)

theorem andThen (hr : NoLonger r) (hf : ∀ a, SameBelow n (f a) (f' a)) :
    SameBelow n (r >>= f) (r >>= f') := (refl r).bind hr hf

theorem ite {p : Prop} [Decidable p] {s s' : Reader α} (h : SameBelow n r s)
    (h' : SameBelow n r' s') : SameBelow n (if p then r else r') (if p then s else s') := by
  split
  · exact h
  · exact h'

theorem moreItems {item item' : Reader α} (h : SameBelow n item item')
    (hitem : ∀ start, Steady start item) (m : Nat) :
    SameBelow n (moreItems item m) (moreItems item' m) := by
  induction m with
  | zero => exact .refl _
  | succ m ih =>
    exact .andThen (Steady.noLonger fun _ => steady_eat ',') fun _ =>
      .ite (h.bind (Steady.noLonger hitem) fun _ =>
        ih.bind (Steady.noLonger fun _ => steady_moreItems (hitem _) m) fun _ => .refl _) (.refl _)

theorem listOf {item item' : Reader α} (h : SameBelow n item item')
    (hitem : ∀ start, Steady start item) : SameBelow n (listOf item) (listOf item') :=
  .andThen (Steady.noLonger fun _ => steady_expect '(') fun _ =>
    h.bind (Steady.noLonger hitem) fun _ =>
      .andThen (fun _ _ _ he => by cases he; exact Nat.le_refl _) fun i =>
        (h.moreItems hitem i.chars.length).bind
          (Steady.noLonger fun _ => steady_moreItems (hitem _) _) fun _ => .refl _

theorem body {member member' : Reader Geometry} (h : SameBelow n member member')
    (hmember : ∀ start, Steady start member) (name : String) (empty : Bool) :
    SameBelow n (body member name empty) (body member' name empty) := by
  unfold Wkt.body
  split
  case h_7 => exact .ite (.refl _) ((h.listOf hmember).bind
    (Steady.noLonger fun _ => steady_listOf (hmember _)) fun _ => .refl _)
  all_goals exact .refl _

/-- Members stand behind the word of the type, in shorter inputs. -/
theorem geometryOf {member member' : Reader Geometry} (h : SameBelow n member member')
    (hmember : ∀ start, Steady start member) :
    SameBelow (n + 1) (geometryOf member) (geometryOf member') := by
  intro i hi
  refine bind_apply_congr fun i' j he => ?_
  cases he
  refine bind_apply_congr fun word j hword => ?_
  split
  · rfl
  · rename_i hne
    refine bind_apply_congr fun w k hw => ?_
    have hshorter : k.chars.length < n := by
      have hj := Steady.noLonger (fun _ => steady_peekWord) hword
      cases hword
      cases hw
      have hpos : 0 < ((trimStart i.chars).takeWhile Char.isAlpha).length :=
        List.length_pos_iff.2 fun h => hne (List.isEmpty_iff.2 h)
      have hle : ((trimStart i.chars).takeWhile Char.isAlpha).length ≤ (trimStart i.chars).length :=
        (List.takeWhile_sublist _).length_le
      simp only [List.length_drop] at hj ⊢
      omega
    exact SameBelow.andThen (Steady.noLonger fun _ => steady_header)
      (fun _ => h.body hmember _ _) k hshorter

end SameBelow

/-- Texts have no more levels of members than characters: with room for more of them a geometry is
read in the same way. -/
theorem sameBelow_geometry (n : Nat) : SameBelow (n + 1) (geometry n) (geometry (n + 1)) := by
  induction n with
  | zero => exact .geometryOf (fun _ h => absurd h (Nat.not_lt_zero _)) fun _ => steady_missing _
  | succ n ih => exact ih.geometryOf fun _ => steady_geometry n

theorem geometry_eq_of_length_le {m : Nat} (h : i.chars.length ≤ m) :
    geometry m i = geometry i.chars.length i := by
  induction m, h using Nat.le_induction with
  | base => rfl
  | succ m hm ih => rw [← sameBelow_geometry m i (Nat.lt_succ_of_le hm), ih]

/-- A mark that is taken is one character less. -/
theorem length_lt_of_eat {c : Char} (h : eat c i = .ok (true, j)) :
    j.chars.length < i.chars.length := by
  have hpeek : peek i = .ok ((trimStart i.chars).head?, _) := rfl
  change (peek i >>= fun p => _) = _ at h
  rw [hpeek] at h
  change (if (trimStart i.chars).head? = some c then _ else _ : Reader Bool) _ = _ at h
  split at h
  · rename_i hhead
    cases h
    obtain ⟨rest, hrest⟩ := List.head?_eq_some_iff.1 hhead
    have := length_trimStart_le i.chars
    rw [hrest] at this ⊢
    exact this
  · cases h

theorem moreItems_nil (item : Reader α) (n : Nat) {o : Nat} :
    moreItems item n ⟨o, []⟩ = .ok ([], ⟨o, []⟩) := by
  cases n <;> rfl

/-- Every further item has a comma in front of it: with room for more of them than there are
characters they are read in the same way. -/
theorem moreItems_eq_of_length_le {item : Reader α} (hitem : ∀ start, Steady start item) {m : Nat}
    (hm : i.chars.length ≤ m) (hn : i.chars.length ≤ n) :
    moreItems item m i = moreItems item n i := by
  induction m generalizing n i with
  | zero =>
    obtain ⟨o, cs⟩ := i
    obtain rfl := List.eq_nil_of_length_eq_zero (Nat.le_zero.1 hm)
    rw [moreItems_nil, moreItems_nil]
  | succ m ih =>
    cases n with
    | zero =>
      obtain ⟨o, cs⟩ := i
      obtain rfl := List.eq_nil_of_length_eq_zero (Nat.le_zero.1 hn)
      rw [moreItems_nil, moreItems_nil]
    | succ n =>
      refine bind_apply_congr fun comma j hj => ?_
      cases comma with
      | false => rfl
      | true =>
        have hlt := length_lt_of_eat hj
        refine bind_apply_congr (r := item) fun a k hk => ?_
        have hle := Steady.noLonger hitem hk
        exact congrArg (fun x : Except Error (List α × Input) => x >>= fun p => .ok (a :: p.1, p.2))
          (ih (i := k) (n := n) (by omega) (by omega))

/-! ## Numbers -/

/-- What may stand in a number behind a character, or at its start. -/
def MayFollow (before : Option Char) (c : Char) : Prop :=
  c.isDigit = true ∨ c = '.' ∨ c = 'e' ∨ c = 'E' ∨
    ((c = '-' ∨ c = '+') ∧ (before = none ∨ before = some 'e' ∨ before = some 'E'))

/-- As many characters as may stand behind each other in a number. -/
inductive LongestRun : Option Char → List Char → List Char → Prop where
  | stop {before : Option Char} {rest : List Char}
    (h : ∀ c, rest.head? = some c → ¬ MayFollow before c) : LongestRun before [] rest
  | go {before : Option Char} {c : Char} {run rest : List Char} (h : MayFollow before c)
    (tail : LongestRun (some c) run rest) : LongestRun before (c :: run) rest

/-- Whether a sign may stand behind a character, or at the start. -/
def signMayFollow (before : Option Char) : Bool :=
  before = none ∨ before = some 'e' ∨ before = some 'E'

theorem signMayFollow_of_isDigit {c : Char} (h : c.isDigit = true ∨ c = '.') :
    signMayFollow (some c) = false := by
  have hne : c ≠ 'e' ∧ c ≠ 'E' := by
    constructor <;> rintro rfl <;> revert h <;> decide
  simp [signMayFollow, hne]

theorem numberRun_of_mayFollow {before : Option Char} {c : Char} (h : MayFollow before c)
    (cs : List Char) : numberRun (signMayFollow before) (c :: cs) =
      c :: numberRun (signMayFollow (some c)) cs := by
  rw [numberRun]
  split
  · rename_i hd
    rw [signMayFollow_of_isDigit (by simpa using hd)]
  · rename_i hd
    split
    · rename_i he
      rcases (by simpa using he : c = 'e' ∨ c = 'E') with rfl | rfl <;> rfl
    · rename_i he
      simp only [Bool.or_eq_true, decide_eq_true_eq, not_or] at hd he
      obtain h | h | h | h | ⟨hsign, hbefore⟩ := h
      · exact absurd h hd.1
      · exact absurd h hd.2
      · exact absurd h he.1
      · exact absurd h he.2
      · rw [if_pos (by simp [signMayFollow, hbefore, hsign])]
        rcases hsign with rfl | rfl <;> rfl

theorem numberRun_of_not_mayFollow {before : Option Char} {c : Char} (h : ¬ MayFollow before c)
    (cs : List Char) : numberRun (signMayFollow before) (c :: cs) = [] := by
  simp only [MayFollow, not_or, not_and] at h
  obtain ⟨hd, hpoint, he, he', hsign⟩ := h
  rw [numberRun, if_neg (by simp [hd, hpoint]), if_neg (by simp [he, he']), if_neg]
  simp only [signMayFollow, Bool.and_eq_true, Bool.or_eq_true, decide_eq_true_eq]
  tauto

theorem longestRun_iff {before : Option Char} {run rest : List Char} :
    LongestRun before run rest ↔ numberRun (signMayFollow before) (run ++ rest) = run := by
  induction run generalizing before with
  | nil =>
    constructor
    · rintro ⟨h⟩
      cases rest with
      | nil => rfl
      | cons c rest => exact numberRun_of_not_mayFollow (h c rfl) rest
    · refine fun h => .stop fun c hc hfollow => ?_
      obtain ⟨rest, rfl⟩ := List.head?_eq_some_iff.1 hc
      cases (numberRun_of_mayFollow hfollow rest).symm.trans h
  | cons c run ih =>
    constructor
    · rintro (_ | ⟨hfollow, tail⟩)
      rw [List.cons_append, numberRun_of_mayFollow hfollow, ih.1 tail]
    · intro h
      rw [List.cons_append] at h
      by_cases hfollow : MayFollow before c
      · rw [numberRun_of_mayFollow hfollow] at h
        exact .go hfollow (ih.2 (List.cons.inj h).2)
      · cases (numberRun_of_not_mayFollow hfollow _).symm.trans h

theorem trimStart_eq_nil_iff {cs : List Char} :
    trimStart cs = [] ↔ ∀ c ∈ cs, isWhiteSpace c = true := List.dropWhile_eq_nil_iff

/-! ## The whole reader -/

/-- A text is read as a geometry exactly when the grammar makes it one, with only white space behind
it. There a number is the longest run of its characters that is the text of one, and a third
ordinate is read exactly where the next character can start it. Otherwise there is an error, and the
offset that it names falls between two characters. The readers only ever go from places of the text
to places further on, and room for more levels and more items than the text has characters changes
nothing. -/
theorem read_exact (text : String) :
    (∀ g, read text = .ok g ↔ ∃ n rest, IsGeometry n text.toList g rest ∧
      ∀ c ∈ rest, isWhiteSpace c = true) ∧
    (∀ cs x rest, IsNumber cs x rest ↔ ∃ run, trimStart cs = run ++ rest ∧
      LongestRun none run rest ∧ Binary64.read? run = some x) ∧
    (∀ cs c rest, IsCoord cs c rest ↔ ∃ x mid, IsNumber cs x mid ∧ ∃ y mid', IsNumber mid y mid' ∧
      if startsNumber (trimStart mid').head? = true
        then ∃ z, IsNumber mid' z rest ∧ c = ⟨x, y, some z⟩
        else c = ⟨x, y, none⟩ ∧ rest = mid') ∧
    (∀ e, read text = .error e → ∀ p ∈ e.position?,
      p ≤ text.utf8ByteSize ∧ String.Pos.Raw.IsValid text ⟨p⟩) ∧
    (∀ start, Steady start peekWord ∧ Steady start number ∧ ∀ n, Steady start (geometry n)) ∧
    (∀ (i : Input) (m : Nat), i.chars.length ≤ m → geometry m i = geometry i.chars.length i ∧
      ∀ n, moreItems (geometry n) m i = moreItems (geometry n) i.chars.length i) := by
  refine ⟨fun g => ?_, fun cs x rest => ?_, fun cs c rest => isCoord_iff, fun e he p hp => ?_,
    fun start => ⟨steady_peekWord, steady_number, steady_geometry⟩, fun i m hm =>
      ⟨geometry_eq_of_length_le hm, fun n =>
        moreItems_eq_of_length_le (fun _ => steady_geometry n) hm (Nat.le_refl _)⟩⟩
  · rw [read_eq_ok_iff]
    constructor
    · rintro ⟨rest, hg, hrest⟩
      exact ⟨_, rest, hg, trimStart_eq_nil_iff.1 hrest⟩
    · rintro ⟨n, rest, hg, hrest⟩
      exact ⟨rest, hg.level (Nat.le_refl _), trimStart_eq_nil_iff.2 hrest⟩
  · exact exists_congr fun run => and_congr_right fun _ => and_congr_left fun _ =>
      (longestRun_iff : LongestRun none run rest ↔ _).symm
  · obtain ⟨j, hj, rfl⟩ := leadsTo_of_read_eq_error he hp
    exact ⟨hj.offset_le, hj.isValid⟩

end FeatureFilter.Wkt
