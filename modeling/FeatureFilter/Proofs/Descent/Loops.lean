import FeatureFilter.Proofs.Descent.Tracking
import FeatureFilter.Proofs.Syntax.Shapes

/-!
# Loops that follow a reader

A loop of the machine goes round until a round has nothing to go on with; each round takes a token,
so that it needs no more rounds than there are tokens ahead, and one to find that it is done. Loops
over items behind a link follow `Reader.repeated`, those over the tags and the coordinates of a
geometry what reads them.
-/

namespace FeatureFilter

open Reader (many repeated)

/-- What two steps have in common may depend on what was read before. -/
theorem Reader.bind_congr_of_ok {α β : Type} {x : Reader α} {f f' : α → Reader β} {c : Cursor}
    (h : ∀ a c', x c = .ok (a, c') → f a c' = f' a c') : (x >>= f) c = (x >>= f') c := by
  cases hx : x c with
  | ok r => rw [bind_of_ok hx, bind_of_ok hx, h _ _ hx]
  | error e => rw [bind_of_error hx, bind_of_error hx]

theorem Reader.ne_nil_of_many {α κ : Type} {link? : TokenKind → Option κ} {item : Reader α}
    {c c' : Cursor} {xs : List (κ × α)} (hlink : (link? (c.kind 0)).isSome) (hahead : c.ahead ≠ [])
    (h : many (linked link? item) c = .ok (xs, c')) : xs ≠ [] := by
  obtain ⟨n, hn⟩ := Nat.exists_eq_succ_of_ne_zero (mt List.length_eq_zero_iff.1 hahead)
  rw [many_eq, hn] at h
  obtain ⟨o, c₁, ho, h⟩ := bind_eq_ok.1 h
  rcases linked_eq_ok.1 ho with ⟨hnone, -⟩ | ⟨k, a, -, -, rfl⟩
  · rw [hnone] at hlink
    cases hlink
  · obtain ⟨ys, c₂, -, h⟩ := bind_eq_ok.1 h
    obtain ⟨rfl, -⟩ := pure_eq_ok.1 h
    exact List.cons_ne_nil _ _

namespace Descent

open Routine

variable {α β κ : Type} {p : Input} {s s' : Session} {i j d e n rounds : Nat}

/-! ## Rounds -/

section Rounds

variable {round : β → Routine (Option β)} {b b' : β}

theorem loop_succ : loop round (n + 1) b s =
    (round b >>= goRound (loop round n) s.now b) s := rfl

theorem loop_of_none (h : round b s = (.ok none, s')) : loop round (n + 1) b s = (.ok b, s') := by
  rw [loop_succ, bind_of_ok h]
  rfl

/-- A round that takes a token is followed by the next one. -/
theorem loop_of_some (h : round b s = (.ok (some b'), s')) (hlt : s.position < s'.position) :
    loop round (n + 1) b s = loop round n b' s' := by
  rw [loop_succ, bind_of_ok h]
  show (if s'.position ≤ s.position then _ else _ : Routine β) s' = _
  rw [if_neg (Nat.not_le_of_lt hlt)]

theorem loop_of_error {o : Halt} (h : round b s = (.error o, s')) :
    loop round (n + 1) b s = (.error o, s') := by
  rw [loop_succ, bind_of_error h]

end Rounds

/-! ## Items behind links -/

section Linked

variable {link? : TokenKind → Option κ} {item : Reader α} {m : Routine α} {add : β → κ → α → β}
  {b : β} {k : κ}

theorem linked_none (h : link? (p.kind s.position) = none) :
    linked p link? m add b s = (.ok none, s) := by
  rw [linked, peekKind_bind, h]
  rfl

theorem linked_some (h : link? (p.kind s.position) = some k) :
    linked p link? m add b s = (m >>= fun a => pure (some (add b k a))) (s.advanced p) := by
  rw [linked, peekKind_bind, h]
  exact advance_bind

theorem repeated_none (h : link? (p.kind i) = none) (n : Nat) :
    repeated (Reader.linked link? item) n (p.cursor i) = .ok ([], p.cursor i) := by
  cases n with
  | zero => rfl
  | succ n =>
    refine Reader.bind_of_ok (Reader.linked_eq_ok.2 (.inl ⟨?_, rfl, rfl⟩))
    rwa [p.kind_cursor]

theorem repeated_some (h : link? (p.kind i) = some k) (hlt : i < p.tokens.length)
    (f : List (κ × α) → Reader β) :
    (repeated (Reader.linked link? item) (n + 1) >>= f) (p.cursor i) =
      (item >>= fun a => repeated (Reader.linked link? item) n >>= fun xs => f ((k, a) :: xs))
        (p.cursor (i + 1)) := by
  rw [repeated, bind_assoc, Reader.linked, bind_assoc, Reader.peekKind_bind, p.kind_cursor,
    show i + 0 = i from rfl, h]
  simp only [bind_assoc, Reader.advance_bind, Input.next_cursor_of_lt hlt, pure_bind]

/-- Items that are linked to what stands before them, as they are put together by a loop. -/
theorem follows_repeated (hfinish : link? .finish = none) (hitem : Serves p j d item m)
    (h : s.At p j d) (hrounds : p.tokens.length < s.position + rounds)
    (hn : p.tokens.length ≤ s.position + n) :
    Follows p j d
      ((repeated (Reader.linked link? item) n >>= fun xs =>
        (pure (xs.foldl (fun b x => add b x.1 x.2) b) : Reader β)) (p.cursor s.position))
      (loop (linked p link? m add) rounds b s) := by
  induction rounds generalizing n b s with
  | zero => exact absurd h.position_le (Nat.not_le_of_lt hrounds)
  | succ rounds ih =>
    cases hl : link? (p.kind s.position) with
    | none =>
      rw [Reader.bind_of_ok (repeated_none hl n), loop_of_none (linked_none hl)]
      exact .ok h
    | some k =>
      have hlt := Input.lt_of_ne_finish (TokenKind.ne_finish hl hfinish)
      obtain ⟨n, rfl⟩ : ∃ n', n = n' + 1 := ⟨n - 1, by omega⟩
      rw [repeated_some hl hlt, ← Session.position_advanced hlt]
      have hnext := h.here.advanced_of_lt hlt
      have hread := hitem _ (hnext.mono (Nat.le_succ_of_le h.floor_le))
      have hround : linked p link? m add b s = _ := linked_some hl
      generalize hr : item (p.cursor (s.advanced p).position) = r at hread
      generalize ho : m (s.advanced p) = o at hread
      cases hread with
      | @ok a s' h' =>
        have htaken := hnext.floor_le
        have hread := h'.floor_le
        rw [Reader.bind_of_ok hr, loop_of_some (hround.trans (bind_of_ok ho)) (by omega)]
        exact ih (h'.mono (by have := h.floor_le; omega)) (by omega) (by omega)
      | error h' =>
        rw [Reader.bind_of_error hr, loop_of_error (hround.trans (bind_of_error ho))]
        exact .error h'

theorem follows_many (link? : TokenKind → Option κ) (add : β → κ → α → β) (b : β)
    (hfinish : link? .finish = none) (hitem : Serves p j d item m) (h : s.At p j d)
    (hrounds : p.tokens.length < s.position + rounds) :
    Follows p j d
      ((many (Reader.linked link? item) >>= fun xs =>
        (pure (xs.foldl (fun b x => add b x.1 x.2) b) : Reader β)) (p.cursor s.position))
      (loop (linked p link? m add) rounds b s) := by
  have hmany : (many (Reader.linked link? item) >>= fun xs =>
      (pure (xs.foldl (fun b x => add b x.1 x.2) b) : Reader β)) (p.cursor s.position) =
      (repeated (Reader.linked link? item) (p.tokens.length - s.position) >>= fun xs =>
        (pure (xs.foldl (fun b x => add b x.1 x.2) b) : Reader β)) (p.cursor s.position) := by
    rw [← p.length_cursor]
    rfl
  rw [hmany]
  exact follows_repeated hfinish hitem h hrounds (by omega)

end Linked

/-! ## Lists -/

theorem foldl_concat {α β : Type} (f : β → α) (as : List α) (bs : List β) :
    bs.foldl (fun as b => as ++ [f b]) as = as ++ bs.map f := by
  induction bs generalizing as with
  | nil => exact (List.append_nil as).symm
  | cons b bs ih =>
    rw [List.foldl_cons, ih, List.map_cons, List.append_assoc, List.singleton_append]

section Lists

variable {item : Reader α} {m : Routine α}

theorem follows_commaList (hitem : Serves p i d item m) (h : s.At p i d)
    (hrounds : p.tokens.length ≤ i + rounds) :
    Follows p (i + 1) d (Reader.commaList item (p.cursor s.position)) (commaList p rounds m s) := by
  refine Follows.call hitem h (Nat.le_refl i) fun first s' h' => ?_
  have hloop := follows_many (linkOf (.mark .comma)) (fun (items : List α) _ a => items ++ [a])
    [first] rfl (hitem.mono (Nat.le_succ i)) h'
    (show p.tokens.length < s'.position + rounds by have := h'.floor_le; omega)
  simp only [foldl_concat (fun x : Unit × α => x.2)] at hloop
  exact hloop

end Lists

section Operators

variable {op? : TokenKind → Option ArithmeticOp} {item : Reader Operand} {m : Routine Operand}

theorem follows_operators (hfinish : op? .finish = none) (hitem : Serves p i d item m)
    (h : s.At p i d) (hrounds : p.tokens.length ≤ i + rounds) :
    Follows p (i + 1) d (Operand.readChain op? item (p.cursor s.position))
      (operators p rounds op? m s) := by
  refine Follows.call hitem h (Nat.le_refl i) fun first s' h' => ?_
  exact follows_many op? Operand.combine first hfinish (hitem.mono (Nat.le_succ i)) h'
    (by have := h'.floor_le; omega)

end Operators

section Clauses

variable {k : Keyword} {join : Span → List Condition → Condition} {item : Reader Condition}
  {m : Routine Condition}

theorem foldl_chain (span : Span) (cs : List Condition) (links : List (Unit × Condition)) :
    links.foldl (fun chain x => (chain.1.through x.2.span, chain.2 ++ [x.2])) (span, cs) =
      ((links.map (·.2)).foldl (fun span c => span.through c.span) span,
        cs ++ links.map (·.2)) := by
  induction links generalizing span cs with
  | nil => exact Prod.ext rfl (List.append_nil cs).symm
  | cons x links ih =>
    rw [List.foldl_cons, ih, List.map_cons, List.foldl_cons, List.append_assoc,
      List.singleton_append]

theorem follows_clauses (hitem : Serves p i d item m) (h : s.At p i d)
    (hrounds : p.tokens.length ≤ i + rounds) :
    Follows p (i + 1) d (Condition.readChain k join item (p.cursor s.position))
      (clauses p rounds k join m s) := by
  rw [Condition.readChain_eq]
  refine Follows.call hitem h (Nat.le_refl i) fun first s' h' => ?_
  show Follows _ _ _ _ ((if p.kind s'.position = .keyword k then _ else _ : Routine Condition) s')
  split
  · rename_i hk
    have hlink : (linkOf (.keyword k) ((p.cursor s'.position).kind 0)).isSome := by
      rw [p.kind_cursor, show s'.position + 0 = s'.position from rfl, hk, linkOf, if_pos rfl]
      rfl
    have hahead : (p.cursor s'.position).ahead ≠ [] := by
      have hlt : s'.position < p.tokens.length := Input.lt_of_kind hk rfl
      exact mt List.drop_eq_nil_iff.1 (Nat.not_le_of_lt hlt)
    have hloop := follows_many (linkOf (.keyword k))
      (fun (chain : Span × List Condition) _ c => (chain.1.through c.span, chain.2 ++ [c]))
      (first.span, [first]) rfl (hitem.mono (Nat.le_succ i)) h'
      (show p.tokens.length < s'.position + rounds by have := h'.floor_le; omega)
    have hjoin : Follows _ _ _
        ((_ >>= fun (chain : Span × List Condition) => (pure (join chain.1 chain.2) : Reader _)) _)
        ((_ >>= fun (chain : Span × List Condition) => (pure (join chain.1 chain.2) : Routine _))
          _) :=
      hloop.bind fun _ _ hs => .pure hs
    rw [bind_assoc] at hjoin
    simp only [pure_bind, foldl_chain] at hjoin
    rw [Reader.bind_congr_of_ok fun links c' hlinks => ?_]
    · exact hjoin
    · have hne := Reader.ne_nil_of_many hlink hahead hlinks
      rw [if_neg (by simpa using hne)]
      rfl
  · rename_i hk
    have hlink : linkOf (.keyword k) ((p.cursor s'.position).kind 0) = none := by
      rw [p.kind_cursor]
      exact if_neg hk
    rw [Reader.bind_of_ok (Reader.many_linked hlink)]
    exact .pure h'

end Clauses

/-! ## Geometries -/

section Geometries

theorem tag_true : tag p true s = (.ok none, s) := rfl

theorem tag_some {w : String} (hk : p.kind s.position = .identifier w)
    (hw : isGeometryTag w = true) :
    tag p false s = (.ok (some (sameWord w "EMPTY")), s.advanced p) := by
  rw [tag, if_neg Bool.false_ne_true, peekKind_bind, hk]
  show (if isGeometryTag w = true then _ else _ : Routine (Option Bool)) s = _
  rw [if_pos hw, advance_bind]
  rfl

theorem tag_none (h : ∀ w, p.kind s.position = .identifier w → isGeometryTag w = false) :
    tag p false s = (.ok none, s) := by
  rw [tag, if_neg Bool.false_ne_true, peekKind_bind]
  cases hk : p.kind s.position with
  | identifier w =>
    show (if isGeometryTag w = true then _ else _ : Routine (Option Bool)) s = _
    rw [if_neg (Bool.eq_false_iff.1 (h w hk))]
    rfl
  | _ => rfl

theorem isGeometryTag_of_empty {w : String} (h : sameWord w "EMPTY" = true) :
    isGeometryTag w = true := by
  simp [isGeometryTag, sameWord_comm _ w, h]

theorem repeated_readTag_none (h : ¬ Grammar.IsTag (p.token s.position)) (n : Nat) :
    repeated Operand.readTag n (p.cursor s.position) = .ok ([], p.cursor s.position) := by
  cases n with
  | zero => rfl
  | succ n =>
    rw [repeated, Reader.bind_of_ok (Operand.readTag_none (by rwa [p.token_cursor]))]
    rfl

theorem follows_repeatedTags {k : Bool → Reader β} {k' : Bool → Routine β} (h : s.At p i d)
    (hrounds : p.tokens.length < s.position + rounds) (hn : p.tokens.length ≤ s.position + n)
    (htrue : ∀ s', s'.At p (i + 1) d → Follows p j e (k true (p.cursor s'.position)) (k' true s'))
    (hfalse : ∀ s', s'.At p i d → Follows p j e (k false (p.cursor s'.position)) (k' false s')) :
    Follows p j e
      ((repeated Operand.readTag n >>= fun _ => Operand.readEmpty >>= k) (p.cursor s.position))
      ((loop (tag p) rounds false >>= k') s) := by
  induction rounds generalizing n s with
  | zero => exact absurd h.position_le (Nat.not_le_of_lt hrounds)
  | succ rounds ih =>
    by_cases htag : ∃ w, p.kind s.position = .identifier w ∧ isGeometryTag w = true
    · obtain ⟨w, hk, hw⟩ := htag
      have hlt := Input.lt_of_kind hk rfl
      have hnext := h.advanced_of_lt hlt
      have htaken := s.position_advanced hlt
      have hloop := loop_of_some (n := rounds) (tag_some hk hw) (by omega)
      cases hempty : sameWord w "EMPTY" with
      | true =>
        have hno : ¬ Grammar.IsTag (p.token s.position) := Operand.not_isTag_of_empty hk hempty
        rw [Reader.bind_of_ok (repeated_readTag_none hno n),
          Reader.bind_of_ok (Operand.readEmpty_true (by rwa [p.kind_cursor]) hempty), s.next_cursor]
        obtain ⟨rounds, rfl⟩ : ∃ rounds', rounds = rounds' + 1 := ⟨rounds - 1, by omega⟩
        rw [hempty, loop_of_none tag_true] at hloop
        rw [bind_of_ok hloop]
        exact htrue _ hnext
      | false =>
        obtain ⟨n, rfl⟩ : ∃ n', n = n' + 1 := ⟨n - 1, by omega⟩
        have htag : Grammar.IsTag ((p.cursor s.position).token 0) := by
          rw [p.token_cursor]
          exact ⟨w, hk, hw, hempty⟩
        rw [repeated, bind_assoc, Reader.bind_of_ok (Operand.readTag_some htag), s.next_cursor]
        rw [hempty] at hloop
        rw [bind_congr_of_eq hloop]
        simp only [bind_assoc, pure_bind]
        exact ih (hnext.mono (Nat.le_succ i)) (by omega) (by omega)
    · have hno (w : String) (hk : p.kind s.position = .identifier w) : isGeometryTag w = false :=
        Bool.eq_false_iff.2 fun hw => htag ⟨w, hk, hw⟩
      have hnone : ¬ Grammar.IsTag (p.token s.position) := by
        rintro ⟨w, hk, hw, -⟩
        exact htag ⟨w, hk, hw⟩
      have hempty (w : String) (hk : (p.cursor s.position).kind 0 = .identifier w) :
          sameWord w "EMPTY" = false := by
        rw [p.kind_cursor] at hk
        exact Bool.eq_false_iff.2 fun hw => htag ⟨w, hk, isGeometryTag_of_empty hw⟩
      rw [Reader.bind_of_ok (repeated_readTag_none hnone n),
        Reader.bind_of_ok (Operand.readEmpty_false hempty),
        bind_of_ok (loop_of_none (tag_none hno))]
      exact hfalse _ h

/-- The tags behind the type of a geometry, one of which may be `EMPTY`. -/
theorem follows_tags {k : Bool → Reader β} {k' : Bool → Routine β} (h : s.At p i d)
    (hrounds : p.tokens.length < s.position + rounds)
    (htrue : ∀ s', s'.At p (i + 1) d → Follows p j e (k true (p.cursor s'.position)) (k' true s'))
    (hfalse : ∀ s', s'.At p i d → Follows p j e (k false (p.cursor s'.position)) (k' false s')) :
    Follows p j e ((Operand.skipTags >>= k) (p.cursor s.position))
      ((loop (tag p) rounds false >>= k') s) := by
  have htags : (Operand.skipTags >>= k) (p.cursor s.position) =
      (repeated Operand.readTag (p.tokens.length - s.position) >>= fun _ =>
        Operand.readEmpty >>= k) (p.cursor s.position) := by
    rw [Operand.skipTags_eq, bind_assoc, ← p.length_cursor]
    rfl
  rw [htags]
  exact follows_repeatedTags h hrounds (by omega) htrue hfalse

/-- The rest of a geometry when some parentheses are open. -/
def readClosing (limit unclosed : Nat) : Reader Nat := fun c =>
  (Operand.closing limit c.finish unclosed c.ahead).map fun r =>
    (0, { c with ahead := r.2, lastStop := r.1 })

theorem passOver_eq (g : Grammar) : Operand.passOver g = (do
    Reader.expect .leftParen
    let _ ← readClosing g.dialect.maxDepth 1) := by
  refine congrArg _ (funext fun _ => funext fun c => ?_)
  rw [Reader.get_bind]
  cases hclosing : Operand.closing g.dialect.maxDepth c.finish 1 c.ahead with
  | ok r =>
    have hread : readClosing g.dialect.maxDepth 1 c =
        .ok (0, { c with ahead := r.2, lastStop := r.1 }) := by rw [readClosing, hclosing]; rfl
    rw [Reader.bind_of_ok hread]
    rfl
  | error e =>
    have hread : readClosing g.dialect.maxDepth 1 c = .error e := by rw [readClosing, hclosing]; rfl
    rw [Reader.bind_of_error hread]
    rfl

theorem readClosing_cursor {limit unclosed : Nat} (h : i < p.tokens.length) :
    readClosing limit unclosed (p.cursor i) =
      match p.kind i with
      | .mark .leftParen =>
        if limit < unclosed + 1 then .error (Reader.mismatch (p.token i) "shallower nesting" none)
        else readClosing limit (unclosed + 1) (p.cursor (i + 1))
      | .mark .rightParen =>
        if unclosed ≤ 1 then .ok (0, p.cursor (i + 1))
        else readClosing limit (unclosed - 1) (p.cursor (i + 1))
      | .finish => .error (Reader.mismatch (p.token i) "')'" none)
      | _ => readClosing limit unclosed (p.cursor (i + 1)) := by
  have htoken : p.token i = p.tokens[i] := by
    rw [Input.token, List.getElem?_eq_getElem h]
    rfl
  have hstop : p.lastStop (i + 1) = p.tokens[i].span.stop := by
    rw [Input.lastStop, List.getElem?_eq_getElem h]
    rfl
  rw [readClosing, Input.cursor, List.drop_eq_getElem_cons h, Operand.closing, Input.kind, htoken]
  cases p.tokens[i].kind with
  | mark m =>
    cases m with
    | leftParen =>
      dsimp only
      split <;> rfl
    | rightParen =>
      dsimp only
      split
      · rw [Input.cursor, hstop]
        rfl
      · rfl
    | _ => rfl
  | _ => rfl

theorem follows_coordinates {unclosed : Nat} (hopen : 1 ≤ unclosed) (h : s.At p i d)
    (hrounds : p.tokens.length < s.position + rounds) :
    Follows p (i + 1) d (readClosing p.maxDepth unclosed (p.cursor s.position))
      (loop (coordinate p) rounds unclosed s) := by
  induction rounds generalizing s unclosed i with
  | zero => exact absurd h.position_le (Nat.not_le_of_lt hrounds)
  | succ rounds ih =>
    have hround : coordinate p unclosed s =
        pass p unclosed (p.token s.position) (s.advanced p) := by
      rw [coordinate, if_neg (Nat.ne_of_gt hopen), advance_bind]
    by_cases hlt : s.position < p.tokens.length
    · have hnext := h.here.advanced_of_lt hlt
      have htaken := hnext.floor_le
      have hstep {n : Nat} (hn : 1 ≤ n)
          (hsome : coordinate p unclosed s = (.ok (some n), s.advanced p)) :
          Follows p (i + 1) d (readClosing p.maxDepth n (p.cursor (s.position + 1)))
            (loop (coordinate p) (rounds + 1) unclosed s) := by
        rw [loop_of_some hsome htaken, ← Session.position_advanced hlt]
        exact (ih hn hnext (by omega)).mono (by have := h.floor_le; omega)
      rw [readClosing_cursor hlt]
      cases hk : p.kind s.position with
      | mark m =>
        rw [pass, show (p.token s.position).kind = _ from hk] at hround
        cases m with
        | leftParen =>
          dsimp only
          split
          · rename_i hdeep
            rw [loop_of_error (hround.trans (congrFun (if_pos hdeep) _))]
            exact .fail hnext
          · rename_i hdeep
            exact hstep (Nat.le_add_left 1 unclosed) (hround.trans (congrFun (if_neg hdeep) _))
        | rightParen =>
          dsimp only
          split
          · rename_i hone
            obtain rfl : unclosed = 1 := Nat.le_antisymm hone hopen
            obtain ⟨rounds, rfl⟩ : ∃ rounds', rounds = rounds' + 1 := ⟨rounds - 1, by omega⟩
            rw [loop_of_some hround htaken, ← Session.position_advanced hlt,
              loop_of_none (show coordinate p 0 (s.advanced p) = (.ok none, s.advanced p) from rfl)]
            exact .ok (hnext.mono (Nat.succ_le_succ h.floor_le))
          · exact hstep (by omega) hround
        | _ => exact hstep hopen hround
      | finish =>
        rw [pass, show (p.token s.position).kind = _ from hk] at hround
        rw [loop_of_error hround]
        exact .fail hnext
      | _ =>
        rw [pass, show (p.token s.position).kind = _ from hk] at hround
        exact hstep hopen hround
    · have hle := Nat.le_of_not_lt hlt
      have hk : p.kind s.position = .finish := congrArg Token.kind (Input.token_of_le hle)
      have hend : readClosing p.maxDepth unclosed (p.cursor s.position) =
          .error (Reader.mismatch (p.token s.position) "')'" none) := by
        rw [readClosing, Input.cursor, List.drop_eq_nil_of_le hle, Input.token_of_le hle]
        rfl
      rw [pass, show (p.token s.position).kind = _ from hk] at hround
      rw [hend, loop_of_error hround]
      exact .fail h.advanced

end Geometries

end Descent

end FeatureFilter
