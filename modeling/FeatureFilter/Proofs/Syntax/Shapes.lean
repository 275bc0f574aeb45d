import FeatureFilter.Proofs.Syntax.Taking

/-!
# Reading geometries

A geometry runs from its type to the parenthesis that closes the first one, or to the tag `EMPTY`.
Its reader reads the rule `Grammar.Shape` (`readGeometry_sound`, `readGeometry_complete`).
-/

namespace FeatureFilter

open Reader
open Span (nowhere)

namespace Operand

variable {g : Grammar} {s s' : Cursor} {ts us : List Token} {limit depth : Nat}

/-! ## Closing parentheses -/

theorem closing_sound {fin : Token} (stop : Nat) {stop' : Nat} (hd : 1 ≤ depth)
    (h : closing limit fin depth ts = .ok (stop', us)) :
    ∃ vs, ts = vs ++ us ∧ Grammar.Closes limit depth vs ∧ stop' = stopOf stop vs ∧
      ∀ t ∈ vs, t.kind ≠ .finish := by
  induction ts generalizing depth stop with
  | nil => cases h
  | cons t ts ih =>
    rw [closing] at h
    split at h
    · rename_i hk
      split at h
      · cases h
      · obtain ⟨vs, rfl, hc, hs, hf⟩ := ih t.span.stop (by omega) h
        refine ⟨t :: vs, rfl, .deepen hk (by omega) hc, hs, ?_⟩
        exact List.forall_mem_cons.2 ⟨by rw [hk]; nofun, hf⟩
    · rename_i hk
      split at h
      · cases h
        obtain rfl : depth = 1 := by omega
        exact ⟨[t], rfl, .last hk, rfl, List.forall_mem_cons.2 ⟨by rw [hk]; nofun, nofun⟩⟩
      · obtain ⟨vs, rfl, hc, hs, hf⟩ := ih t.span.stop (by omega) h
        obtain ⟨n, rfl⟩ : ∃ n, depth = n + 2 := ⟨depth - 2, by omega⟩
        exact ⟨t :: vs, rfl, .close hk hc, hs, List.forall_mem_cons.2 ⟨by rw [hk]; nofun, hf⟩⟩
    · cases h
    · rename_i hl hr hf
      obtain ⟨vs, rfl, hc, hs, hfs⟩ := ih t.span.stop hd h
      exact ⟨t :: vs, rfl, .other hl hr hc, hs, List.forall_mem_cons.2 ⟨hf, hfs⟩⟩

theorem closing_complete {fin : Token} (stop : Nat) (hc : Grammar.Closes limit depth ts)
    (hf : ∀ t ∈ ts, t.kind ≠ .finish) :
    closing limit fin depth (ts ++ us) = .ok (stopOf stop ts, us) := by
  induction hc generalizing stop with
  | @last t ht => simp only [List.cons_append, closing, ht, Nat.le_refl, if_true]; rfl
  | @close t depth ts ht hc ih =>
    rw [List.cons_append, closing, ht]
    simp only
    rw [if_neg (by omega)]
    exact ih t.span.stop fun u hu => hf u (List.mem_cons_of_mem _ hu)
  | @deepen t depth ts ht hd hc ih =>
    rw [List.cons_append, closing, ht]
    simp only
    rw [if_neg (by omega)]
    exact ih t.span.stop fun u hu => hf u (List.mem_cons_of_mem _ hu)
  | @other t depth ts hl hr hc ih =>
    have hk : t.kind ≠ .finish := hf t (List.mem_cons_self ..)
    rw [List.cons_append, closing]
    split
    · exact absurd ‹_› hl
    · exact absurd ‹_› hr
    · exact absurd ‹_› hk
    · exact ih t.span.stop fun u hu => hf u (List.mem_cons_of_mem _ hu)

/-! ## Tags -/

/-- One tag, `EMPTY` aside. -/
def readTag : Reader (Option Unit) := do
  match ← peekKind with
  | .identifier word =>
    if isGeometryTag word && !sameWord word "EMPTY" then
      let _ ← advance
      return some ()
    else return none
  | _ => return none

/-- The tag `EMPTY`, if it comes next. -/
def readEmpty : Reader Bool := do
  match ← peekKind with
  | .identifier word =>
    if sameWord word "EMPTY" then
      let _ ← advance
      return true
    else return false
  | _ => return false

theorem skipTags_eq : skipTags = (do
    let _ ← many readTag
    readEmpty) := rfl

theorem readTag_some (h : Grammar.IsTag (s.token 0)) : readTag s = .ok (some (), s.next) := by
  obtain ⟨w, hk, ht, hw⟩ := h
  have hk : s.kind 0 = .identifier w := hk
  rw [readTag, peekKind_bind, hk]
  simp only [ht, hw, Bool.not_false, Bool.and_true, if_true]
  exact advance_bind

theorem readTag_none (h : ¬ Grammar.IsTag (s.token 0)) : readTag s = .ok (none, s) := by
  rw [readTag, peekKind_bind]
  cases hk : s.kind 0 with
  | identifier w =>
    have ht : (isGeometryTag w && !sameWord w "EMPTY") = false := Bool.eq_false_iff.2 fun ht => by
      simp only [Bool.and_eq_true, Bool.not_eq_true'] at ht
      exact h ⟨w, hk, ht.1, ht.2⟩
    simp only [ht]
    rfl
  | _ => rfl

theorem readEmpty_true {w : String} (hk : s.kind 0 = .identifier w)
    (hw : sameWord w "EMPTY" = true) : readEmpty s = .ok (true, s.next) := by
  rw [readEmpty, peekKind_bind, hk]
  simp only [hw, if_true]
  exact advance_bind

theorem readEmpty_false (h : ∀ w, s.kind 0 = .identifier w → sameWord w "EMPTY" = false) :
    readEmpty s = .ok (false, s) := by
  rw [readEmpty, peekKind_bind]
  cases hk : s.kind 0 with
  | identifier w =>
    simp only [h w hk]
    rfl
  | _ => rfl

theorem repeated_readTag_sound (n : Nat) {xs : List Unit} (hf : s.finish.kind = .finish)
    (h : repeated readTag n s = .ok (xs, s')) :
    ∃ tags, s.Takes tags s' ∧ ∀ t ∈ tags, Grammar.IsTag t := by
  induction n generalizing s xs with
  | zero =>
    obtain ⟨rfl, rfl⟩ := pure_eq_ok.1 h
    exact ⟨[], .refl hf, nofun⟩
  | succ n ih =>
    by_cases ht : Grammar.IsTag (s.token 0)
    · rw [repeated, bind_of_ok (readTag_some ht)] at h
      obtain ⟨ys, s₁, hys, h⟩ := bind_eq_ok.1 h
      obtain ⟨rfl, rfl⟩ := pure_eq_ok.1 h
      have hk : s.kind 0 ≠ .finish := by
        obtain ⟨w, hw, _⟩ := ht
        show (s.token 0).kind ≠ _
        rw [hw]
        nofun
      obtain ⟨tags, htags, hall⟩ := ih (Cursor.takes_next hf hk).finish' hys
      exact ⟨_, htags.cons_next hf hk, List.forall_mem_cons.2 ⟨ht, hall⟩⟩
    · rw [repeated, bind_of_ok (readTag_none ht)] at h
      obtain ⟨rfl, rfl⟩ := pure_eq_ok.1 h
      exact ⟨[], .refl hf, nofun⟩

theorem repeated_readTag_complete {n : Nat} (h : s.Takes ts s') (hts : ∀ t ∈ ts, Grammar.IsTag t)
    (hstop : ¬ Grammar.IsTag (s'.token 0)) (hn : ts.length ≤ n) :
    ∃ xs, repeated readTag n s = .ok (xs, s') := by
  induction ts generalizing s n with
  | nil =>
    obtain rfl := h.unique (.refl h.finish)
    cases n with
    | zero => exact ⟨[], rfl⟩
    | succ n => exact ⟨[], by rw [repeated, bind_of_ok (readTag_none hstop)]; rfl⟩
  | cons t ts ih =>
    cases n with
    | zero => simp at hn
    | succ n =>
      have ht : Grammar.IsTag (s.token 0) := h.token_cons ▸ hts t (List.mem_cons_self ..)
      obtain ⟨xs, hxs⟩ := ih h.next_cons (fun u hu => hts u (List.mem_cons_of_mem _ hu))
        (Nat.le_of_succ_le_succ hn)
      refine ⟨() :: xs, ?_⟩
      rw [repeated, bind_of_ok (readTag_some ht)]
      exact (bind_of_ok hxs).trans rfl

theorem skipTags_complete (h : s.Takes ts s') (hts : ∀ t ∈ ts, Grammar.IsTag t)
    (hstop : ¬ Grammar.IsTag (s'.token 0)) : skipTags s = readEmpty s' := by
  obtain ⟨xs, hxs⟩ := repeated_readTag_complete h hts hstop h.length_le
  rw [← many_eq] at hxs
  rw [skipTags_eq, bind_of_ok hxs]

/-! ## Geometries -/

def passOver (g : Grammar) : Reader Unit := do
  Reader.expect .leftParen
  let s ← get
  let (stop, ahead) ← closing g.dialect.maxDepth s.finish 1 s.ahead
  set { s with ahead := ahead, lastStop := stop }

/-- Reads the text of a geometry whose last token is read. -/
def handOver (g : Grammar) (srid : Option Int64) (start : Token) : Reader Operand := do
  let stop := (← get).lastStop
  let span ← Reader.spanFrom start
  match byteSlice g.source.toList start.span.start stop with
  | none => throw ⟨span, "WKT geometry", start.describe, none⟩
  | some cs =>
    let text := String.ofList cs
    match g.readGeometry text with
    | .ok shape => return .geometry span shape srid
    | .error e => throw ⟨span, "well-formed WKT geometry", "'" ++ text ++ "'", some e.message⟩

theorem readGeometry_eq (g : Grammar) (srid : Option Int64) :
    readGeometry g srid = (do
      let start ← Reader.advance
      let empty ← skipTags
      unless empty do passOver g
      handOver g srid start) := by
  simp only [readGeometry, passOver, bind_assoc]
  rfl

/-- Passes over what stands behind the type of a geometry. -/
def passRest (g : Grammar) : Reader Unit := do
  if ← skipTags then return () else passOver g

theorem readGeometry_eq_passRest (g : Grammar) (srid : Option Int64) :
    readGeometry g srid = (do
      let start ← Reader.advance
      passRest g
      handOver g srid start) := by
  rw [readGeometry_eq]
  simp only [passRest, bind_assoc]
  refine congrArg _ (funext fun start => congrArg _ (funext fun empty => ?_))
  cases empty <;> rfl

theorem passOver_eq {s' : Cursor} (h : Reader.expect .leftParen s = .ok ((), s')) :
    passOver g s = (closing g.dialect.maxDepth s'.finish 1 s'.ahead).map fun p =>
      ((), { s' with ahead := p.2, lastStop := p.1 }) := by
  rw [passOver, Reader.bind_of_ok h]
  rw [Reader.bind_of_ok (show (get : Reader Cursor) s' = .ok (s', s') from rfl)]
  generalize closing g.dialect.maxDepth s'.finish 1 s'.ahead = r
  cases r <;> rfl

theorem passOver_eq_ok {u : Unit} : passOver g s = .ok (u, s') ↔
    s.kind 0 = .mark .leftParen ∧ ∃ stop ahead,
      closing g.dialect.maxDepth s.next.finish 1 s.next.ahead = .ok (stop, ahead) ∧
        s' = { s.next with ahead := ahead, lastStop := stop } := by
  rw [passOver, expect_bind_eq_ok]
  refine and_congr_right fun _ => ?_
  rw [get_bind]
  cases closing g.dialect.maxDepth s.next.finish 1 s.next.ahead with
  | error e => exact ⟨nofun, fun ⟨_, _, h, _⟩ => nomatch h⟩
  | ok p =>
    show Except.ok (_, _) = .ok (u, s') ↔ _
    simp only [Except.ok.injEq, Prod.mk.injEq, true_and]
    constructor
    · intro h
      exact ⟨p.1, p.2, rfl, h.symm⟩
    · rintro ⟨_, _, rfl, rfl⟩
      rfl

/-- What stands behind the type of a geometry is passed over. -/
theorem passRest_sound {u : Unit} (hf : s.finish.kind = .finish)
    (h : passRest g s = .ok (u, s')) :
    ∃ ts, s.Takes ts s' ∧ Grammar.ShapeRest g.dialect.maxDepth ts := by
  obtain ⟨empty, s₁, htags, h⟩ := bind_eq_ok.1 h
  rw [skipTags_eq] at htags
  obtain ⟨xs, s₂, hxs, hempty⟩ := bind_eq_ok.1 htags
  obtain ⟨tags, ht, hall⟩ := repeated_readTag_sound _ hf hxs
  by_cases he : ∃ w, s₂.kind 0 = .identifier w ∧ sameWord w "EMPTY" = true
  · obtain ⟨w, hk, hw⟩ := he
    rw [readEmpty_true hk hw] at hempty
    cases hempty
    obtain ⟨-, rfl⟩ := pure_eq_ok.1 h
    exact ⟨tags ++ [s₂.token 0], ht.append (Cursor.takes_next ht.finish' (by rw [hk]; nofun)),
      .empty hall hk hw⟩
  · have hno : ∀ w, s₂.kind 0 = .identifier w → sameWord w "EMPTY" = false := fun w hk =>
      Bool.eq_false_iff.2 fun hw => he ⟨w, hk, hw⟩
    rw [readEmpty_false hno] at hempty
    cases hempty
    obtain ⟨hk, stop, ahead, hc, rfl⟩ := passOver_eq_ok.1 h
    have hnext := Cursor.takes_next ht.finish' (s := s₁) (by rw [hk]; nofun)
    obtain ⟨vs, hvs, hcl, hstop, hfs⟩ :=
      closing_sound s₁.next.lastStop (Nat.le_refl 1) hc
    refine ⟨tags ++ s₁.token 0 :: vs, ht.append ((Cursor.Takes.cons_next ?_ ht.finish' ?_)),
      .full hall hk hcl⟩
    · exact ⟨hvs, hstop, rfl, hnext.finish', hfs⟩
    · rw [hk]
      nofun

theorem not_isTag_of_empty {t : Token} {w : String} (ht : t.kind = .identifier w)
    (hw : sameWord w "EMPTY" = true) : ¬ Grammar.IsTag t := by
  rintro ⟨w', ht', _, hw'⟩
  rw [ht] at ht'
  cases ht'
  rw [hw] at hw'
  cases hw'

theorem not_isTag_of_mark {t : Token} {m : Mark} (ht : t.kind = .mark m) : ¬ Grammar.IsTag t := by
  rintro ⟨w, ht', _⟩
  rw [ht] at ht'
  cases ht'

theorem passRest_complete (h : s.Takes ts s') (hr : Grammar.ShapeRest g.dialect.maxDepth ts) :
    passRest g s = .ok ((), s') := by
  cases hr with
  | @empty tags t w htags ht hw =>
    obtain ⟨s₁, h₁, h₂⟩ := h.split
    have hs := skipTags_complete h₁ htags (h₂.token_cons.symm ▸ not_isTag_of_empty ht hw)
    rw [readEmpty_true (h₂.kind_cons.trans ht) hw] at hs
    rw [passRest, bind_of_ok hs, h₂.next_single]
    rfl
  | @full tags ts t htags ht hc =>
    obtain ⟨s₁, h₁, h₂⟩ := h.split
    have hk : s₁.kind 0 = .mark .leftParen := h₂.kind_cons.trans ht
    have hs := skipTags_complete h₁ htags (h₂.token_cons.symm ▸ not_isTag_of_mark ht)
    rw [readEmpty_false fun w hw => by rw [hk] at hw; cases hw] at hs
    rw [passRest, bind_of_ok hs]
    have h₃ := h₂.next_cons
    refine passOver_eq_ok.2 ⟨hk, stopOf s₁.next.lastStop ts, s'.ahead, ?_, ?_⟩
    · rw [h₃.ahead]
      exact closing_complete _ hc h₃.kinds
    · show s' = ⟨s'.ahead, _, s₁.next.finish⟩
      rw [← h₃.lastStop, ← h₃.finish_eq]

theorem handOver_eq_ok {srid : Option Int64} {start : Token} {o : Operand} :
    handOver g srid start s = .ok (o, s') ↔ s' = s ∧ ∃ cs shape,
      byteSlice g.source.toList start.span.start s.lastStop = some cs ∧
        g.readGeometry (String.ofList cs) = .ok shape ∧
        o = .geometry { start.span with stop := max s.lastStop start.span.stop } shape srid := by
  rw [handOver, get_bind, spanFrom_bind]
  cases byteSlice g.source.toList start.span.start s.lastStop with
  | none => exact ⟨nofun, fun ⟨_, _, _, h, _⟩ => nomatch h⟩
  | some cs =>
    cases hr : g.readGeometry (String.ofList cs) with
    | error e =>
      simp only [hr]
      exact ⟨nofun, fun ⟨_, _, _, h, h', _⟩ => by cases h; rw [hr] at h'; cases h'⟩
    | ok shape =>
      simp only [hr]
      rw [pure_eq_ok]
      constructor
      · rintro ⟨rfl, rfl⟩
        exact ⟨rfl, cs, shape, rfl, hr, rfl⟩
      · rintro ⟨rfl, _, _, h, h', rfl⟩
        cases h
        rw [hr] at h'
        cases h'
        exact ⟨rfl, rfl⟩

theorem readGeometry_sound {srid : Option Int64} {w : String} {o : Operand}
    (hf : s.finish.kind = .finish) (hk : s.kind 0 = .identifier w) (hw : isGeometryWord w = true)
    (h : readGeometry g srid s = .ok (o, s')) :
    ∃ ts shape, s.Takes ts s' ∧ g.Shape ts shape ∧ o.bare = .geometry nowhere shape srid := by
  have hn := Cursor.takes_next hf (s := s) (by rw [hk]; nofun)
  rw [readGeometry_eq_passRest, advance_bind] at h
  obtain ⟨u, s₁, hrest, h⟩ := bind_eq_ok.1 h
  obtain ⟨ts, hts, hr⟩ := passRest_sound hn.finish' hrest
  obtain ⟨rfl, cs, shape, hcs, hshape, rfl⟩ := handOver_eq_ok.1 h
  have ht := hts.cons_next hf (by rw [hk]; nofun)
  rw [ht.lastStop] at hcs
  exact ⟨_, shape, ht, .intro hk hw hr hcs hshape, rfl⟩

theorem readGeometry_of_shape (srid : Option Int64) {shape : Geometry} (h : s.Takes ts s')
    (hs : g.Shape ts shape) : ∃ stop, readGeometry g srid s =
      .ok (.geometry { (s.token 0).span with stop := stop } shape srid, s') := by
  cases hs with
  | @intro t ts w cs _ ht hw hts hcs hshape =>
    have hrest := passRest_complete h.next_cons hts
    refine ⟨max s'.lastStop t.span.stop, ?_⟩
    rw [readGeometry_eq_passRest, advance_bind, bind_of_ok hrest, h.token_cons]
    exact handOver_eq_ok.2 ⟨rfl, cs, shape, by rw [h.lastStop]; exact hcs, hshape, rfl⟩

theorem readGeometry_complete {srid : Option Int64} {shape : Geometry} (h : s.Takes ts s')
    (hs : g.Shape ts shape) :
    ∃ o, readGeometry g srid s = .ok (o, s') ∧ o.bare = .geometry nowhere shape srid := by
  obtain ⟨stop, hread⟩ := readGeometry_of_shape srid h hs
  exact ⟨_, hread, rfl⟩

end Operand

end FeatureFilter
