import FeatureFilter.Proofs.Geometry.Drawn
import FeatureFilter.Proofs.Syntax.Trees
import FeatureFilter.Proofs.Token.Lexed

/-!
# The parentheses of geometries

A geometry is read from a part of the text, and the tokens of this part say how deep its parentheses
are nested. So a geometry that is read is nested no deeper than the dialect allows, but for one
level: its own text may have parentheses that the text did not have.
-/

namespace FeatureFilter

open Wkt (peak le_peak)

/-! ## The parentheses of a lexeme -/

section Lexemes

variable {cs w rest : List Char} {kind : TokenKind}

/-- A character that stops lexemes. -/
def IsStop (c : Char) : Prop := c = ' ' ∨ c = ',' ∨ c = '(' ∨ c = ')'

theorem stops_of_isStop {c : Char} (h : IsStop c) (cs : List Char) : Stops (c :: cs) := by
  rintro d ⟨⟩
  exact h

theorem stop_notMem_of_splitNumber? {c : Char} (hc : IsStop c)
    (h : splitNumber? cs = some (w, rest)) : c ∉ w := by
  intro hmem
  obtain ⟨u, v, rfl⟩ := List.append_of_mem hmem
  have he := (eq_append_of_splitNumber? h).1
  rw [List.append_assoc, List.cons_append] at he
  rw [he, splitNumber?_append_stop (stops_of_isStop hc _)] at h
  obtain ⟨⟨w', r⟩, hw', heq⟩ := Option.map_eq_some_iff.1 h
  have hu := congrArg List.length (eq_append_of_splitNumber? hw').1
  have hw := congrArg (fun p => p.1.length) heq
  simp only [List.length_append, List.length_cons] at hu hw
  omega

theorem stop_notMem_of_splitWords {c : Char} (hc : IsStop c) : c ∉ (splitWords cs).1 := by
  intro hmem
  obtain ⟨u, v, hw⟩ := List.append_of_mem hmem
  have he := splitWords_append cs
  rw [hw, List.append_assoc, List.cons_append] at he
  rw [← he, splitWords_append_stop (stops_of_isStop hc _)] at hw
  have hu := congrArg List.length (splitWords_append u)
  have hw := congrArg List.length hw
  simp only [List.length_append, List.length_cons] at hu hw
  omega

/-- Characters that are no parentheses open none. -/
theorem peak_append_le (h : ∀ c ∈ w, c ≠ '(' ∧ c ≠ ')') (d : Nat) (cs : List Char) :
    peak d (w ++ cs) ≤ peak d cs := by
  induction w with
  | nil => exact Nat.le_refl _
  | cons c w ih =>
    obtain ⟨⟨hopen, hclose⟩, hw⟩ := List.forall_mem_cons.1 h
    rw [List.cons_append, peak]
    simp only [hopen, hclose, if_false]
    split
    · exact le_peak d cs
    · exact ih hw

theorem spelling_paren : ∀ p ∈ markSpellings, (p.2 = .leftParen → p.1 = ['(']) ∧
    (p.2 = .rightParen → p.1 = [')']) ∧
    (p.2 ≠ .leftParen → p.2 ≠ .rightParen → ∀ c ∈ p.1, c ≠ '(' ∧ c ≠ ')') := by
  simp [markSpellings]

/-- What a lexeme does to the parentheses is what its kind says. -/
theorem peak_lexeme (h : splitLexeme (w ++ rest) = .ok (kind, w, rest)) (d : Nat) (cs : List Char) :
    (kind = .mark .leftParen ∧ w = ['(']) ∨ (kind = .mark .rightParen ∧ w = [')']) ∨
      (kind ≠ .mark .leftParen ∧ kind ≠ .mark .rightParen ∧ peak d (w ++ cs) ≤ peak d cs) := by
  have hno {w : List Char} (hw : ∀ c, IsStop c → c ∉ w) : ∀ c ∈ w, c ≠ '(' ∧ c ≠ ')' := by
    refine fun c hc => ⟨?_, ?_⟩ <;> rintro rfl
    · exact hw _ (.inr (.inr (.inl rfl))) hc
    · exact hw _ (.inr (.inr (.inr rfl))) hc
  have hquote {q : Char} (hq : q = '\'' ∨ q = '"') (content : List Char) :
      peak d (Quoted.write q content ++ cs) ≤ peak d cs := by
    rw [Quoted.write, List.cons_append, peak, if_pos hq]
    exact le_peak d cs
  generalize w ++ rest = text at h
  cases LexemeAt.of_splitLexeme h with
  | number hn =>
    exact .inr (.inr ⟨by simp, by simp,
      peak_append_le (hno fun c hc => stop_notMem_of_splitNumber? hc hn) d cs⟩)
  | string => exact .inr (.inr ⟨by simp, by simp, hquote (.inl rfl) _⟩)
  | quoted => exact .inr (.inr ⟨by simp, by simp, hquote (.inr rfl) _⟩)
  | @word c r w rest hc hw =>
    have hword (m : Mark) : wordKind (c :: w) rest ≠ .mark m :=
      wordKind_cases (P := (· ≠ .mark m)) (by simp) (by simp) _ _
    refine .inr (.inr ⟨hword _, hword _, peak_append_le (hno fun d hd hmem => ?_) d cs⟩)
    rcases List.mem_cons.1 hmem with rfl | hmem
    · exact absurd hc (Bool.eq_false_iff.1 (stops_of_isStop hd []).startsWord)
    · exact stop_notMem_of_splitWords hd (by rwa [hw])
  | mark _ _ _ _ hm _ =>
    obtain ⟨⟨v, n⟩, hf, he⟩ := Option.map_eq_some_iff.1 hm
    simp only [Prod.mk.injEq] at he
    obtain ⟨rfl, rfl⟩ := he
    obtain ⟨hl, hr, hother⟩ := spelling_paren _ (List.mem_of_find?_eq_some hf)
    by_cases hleft : n = .leftParen
    · exact .inl ⟨by rw [hleft], hl hleft⟩
    by_cases hright : n = .rightParen
    · exact .inr (.inl ⟨by rw [hright], hr hright⟩)
    · exact .inr (.inr ⟨by simpa using hleft, by simpa using hright,
        peak_append_le (hother hleft hright) d cs⟩)

end Lexemes

/-! ## The text of tokens -/

/-- The characters are the lexemes of the tokens, and blanks around them. -/
inductive Laid : List Token → List Char → Prop where
  | nil : Laid [] []
  | blank {c : Char} {cs : List Char} {ts : List Token} (hc : isBlank c = true) (h : Laid ts cs) :
    Laid ts (c :: cs)
  | lexeme {t : Token} {w cs rest : List Char} {ts : List Token}
    (hw : splitLexeme (w ++ rest) = .ok (t.kind, w, rest)) (h : Laid ts cs) :
    Laid (t :: ts) (w ++ cs)

namespace Scans

variable {p q : Position} {cs : List Char} {ts us : List Token} {t : Token}

/-- The tokens at the front of a text are laid there. -/
theorem laid (h : Scans p cs (ts ++ us) q) : ∃ mid post, cs = mid ++ post ∧ Laid ts mid ∧
    stopOf p.offset ts = p.offset + Wkt.byteLength mid := by
  generalize hvs : ts ++ us = vs at h
  induction h generalizing ts with
  | @nil p =>
    obtain ⟨rfl, -⟩ := List.append_eq_nil_iff.1 hvs
    exact ⟨[], [], rfl, .nil, rfl⟩
  | @blank p q c cs vs hc _ ih =>
    cases ts with
    | nil => exact ⟨[], _, rfl, .nil, rfl⟩
    | cons t ts =>
      obtain ⟨mid, post, rfl, hmid, hstop⟩ := ih hvs
      refine ⟨c :: mid, post, rfl, .blank hc hmid, ?_⟩
      rw [Position.offset_advance] at hstop
      rw [Wkt.byteLength, ← Nat.add_assoc]
      exact hstop
  | @lexeme p q kind w cs vs hw _ ih =>
    cases ts with
    | nil => exact ⟨[], _, rfl, .nil, rfl⟩
    | cons t ts =>
      obtain ⟨rfl, hts⟩ := List.cons.inj hvs
      obtain ⟨mid, post, rfl, hmid, hstop⟩ := ih hts
      refine ⟨w ++ mid, post, (List.append_assoc ..).symm, .lexeme hw hmid, ?_⟩
      rw [Position.offset_after] at hstop
      rw [byteLength_append, ← Nat.add_assoc, ← hstop, ← Position.offset_after]
      rfl

/-- Only blanks stand in front of the first token. -/
theorem skip (h : Scans p cs (t :: ts) q) : ∃ pre post r, cs = pre ++ post ∧
    r.offset = p.offset + Wkt.byteLength pre ∧ t.span.start = r.offset ∧
    Scans r post (t :: ts) q := by
  generalize hvs : t :: ts = vs at h
  induction h with
  | nil => cases hvs
  | @blank p q c cs vs hc _ ih =>
    obtain ⟨pre, post, r, rfl, hr, hs⟩ := ih hvs
    refine ⟨c :: pre, post, r, rfl, ?_, hs⟩
    rw [hr, Position.offset_advance, Wkt.byteLength, Nat.add_assoc]
  | @lexeme p q kind w cs vs hw h _ =>
    obtain ⟨rfl, rfl⟩ := List.cons.inj hvs
    exact ⟨[], _, p, rfl, rfl, rfl, .lexeme hw h⟩

end Scans

/-- The part of the text from the first token to the last. -/
theorem Stands.slice {source : String} {t : Token} {ts : List Token} (h : Stands source (t :: ts)) :
    ∃ cs, byteSlice source.toList t.span.start (stopOf t.span.stop ts) = some cs ∧
      Laid (t :: ts) cs := by
  obtain ⟨pre, cs, rest, p, q, hsource, hp, hs⟩ := h
  obtain ⟨gap, post, r, rfl, hr, hstart, hs⟩ := hs.skip
  have hs : Scans r post (t :: ts ++ rest) q := hs
  obtain ⟨mid, post, rfl, hmid, hstop⟩ := hs.laid
  refine ⟨mid, ?_, hmid⟩
  have hoffset : r.offset = Wkt.byteLength (pre ++ gap) := by rw [hr, hp, byteLength_append]
  rw [show stopOf t.span.stop ts = stopOf r.offset (t :: ts) from rfl, hstop, hstart, hoffset,
    hsource, ← List.append_assoc]
  exact byteSlice_append ..

namespace Laid

variable {cs : List Char} {ts : List Token} {t : Token}

theorem peak_blank {c : Char} (hc : isBlank c = true) (d : Nat) (cs : List Char) :
    peak d (c :: cs) = peak d cs := by
  have hblank : c = ' ' ∨ c = '\t' ∨ c = '\r' ∨ c = '\n' := by simpa [isBlank, or_assoc] using hc
  rcases hblank with rfl | rfl | rfl | rfl <;> rfl

theorem peak_nil (h : Laid [] cs) (d : Nat) : peak d cs = d := by
  generalize hts : ([] : List Token) = ts at h
  induction h with
  | nil => rfl
  | blank hc _ ih => rw [peak_blank hc, ih hts]
  | lexeme _ _ => cases hts

theorem peak_cons (h : Laid (t :: ts) cs) (d : Nat) : ∃ cs', Laid ts cs' ∧ peak d cs ≤
    if t.kind = .mark .leftParen then peak (d + 1) cs'
    else if t.kind = .mark .rightParen then max d (peak (d - 1) cs') else peak d cs' := by
  generalize hts : t :: ts = us at h
  induction h with
  | nil => cases hts
  | blank hc _ ih =>
    rw [peak_blank hc]
    exact ih hts
  | @lexeme u w cs rest us hw h _ =>
    obtain ⟨rfl, rfl⟩ := List.cons.inj hts
    refine ⟨cs, h, ?_⟩
    obtain ⟨hk, rfl⟩ | ⟨hk, rfl⟩ | ⟨hl, hr, hle⟩ := peak_lexeme hw d cs
    · rw [if_pos hk]
      exact Nat.le_refl _
    · rw [if_neg (by simp [hk]), if_pos hk]
      exact Nat.le_refl _
    · rw [if_neg hl, if_neg hr]
      exact hle

theorem peak_other (h : Laid (t :: ts) cs) (hl : t.kind ≠ .mark .leftParen)
    (hr : t.kind ≠ .mark .rightParen) (d : Nat) : ∃ cs', Laid ts cs' ∧ peak d cs ≤ peak d cs' := by
  obtain ⟨cs', hcs, hle⟩ := h.peak_cons d
  rw [if_neg hl, if_neg hr] at hle
  exact ⟨cs', hcs, hle⟩

theorem peak_open (h : Laid (t :: ts) cs) (ht : t.kind = .mark .leftParen) (d : Nat) :
    ∃ cs', Laid ts cs' ∧ peak d cs ≤ peak (d + 1) cs' := by
  obtain ⟨cs', hcs, hle⟩ := h.peak_cons d
  rw [if_pos ht] at hle
  exact ⟨cs', hcs, hle⟩

theorem peak_close (h : Laid (t :: ts) cs) (ht : t.kind = .mark .rightParen) (d : Nat) :
    ∃ cs', Laid ts cs' ∧ peak d cs ≤ max d (peak (d - 1) cs') := by
  obtain ⟨cs', hcs, hle⟩ := h.peak_cons d
  rw [if_neg (by simp [ht]), if_pos ht] at hle
  exact ⟨cs', hcs, hle⟩

theorem peak_append {ns : List Token} (h : Laid (ns ++ ts) cs)
    (hns : ∀ t ∈ ns, t.kind ≠ .mark .leftParen ∧ t.kind ≠ .mark .rightParen) (d : Nat) :
    ∃ cs', Laid ts cs' ∧ peak d cs ≤ peak d cs' := by
  induction ns generalizing cs with
  | nil => exact ⟨cs, h, Nat.le_refl _⟩
  | cons n ns ih =>
    obtain ⟨⟨hl, hr⟩, hns⟩ := List.forall_mem_cons.1 hns
    obtain ⟨cs₁, h₁, hle₁⟩ := Laid.peak_other h hl hr d
    obtain ⟨cs₂, h₂, hle₂⟩ := ih h₁ hns
    exact ⟨cs₂, h₂, hle₁.trans hle₂⟩

end Laid

namespace Grammar

variable {limit depth : Nat} {cs : List Char} {ts : List Token}

/-- No more parentheses are open than where the tokens start, or than are allowed. -/
theorem Closes.peak_le (h : Closes limit depth ts) (hcs : Laid ts cs) :
    peak depth cs ≤ max depth limit := by
  induction h generalizing cs with
  | last ht =>
    obtain ⟨cs', hnil, hle⟩ := hcs.peak_close ht 1
    rw [hnil.peak_nil] at hle
    omega
  | @close t depth ts ht _ ih =>
    obtain ⟨cs', hcs', hle⟩ := hcs.peak_close ht (depth + 2)
    have := ih hcs'
    simp only [Nat.add_one_sub_one] at hle
    omega
  | @deepen t depth ts ht hd _ ih =>
    obtain ⟨cs', hcs', hle⟩ := hcs.peak_open ht depth
    have := ih hcs'
    omega
  | @other t depth ts hl hr _ ih =>
    obtain ⟨cs', hcs', hle⟩ := hcs.peak_other hl hr depth
    exact hle.trans (ih hcs')

theorem ShapeRest.peak_le (h : ShapeRest limit ts) (hcs : Laid ts cs) :
    peak 0 cs ≤ max 1 limit := by
  have hword {t : Token} {w : String} (ht : t.kind = .identifier w) :
      t.kind ≠ .mark .leftParen ∧ t.kind ≠ .mark .rightParen := by simp [ht]
  have htag {tags : List Token} (htags : ∀ t ∈ tags, IsTag t) :
      ∀ t ∈ tags, t.kind ≠ .mark .leftParen ∧ t.kind ≠ .mark .rightParen := by
    intro t ht
    obtain ⟨w, hw, -⟩ := htags t ht
    exact hword hw
  cases h with
  | empty htags ht _ =>
    obtain ⟨cs₁, h₁, hle₁⟩ := hcs.peak_append (htag htags) 0
    obtain ⟨cs₂, h₂, hle₂⟩ := h₁.peak_other (hword ht).1 (hword ht).2 0
    rw [h₂.peak_nil] at hle₂
    omega
  | full htags ht h =>
    obtain ⟨cs₁, h₁, hle₁⟩ := hcs.peak_append (htag htags) 0
    obtain ⟨cs₂, h₂, hle₂⟩ := h₁.peak_open ht 0
    exact (hle₁.trans hle₂).trans (h.peak_le h₂)

variable {g : Grammar} {s : Geometry}

/-- A geometry that a text draws has no empty list inside another list and only numbers as
ordinates, and takes one level of parentheses more than the dialect allows at most. -/
theorem Draws.drawnAt (hg : g.readGeometry = Wkt.read) (h : g.Draws s) :
    Wkt.DrawnAt 0 (max 1 g.dialect.maxDepth) s := by
  cases h with
  | envelope hw hs he hn =>
    refine ⟨.envelope (Binary64.beq_self_iff.1 hw) (Binary64.beq_self_iff.1 hs)
      (Binary64.beq_self_iff.1 he) (Binary64.beq_self_iff.1 hn), ?_⟩
    show 0 + 2 ≤ _
    omega
  | shape hts h =>
    obtain ⟨ht, -, hrest, hcs, hread⟩ := h
    obtain ⟨cs, hslice, hlaid⟩ := hts.slice
    rw [hslice] at hcs
    cases hcs
    rw [hg] at hread
    have hdrawn := Wkt.drawnAt_of_read hread
    rw [String.toList_ofList] at hdrawn
    obtain ⟨cs', hlaid', hle⟩ := hlaid.peak_other (by simp [ht]) (by simp [ht]) 0
    have := hrest.peak_le hlaid'
    have := hdrawn.levels
    exact ⟨hdrawn.drawn, by omega⟩

end Grammar

end FeatureFilter
