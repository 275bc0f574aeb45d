import FeatureFilter.Proofs.Geometry.Tokens
import FeatureFilter.Proofs.Syntax.Texts

/-!
# Geometries as texts

A text that is well-known text is an expression, too: its tokens are those of a geometry that starts
and ends where the well-known text does, and what is cut out of the text is read as the same
geometry (`Compiler.expression_geometry`).
-/

namespace FeatureFilter

namespace Wkt

open Grammar (ShapeRest)

/-- Nothing but a geometry in a text: where it stands between blanks, and its tokens. -/
structure Alone (m : Nat) (text : String) (g : Geometry) (before core behind : List Char)
    (t : Token) (ts : List Token) : Prop where
  parts : text.toList = before ++ (core ++ behind)
  blanks : ∀ c ∈ before ++ behind, isBlank c = true
  reads : read (String.ofList core) = .ok g
  scans : ∃ q, Scans .start text.toList (t :: ts) q
  word : ∃ w, t.kind = .identifier w ∧ isGeometryWord w = true
  outline : ShapeRest m ts
  start : t.span.start = byteLength before
  stop : stopOf t.span.stop ts = byteLength before + byteLength core

variable {m n : Nat} {text : String} {g : Geometry} {cs rest before core behind : List Char}
  {t : Token} {ts : List Token}

/-- A geometry is a type and what stands behind it. -/
theorem IsGeometry.exists_typed (h : IsGeometry n cs g rest) :
    ∃ M, Lexes m M ∧ Typed M cs g rest := by
  cases n with
  | zero => exact ⟨_, fun _ _ _ _ _ h => h.elim, h⟩
  | succ n => exact ⟨_, lexes_geometry n, h⟩

/-- A geometry is read without the white space in front of it and without what stands behind it. -/
theorem IsGeometry.exists_core (h : IsGeometry n cs g rest) :
    ∃ core, trimStart cs = core ++ rest ∧ read (String.ofList core) = .ok g := by
  obtain ⟨core, hcore, hcut⟩ := local_geometry n h.trimmed
  refine ⟨core, hcore, read_eq_ok_iff.2 ⟨[], ?_, rfl⟩⟩
  have hfront := hcut (v := []) (b := rest) rfl
  rw [List.append_nil] at hfront
  rw [String.toList_ofList]
  exact hfront.level (Nat.le_refl _)

/-- A text that is read as a geometry is the tokens of one. -/
theorem exists_alone (h : read text = .ok g) (hfit : Fit 0 m text.toList) :
    ∃ before core behind t ts, Alone m text g before core behind t ts := by
  obtain ⟨rest, hg, hrest⟩ := read_eq_ok_iff.1 h
  have hspace : ∀ c ∈ rest, isWhiteSpace c = true := List.dropWhile_eq_nil_iff.1 hrest
  have hdelimited : Delimited rest := fun c hc => .inl (hspace c (List.mem_of_mem_head? hc))
  obtain ⟨core, hcore, hread⟩ := hg.exists_core
  obtain ⟨M, hM, htyped⟩ := hg.exists_typed (m := m)
  obtain ⟨q, t, ts, w, hfront, hk, hw, hstart, hts, hfit'⟩ :=
    exists_outline hM hfit htyped hdelimited .start
  have hparts : text.toList = spaceOf text.toList ++ (core ++ rest) := by
    rw [← hcore, spaceOf_append_trimStart]
  have hbehind : ∀ c ∈ rest, isBlank c = true := fun c hc => hfit'.blank c hc (hspace c hc)
  refine ⟨spaceOf text.toList, core, rest, t, ts, hparts, ?_, hread, ?_, ⟨w, hk, hw⟩, hts.shapeRest,
    ?_, ?_⟩
  · intro c hc
    exact (List.mem_append.1 hc).elim (hfit.blanks c) (hbehind c)
  · have hend : Scans q (rest ++ []) [] (q.after rest) := scans_blanks hbehind .nil
    rw [List.append_nil] at hend
    have hall := hfront.scans hend
    rw [List.append_nil] at hall
    exact ⟨_, hall⟩
  · rw [hstart, Position.offset_after]
    exact Nat.zero_add _
  · obtain ⟨u, hu, rfl⟩ := hfront.text
    rw [hparts, ← List.append_assoc] at hu
    rw [← List.append_cancel_right hu] at hfront
    have hstop := hfront.stop
    rw [Position.offset_after, byteLength_append] at hstop
    exact hstop.trans (Nat.zero_add _)

namespace Alone

variable {c : Compiler}

theorem tokenize (h : Alone m text g before core behind t ts) :
    ∃ q, FeatureFilter.tokenize text = .ok (t :: ts ++ [.finishAt q]) := by
  obtain ⟨q, hq⟩ := h.scans
  exact ⟨q, tokenize_eq_ok.2 ⟨_, q, rfl, hq⟩⟩

/-- What is cut out of the text is the geometry between the blanks. -/
theorem slice (h : Alone m text g before core behind t ts) :
    byteSlice text.toList t.span.start (stopOf t.span.stop ts) = some core := by
  rw [h.parts, h.start, h.stop]
  exact byteSlice_append ..

theorem shape (h : Alone c.dialect.maxDepth text g before core behind t ts)
    (hread : c.readGeometry = read) : (c.grammar text).Shape (t :: ts) g := by
  obtain ⟨w, hk, hw⟩ := h.word
  refine .intro hk hw h.outline h.slice ?_
  show c.readGeometry _ = _
  rw [hread]
  exact h.reads

end Alone

end Wkt

namespace Compiler

variable {c : Compiler} {text : String} {g : Geometry}

theorem expression_of_alone {before core behind : List Char} {t : Token} {ts : List Token}
    (h : Wkt.Alone c.dialect.maxDepth text g before core behind t ts)
    (hread : c.readGeometry = Wkt.read) : c.expression text = .ok (.literal (.geometry g)) := by
  obtain ⟨q, htokens⟩ := h.tokenize
  refine expression_iff.2 ⟨_, q, .geometry .nowhere g none, htokens, ?_,
    Operand.denotes_geometry.2 ⟨rfl, rfl⟩⟩
  exact Grammar.IsOperand.primary fun _ => .geometry (h.shape hread)

theorem readGeometry_of_alone {before core behind : List Char} {t : Token} {ts : List Token}
    {q : Position} (h : Wkt.Alone c.dialect.maxDepth text g before core behind t ts)
    (hread : c.readGeometry = Wkt.read)
    (htokens : tokenize text = .ok (t :: ts ++ [.finishAt q])) :
    ∃ span s,
      Operand.readGeometry (c.grammar text) none (.ofTokens text (t :: ts ++ [.finishAt q])) =
        .ok (.geometry span g none, s) ∧ s.kind 0 = .finish ∧
      span.start = Wkt.byteLength before ∧
      s.lastStop = Wkt.byteLength before + Wkt.byteLength core := by
  let s : Cursor := { Cursor.ofTokens text [.finishAt q] with lastStop := stopOf 0 (t :: ts) }
  have htakes : (Cursor.ofTokens text (t :: ts ++ [.finishAt q])).Takes (t :: ts) s :=
    ⟨rfl, rfl, rfl, rfl, ne_finish_of_tokenize htokens⟩
  obtain ⟨stop, hgeometry⟩ := Operand.readGeometry_of_shape none htakes (h.shape hread)
  refine ⟨_, s, hgeometry, rfl, ?_, h.stop⟩
  rw [htakes.token_cons]
  exact h.start

/-- Well-known text whose white space is made of blanks, with no more parentheses open at a time
than the dialect allows levels of nesting, is compiled to its geometry. It is split into tokens, the
reader of tokens stops where the geometry does, and what it cuts out of the text is all of the
geometry and nothing else. -/
theorem expression_geometry (hread : c.readGeometry = Wkt.read) (h : Wkt.read text = .ok g)
    (hblank : ∀ ch ∈ text.toList, isWhiteSpace ch = true → isBlank ch = true)
    (hdepth : Wkt.peak 0 text.toList ≤ c.dialect.maxDepth) :
    c.expression text = .ok (.literal (.geometry g)) ∧
    ∃ before core behind tokens span s, text.toList = before ++ (core ++ behind) ∧
      (∀ ch ∈ before ++ behind, isBlank ch = true) ∧ tokenize text = .ok tokens ∧
      Operand.readGeometry (c.grammar text) none (.ofTokens text tokens) =
        .ok (.geometry span g none, s) ∧ s.kind 0 = .finish ∧
      span.start = Wkt.byteLength before ∧
      s.lastStop = Wkt.byteLength before + Wkt.byteLength core ∧
      byteSlice text.toList span.start s.lastStop = some core ∧
      Wkt.read (String.ofList core) = .ok g := by
  obtain ⟨before, core, behind, t, ts, halone⟩ := Wkt.exists_alone h ⟨hblank, hdepth⟩
  refine ⟨expression_of_alone halone hread, before, core, behind, ?_⟩
  obtain ⟨q, htokens⟩ := halone.tokenize
  obtain ⟨span, s, hgeometry, hfinish, hstart, hstop⟩ := readGeometry_of_alone halone hread htokens
  refine ⟨_, span, s, halone.parts, halone.blanks, htokens, hgeometry, hfinish, hstart, hstop, ?_,
    halone.reads⟩
  rw [hstart, hstop, halone.parts]
  exact byteSlice_append ..

/-- Parentheses as deep as allowed, a tag, signs, and words and numbers in unusual spellings. -/
theorem expression_geometry_nested : ∃ text g,
    text = "\tGeometryCollection (MultiPoint Z ((+1. -.5 2E+1)),\r\n point empty)\n" ∧
    Wkt.read text = .ok g ∧
    Compiler.expression { standard with dialect := { Dialect.cql2 with maxDepth := 3 } } text =
      .ok (.literal (.geometry g)) := by
  obtain ⟨g, h⟩ := exists_ok (x := Wkt.read
    "\tGeometryCollection (MultiPoint Z ((+1. -.5 2E+1)),\r\n point empty)\n")
    (by decide +kernel)
  have hblank : "\tGeometryCollection (MultiPoint Z ((+1. -.5 2E+1)),\r\n point empty)\n".toList.all
      (fun ch => !isWhiteSpace ch || isBlank ch) = true := by decide +kernel
  refine ⟨_, g, rfl, h, (expression_geometry ?_ h ?_ ?_).1⟩
  · rfl
  · intro ch hch hspace
    simpa [hspace] using List.all_eq_true.1 hblank ch hch
  · decide +kernel

end Compiler

end FeatureFilter
