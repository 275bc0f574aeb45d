import FeatureFilter.Proofs.Syntax.Texts
import FeatureFilter.Proofs.Syntax.Widening

/-!
# More permissive compilers

A compiler that permits more than another one compiles every text that the other one compiles, and
to the same tree. This is not plain from the way texts are read: with more levels or more extensions
an attempt at a group may succeed that was given up before, and a string may become an instant that
was a string before.
-/

namespace FeatureFilter

namespace Compiler

variable {c' c : Compiler} {text : String}

/-- The compiler `c'` permits what `c` permits, and reads geometries and colours in the same way. -/
structure Permits (c' c : Compiler) : Prop where
  catalog : c'.vocabulary.catalog = c.vocabulary.catalog
  readGeometry : c'.readGeometry = c.readGeometry
  colors : c'.dialect.colorLiterals = c.dialect.colorLiterals
  extensions : ∀ e, c.dialect.allows e = true → c'.dialect.allows e = true
  levels : c.dialect.maxDepth ≤ c'.dialect.maxDepth
  rejected : c'.dialect.rejectedFunctions ⊆ c.dialect.rejectedFunctions
  allowUnknown : c.vocabulary.allowUnknown = true → c'.vocabulary.allowUnknown = true

namespace Permits

/-- Its grammar is wider, wherever the text stands in another one. -/
theorem widens (h : c'.Permits c) {pre post : List Char} {source : String}
    (hsource : source.toList = pre ++ (text.toList ++ post)) :
    (c'.grammar source).Widens (c.grammar text) (Wkt.byteLength pre) where
  levels := h.levels
  allows := h.extensions
  accepts := by
    intro name hname
    refine Bool.eq_false_iff.2 fun hrejects => Bool.eq_false_iff.1 hname ?_
    obtain ⟨f, hf, hsame⟩ := List.any_eq_true.1 hrejects
    exact List.any_eq_true.2 ⟨f, h.rejected hf, hsame⟩
  colors := h.colors
  shapes := h.readGeometry
  slices := by
    rintro _ _ start stop cs rfl rfl hcs
    show byteSlice source.toList _ _ = _
    rw [hsource]
    exact byteSlice_inside pre post hcs

/-- A text inside another one holds what its part of the other one holds. -/
theorem widensAt_part (c : Compiler) {pre post : List Char} {source : String}
    (hsource : source.toList = pre ++ (text.toList ++ post)) :
    (c.grammar text).WidensAt (c.grammar source)
      fun a a' => a' = a + Wkt.byteLength pre ∧ a ≤ Wkt.byteLength text.toList where
  levels := Nat.le_refl _
  allows _ h := h
  accepts _ h := h
  colors := rfl
  shapes := rfl
  slices := by
    rintro a b _ _ cs ⟨rfl, -⟩ ⟨rfl, hb⟩ hcs
    have hcs : byteSlice source.toList _ _ = some cs := hcs
    rw [hsource] at hcs
    exact byteSlice_of_inside hcs hb

theorem refl (c : Compiler) : c.Permits c :=
  ⟨rfl, rfl, rfl, fun _ h => h, Nat.le_refl _, fun _ h => h, fun h => h⟩

theorem vocabulary (h : c'.Permits c) : c'.vocabulary.Extends c.vocabulary :=
  ⟨h.catalog, h.allowUnknown⟩

/-- A more permissive compiler changes no text that was compiled before. -/
theorem compiles (h : c'.Permits c) (text : String) :
    (∀ f, c.filter text = .ok f → c'.filter text = .ok f) ∧
      ∀ e, c.expression text = .ok e → c'.expression text = .ok e := by
  have hwhole : text.toList = [] ++ (text.toList ++ []) := by simp
  have hwidens : (c'.grammar text).Widens (c.grammar text) 0 := h.widens hwhole
  constructor
  · intro f hf
    obtain ⟨ts, p, b, ht, hb, hd⟩ := filter_iff.1 hf
    have hb' : (c'.grammar text).IsCondition c'.dialect.maxDepth ts b :=
      hwidens.isCondition h.levels (Token.AllMoved.refl ts) ⟨f, hd⟩ hb
    exact filter_iff.2 ⟨ts, p, b, ht, hb', hd.extend h.vocabulary⟩
  · intro e he
    obtain ⟨ts, p, b, ht, hb, hd⟩ := expression_iff.1 he
    have hb' : (c'.grammar text).IsOperand c'.dialect.maxDepth ts b :=
      hwidens.isOperand h.levels (Token.AllMoved.refl ts) (.inl ⟨e, hd⟩) hb
    exact expression_iff.2 ⟨ts, p, b, ht, hb', hd.extend h.vocabulary⟩

/-- The standard with all extensions, more levels, fewer refused names, and functions that it does
not know. -/
def lenient : Compiler where
  dialect := ⟨"lenient", .ofList Extension.all, true, ["BBOX"], 200⟩
  vocabulary := ⟨.standard, true⟩
  readGeometry := Wkt.read

theorem lenient_standard : lenient.Permits standard where
  catalog := rfl
  readGeometry := rfl
  colors := rfl
  extensions := fun e h => by cases e <;> cases h
  levels := by decide
  rejected := by decide
  allowUnknown := nofun

/-- A text with a group that is an operand, and with strings that stand for dates. -/
theorem compiles_lenient : lenient.Permits standard ∧
    ∃ f, standard.filter "(a) = 1 AND T_AFTER(b, INTERVAL('2020-01-01', '..'))" = .ok f ∧
      lenient.filter "(a) = 1 AND T_AFTER(b, INTERVAL('2020-01-01', '..'))" = .ok f := by
  refine ⟨lenient_standard, ?_⟩
  obtain ⟨f, hf⟩ := exists_ok (x := standard.filter
    "(a) = 1 AND T_AFTER(b, INTERVAL('2020-01-01', '..'))") (by decide +kernel)
  exact ⟨f, hf, (compiles lenient_standard _).1 f hf⟩

end Permits

end Compiler

end FeatureFilter
