import FeatureFilter.Proofs.Calendar.Codec
import FeatureFilter.Proofs.Color
import FeatureFilter.Proofs.Compiler.Composition
import FeatureFilter.Proofs.Syntax.Widening

/-!
# Compiling colours

Where the dialect has colour literals, a string is a colour when its content is the text of one,
which is read in either case of letters and written in capitals. Nothing else is compiled to a
colour: a text that starts with a quote starts with a string, and the one operand that starts with a
string and has no operator is the string itself (`Grammar.IsOperand.string`).
-/

namespace FeatureFilter

open Span (nowhere)

/-! ## Texts that start with a quote -/

theorem Scans.all_blank {p q : Position} {cs : List Char} {ts : List Token} (h : Scans p cs ts q)
    (hts : ts = []) : ∀ c ∈ cs, isBlank c = true := by
  induction h with
  | nil => exact nofun
  | blank hc _ ih => exact List.forall_mem_cons.2 ⟨hc, ih hts⟩
  | lexeme => cases hts

/-- A text that starts with a quote is split into a string and what follows. -/
theorem Scans.string {p q : Position} {cs : List Char} {ts : List Token}
    (h : Scans p ('\'' :: cs) ts q) : ∃ content rest t us p',
      '\'' :: cs = Quoted.write '\'' content ++ rest ∧ ts = t :: us ∧
        t.kind = .string (String.ofList content) ∧ Scans p' rest us q := by
  generalize hx : '\'' :: cs = x at h
  cases h with
  | nil => cases hx
  | blank hc _ =>
    obtain ⟨rfl, -⟩ := List.cons.inj hx
    cases hc
  | @lexeme _ _ kind w rest us hw h =>
    rw [← hx] at hw
    generalize hy : '\'' :: cs = y at hw
    cases LexemeAt.of_splitLexeme hw with
    | string => exact ⟨_, rest, _, us, _, rfl, rfl, rfl, h⟩
    | number hn =>
      subst hy
      cases (splitNumber?_none (by decide) (by decide)).symm.trans hn
    | quoted => cases hy
    | word hc =>
      obtain ⟨rfl, -⟩ := List.cons.inj hy
      cases hc
    | mark _ hq =>
      obtain ⟨rfl, -⟩ := List.cons.inj hy
      exact absurd rfl hq

/-! ## Operands that start with a string -/

namespace Grammar

variable {g : Grammar} {n : Nat} {ts : List Token} {o : Operand}

theorem Factor.string {below : Option (Category Operand)} (h : Factor g below ts o)
    (hs : StartsString ts) :
    ∃ t content, ts = [t] ∧ t.kind = .string content ∧
      o = .literal nowhere (Operand.stringLiteral g content) := by
  obtain ⟨u, content, hu, hk⟩ := hs
  cases h with
  | number hsign | signed hsign =>
    cases hu
    rw [hk] at hsign
    cases hsign
  | primary h =>
    cases h with
    | string ht => exact ⟨_, _, rfl, ht, rfl⟩
    | group hclose =>
      cases hu
      rw [hk] at hclose
      cases hclose
    | boolean b ht =>
      cases hu
      rw [hk] at ht
      cases b <;> cases ht
    | geometry hshape =>
      cases hshape with
      | intro ht =>
        cases hu
        cases ht.symm.trans hk
    | _ ht =>
      cases hu
      cases ht.symm.trans hk

theorem IsOperand.string (h : g.IsOperand n ts o) (hs : StartsString ts) :
    (∃ t content, ts = [t] ∧ t.kind = .string content ∧
      o = .literal nowhere (Operand.stringLiteral g content)) ∨
      ∃ op l r, o = .arithmetic nowhere op l r := by
  obtain hproduct | harithmetic := Operators.cases h
  · obtain hfactor | harithmetic := Operators.cases hproduct
    · exact .inl (Factor.string (isFactor_eq g n ▸ hfactor) hs)
    · exact .inr harithmetic
  · exact .inr harithmetic

end Grammar

namespace Operand

variable {g : Grammar} {content : String}

theorem stringLiteral_color {k : Color} (hg : g.dialect.colorLiterals = true)
    (h : Color.read? content.toList = some k) : stringLiteral g content = .color k := by
  simp only [stringLiteral, h, hg, if_true]

theorem stringLiteral_string (h : Color.read? content.toList = none) :
    stringLiteral g content = .string content := by
  simp only [stringLiteral, h]

theorem isText_of_stringLiteral {k : Color} (h : stringLiteral g content = .color k) :
    Color.IsText content.toList := by
  refine Color.read?_isSome_iff.1 (Option.isSome_iff_ne_none.2 fun hnone => ?_)
  rw [stringLiteral_string hnone] at h
  cases h

end Operand

theorem Color.quote_not_mem {cs : List Char} (h : IsText cs) : '\'' ∉ cs := by
  obtain ⟨ds, rfl, -, hds⟩ := h
  have hquote : ¬ IsHexDigit '\'' := by
    unfold IsHexDigit
    decide
  simp only [List.mem_cons, not_or]
  exact ⟨by decide, fun hmem => hquote (hds _ hmem)⟩

/-! ## Compiling -/

namespace Compiler

variable {c : Compiler} {t : String} {k : Color}

/-- A string is compiled to what it stands for in the dialect. -/
theorem expression_stringText (c : Compiler) (t : String) :
    c.expression (stringText t) =
      .ok (.literal (Operand.stringLiteral (c.grammar (stringText t)) t).toValue) := by
  refine expression_of_spells ((Grammar.Spells.string t).imp ?_)
    ((Operand.denotes_literal (s := nowhere)).2 rfl)
  rintro _ ⟨u, _, rfl, hu, rfl⟩
  exact Grammar.IsOperand.primary fun _ => .string hu

theorem isText_of_expression (h : c.expression ("'" ++ t ++ "'") = .ok (.literal (.color k))) :
    Color.IsText t.toList := by
  obtain ⟨ts, p, b, htokens, hb, hd⟩ := expression_iff.1 h
  obtain ⟨us, q, he, hscans⟩ := tokenize_eq_ok.1 htokens
  obtain ⟨rfl, -⟩ := List.append_inj' he rfl
  have hchars : ("'" ++ t ++ "'").toList = '\'' :: (t.toList ++ ['\'']) := by simp
  rw [hchars] at hscans
  obtain ⟨content, rest, u, vs, p', hcontent, rfl, hu, hrest⟩ := hscans.string
  obtain ⟨u', content', htail, hu', rfl⟩ | ⟨op, l, r, rfl⟩ := hb.string ⟨u, _, rfl, hu⟩
  · obtain ⟨rfl, rfl⟩ := List.cons.inj htail
    cases hu.symm.trans hu'
    obtain ⟨k', hk'⟩ : ∃ k', Operand.stringLiteral (c.grammar ("'" ++ t ++ "'"))
        (String.ofList content) = .color k' := by
      have hvalue := Expression.literal.inj (Operand.denotes_literal.1 hd)
      generalize Operand.stringLiteral _ _ = l at hvalue
      cases l <;> cases hvalue
      exact ⟨_, rfl⟩
    have htext := Operand.isText_of_stringLiteral hk'
    rw [String.toList_ofList] at htext
    -- nothing stands behind the string, as the text ends with a quote
    obtain rfl : rest = [] := by
      by_contra hne
      obtain ⟨init, last, rfl⟩ := List.eq_nil_or_concat rest |>.resolve_left hne
      have hend : ('\'' :: t.toList) ++ ['\''] = (Quoted.write '\'' content ++ init) ++ [last] := by
        rw [List.cons_append, hcontent, List.concat_eq_append, List.append_assoc]
      obtain ⟨-, hlast⟩ := List.append_inj' hend rfl
      obtain rfl := List.singleton_inj.1 hlast
      cases hrest.all_blank rfl '\'' (by simp)
    rw [List.append_nil, Quoted.write, Quoted.double_of_not_mem (Color.quote_not_mem htext)]
      at hcontent
    obtain rfl := List.append_cancel_right (List.cons.inj hcontent).2
    exact htext
  · obtain ⟨l', r', -, -, he⟩ := Operand.denotes_arithmetic.1 hd
    cases he

/-- The text of a colour is compiled to it, in either case of letters. -/
theorem expression_of_read? (hc : c.dialect.colorLiterals = true)
    (h : Color.read? t.toList = some k) :
    c.expression ("'" ++ t ++ "'") = .ok (.literal (.color k)) := by
  have htext : stringText t = "'" ++ t ++ "'" := by
    have hquote := Color.quote_not_mem (Color.read?_isSome_iff.1 (Option.isSome_of_eq_some h))
    have hplain := stringText_of_not_mem hquote
    rwa [String.ofList_toList] at hplain
  rw [← htext, expression_stringText, Operand.stringLiteral_color hc h]
  rfl

/-- A text is that of a colour just if it is a number sign and six hexadecimal digits. Then the
colour is written as the text in capitals, has no more than 24 bits and is made of its components;
and the colours of no more than 24 bits are those that come back from what they are written as.
Under colour literals these texts in quotes and no others are compiled to colours, and any other
text is the content of a string. -/
theorem expression_color :
    (∀ t : String, (∃ k, Color.read? t.toList = some k) ↔ Color.IsText t.toList) ∧
    (∀ (t : String) (k : Color), Color.read? t.toList = some k →
      k.text = t.toUpper ∧ k.rgb < 0x1000000 ∧ Color.ofRgb k.red k.green k.blue = k) ∧
    (∀ k : Color, Color.read? k.text.toList = some k ↔ k.rgb < 0x1000000) ∧
    ∀ c : Compiler, c.dialect.colorLiterals = true → ∀ t : String,
      ((∃ k, c.expression ("'" ++ t ++ "'") = .ok (.literal (.color k))) ↔
        Color.IsText t.toList) ∧
      (∀ k, Color.read? t.toList = some k →
        c.expression ("'" ++ t ++ "'") = .ok (.literal (.color k)) ∧
          (Expression.literal (.color k)).text = "'" ++ t.toUpper ++ "'") ∧
      (¬ Color.IsText t.toList → c.expression (stringText t) = .ok (.literal (.string t))) := by
  have hread (t : String) : (∃ k, Color.read? t.toList = some k) ↔ Color.IsText t.toList :=
    Option.isSome_iff_exists.symm.trans Color.read?_isSome_iff
  have hupper {t : String} {k : Color} (h : Color.read? t.toList = some k) :
      k.text = t.toUpper := by
    rw [← String.toList_inj, Color.text_of_read? h, String.toUpper, String.toList_map]
  refine ⟨hread, fun t k h => ⟨hupper h, Color.lt_of_read? h, Color.ofRgb_components
    (Color.lt_of_read? h)⟩, fun k => Color.read?_text_iff, fun c hc t => ⟨⟨?_, ?_⟩, ?_, ?_⟩⟩
  · rintro ⟨k, hk⟩
    exact isText_of_expression hk
  · intro h
    obtain ⟨k, hk⟩ := (hread t).2 h
    exact ⟨k, expression_of_read? hc hk⟩
  · intro k hk
    have htext := Color.read?_isSome_iff.1 (Option.isSome_of_eq_some (Color.read?_text
      (Color.lt_of_read? hk)))
    have hquoted := stringText_of_not_mem (Color.quote_not_mem htext)
    rw [String.ofList_toList, hupper hk] at hquoted
    refine ⟨expression_of_read? hc hk, ?_⟩
    rw [Expression.text, Value.text, hupper hk, hquoted]
  · intro h
    have hnone : Color.read? t.toList = none :=
      Option.eq_none_iff_forall_ne_some.2 fun k hk => h ((hread t).1 ⟨k, hk⟩)
    rw [expression_stringText, Operand.stringLiteral_string hnone]
    rfl

/-- Small letters are read and capitals are written, and a sign is no digit. -/
theorem expression_color_orange :
    (∃ k, Color.read? "#ff80a0".toList = some k ∧ k.text = "#FF80A0" ∧
      standard.expression "'#ff80a0'" = .ok (.literal (.color k))) ∧
    standard.expression (stringText "#+f80a0") = .ok (.literal (.string "#+f80a0")) := by
  obtain ⟨htext, hcolor, -, hcompiled⟩ := expression_color
  obtain ⟨k, hk⟩ := (htext "#ff80a0").2 (Color.read?_isSome_iff.1 (by decide))
  have hsign : ¬ Color.IsText "#+f80a0".toList := Color.read?_isSome_iff.not.1 (by decide)
  have hupper : "#ff80a0".toUpper = "#FF80A0" := by decide +kernel
  exact ⟨⟨k, hk, (hcolor _ k hk).1.trans hupper, ((hcompiled standard rfl "#ff80a0").2.1 k hk).1⟩,
    (hcompiled standard rfl "#+f80a0").2.2 hsign⟩

end Compiler

end FeatureFilter
