import FeatureFilter.Proofs.Filter.Pieces
import FeatureFilter.Proofs.Syntax.Texts
import FeatureFilter.Proofs.Syntax.Widening

/-!
# Property names that are written anew

A tree holds the path of a property and not the segments of its name, so that the name which is
written for the path can have other segments: a name in quotes that holds `/` comes back as several
segments, and a word with a part that is no plain name as a single one.
-/

namespace FeatureFilter

open Span (nowhere)

/-! ## The segments of a path -/

def writtenSegments (path : String) : List String :=
  if (splitAtChar '/' path.toList).all isPlainName then
    (splitAtChar '/' path.toList).map String.ofList
  else [path]

/-- The name is written as a word whose parts are plain, or it has a single segment that does not
fall into plain names. -/
def PropertyName.KeepsSegments (p : PropertyName) : Prop :=
  (∀ s ∈ p.segments, isPlainName s.toList = true) ∨
    ∃ s, p.segments = [s] ∧ (splitAtChar '/' s.toList).all isPlainName = false

theorem joined_writtenSegments (path : String) : joined "/" (writtenSegments path) = path := by
  unfold writtenSegments
  split
  · exact joined_splitAtChar '/' path
  · rfl

theorem slash_notMem_of_isPlainName {s : List Char} (h : isPlainName s = true) : '/' ∉ s := by
  intro hs
  cases s with
  | nil => cases hs
  | cons c cs =>
    obtain ⟨hc, hcs⟩ := isPlainName_cons h
    rcases List.mem_cons.1 hs with rfl | hs
    · exact absurd hc (by decide +kernel)
    · exact absurd (hcs '/' hs) (by decide +kernel)

theorem PropertyName.toList_path (p : PropertyName) :
    p.path.toList = joinedChars '/' (p.segments.map String.toList) := by
  have h := toList_joined '/' (p.segments.map String.toList)
  rwa [List.map_map,
    show String.ofList ∘ String.toList = id from funext fun _ => String.ofList_toList,
    List.map_id] at h

/-- The path of plain segments falls into these. -/
theorem PropertyName.split_path {p : PropertyName} (hne : p.segments ≠ [])
    (h : ∀ s ∈ p.segments, isPlainName s.toList = true) :
    splitAtChar '/' p.path.toList = p.segments.map String.toList := by
  rw [p.toList_path]
  refine splitAtChar_joinedChars (by simpa using hne) fun w hw => ?_
  obtain ⟨s, hs, rfl⟩ := List.mem_map.1 hw
  exact slash_notMem_of_isPlainName (h s hs)

/-- Only names that keep their segments have those of their path. -/
theorem PropertyName.writtenSegments_path_iff {p : PropertyName} (hne : p.segments ≠ []) :
    writtenSegments p.path = p.segments ↔ p.KeepsSegments := by
  constructor
  · intro h
    unfold writtenSegments at h
    split at h
    · rename_i hall
      refine .inl fun s hs => ?_
      rw [← h] at hs
      obtain ⟨w, hw, rfl⟩ := List.mem_map.1 hs
      rw [String.toList_ofList]
      exact List.all_eq_true.1 hall w hw
    · rename_i hall
      exact .inr ⟨p.path, h.symm, Bool.eq_false_iff.2 hall⟩
  · rintro (h | ⟨s, hs, h⟩)
    · have hsplit := split_path hne h
      have hall : (splitAtChar '/' p.path.toList).all isPlainName = true := by
        rw [hsplit, List.all_map]
        exact List.all_eq_true.2 h
      rw [writtenSegments, if_pos hall, hsplit, List.map_map,
        show String.ofList ∘ String.toList = id from funext fun _ => String.ofList_toList,
        List.map_id]
    · have hpath : p.path = s := by
        rw [path, hs]
        rfl
      rw [writtenSegments, hpath, if_neg (Bool.eq_false_iff.1 h), hs]

/-! ## Properties that are read -/

namespace Grammar

/-- Properties among the items have a segment at least. -/
def NamesSegments (item : Category Operand) : Prop :=
  ∀ ⦃ts s p⦄, item ts (.property s p) → p.segments ≠ []

theorem segments_ofWord_ne_nil (w : String) : (PropertyName.ofWord w nowhere).segments ≠ [] := by
  simpa [PropertyName.ofWord] using splitAtChar_ne_nil '.' w.toList

theorem NamesSegments.operators {op? : TokenKind → Option ArithmeticOp} {item : Category Operand}
    (h : NamesSegments item) : NamesSegments (Operators op? item) := by
  intro ts s p hp
  obtain hitem | ⟨op, l, r, he⟩ := Operators.cases hp
  · exact h hitem
  · cases he

theorem Factor.namesSegments {g : Grammar} {below : Option (Category Operand)}
    (hb : ∀ factor, below = some factor → NamesSegments factor) :
    NamesSegments (Factor g below) := by
  intro ts s p h
  generalize ho : Operand.property s p = o at h
  cases h with
  | number hs ht hl => cases ho
  | @signed s ts negative o factor hs hts level h =>
    cases negative with
    | true => cases ho
    | false =>
      cases ho
      exact hb factor level h
  | primary h =>
    cases h with
    | word ht =>
      cases ho
      exact segments_ofWord_ne_nil _
    | quoted ht =>
      cases ho
      exact List.cons_ne_nil _ _
    | group ht level h ht' =>
      cases ho
      obtain ⟨factor, hfactor, rfl⟩ := Option.map_eq_some_iff.1 level
      exact (hb factor hfactor).operators.operators h
    | _ => cases ho

theorem IsFactor.namesSegments {g : Grammar} (n : Nat) : NamesSegments (IsFactor g n) := by
  induction n with
  | zero => exact Factor.namesSegments fun _ h => nomatch h
  | succ n ih =>
    refine Factor.namesSegments fun factor h => ?_
    cases h
    exact ih

end Grammar

namespace Compiler

variable {c : Compiler} {text : String} {s : Span} {p : PropertyName}

theorem segments_ne_nil (h : c.operand text = .ok (.property s p)) : p.segments ≠ [] := by
  obtain ⟨tokens, htokens, hread⟩ := phrase_eq_ok.1 h
  obtain ⟨ts, q, rfl, hts⟩ := tokenize_finish htokens
  have ho : (c.grammar text).IsOperand c.dialect.maxDepth ts (.property nowhere p.bare) :=
    (Grammar.operand_iff hts (Token.kind_finishAt q)).1 ⟨_, hread, rfl⟩
  have hne : p.bare.segments ≠ [] := (Grammar.IsFactor.namesSegments _).operators.operators ho
  exact hne

theorem operand_of_token {kind : TokenKind} {w : List Char} {name : PropertyName}
    (hchunk : Chunk [.lexeme kind w]) (hkind : kind ≠ .finish)
    (h : ∀ g t inner, t.kind = kind → Grammar.Primary g inner [t] (.property nowhere name)) :
    ∃ s p, c.operand (String.ofList w) = .ok (.property s p) ∧ p.bare = name := by
  have htokens := tokenize_charsOf hchunk.lexable
  rw [charsOf_cons, charsOf_nil, List.append_nil] at htokens
  have hts : ∀ t ∈ [(⟨kind, String.ofList w, .between .start (Position.start.after w)⟩ : Token)],
      t.kind ≠ .finish := by simpa using hkind
  obtain ⟨o, hread, hbare⟩ := (Grammar.operand_iff (g := c.grammar (String.ofList w)) hts
    (Token.kind_finishAt (Position.start.after w))).2
    (Grammar.IsOperand.primary fun inner => h _ _ inner rfl)
  cases o with
  | property s p =>
    cases hbare
    exact ⟨s, p, phrase_eq_ok.2 ⟨_, htokens, hread⟩, rfl⟩
  | _ => cases hbare

theorem operand_quoted (c : Compiler) (name : String) :
    ∃ s p, c.operand (Quoted.writeText '"' name) = .ok (.property s p) ∧ p.segments = [name] := by
  obtain ⟨s, p, hp, hbare⟩ := operand_of_token (c := c) (.single (firm_quoted name)) (by simp)
    fun g t inner ht => .quoted ht
  have hsegments : p.bare.segments = [name] := congrArg PropertyName.segments hbare
  exact ⟨s, p, hp, hsegments⟩

/-- A word is read as its parts between the points. -/
theorem operand_word (c : Compiler) {w : List Char} (h : isIdentifier w = true) :
    ∃ s p, c.operand (String.ofList w) = .ok (.property s p) ∧
      p.segments = (splitAtChar '.' w).map String.ofList := by
  obtain ⟨s, p, hp, hbare⟩ := operand_of_token (c := c) (chunk_word h) (by simp)
    fun g t inner ht => .word ht
  have hsegments : p.bare.segments = _ := congrArg PropertyName.segments hbare
  refine ⟨s, p, hp, hsegments.trans ?_⟩
  rw [PropertyName.ofWord, String.toList_ofList]

theorem operand_propertyText (c : Compiler) (path : String) :
    ∃ s p, c.operand (propertyText path) = .ok (.property s p) ∧
      p.segments = writtenSegments path := by
  unfold propertyText writtenSegments
  split
  · rename_i h
    obtain ⟨s, p, hp, hsegments⟩ := operand_word c (isIdentifier_pathWord h)
    refine ⟨s, p, hp, hsegments.trans ?_⟩
    have hpoint : ∀ w ∈ splitAtChar '/' path.toList, '.' ∉ w :=
      fun w hw => point_notMem_of_isPlainName (List.all_eq_true.1 h w hw)
    rw [pathWord_eq, splitAtChar_joinedChars (splitAtChar_ne_nil _ _) hpoint]
  · exact operand_quoted c path

/-- A property is compiled to its path, and the text of that is read as a property with the same
path. The segments are the same ones unless the name is in quotes and falls into plain names at `/`,
or is a word with a part that is no plain name. -/
theorem property_again (c : Compiler) (text : String) (s : Span) (p : PropertyName)
    (h : c.operand text = .ok (.property s p)) :
    ∃ e s' p', c.expression text = .ok e ∧ c.operand e.text = .ok (.property s' p') ∧
      p'.path = p.path ∧ p'.segments = writtenSegments p.path ∧
      (p'.segments = p.segments ↔ p.KeepsSegments) := by
  obtain ⟨s', p', hp', hsegments⟩ := operand_propertyText c p.path
  refine ⟨.property p.path, s', p', expression_eq_ok.2 ⟨_, h, Operand.denotes_property.2 rfl⟩, hp',
    ?_, hsegments, ?_⟩
  · rw [PropertyName.path, hsegments, joined_writtenSegments]
  · rw [hsegments]
    exact PropertyName.writtenSegments_path_iff (segments_ne_nil h)

/-- A word with a reserved word behind its point. -/
theorem property_again_reserved : ∃ s p, standard.operand "a.and" = .ok (.property s p) ∧
    ∃ e s' p', standard.expression "a.and" = .ok e ∧
      standard.operand e.text = .ok (.property s' p') ∧ p'.path = p.path ∧
      p'.segments = writtenSegments p.path ∧ (p'.segments = p.segments ↔ p.KeepsSegments) := by
  obtain ⟨s, p, hp, -⟩ := operand_word standard (w := "a.and".toList) (by decide +kernel)
  rw [String.ofList_toList] at hp
  exact ⟨s, p, hp, property_again standard "a.and" s p hp⟩

/-- A name in quotes with a `/` comes back as two segments. -/
theorem property_again_slash : ∃ s p e s' p', standard.operand "\"a/b\"" = .ok (.property s p) ∧
    p.segments = ["a/b"] ∧ standard.expression "\"a/b\"" = .ok e ∧ e.text = "a.b" ∧
    standard.operand e.text = .ok (.property s' p') ∧ p'.segments = ["a", "b"] := by
  obtain ⟨s, p, hp, hsegments⟩ := operand_quoted standard "a/b"
  obtain ⟨s', p', hp', hsegments'⟩ := operand_propertyText standard "a/b"
  have hpath : p.path = "a/b" := by
    rw [PropertyName.path, hsegments]
    rfl
  have hwritten : writtenSegments "a/b" = ["a", "b"] := by decide +kernel
  have htext : propertyText "a/b" = "a.b" := by decide +kernel
  exact ⟨s, p, .property "a/b", s', p', hp, hsegments,
    expression_eq_ok.2 ⟨_, hp, Operand.denotes_property.2 (congrArg _ hpath.symm)⟩, htext, hp',
    hsegments'.trans hwritten⟩

end Compiler

end FeatureFilter
