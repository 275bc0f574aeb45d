import FeatureFilter.Proofs.Phrase.Spans
import FeatureFilter.Proofs.Syntax.Texts
import FeatureFilter.Proofs.Text.Lines

/-!
# Where errors are

An error of compiling is about a part of the text, whichever step found it: a character that starts
no token, the tokens that were read last, or a phrase without a meaning. Its line and column are
those of the offset where it starts, and its report shows that line with the caret under that column
(`Compiler.error_place`). Its span cuts a slice out of the text, unless it is about a character of
more than one byte that starts no token (`Compiler.error_slice`).
-/

namespace FeatureFilter

/-! ## Phrases without a meaning -/

section Meaning

variable {α β : Type} {P : Span → Prop} {v : Vocabulary} {s : Span} {name : String} {count : Nat}

/-- If the work fails, it does so at a phrase whose span has the property. -/
def Blames (P : Span → Prop) (x : ExceptT MeaningError Id α) : Prop :=
  ∀ e : MeaningError, x = throw e → P e.span

theorem blames_pure (a : α) : Blames P (pure a : ExceptT MeaningError Id α) := nofun

theorem blames_throw {e : MeaningError} (h : P e.span) :
    Blames P (throw e : ExceptT MeaningError Id α) := by
  rintro _ ⟨⟩
  exact h

theorem Blames.bind {x : ExceptT MeaningError Id α} {f : α → ExceptT MeaningError Id β}
    (hx : Blames P x) (hf : ∀ a, Blames P (f a)) : Blames P (x >>= f) := by
  intro e he
  cases x with
  | ok a => exact hf a e he
  | error e' =>
    cases he
    exact hx _ rfl

theorem blames_liftExcept {x : Except MeaningError α} (h : ∀ e, x = .error e → P e.span) :
    Blames P (liftExcept x : ExceptT MeaningError Id α) := by
  cases x with
  | ok a => exact blames_pure a
  | error e => exact blames_throw (h e rfl)

theorem Vocabulary.span_checkValueCall {e : MeaningError}
    (h : v.checkValueCall s name count = .error e) : e.span = s := by
  unfold checkValueCall checkCount at h
  repeat' split at h
  all_goals cases h
  all_goals rfl

theorem Vocabulary.span_relation {e : MeaningError} (h : v.relation s name count = .error e) :
    e.span = s := by
  unfold relation checkCount at h
  repeat' split at h
  all_goals cases h
  all_goals rfl

namespace Operand

theorem blames_asBound {o : Operand} (ho : o.Spans P) {made : ExceptT MeaningError Id Expression}
    (hm : Blames P made) : Blames P (o.asBound .tree made) := by
  cases o with
  | openBound => exact blames_pure _
  | literal s l =>
    cases l with
    | date | timestamp => exact hm
    | _ => exact blames_throw ho
  | property | call => exact hm
  | _ => exact blames_throw ho.span

mutual

theorem blames_make : ∀ {o : Operand}, o.Spans P → Blames P (o.make v .tree)
  | .literal _ _, _ | .property _ _, _ | .geometry _ _ none, _ => by
    unfold make
    exact blames_pure _
  | .call _ _ _, h => by
    unfold make
    refine (blames_liftExcept fun e he => ?_).bind fun _ => (blames_makeAll h.2).bind fun _ =>
      blames_pure _
    rw [Vocabulary.span_checkValueCall he]
    exact h.1
  | .arithmetic _ _ _ _, h => by
    unfold make
    exact (blames_make h.2.1).bind fun _ => (blames_make h.2.2).bind fun _ => blames_pure _
  | .interval _ _ _, h => by
    unfold make
    exact (blames_asBound h.2.1 (blames_make h.2.1)).bind fun _ =>
      (blames_asBound h.2.2 (blames_make h.2.2)).bind fun _ => blames_pure _
  | .openBound _, h | .geometry _ _ (some _), h => by
    unfold make
    exact blames_throw h

theorem blames_makeAll : ∀ {os : List Operand}, AllSpans P os → Blames P (makeAll v .tree os)
  | [], _ => by
    unfold makeAll
    exact blames_pure _
  | _ :: _, h => by
    unfold makeAll
    exact (blames_make h.1).bind fun _ => (blames_makeAll h.2).bind fun _ => blames_pure _

end

end Operand

namespace Condition

theorem blames_makeNegated (negated : Bool) (f : Filter) :
    Blames P (makeNegated (Maker.tree) negated f : ExceptT MeaningError Id Filter) := by
  cases negated <;> exact blames_pure _

theorem blames_makeEqualities {value : Expression} {os : List Operand}
    (h : Operand.AllSpans P os) : Blames P (makeEqualities v .tree value os) := by
  induction os with
  | nil => exact blames_pure _
  | cons o os ih =>
    exact (Operand.blames_make h.1).bind fun _ => Blames.bind (blames_pure _) fun _ =>
      (ih h.2).bind fun _ => blames_pure _

mutual

theorem blames_make : ∀ {c : Condition}, c.Spans P → Blames P (c.make v .tree)
  | .any _ _, h | .all _ _, h => by
    unfold make
    exact (blames_makeAll h.2).bind fun _ => blames_pure _
  | .negation _ _, h => by
    unfold make
    exact (blames_make h.2).bind fun _ => blames_pure _
  | .compare _ _ _ _, h => by
    unfold make
    exact (Operand.blames_make h.2.1).bind fun _ => (Operand.blames_make h.2.2).bind fun _ =>
      blames_pure _
  | .between _ _ _ _ _, h => by
    unfold make
    exact (Operand.blames_make h.2.1).bind fun _ => (Operand.blames_make h.2.2.1).bind fun _ =>
      (Operand.blames_make h.2.2.2).bind fun _ => Blames.bind (blames_pure _) fun _ =>
        blames_makeNegated _ _
  | .like _ _ _ _ _, h | .isNull _ _ _, h => by
    unfold make
    exact (Operand.blames_make h.2).bind fun _ => Blames.bind (blames_pure _) fun _ =>
      blames_makeNegated _ _
  | .inList _ _ _ _, h => by
    unfold make
    exact (Operand.blames_make h.2.1).bind fun _ => (blames_makeEqualities h.2.2).bind fun _ =>
      Blames.bind (blames_pure _) fun _ => blames_makeNegated _ _
  | .call _ _ args, h => by
    unfold make
    refine (blames_liftExcept fun e he => ?_).bind fun _ => ?_
    · rw [Vocabulary.span_relation he]
      exact h.1
    · match args, h with
      | [_, _], h =>
        exact (Operand.blames_make h.2.1).bind fun _ => (Operand.blames_make h.2.2.1).bind fun _ =>
          blames_pure _
      | [], h | [_], h | _ :: _ :: _ :: _, h => exact blames_throw h.1

theorem blames_makeAll : ∀ {cs : List Condition}, AllSpans P cs → Blames P (makeAll v .tree cs)
  | [], _ => by
    unfold makeAll
    exact blames_pure _
  | _ :: _, h => by
    unfold makeAll
    exact (blames_make h.1).bind fun _ => (blames_makeAll h.2).bind fun _ => blames_pure _

end

end Condition

end Meaning

/-! ## Where compiling stops -/

theorem placed_of_tokenize {text : String} {tokens : List Token} (h : tokenize text = .ok tokens) :
    (∀ t ∈ tokens, t.span.Placed text.toList) ∧ ∃ t ∈ tokens, t.kind = .finish := by
  obtain ⟨ts, q, rfl, hts⟩ := tokenize_eq_ok.1 h
  have hq : q = .behind text.toList := hts.after_eq.trans (Position.behind_append [] _).symm
  have hfinish := Span.Placed.between text.toList []
  rw [List.append_nil, ← hq] at hfinish
  refine ⟨List.forall_mem_append.2 ⟨fun t ht => (hts.covers.exact t ht).placed, ?_⟩,
    _, List.mem_append_right _ (List.mem_singleton_self _), rfl⟩
  exact List.forall_mem_singleton.2 hfinish

/-- The error is that of splitting the text into tokens, or it is about a part of the text. -/
def CompileError.About (text : String) : CompileError → Prop
  | lexical e => tokenize text = .error e
  | syntactic e => e.span.Placed text.toList
  | semantic e => e.span.Placed text.toList

/-- An error of splitting a text is about a character in it. -/
theorem LexError.exists_metAt {text : String} {e : LexError} (h : tokenize text = .error e) :
    ∃ before ch behind, text.toList = before ++ ch :: behind ∧ e.position = .behind before ∧
      e.problem.MetAt ch := by
  obtain ⟨before, ch, behind, ts, htext, hch, hts⟩ := exists_of_scanFrom (scan_of_tokenize h)
  exact ⟨before, ch, behind, htext, hts.after_eq.trans (Position.behind_append [] _).symm, hch⟩

namespace Compiler

variable {c : Compiler} {text : String} {e : CompileError} {α : Type}
  {read : Grammar → List Token → Except SyntaxError α}

/-- What is read of a text is a part of it, and so is the error where nothing is read. -/
theorem placed_phrase {good : α → Prop} {x : Grammar → Reader α}
    (hx : ∀ g, Keeps (Span.Placed text.toList) (Span.Placed text.toList) good (x g))
    (hread : ∀ g tokens, read g tokens = (do
      let a ← x g
      Grammar.expectFinish
      return a : Reader α).run' (.ofTokens g.source tokens)) :
    (∀ a, c.phrase read text = .ok a → good a) ∧
      ∀ e, c.phrase read text = .error e → e.About text := by
  constructor
  · intro a ha
    obtain ⟨tokens, ht, hr⟩ := phrase_eq_ok.1 ha
    obtain ⟨hplaced, hend⟩ := placed_of_tokenize ht
    exact (Grammar.placed_of_keeps (hx _) hplaced hend (hread (c.grammar text) tokens)).1 a hr
  · intro e he
    rcases phrase_eq_error.1 he with ⟨e', ht, rfl⟩ | ⟨tokens, e', ht, hr, rfl⟩
    · exact ht
    · obtain ⟨hplaced, hend⟩ := placed_of_tokenize ht
      exact (Grammar.placed_of_keeps (hx _) hplaced hend (hread (c.grammar text) tokens)).2 e' hr

theorem placed_condition :
    (∀ o, c.condition text = .ok o → o.Spans (Span.Placed text.toList)) ∧
      ∀ e, c.condition text = .error e → e.About text :=
  placed_phrase (fun g => Condition.keeps_read g g.dialect.maxDepth) fun _ _ => rfl

theorem placed_operand :
    (∀ o, c.operand text = .ok o → o.Spans (Span.Placed text.toList)) ∧
      ∀ e, c.operand text = .error e → e.About text :=
  placed_phrase (fun g => Operand.keeps_read g g.dialect.maxDepth) fun _ _ => rfl

theorem about_of_error (h : c.filter text = .error e ∨ c.expression text = .error e) :
    e.About text := by
  rcases h with h | h
  · rcases filter_eq_error.1 h with h | ⟨o, e', ho, hm, rfl⟩
    · exact placed_condition.2 e h
    · exact Condition.blames_make (placed_condition.1 o ho) e' hm
  · rcases expression_eq_error.1 h with h | ⟨o, e', ho, hm, rfl⟩
    · exact placed_operand.2 e h
    · exact Operand.blames_make (placed_operand.1 o ho) e' hm

/-- An error starts at the place that its offset, line and column say. -/
theorem exists_place (h : c.filter text = .error e ∨ c.expression text = .error e) :
    ∃ before behind, text.toList = before ++ behind ∧
      (⟨e.span.start, e.span.line, e.span.column⟩ : Position) = .behind before := by
  have h := about_of_error h
  cases e with
  | lexical e =>
    obtain ⟨before, ch, behind, htext, hplace, -⟩ := LexError.exists_metAt h
    exact ⟨before, ch :: behind, htext, hplace⟩
  | syntactic e => exact h.start
  | semantic e => exact h.start

/-- When a text is not compiled the error says exactly where: the offset of its span is one between
two characters of the text, or at one of its ends, the line is told by the line feeds in front of it
and the column by the characters behind the last of these. The report shows the line around the
offset, which is empty behind a line feed that ends the text, and the caret behind as many blanks as
there are columns in front of the error. -/
theorem error_place (c : Compiler) {text : String} {e : CompileError}
    (h : c.filter text = .error e ∨ c.expression text = .error e) :
    e.span.start ≤ text.utf8ByteSize ∧ String.Pos.Raw.IsValid text ⟨e.span.start⟩ ∧
    ∃ before behind, text.toList = before ++ behind ∧ e.span.start = Wkt.byteLength before ∧
      e.span.line = 1 + before.count '\n' ∧
      e.span.column = 1 + (before.reverse.takeWhile (· != '\n')).length ∧
      e.report text = e.message ++ "\n" ++ String.ofList (lineAround before behind) ++ "\n" ++
        String.ofList (List.replicate (e.span.column - 1) ' ') ++ "^" ∧
      (behind = [] → before.getLast? = some '\n' → lineAround before behind = []) := by
  obtain ⟨before, behind, htext, hplace⟩ := exists_place h
  obtain ⟨hstart, hline, hcolumn⟩ := Position.mk.inj hplace
  have hsource : text = String.ofList before ++ String.ofList behind := by
    rw [← String.toList_inj, htext]
    simp
  have hbytes : e.span.start = (String.ofList before).utf8ByteSize := by
    rw [hstart, ← byteLength_toList, String.toList_ofList]
  refine ⟨?_, ?_, before, behind, htext, hstart, hline, hcolumn, ?_, ?_⟩
  · rw [hbytes, hsource, String.utf8ByteSize_append]
    exact Nat.le_add_right _ _
  · refine String.Pos.Raw.isValid_iff_exists_append.2 ⟨_, _, hsource, ?_⟩
    rw [hbytes]
    rfl
  · have hshown : ((linesOf text.toList)[e.span.line - 1]?).getD [] = lineAround before behind := by
      rw [hline, Nat.add_sub_cancel_left, htext, getD_linesOf]
    simp only [CompileError.report, hshown]
  · rintro rfl hlast
    obtain ⟨front, rfl⟩ := List.getLast?_eq_some_iff.1 hlast
    exact lineAround_end front

theorem error_place_end : ∃ e before behind, standard.filter "é = 'ü'\r\nAND\n" = .error e ∧
    e.span = ⟨15, 15, 3, 1⟩ ∧ "é = 'ü'\r\nAND\n".toList = before ++ behind ∧
    e.span.start = Wkt.byteLength before ∧ e.span.line = 1 + before.count '\n' ∧
    e.span.column = 1 + (before.reverse.takeWhile (· != '\n')).length ∧
    e.report "é = 'ü'\r\nAND\n" = e.message ++ "\n" ++ String.ofList (lineAround before behind) ++
      "\n" ++ String.ofList (List.replicate (e.span.column - 1) ' ') ++ "^" := by
  obtain ⟨e, he⟩ :=
    FeatureFilter.exists_error (x := standard.filter "é = 'ü'\r\nAND\n") (by decide +kernel)
  obtain ⟨-, -, before, behind, htext, hstart, hline, hcolumn, hreport, -⟩ :=
    error_place standard (.inl he)
  have hspan : (match standard.filter "é = 'ü'\r\nAND\n" with
      | .ok _ => none
      | .error e => some e.span) = some ⟨15, 15, 3, 1⟩ := by decide +kernel
  rw [he] at hspan
  exact ⟨e, before, behind, he, Option.some.inj hspan, htext, hstart, hline, hcolumn, hreport⟩

end Compiler

/-! ## Slices of errors -/

/-- The span of an error at a single byte. -/
theorem LexError.placed_span {source before behind : List Char} {ch : Char} {e : LexError}
    (hs : source = before ++ ch :: behind) (hplace : e.position = .behind before)
    (hch : ch.utf8Size = 1) : e.span.Placed source where
  start := ⟨before, ch :: behind, hs, hplace⟩
  stop := by
    refine ⟨before ++ [ch], behind, by simp [hs], ?_⟩
    have hstart : e.position.offset = Wkt.byteLength before := congrArg Position.offset hplace
    rw [span, byteLength_append, hstart, Wkt.byteLength, hch]
    rfl
  start_le_stop := Nat.le_succ _

namespace CompileError

def illegal? : CompileError → Option Char
  | lexical ⟨.illegalCharacter ch, _⟩ => some ch
  | _ => none

variable {text : String} {e : CompileError}

/-- The span of an error is a part of the text, unless a character starts no token: of that it takes
one byte. -/
theorem About.cases (h : e.About text) : e.illegal? = none ∧ e.span.Placed text.toList ∨
    ∃ before ch behind, e.illegal? = some ch ∧ text.toList = before ++ ch :: behind ∧
      e.span.start = Wkt.byteLength before ∧ e.span.stop = Wkt.byteLength before + 1 := by
  cases e with
  | syntactic e => exact .inl ⟨rfl, h⟩
  | semantic e => exact .inl ⟨rfl, h⟩
  | lexical e =>
    obtain ⟨before, ch, behind, htext, hplace, hmet⟩ := LexError.exists_metAt h
    obtain ⟨problem, position⟩ := e
    cases problem with
    | illegalCharacter ch' =>
      cases hmet
      have hstart : position.offset = Wkt.byteLength before := congrArg Position.offset hplace
      exact .inr ⟨before, ch, behind, rfl, htext, hstart, congrArg (· + 1) hstart⟩
    | unterminatedString | unterminatedIdentifier =>
      cases hmet
      exact .inl ⟨rfl, LexError.placed_span htext hplace (by decide)⟩
    | unexpectedEnd => exact hmet.elim

end CompileError

namespace Compiler

/-- The span of an error cuts out a part of the text, with one exception: of a character that starts
no token the span takes the first byte, and no cut of the text falls behind that when the character
has more of them. -/
theorem error_slice (c : Compiler) {text : String} {e : CompileError}
    (h : c.filter text = .error e ∨ c.expression text = .error e) :
    e.span.start ≤ e.span.stop ∧ e.span.stop ≤ text.utf8ByteSize ∧
    String.Pos.Raw.IsValid text ⟨e.span.start⟩ ∧
    (String.Pos.Raw.IsValid text ⟨e.span.stop⟩ ↔ ∀ ch, e.illegal? = some ch → ch.utf8Size = 1) ∧
    ((byteSlice text.toList e.span.start e.span.stop).isSome ↔
      ∀ ch, e.illegal? = some ch → ch.utf8Size = 1) ∧
    ∀ ch, e.illegal? = some ch → e.span.stop = e.span.start + 1 ∧
      byteSlice text.toList e.span.start (e.span.start + ch.utf8Size) = some [ch] := by
  rw [← isBoundary_iff, ← isBoundary_iff, ← byteLength_toList]
  rcases (about_of_error h).cases with ⟨hnone, hplaced⟩ |
    ⟨before, ch, behind, hch, htext, hstart, hstop⟩
  · have hsize : ∀ ch, e.illegal? = some ch → ch.utf8Size = 1 := by
      intro ch hch
      rw [hnone] at hch
      cases hch
    obtain ⟨a, b, hab, hplace⟩ := hplaced.start
    have hbound : IsBoundary text.toList e.span.start :=
      ⟨a, b, hab, congrArg Position.offset hplace⟩
    refine ⟨hplaced.start_le_stop, hplaced.stop.le, hbound, iff_of_true hplaced.stop hsize,
      iff_of_true ((isSome_byteSlice hbound hplaced.start_le_stop).2 hplaced.stop) hsize, ?_⟩
    intro ch hch
    rw [hnone] at hch
    cases hch
  · have hpos := ch.utf8Size_pos
    have hsize : (∀ ch', e.illegal? = some ch' → ch'.utf8Size = 1) ↔ ch.utf8Size = 1 := by
      simp [hch]
    have hcut : IsBoundary text.toList e.span.stop ↔ ch.utf8Size = 1 := by
      rw [htext, hstop]
      constructor
      · intro hb
        have := hb.not_inside
        omega
      · intro h1
        refine ⟨before ++ [ch], behind, by simp, ?_⟩
        rw [byteLength_append, Wkt.byteLength, h1]
        rfl
    have hbound : IsBoundary text.toList e.span.start := ⟨before, _, htext, hstart⟩
    have hle : e.span.start ≤ e.span.stop := by omega
    refine ⟨hle, ?_, hbound, hcut.trans hsize.symm,
      (isSome_byteSlice hbound hle).trans (hcut.trans hsize.symm), fun ch' hch' => ?_⟩
    · rw [htext, byteLength_append, Wkt.byteLength]
      omega
    · rw [hch] at hch'
      cases hch'
      have hslice := byteSlice_append before [ch] behind
      rw [show Wkt.byteLength [ch] = ch.utf8Size from rfl, List.singleton_append] at hslice
      rw [htext, hstop, hstart]
      exact ⟨rfl, hslice⟩

theorem error_slice_call : ∃ e, standard.filter "ö = f('ü')" = .error e ∧ e.span = ⟨5, 12, 1, 5⟩ ∧
    (byteSlice "ö = f('ü')".toList e.span.start e.span.stop).isSome := by
  obtain ⟨e, he⟩ :=
    FeatureFilter.exists_error (x := standard.filter "ö = f('ü')") (by decide +kernel)
  have hspan : (match standard.filter "ö = f('ü')" with
      | .ok _ => none
      | .error e => some (e.span, e.illegal?)) = some (⟨5, 12, 1, 5⟩, none) := by decide +kernel
  rw [he] at hspan
  obtain ⟨hspan, hnone⟩ := Prod.mk.inj (Option.some.inj hspan)
  obtain ⟨-, -, -, -, hslice, -⟩ := error_slice standard (.inl he)
  exact ⟨e, he, hspan, hslice.2 fun ch hch => by rw [hnone] at hch; cases hch⟩

/-- A character that starts no token is cut in two by the span of the error. -/
theorem error_slice_inside : ∃ e, standard.filter "a = §" = .error e ∧ e.illegal? = some '§' ∧
    ¬ String.Pos.Raw.IsValid "a = §" ⟨e.span.stop⟩ ∧
    byteSlice "a = §".toList e.span.start e.span.stop = none ∧
    byteSlice "a = §".toList e.span.start (e.span.start + '§'.utf8Size) = some ['§'] := by
  obtain ⟨e, he⟩ := FeatureFilter.exists_error (x := standard.filter "a = §") (by decide +kernel)
  have hspan : (match standard.filter "a = §" with
      | .ok _ => none
      | .error e => some (e.span, e.illegal?)) = some (⟨4, 5, 1, 5⟩, some '§') := by decide +kernel
  rw [he] at hspan
  obtain ⟨hspan, hch⟩ := Prod.mk.inj (Option.some.inj hspan)
  refine ⟨e, he, hch, ?_⟩
  rw [hspan, ← isBoundary_iff]
  refine ⟨fun hb => ?_, by decide, by decide⟩
  have hinside := (show IsBoundary ("a = ".toList ++ '§' :: []) 5 from hb).not_inside
  revert hinside
  decide

end Compiler

end FeatureFilter
