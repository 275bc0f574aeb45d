import FeatureFilter.Proofs.Calendar.Days
import FeatureFilter.Proofs.Filter.Json
import FeatureFilter.Proofs.Geometry.Nuances

/-!
# What equality of trees passes over

Equal trees need not be the same: zeros are equal whatever their sign, and timestamps of one instant
whatever their offset. These are the nuances of a tree. Equal expressions with the same nuances are
the same expression, and those with different nuances have different texts and different JSON forms
(`Expression.same_iff_nuances`).
-/

namespace FeatureFilter

mutual

def Value.nuances : Value → List Nuance
  | .double x => x.nuances
  | .timestamp t => [.offset t.offset]
  | .interval start stop => start.nuances ++ stop.nuances
  | .geometry g => g.nuances
  | _ => []

def Expression.nuances : Expression → List Nuance
  | .literal v => v.nuances
  | .property _ => []
  | .call _ args => Expression.nuancesAll args
  | .arithmetic _ left right => left.nuances ++ right.nuances

def Expression.nuancesAll : List Expression → List Nuance
  | [] => []
  | e :: es => e.nuances ++ Expression.nuancesAll es

end

/-! ## Literals -/

/-- Different strings part in their literals, at the latest behind the closing quote. -/
theorem part_stringText {s t : String} (h : s ≠ t) :
    Part ((stringText s).toList ++ [')']) ((stringText t).toList ++ [')']) := by
  intro us vs heq
  simp only [stringText, Quoted.writeText, Quoted.write, String.toList_ofList, List.cons_append,
    List.append_assoc, List.nil_append, List.cons.injEq, true_and] at heq
  have hs := Quoted.read_double (q := '\'') s.toList (')' :: us) (by simp)
  rw [heq, Quoted.read_double (q := '\'') t.toList (')' :: vs) (by simp)] at hs
  exact h (String.toList_inj.1 (Prod.mk.inj (Option.some.inj hs)).1.symm)

/-- What is read from the text of a timestamp has its offset. -/
theorem Timestamp.offset_eq_of_text {s t : Timestamp} (h : s.text = t.text) :
    s.offset = t.offset := by
  have hs := readLenient?_text s
  rw [h, readLenient?_text t] at hs
  have hreread : s.reread = t.reread := (Option.some.inj hs).symm
  show s.reread.offset = t.reread.offset
  rw [hreread]

/-- Equal trees need parentheses at the same places. -/
theorem needsGroup_of_beq {a b : Expression} (h : Expression.beq a b = true) (op : ArithmeticOp)
    (onRight : Bool) : needsGroup op onRight a = needsGroup op onRight b := by
  cases a with
  | arithmetic o x y =>
    cases b with
    | arithmetic p u v =>
      obtain ⟨hop, -⟩ := Bool.and_eq_true_iff.1 h
      obtain ⟨ho, -⟩ := Bool.and_eq_true_iff.1 hop
      rw [needsGroup, needsGroup, beq_iff_eq.1 ho]
    | _ => cases h
  | _ =>
    cases b with
    | arithmetic p u v => cases h
    | _ => rfl

def Value.view (v : Value) : View := ⟨v.nuances, v.text, v.toJson⟩

def Expression.view (e : Expression) : View := ⟨e.nuances, e.text, e.toJson⟩

/-- An operand of an operator, in parentheses if so told. -/
def Expression.sideView (inParentheses : Bool) (e : Expression) : View :=
  if inParentheses then e.view.framed "(" ")" id else e.view

theorem Expression.apart_sideView {a b : Expression} (h : a.view.Apart b.view)
    (inParentheses : Bool) : (a.sideView inParentheses).Apart (b.sideView inParentheses) := by
  cases inParentheses with
  | false => exact h
  | true => exact h.framed "(" ")" fun _ _ => id

/-- The JSON form of two parts of a record, the names given. -/
def pairJson (tag : String) (front : List (String × Json)) (a b : String) (j k : Json) : Json :=
  .tagged tag (.object (front ++ [(a, j), (b, k)]))

theorem pairJson_inj {tag a b : String} {front : List (String × Json)} {j k j' k' : Json}
    (h : pairJson tag front a b j k = pairJson tag front a b j' k') : j = j' ∧ k = k' := by
  simpa [pairJson, Json.tagged] using h

namespace Value

theorem view_double (x : Binary64) :
    (double x).view = (x.view .literal).framed "" "" (.tagged "Double") := by
  simp [view, View.framed, Binary64.view, nuances, text, toJson]

theorem view_geometry (g : Geometry) :
    (geometry g).view = g.view.framed "" "" (.tagged "Geometry") := by
  simp [view, View.framed, Geometry.view, nuances, text, toJson]

theorem view_interval (start stop : Expression) : (interval start stop).view =
    .pair "INTERVAL(" ", " ")" (pairJson "Interval" [] "start" "end") start.view stop.view := rfl

end Value

/-- Timestamps of one instant are the same, or differ in the offset. -/
theorem Timestamp.eq_or_apart {s t : Timestamp} (h : s.sameInstant t = true) :
    s = t ∨ (Value.timestamp s).view.Apart (Value.timestamp t).view := by
  have hutc : s.utc = t.utc := beq_iff_eq.1 h
  by_cases hst : s = t
  · exact .inl hst
  · have htext : String.ofList s.text ≠ String.ofList t.text := fun heq =>
      hst (eq_of_utc hutc (offset_eq_of_text (String.ofList_injective heq)))
    refine .inr ⟨.cons_ne ?_, ?_, ?_⟩
    · simpa using fun ho => hst (eq_of_utc hutc ho)
    · simp only [Value.view, Value.text, String.toList_append, List.append_assoc]
      exact (part_stringText htext).behind _
    · simpa [Value.view, Value.toJson, Json.tagged] using htext

theorem Expression.view_literal (v : Value) :
    (literal v).view = v.view.framed "" "" (.tagged "Literal") := by
  simp [view, View.framed, Value.view, nuances, text, toJson]

theorem Expression.nuancesAll_eq (es : List Expression) : nuancesAll es = es.flatMap nuances := by
  induction es with
  | nil => rfl
  | cons e es ih => rw [nuancesAll, ih, List.flatMap_cons]

theorem Expression.textAll_eq (es : List Expression) : textAll es = es.map text := by
  induction es with
  | nil => rfl
  | cons e es ih => rw [textAll, ih, List.map_cons]

theorem Expression.view_call (name : String) (args : List Expression) : (call name args).view =
    (View.row ", " (args.map view)).framed name ""
      fun j => .tagged "Function" (.object [("name", .string name), ("args", j)]) := by
  simp [view, View.framed, View.row, nuances, text, toJson, nuancesAll_eq, textAll_eq, toJsonAll_eq,
    List.flatMap_map, Function.comp_def]

theorem Expression.view_arithmetic (op : ArithmeticOp) (left right : Expression) :
    (arithmetic op left right).view =
      .pair "" (" " ++ op.symbol ++ " ") ""
        (pairJson "Arithmetic" [("op", .string op.tag)] "left" "right")
        (left.sideView (needsGroup op false left)) (right.sideView (needsGroup op true right)) := by
  have hside (b : Bool) (e : Expression) : e.sideView b =
      ⟨e.nuances, if b then grouped e.text else e.text, e.toJson⟩ := by
    cases b with
    | false => rfl
    | true => rfl
  simp [hside, view, View.pair, nuances, text, toJson, pairJson, String.append_assoc]

mutual

theorem Value.eq_or_apart :
    ∀ {v w : Value}, Value.beq v w = true → v = w ∨ v.view.Apart w.view := by
  intro v w h
  cases v with
  | long m =>
    cases w with
    | long n => exact .inl (congrArg _ (beq_iff_eq.1 (show (m == n) = true from h)))
    | _ => cases h
  | double x =>
    cases w with
    | double y =>
      refine (Binary64.eq_or_apart .literal h).imp (congrArg _) fun hxy => ?_
      rw [Value.view_double, Value.view_double]
      exact hxy.tagged _ _ _
    | _ => cases h
  | string s =>
    cases w with
    | string t => exact .inl (congrArg _ (beq_iff_eq.1 (show (s == t) = true from h)))
    | _ => cases h
  | boolean p =>
    cases w with
    | boolean q => exact .inl (congrArg _ (beq_iff_eq.1 (show (p == q) = true from h)))
    | _ => cases h
  | date d =>
    cases w with
    | date e => exact .inl (congrArg _ (beq_iff_eq.1 (show (d == e) = true from h)))
    | _ => cases h
  | timestamp s =>
    cases w with
    | timestamp t => exact (Timestamp.eq_or_apart h).imp_left (congrArg _)
    | _ => cases h
  | interval a b =>
    cases w with
    | interval c d =>
      obtain ⟨ha, hb⟩ := Bool.and_eq_true_iff.1 h
      rw [Value.view_interval, Value.view_interval]
      obtain rfl | ha := Expression.eq_or_apart ha
      · obtain rfl | hb := Expression.eq_or_apart hb
        · exact .inl rfl
        · exact .inr (hb.pair_right _ _ _ pairJson_inj)
      · exact .inr (ha.pair_left _ _ _ pairJson_inj)
    | _ => cases h
  | geometry g =>
    cases w with
    | geometry k =>
      refine (Geometry.eq_or_apart h).imp (congrArg _) fun hgk => ?_
      rw [Value.view_geometry, Value.view_geometry]
      exact hgk.tagged _ _ _
    | _ => cases h
  | color c =>
    cases w with
    | color d => exact .inl (congrArg _ (beq_iff_eq.1 (show (c == d) = true from h)))
    | _ => cases h

/-- Equal expressions are the same, or differ in their nuances, their texts and their JSON forms. -/
theorem Expression.eq_or_apart :
    ∀ {a b : Expression}, Expression.beq a b = true → a = b ∨ a.view.Apart b.view := by
  intro a b h
  cases a with
  | literal v =>
    cases b with
    | literal w =>
      refine (Value.eq_or_apart (v := v) h).imp (congrArg _) fun hvw => ?_
      rw [Expression.view_literal, Expression.view_literal]
      exact hvw.tagged _ _ _
    | _ => cases h
  | property p =>
    cases b with
    | property q => exact .inl (congrArg _ (beq_iff_eq.1 (show (p == q) = true from h)))
    | _ => cases h
  | call f as =>
    cases b with
    | call g bs =>
      obtain ⟨hf, has⟩ := Bool.and_eq_true_iff.1 h
      cases beq_iff_eq.1 hf
      have hargs := View.row_apart ", " Expression.view (Expression.forall₂_eq_or_apart has)
      refine hargs.imp (congrArg _) fun ⟨_, _, hrow⟩ => ?_
      rw [Expression.view_call, Expression.view_call]
      exact hrow.framed _ _ fun j k hjk => by simpa [Json.tagged] using hjk
    | _ => cases h
  | arithmetic o x y =>
    cases b with
    | arithmetic p u v =>
      obtain ⟨hop, hy⟩ := Bool.and_eq_true_iff.1 h
      obtain ⟨ho, hx⟩ := Bool.and_eq_true_iff.1 hop
      cases beq_iff_eq.1 ho
      -- The first part with a difference decides; parentheses make none.
      rw [Expression.view_arithmetic, Expression.view_arithmetic, needsGroup_of_beq hx,
        needsGroup_of_beq hy]
      obtain rfl | hx := Expression.eq_or_apart hx
      · obtain rfl | hy := Expression.eq_or_apart hy
        · exact .inl rfl
        · exact .inr ((Expression.apart_sideView hy _).pair_right _ _ _ pairJson_inj)
      · exact .inr ((Expression.apart_sideView hx _).pair_left _ _ _ pairJson_inj)
    | _ => cases h

theorem Expression.forall₂_eq_or_apart : ∀ {as bs : List Expression},
    Expression.beqAll as bs = true →
      List.Forall₂ (fun a b => a = b ∨ a.view.Apart b.view) as bs := by
  intro as bs h
  cases as with
  | nil =>
    cases bs with
    | nil => exact .nil
    | cons b bs => cases h
  | cons a as =>
    cases bs with
    | nil => cases h
    | cons b bs =>
      obtain ⟨hab, has⟩ := Bool.and_eq_true_iff.1 h
      exact .cons (Expression.eq_or_apart hab) (Expression.forall₂_eq_or_apart has)

end

/-- Equal expressions with the same nuances are the same, and so are those with the same text and
those with the same JSON form. -/
theorem Expression.same_iff_nuances {a b : Expression} (h : Expression.beq a b = true) :
    (a = b ↔ a.nuances = b.nuances) ∧ (a.text = b.text ↔ a.nuances = b.nuances) ∧
      (a.toJson = b.toJson ↔ a.nuances = b.nuances) := by
  obtain rfl | hab := eq_or_apart h
  · exact ⟨iff_of_true rfl rfl, iff_of_true rfl rfl, iff_of_true rfl rfl⟩
  · have hne : a.nuances ≠ b.nuances := hab.nuances.ne
    have htext : a.text ≠ b.text := fun heq => hab.text.ne (congrArg String.toList heq)
    exact ⟨iff_of_false (fun heq => hne (congrArg nuances heq)) hne, iff_of_false htext hne,
      iff_of_false hab.json hne⟩

end FeatureFilter
