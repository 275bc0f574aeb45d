import FeatureFilter.Filter.Json
import FeatureFilter.Proofs.Calendar.Lenient
import FeatureFilter.Proofs.Filter.Tree
import FeatureFilter.Proofs.Geometry.Json

/-!
# Filter trees read back from their JSON form

What is written for a filter, an expression, a value, an interval or a geometry is read back as the
very same tree, as long as its numbers are finite and the text of a timestamp stands for it: an
infinity and not-a-number are written as null, and a leap second inside a minute as the second
behind it. No other value is lost: whole numbers keep all their bits, timestamps their offsets and
dates their years.
-/

namespace FeatureFilter

open Json (depth_lt_tagged depth_lt_record depth_lt_array list?_map fields?_object)

/-- The node has a JSON form of its own: its numbers and ordinates are finite, and it is in no leap
second that does not end a minute. -/
def Expression.Representable : Expression → Prop
  | .literal (.double x) => x.isFinite = true
  | .literal (.timestamp t) => t.time.Regular
  | .literal (.geometry g) => ∀ c ∈ g.coords, c.Finite
  | _ => True

/-! ## Operators -/

theorem ArithmeticOp.choice?_tag (op : ArithmeticOp) :
    (Json.string op.tag).choice? all tag = some op := by
  cases op <;> rfl

theorem ComparisonOp.choice?_tag (op : ComparisonOp) :
    (Json.string op.tag).choice? all tag = some op := by
  cases op <;> rfl

theorem SpatialOp.choice?_tag (op : SpatialOp) :
    (Json.string op.tag).choice? all tag = some op := by
  cases op <;> rfl

theorem TemporalOp.choice?_tag (op : TemporalOp) :
    (Json.string op.tag).choice? all tag = some op := by
  cases op <;> rfl

/-! ## Values and expressions -/

theorem Expression.toJsonAll_eq (es : List Expression) :
    Expression.toJsonAll es = es.map Expression.toJson := by
  induction es with
  | nil => rfl
  | cons e es ih => rw [Expression.toJsonAll, List.map_cons, ih]

/-- An operator and two expressions are read from a record of the three. -/
theorem fields?_operator (op a b tag : String) (left right : Expression) (h : [op, a, b].Nodup) :
    (Json.object [(op, .string tag), (a, left.toJson), (b, right.toJson)]).fields? [op, a, b] =
      some [some (.string tag), some left.toJson, some right.toJson] :=
  fields?_object rfl h

theorem Interval.ofJsonOver_toJson {bound : Json → Option Expression} {i : Interval}
    (hstart : bound i.start.toJson = some i.start) (hstop : bound i.stop.toJson = some i.stop) :
    Interval.ofJsonOver bound i.toJson = some i := by
  have hfields : (Json.object [("start", i.start.toJson), ("end", i.stop.toJson)]).record?
      ["start", "end"] = some [some i.start.toJson, some i.stop.toJson] :=
    fields?_object rfl (by decide)
  rw [Interval.ofJsonOver, toJson, hfields]
  simp only [hstart, hstop]
  rfl

/-- A value is read by a reader of the expressions inside it. -/
theorem Value.ofJsonOver_toJson {bound : Json → Option Expression} {v : Value}
    (h : (Expression.literal v).Every Expression.Representable)
    (hb : ∀ e : Expression, e.Every Expression.Representable → e.toJson.depth < v.toJson.depth →
      bound e.toJson = some e) :
    Value.ofJsonOver bound v.toJson = some v := by
  cases v with
  | long n =>
    have hn : (Json.integer n.toInt).integerIn? (-0x8000000000000000) 0x7FFFFFFFFFFFFFFF =
        some n.toInt := if_pos ⟨n.le_toInt, Int.le_of_lt_add_one n.toInt_lt⟩
    show ((Json.integer n.toInt).integerIn? (-0x8000000000000000) 0x7FFFFFFFFFFFFFFF).map
      (fun n => Value.long (Int64.ofInt n)) = _
    rw [hn, Option.map_some, Int64.ofInt_toInt]
  | double x =>
    show x.toJson.number?.map Value.double = _
    rw [Binary64.number?_toJson h.1, Option.map_some]
  | string s => rfl
  | boolean b => rfl
  | date d =>
    show (Date.readLenient? (String.ofList d.text).toList).map Value.date = _
    rw [String.toList_ofList, Date.readLenient?_text, Option.map_some]
  | timestamp t =>
    show (Timestamp.readLenient? (String.ofList t.text).toList).map Value.timestamp = _
    rw [String.toList_ofList, Timestamp.readLenient?_text, Option.map_some,
      Timestamp.reread_eq_self_iff.2 h.1]
  | interval start stop =>
    have hstart := hb start h.2.1 (depth_lt_record "start" (List.mem_cons_self ..))
    have hstop := hb stop h.2.2 (depth_lt_record "end" (by simp))
    show (Interval.ofJsonOver bound (Interval.toJson ⟨start, stop⟩)).map
      (fun i => Value.interval i.start i.stop) = _
    rw [Interval.ofJsonOver_toJson hstart hstop, Option.map_some]
  | geometry g =>
    show (Geometry.ofJson? g.toJson).map Value.geometry = _
    rw [Geometry.ofJson?_toJson h.1, Option.map_some]
  | color c =>
    have hlt := c.rgb.toNat_lt
    have hc : (Json.integer c.rgb.toNat).integerIn? 0 0xFFFFFFFF = some (c.rgb.toNat : Int) :=
      if_pos ⟨Int.natCast_nonneg _, by omega⟩
    show ((Json.integer c.rgb.toNat).integerIn? 0 0xFFFFFFFF).map
      (fun n => Value.color ⟨n.toNat.toUInt32⟩) = _
    rw [hc, Option.map_some, Int.toNat_natCast]
    exact congrArg (fun rgb => some (Value.color ⟨rgb⟩)) UInt32.ofNat_toNat

namespace Expression

theorem ofJsonOver_toJson {part : Json → Option Expression} {e : Expression}
    (h : e.Every Representable)
    (hp : ∀ e' : Expression, e'.Every Representable → e'.toJson.depth < e.toJson.depth →
      part e'.toJson = some e') :
    ofJsonOver part e.toJson = some e := by
  cases e with
  | literal v =>
    have hv : Value.ofJsonOver part v.toJson = some v :=
      Value.ofJsonOver_toJson h fun e he hlt =>
        hp e he (Nat.lt_trans hlt (depth_lt_tagged "Literal" _))
    show (Value.ofJsonOver part v.toJson).map literal = _
    rw [hv, Option.map_some]
  | property path => rfl
  | call name args =>
    have hargs : (Json.array (toJsonAll args)).list? part = some args := by
      rw [toJsonAll_eq]
      refine list?_map fun a ha => hp a ((everyOne_iff args).1 h.2 a ha) ?_
      refine Nat.lt_trans (depth_lt_array (List.mem_map_of_mem ha)) ?_
      rw [← toJsonAll_eq]
      exact depth_lt_record "args" (by simp)
    have hfields : (Json.object [("name", .string name), ("args", .array (toJsonAll args))]).fields?
        ["name", "args"] = some [some (.string name), some (.array (toJsonAll args))] :=
      fields?_object rfl (by decide)
    simp [ofJsonOver, toJson, Json.tagged, Json.tagged?, hfields, Json.string?, hargs]
  | arithmetic op left right =>
    have hleft := hp left h.2.1 (depth_lt_record "left" (by simp))
    have hright := hp right h.2.2 (depth_lt_record "right" (by simp))
    have hfields := fields?_operator "op" "left" "right" op.tag left right (by decide)
    simp [ofJsonOver, toJson, Json.tagged, Json.tagged?, hfields, op.choice?_tag, hleft, hright]

theorem ofJsonWithin_toJson {n : Nat} {e : Expression} (h : e.Every Representable)
    (hn : e.toJson.depth ≤ n) : ofJsonWithin n e.toJson = some e := by
  induction n generalizing e with
  | zero => exact absurd (Nat.le_trans e.toJson.one_le_depth hn) (Nat.not_succ_le_zero 0)
  | succ n ih => exact ofJsonOver_toJson h fun e' he' hlt => ih he' (by omega)

theorem ofJson?_toJson {e : Expression} (h : e.Every Representable) : ofJson? e.toJson = some e :=
  ofJsonWithin_toJson h (Nat.le_refl _)

end Expression

theorem Value.ofJson?_toJson {v : Value}
    (h : (Expression.literal v).Every Expression.Representable) : Value.ofJson? v.toJson = some v :=
  ofJsonOver_toJson h fun _ he _ => Expression.ofJson?_toJson he

theorem Interval.ofJson?_toJson {i : Interval} (hstart : i.start.Every Expression.Representable)
    (hstop : i.stop.Every Expression.Representable) : Interval.ofJson? i.toJson = some i :=
  ofJsonOver_toJson (Expression.ofJson?_toJson hstart) (Expression.ofJson?_toJson hstop)

/-! ## Filters -/

namespace Filter

theorem toJsonAll_eq (fs : List Filter) : toJsonAll fs = fs.map toJson := by
  induction fs with
  | nil => rfl
  | cons f fs ih => rw [toJsonAll, List.map_cons, ih]

theorem ofJsonOver_toJson {clause : Json → Option Filter} {f : Filter}
    (h : f.Every (fun _ => True) Expression.Representable)
    (hc : ∀ f' : Filter, f'.Every (fun _ => True) Expression.Representable →
      f'.toJson.depth < f.toJson.depth → clause f'.toJson = some f') :
    ofJsonOver clause f.toJson = some f := by
  have hclauses {tag : String} {fs : List Filter}
      (hfs : EveryOne (fun _ => True) Expression.Representable fs)
      (hf : f.toJson = .tagged tag (.array (toJsonAll fs))) :
      (Json.array (toJsonAll fs)).list? clause = some fs := by
    rw [toJsonAll_eq] at hf ⊢
    refine list?_map fun f' hmem => hc f' ((everyOne_iff fs).1 hfs f' hmem) ?_
    rw [hf]
    exact Nat.lt_trans (depth_lt_array (List.mem_map_of_mem hmem)) (depth_lt_tagged ..)
  cases f with
  | compare op left right =>
    have hfields := fields?_operator "op" "left" "right" op.tag left right (by decide)
    simp [ofJsonOver, toJson, Json.tagged, Json.tagged?, hfields, op.choice?_tag,
      Expression.ofJson?_toJson h.2.1, Expression.ofJson?_toJson h.2.2]
  | spatial op left right =>
    have hfields := fields?_operator "op" "geom1" "geom2" op.tag left right (by decide)
    simp [ofJsonOver, toJson, Json.tagged, Json.tagged?, hfields, op.choice?_tag,
      Expression.ofJson?_toJson h.2.1, Expression.ofJson?_toJson h.2.2]
  | temporal op left right =>
    have hfields := fields?_operator "op" "instant" "other" op.tag left right (by decide)
    simp [ofJsonOver, toJson, Json.tagged, Json.tagged?, hfields, op.choice?_tag,
      Expression.ofJson?_toJson h.2.1, Expression.ofJson?_toJson h.2.2]
  | between value low high =>
    have hfields : (Json.object [("value", value.toJson), ("low", low.toJson),
        ("high", high.toJson)]).fields? ["value", "low", "high"] =
        some [some value.toJson, some low.toJson, some high.toJson] :=
      fields?_object rfl (by decide)
    simp [ofJsonOver, toJson, Json.tagged, Json.tagged?, hfields, Expression.ofJson?_toJson h.2.1,
      Expression.ofJson?_toJson h.2.2.1, Expression.ofJson?_toJson h.2.2.2]
  | like value pattern matchCase =>
    have hfields : (Json.object [("value", value.toJson), ("pattern", .string pattern),
        ("match_case", .boolean matchCase)]).fields? ["value", "pattern", "match_case"] =
        some [some value.toJson, some (.string pattern), some (.boolean matchCase)] :=
      fields?_object rfl (by decide)
    simp [ofJsonOver, toJson, Json.tagged, Json.tagged?, hfields, Json.string?, Json.boolean?,
      Expression.ofJson?_toJson h.2]
  | isNull value =>
    have hfields : (Json.object [("value", value.toJson)]).fields? ["value"] =
        some [some value.toJson] := fields?_object rfl (by decide)
    simp [ofJsonOver, toJson, Json.tagged, Json.tagged?, hfields, Expression.ofJson?_toJson h.2]
  | all clauses =>
    show ((Json.array (toJsonAll clauses)).list? clause).map all = _
    rw [hclauses h.2 rfl, Option.map_some]
  | any clauses =>
    show ((Json.array (toJsonAll clauses)).list? clause).map any = _
    rw [hclauses h.2 rfl, Option.map_some]
  | negation f' =>
    show (clause f'.toJson).map negation = _
    rw [hc f' h.2 (depth_lt_tagged ..), Option.map_some]

theorem ofJsonWithin_toJson {n : Nat} {f : Filter}
    (h : f.Every (fun _ => True) Expression.Representable) (hn : f.toJson.depth ≤ n) :
    ofJsonWithin n f.toJson = some f := by
  induction n generalizing f with
  | zero => exact absurd (Nat.le_trans f.toJson.one_le_depth hn) (Nat.not_succ_le_zero 0)
  | succ n ih => exact ofJsonOver_toJson h fun f' hf' hlt => ih hf' (by omega)

theorem ofJson?_toJson {f : Filter} (h : f.Every (fun _ => True) Expression.Representable) :
    ofJson? f.toJson = some f :=
  ofJsonWithin_toJson h (Nat.le_refl _)

end Filter

/-- What is written for a filter, an expression, a value, an interval or a geometry is read back as
the very same, when all numbers and ordinates in it are finite and its timestamps have texts of
their own. -/
theorem Json.lossless :
    (∀ f : Filter, f.Every (fun _ => True) Expression.Representable →
      Filter.ofJson? f.toJson = some f) ∧
    (∀ e : Expression, e.Every Expression.Representable → Expression.ofJson? e.toJson = some e) ∧
    (∀ v : Value, (Expression.literal v).Every Expression.Representable →
      Value.ofJson? v.toJson = some v) ∧
    (∀ i : Interval, i.start.Every Expression.Representable →
      i.stop.Every Expression.Representable →
      Interval.ofJson? i.toJson = some i) ∧
    ∀ g : Geometry, (∀ c ∈ g.coords, c.Finite) → Geometry.ofJson? g.toJson = some g :=
  ⟨fun _ => Filter.ofJson?_toJson, fun _ => Expression.ofJson?_toJson,
    fun _ => Value.ofJson?_toJson, fun _ => Interval.ofJson?_toJson,
    fun _ => Geometry.ofJson?_toJson⟩

/-- A year before year zero, an offset of an hour and a half, and a geometry without a text. -/
theorem Json.lossless_offset : ∃ (t : Timestamp) (g : Geometry) (i : Interval) (f : Filter),
    t.date.year = -44 ∧ t.offset = 90 ∧ g = .multiPolygon [[], [[]]] ∧
    i = ⟨.literal (.timestamp t), .openBound⟩ ∧
    f = .negation (.compare .lt (.literal (.double .zero)) (.literal (.interval i.start i.stop))) ∧
    Filter.ofJson? f.toJson = some f ∧
    Expression.ofJson? (Expression.call "f" [.literal (.geometry g)]).toJson =
      some (.call "f" [.literal (.geometry g)]) ∧
    Value.ofJson? (Value.timestamp t).toJson = some (.timestamp t) ∧
    Interval.ofJson? i.toJson = some i ∧
    Geometry.ofJson? g.toJson = some g := by
  obtain ⟨hf, he, hv, hi, hg⟩ := Json.lossless
  have hnoon : TimeOfDay.Regular ⟨720, 0, 0⟩ := by decide
  refine ⟨⟨⟨-44, 3, 15, by decide, by decide, by decide, by decide⟩, ⟨720, 0, 0⟩, 90, by decide,
    by decide, by decide⟩, _, _, _, rfl, rfl, rfl, rfl, rfl, hf _ ?_, he _ ?_,
    hv _ ⟨hnoon, trivial⟩,
    hi _ ⟨hnoon, trivial⟩ ⟨trivial, trivial⟩, hg _ nofun⟩
  · exact ⟨trivial, trivial, ⟨rfl, trivial⟩, trivial, ⟨hnoon, trivial⟩, trivial, trivial⟩
  · exact ⟨trivial, ⟨nofun, trivial⟩, trivial⟩

end FeatureFilter
