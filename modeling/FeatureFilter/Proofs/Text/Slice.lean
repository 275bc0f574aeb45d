import FeatureFilter.Geometry.Wkt
import FeatureFilter.Text.Slice
import FeatureFilter.Text.Span

/-!
# Bytes of a text

The offsets of positions count the bytes in front of them, and the slice between two offsets is the
same when both are moved along with a text that gets another one in front of it or behind it
(`byteSlice_inside`).
-/

namespace FeatureFilter

/-! ## Offsets -/

theorem Position.offset_advance (p : Position) (c : Char) :
    (p.advance c).offset = p.offset + c.utf8Size := by
  unfold advance
  split <;> rfl

theorem Position.offset_after (p : Position) (cs : List Char) :
    (p.after cs).offset = p.offset + Wkt.byteLength cs := by
  induction cs generalizing p with
  | nil => rfl
  | cons c cs ih =>
    rw [after_cons, ih, offset_advance, Wkt.byteLength]
    omega

theorem byteLength_append (a b : List Char) :
    Wkt.byteLength (a ++ b) = Wkt.byteLength a + Wkt.byteLength b := by
  induction a with
  | nil => simp [Wkt.byteLength]
  | cons c a ih =>
    simp only [List.cons_append, Wkt.byteLength, ih]
    omega

theorem byteLength_toList (s : String) : Wkt.byteLength s.toList = s.utf8ByteSize := by
  have hlist (cs : List Char) : Wkt.byteLength cs = (String.ofList cs).utf8ByteSize := by
    induction cs with
    | nil => rfl
    | cons c cs ih =>
      have hcons : String.ofList (c :: cs) = String.singleton c ++ String.ofList cs := by
        rw [← String.toList_inj]
        simp
      rw [hcons, String.utf8ByteSize_append, ← ih, Wkt.byteLength]
      simp
  rw [hlist, String.ofList_toList]

/-! ## Slices -/

theorem dropBytes_append (a b : List Char) : dropBytes (Wkt.byteLength a) (a ++ b) = some b := by
  induction a with
  | nil => cases b <;> rfl
  | cons c a ih =>
    have hc := c.utf8Size_pos
    rw [List.cons_append, dropBytes, if_neg (by simp only [Wkt.byteLength]; omega),
      if_pos (by simp only [Wkt.byteLength]; omega)]
    simpa [Wkt.byteLength] using ih

theorem takeBytes_append (a b : List Char) : takeBytes (Wkt.byteLength a) (a ++ b) = some a := by
  induction a with
  | nil => cases b <;> rfl
  | cons c a ih =>
    have hc := c.utf8Size_pos
    rw [List.cons_append, takeBytes, if_neg (by simp only [Wkt.byteLength]; omega),
      if_pos (by simp only [Wkt.byteLength]; omega)]
    simpa [Wkt.byteLength] using ih

theorem byteSlice_append (a b c : List Char) :
    byteSlice (a ++ (b ++ c)) (Wkt.byteLength a) (Wkt.byteLength a + Wkt.byteLength b) =
      some b := by
  rw [byteSlice, if_pos (Nat.le_add_right _ _), dropBytes_append, Nat.add_sub_cancel_left]
  exact takeBytes_append b c

/-- What is cut off is the text itself, in front of a cut between two characters. -/
theorem eq_append_of_dropBytes {n : Nat} {cs ds : List Char} (h : dropBytes n cs = some ds) :
    ∃ as, cs = as ++ ds ∧ n = Wkt.byteLength as := by
  induction cs generalizing n with
  | nil =>
    rw [dropBytes] at h
    split at h
    · cases h
      exact ⟨[], rfl, ‹n = 0›⟩
    · cases h
  | cons c cs ih =>
    rw [dropBytes] at h
    split at h
    · cases h
      exact ⟨[], rfl, ‹n = 0›⟩
    · split at h
      · obtain ⟨as, rfl, hn⟩ := ih h
        refine ⟨c :: as, rfl, ?_⟩
        rw [Wkt.byteLength]
        omega
      · cases h

theorem eq_append_of_takeBytes {n : Nat} {cs as : List Char} (h : takeBytes n cs = some as) :
    ∃ ds, cs = as ++ ds ∧ n = Wkt.byteLength as := by
  induction cs generalizing n as with
  | nil =>
    rw [takeBytes] at h
    split at h
    · cases h
      exact ⟨[], rfl, ‹n = 0›⟩
    · cases h
  | cons c cs ih =>
    rw [takeBytes] at h
    split at h
    · cases h
      exact ⟨c :: cs, rfl, ‹n = 0›⟩
    · split at h
      · obtain ⟨bs, hbs, rfl⟩ := Option.map_eq_some_iff.1 h
        obtain ⟨ds, rfl, hn⟩ := ih hbs
        refine ⟨ds, rfl, ?_⟩
        rw [Wkt.byteLength]
        omega
      · cases h

/-- A slice is the text itself between two cuts. -/
theorem eq_append_of_byteSlice {cs bs : List Char} {start stop : Nat}
    (h : byteSlice cs start stop = some bs) :
    ∃ as ds, cs = as ++ (bs ++ ds) ∧ start = Wkt.byteLength as ∧
      stop = Wkt.byteLength as + Wkt.byteLength bs := by
  rw [byteSlice] at h
  split at h
  · obtain ⟨rest, hdrop, htake⟩ := Option.bind_eq_some_iff.1 h
    obtain ⟨as, rfl, rfl⟩ := eq_append_of_dropBytes hdrop
    obtain ⟨ds, rfl, hstop⟩ := eq_append_of_takeBytes htake
    exact ⟨as, ds, rfl, rfl, by omega⟩
  · cases h

/-- A slice of a text stands in every text that holds it. -/
theorem byteSlice_inside (pre post : List Char) {cs bs : List Char} {start stop : Nat}
    (h : byteSlice cs start stop = some bs) :
    byteSlice (pre ++ (cs ++ post)) (start + Wkt.byteLength pre) (stop + Wkt.byteLength pre) =
      some bs := by
  obtain ⟨as, rest, rfl, rfl, rfl⟩ := eq_append_of_byteSlice h
  have hcs : pre ++ (as ++ (bs ++ rest) ++ post) = (pre ++ as) ++ (bs ++ (rest ++ post)) := by
    simp only [List.append_assoc]
  rw [hcs, Nat.add_right_comm, Nat.add_comm (Wkt.byteLength as), ← byteLength_append]
  exact byteSlice_append ..

/-- Of two starts of a text the one with fewer bytes is a start of the other. -/
theorem eq_append_of_byteLength_le {a b c d : List Char} (h : a ++ b = c ++ d)
    (hle : Wkt.byteLength a ≤ Wkt.byteLength c) : ∃ x, c = a ++ x ∧ b = x ++ d := by
  obtain ⟨x, rfl, rfl⟩ | ⟨x, rfl, rfl⟩ := List.append_eq_append_iff.1 h
  · exact ⟨x, rfl, rfl⟩
  · cases x with
    | nil => exact ⟨[], by simp, rfl⟩
    | cons e x =>
      have := e.utf8Size_pos
      rw [byteLength_append, Wkt.byteLength] at hle
      omega

/-- A slice of a text that stands inside a longer one is a slice of it. -/
theorem byteSlice_of_inside {pre post cs bs : List Char} {start stop : Nat}
    (h : byteSlice (pre ++ (cs ++ post)) (start + Wkt.byteLength pre)
      (stop + Wkt.byteLength pre) = some bs) (hstop : stop ≤ Wkt.byteLength cs) :
    byteSlice cs start stop = some bs := by
  obtain ⟨as, ds, htext, has, hbs⟩ := eq_append_of_byteSlice h
  obtain ⟨x, rfl, hx⟩ := eq_append_of_byteLength_le htext (by omega)
  rw [byteLength_append] at has hbs
  obtain rfl : start = Wkt.byteLength x := by omega
  obtain rfl : stop = Wkt.byteLength x + Wkt.byteLength bs := by omega
  rw [← List.append_assoc] at hx
  obtain ⟨rest, rfl, -⟩ := eq_append_of_byteLength_le hx.symm (by rwa [byteLength_append])
  rw [List.append_assoc]
  exact byteSlice_append ..

end FeatureFilter
