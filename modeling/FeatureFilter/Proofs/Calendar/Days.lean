import FeatureFilter.Proofs.Calendar

/-!
# Neighbouring days

The day after and the day before undo each other, over the ends of months and years too
(`Date.next?_eq_some_iff`, `Date.previous?_eq_some_iff`). So an instant and an offset from UTC
leave one local date and time (`Timestamp.eq_of_utc`).
-/

namespace FeatureFilter

namespace Date

variable {d e : Date} {year : Int} {month day : Nat}

theorem orElse_eq_some_iff {α : Type} {a : α} {o : Option α} {f : Unit → Option α} :
    o.orElse f = some a ↔ o = some a ∨ o = none ∧ f () = some a := by
  cases o <;> simp [Option.orElse]

theorem of?_eq_some_iff :
    of? year month day = some d ↔ d.year = year ∧ d.month = month ∧ d.day = day := by
  constructor
  · intro h
    unfold of? at h
    split at h
    · cases h
      exact ⟨rfl, rfl, rfl⟩
    · cases h
  · rintro ⟨rfl, rfl, rfl⟩
    exact of?_self d

theorem of?_eq_none_iff : of? year month day = none ↔
    ¬ ((-262143 ≤ year ∧ year ≤ 262142) ∧ 1 ≤ day ∧ day ≤ daysInMonth year month) := by
  unfold of?
  split <;> simp_all

theorem daysInMonth_zero (year : Int) : daysInMonth year 0 = 0 := rfl

theorem daysInMonth_december (year : Int) : daysInMonth year 12 = 31 := rfl

theorem daysInMonth_pos (year : Int) (h1 : 1 ≤ month) (h12 : month ≤ 12) :
    1 ≤ daysInMonth year month := by
  unfold daysInMonth
  split
  · split <;> omega
  · split
    · omega
    · rw [if_pos ⟨h1, h12⟩]
      omega

theorem month_pos (d : Date) : 1 ≤ d.month := by
  have h1 := d.day_pos
  have h2 := d.day_le
  by_contra hm
  rw [show d.month = 0 by omega, daysInMonth_zero] at h2
  omega

/-- The second date is the day behind the first: in the same month, over the end of a month, or over
the end of a year. -/
def Precedes (d e : Date) : Prop :=
  (e.year = d.year ∧ e.month = d.month ∧ e.day = d.day + 1) ∨
  (e.year = d.year ∧ e.month = d.month + 1 ∧ e.day = 1 ∧ d.day = daysInMonth d.year d.month) ∨
  (e.year = d.year + 1 ∧ e.month = 1 ∧ e.day = 1 ∧ d.month = 12 ∧ d.day = 31)

theorem next?_eq_some_iff : d.next? = some e ↔ d.Precedes e := by
  have hy := d.year_ge
  have hy' := d.year_le
  have hle := d.day_le
  have hmonth := d.month_le
  simp only [next?, orElse_eq_some_iff, of?_eq_some_iff, of?_eq_none_iff]
  constructor
  · rintro (h | ⟨hday, h | ⟨hnext, h⟩⟩)
    · exact .inl h
    · exact .inr (.inl ⟨h.1, h.2.1, h.2.2, by omega⟩)
    · -- Only December has no month of its year behind it.
      have hlast : d.month = 12 := by
        by_contra hne
        have := daysInMonth_pos d.year (show 1 ≤ d.month + 1 by omega) (by omega)
        omega
      rw [hlast, daysInMonth_december] at hle hday
      exact .inr (.inr ⟨h.1, h.2.1, h.2.2, hlast, by omega⟩)
  · rintro (h | ⟨h1, h2, h3, hday⟩ | ⟨h1, h2, h3, hlast, hday⟩)
    · exact .inl h
    · exact .inr ⟨by omega, .inl ⟨h1, h2, h3⟩⟩
    · rw [hlast, hday, daysInMonth_december]
      exact .inr ⟨by omega, .inr ⟨fun h => absurd h.2.2 (Nat.not_succ_le_zero 0), h1, h2, h3⟩⟩

theorem previous?_eq_some_iff : e.previous? = some d ↔ d.Precedes e := by
  have hy := e.year_ge
  have hy' := e.year_le
  have hpos := e.day_pos
  have hle := e.day_le
  have hmonth := e.month_le
  have hmonth' := e.month_pos
  simp only [previous?, orElse_eq_some_iff, of?_eq_some_iff, of?_eq_none_iff]
  constructor
  · rintro (⟨h1, h2, h3⟩ | ⟨hday, ⟨h1, h2, h3⟩ | ⟨hnone, h1, h2, h3⟩⟩)
    · have := d.day_pos
      exact .inl ⟨h1.symm, h2.symm, by omega⟩
    · rw [← h1, ← h2] at h3
      exact .inr (.inl ⟨h1.symm, by omega, by omega, h3⟩)
    · -- Only January has no month of its year before it: month zero has no days.
      have hfirst : e.month = 1 := by
        by_contra hne
        have := daysInMonth_pos e.year (show 1 ≤ e.month - 1 by omega) (by omega)
        omega
      exact .inr (.inr ⟨by omega, hfirst, by omega, h2, h3⟩)
  · rintro (⟨h1, h2, h3⟩ | ⟨h1, h2, h3, hday⟩ | ⟨h1, h2, h3, hlast, hday⟩)
    · exact .inl ⟨h1.symm, h2.symm, by omega⟩
    · have hm : e.month - 1 = d.month := by omega
      rw [h1, hm]
      exact .inr ⟨by omega, .inl ⟨rfl, rfl, hday⟩⟩
    · rw [h2, h3, Nat.sub_self, daysInMonth_zero]
      exact .inr ⟨by omega, .inr ⟨by omega, by omega, hlast, hday⟩⟩

end Date

/-- A minute of the local day and an offset decide the local date of a date in UTC. -/
theorem eq_of_utcDate? {d d' e : Date} {minute : Nat} {offset : Int}
    (h : utcDate? d minute offset = some e) (h' : utcDate? d' minute offset = some e) : d = d' := by
  simp only [utcDate?] at h h'
  split at h
  · rw [if_pos ‹_›, Date.previous?_eq_some_iff, ← Date.next?_eq_some_iff] at h'
    rw [Date.previous?_eq_some_iff, ← Date.next?_eq_some_iff, h'] at h
    cases h
    rfl
  · rw [if_neg ‹_›] at h'
    split at h
    · rw [if_pos ‹_›, Date.next?_eq_some_iff, ← Date.previous?_eq_some_iff] at h'
      rw [Date.next?_eq_some_iff, ← Date.previous?_eq_some_iff, h'] at h
      cases h
      rfl
    · rw [if_neg ‹_›] at h'
      cases h
      cases h'
      rfl

/-- An instant and an offset have one local date and time. -/
theorem Timestamp.eq_of_utc {s t : Timestamp} (h : s.utc = t.utc) (ho : s.offset = t.offset) :
    s = t := by
  obtain ⟨date, ⟨minute, second, nanosecond⟩, offset, hgt, hlt, hs⟩ := s
  obtain ⟨date', ⟨minute', second', nanosecond'⟩, offset', hgt', hlt', ht⟩ := t
  cases ho
  simp only [utc, Prod.mk.injEq, TimeOfDay.mk.injEq, Fin.mk.injEq] at h
  obtain ⟨hdate, hminute, rfl, rfl⟩ := h
  -- Less than a day apart, the two minutes are equal once they are so modulo a day.
  have hm : minute = minute' := by
    have := minute.isLt
    have := minute'.isLt
    exact Fin.ext (by omega)
  subst hm
  cases eq_of_utcDate? (Option.some_get hs).symm (hdate ▸ (Option.some_get ht).symm)
  rfl

end FeatureFilter
