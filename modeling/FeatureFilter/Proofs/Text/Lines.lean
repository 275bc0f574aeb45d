import FeatureFilter.Text.Slice
import Mathlib.Data.List.TakeWhile

/-!
# The line around a place

The lines of a text are counted by the line feeds in front of them. The line around a place is what
stands between the line feeds on both sides of it.
-/

namespace FeatureFilter

/-- The line around a place of a text: what stands behind the last line feed in front of the place,
and in front of the next one behind it. A line feed takes a carriage return in front of it along. -/
def lineAround (before behind : List Char) : List Char :=
  let line := (before.reverse.takeWhile (· != '\n')).reverse ++ behind.takeWhile (· != '\n')
  if '\n' ∈ behind then dropReturn line else line

/-- The lines in front of the one that a place is on make no difference. -/
theorem lineAround_lineFeed (a before behind : List Char) :
    lineAround (a ++ '\n' :: before) behind = lineAround before behind := by
  have htake (cs line : List Char) :
      (cs ++ '\n' :: line).takeWhile (· != '\n') = cs.takeWhile (· != '\n') := by
    induction cs with
    | nil => simp
    | cons c cs ih => simp only [List.cons_append, List.takeWhile_cons, ih]
  have hreverse : (a ++ '\n' :: before).reverse = before.reverse ++ '\n' :: a.reverse := by simp
  rw [lineAround, hreverse, htake, lineAround]

/-- At the end of a text, behind its last line feed, there is an empty line. -/
theorem lineAround_end (before : List Char) : lineAround (before ++ ['\n']) [] = [] :=
  lineAround_lineFeed before [] []

/-- The first line of the text that a line goes on with. -/
theorem linesFrom_zero {line : List Char} (hline : '\n' ∉ line) (behind : List Char) :
    ((linesFrom line behind)[0]?).getD [] = lineAround line.reverse behind := by
  have hwhole {cs : List Char} (h : '\n' ∉ cs) : cs.takeWhile (· != '\n') = cs := by
    rw [List.takeWhile_eq_self_iff]
    intro c hc
    rw [bne_iff_ne]
    rintro rfl
    exact h hc
  induction behind generalizing line with
  | nil =>
    rw [linesFrom, lineAround, List.reverse_reverse, hwhole hline]
    cases line <;> simp
  | cons c behind ih =>
    by_cases hc : c = '\n'
    · subst hc
      rw [linesFrom, if_pos rfl, lineAround, List.reverse_reverse, hwhole hline]
      simp
    · have hcline : '\n' ∉ c :: line := by
        simp only [List.mem_cons, not_or]
        exact ⟨Ne.symm hc, hline⟩
      rw [linesFrom, if_neg hc, ih hcline, lineAround, lineAround, List.reverse_reverse,
        List.reverse_reverse, hwhole hline, hwhole hcline]
      simp [hc, Ne.symm hc]

/-- A line that is read in part makes no difference behind the next line feed. -/
theorem getD_linesFrom {line : List Char} (hline : '\n' ∉ line) (before behind : List Char) :
    ((linesFrom line (before ++ behind))[before.count '\n']?).getD [] =
      lineAround (line.reverse ++ before) behind := by
  induction before generalizing line with
  | nil =>
    rw [List.nil_append, List.count_nil, linesFrom_zero hline, List.append_nil]
  | cons c before ih =>
    rw [List.cons_append, linesFrom]
    by_cases hc : c = '\n'
    · subst hc
      rw [if_pos rfl, List.count_cons_self, List.getElem?_cons_succ, ih (by simp),
        lineAround_lineFeed]
      rfl
    · have hcline : '\n' ∉ c :: line := by
        simp only [List.mem_cons, not_or]
        exact ⟨Ne.symm hc, hline⟩
      rw [if_neg hc, List.count_cons_of_ne hc, ih hcline, List.reverse_cons, List.append_assoc,
        List.singleton_append]

/-- The line of a text that a place is on has as many line feeds in front of it as the place; behind
the last line feed of a text it is empty. -/
theorem getD_linesOf (before behind : List Char) :
    ((linesOf (before ++ behind))[before.count '\n']?).getD [] = lineAround before behind :=
  getD_linesFrom (by simp) before behind

end FeatureFilter
