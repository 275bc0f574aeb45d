/-!
# Quoted text

Text between two quotes, in which a quote of the text itself is written twice. `Quoted.read` takes
the longest such text off the front of a list of characters: reading `write q s ++ rest` gives back
`s` and `rest` unless `rest` starts with one more quote.
-/

namespace FeatureFilter.Quoted

def double (q : Char) : List Char → List Char
  | [] => []
  | c :: cs => if c = q then q :: q :: double q cs else c :: double q cs

def write (q : Char) (s : List Char) : List Char :=
  q :: (double q s ++ [q])

/-- What stands before the closing quote, and what comes behind it. The opening quote is already
read; without a closing one there is no answer. -/
def read (q : Char) : List Char → Option (List Char × List Char)
  | [] => none
  | c :: cs =>
    if c = q then
      match cs with
      | d :: ds => if d = q then (read q ds).map fun r => (q :: r.1, r.2) else some ([], d :: ds)
      | [] => some ([], [])
    else (read q cs).map fun r => (c :: r.1, r.2)

def writeText (q : Char) (s : String) : String :=
  String.ofList (write q s.toList)

/-- Reading takes exactly the written form off the front. -/
theorem eq_of_read {q : Char} {cs s rest : List Char} (h : read q cs = some (s, rest)) :
    cs = double q s ++ q :: rest := by
  fun_induction read q cs generalizing s with
  | case1 => simp at h
  | case2 ds ih =>
    obtain ⟨r, hr, he⟩ := Option.map_eq_some_iff.1 h
    simp only [Prod.mk.injEq] at he
    obtain ⟨rfl, rfl⟩ := he
    simp [double, ih hr]
  | case3 d ds hd => simp_all [double]
  | case4 => simp_all [double]
  | case5 c cs hc ih =>
    obtain ⟨r, hr, he⟩ := Option.map_eq_some_iff.1 h
    simp only [Prod.mk.injEq] at he
    obtain ⟨rfl, rfl⟩ := he
    simp [double, hc, ih hr]

/-- A quote that the rest does not start with closes the text. -/
theorem read_double {q : Char} (s rest : List Char) (h : rest.head? ≠ some q) :
    read q (double q s ++ q :: rest) = some (s, rest) := by
  induction s with
  | nil => cases rest <;> simp_all [double, read]
  | cons c cs ih =>
    by_cases hc : c = q
    · subst hc
      simp [double, read, ih]
    · rw [double, if_neg hc, List.cons_append]
      unfold read
      simp [hc, ih]

end FeatureFilter.Quoted
