/-!
# Comparison without case

Words are compared without regard to the case of their ASCII letters; all other characters have to
be the same.
-/

namespace FeatureFilter

/-- Whether two words differ at most in the case of ASCII letters. -/
def sameWord (a b : String) : Bool := a.toLower == b.toLower

theorem sameWord_comm (a b : String) : sameWord a b = sameWord b a := by
  simp only [sameWord, Bool.beq_comm]

end FeatureFilter
