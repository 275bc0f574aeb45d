import FeatureFilter.Number.Binary64
import FeatureFilter.Proofs.Number.Text
import Mathlib.Data.List.MinMax
import Mathlib.Data.Prod.Lex
import Mathlib.Tactic.Order

/-!
# The least and the greatest of several numbers

Numbers have places on a line, and the one of two that is taken as the lesser one is the one with
the lesser place, or the first. So taking the lesser one is associative, and doing it all along a
list comes to the first number with the least place. Not-a-number gives way to all others when its
place is beyond theirs, at the end where it is not looked for.
-/

namespace FeatureFilter

section Lesser

variable {α β : Type} [LinearOrder β] (f : α → β)

/-- The one of two with the lesser place; the first where both have the same. -/
def lesser (x y : α) : α := if f y < f x then y else x

instance : Std.Associative (lesser f) where
  assoc x y z := by
    unfold lesser
    split_ifs <;> first | rfl | order

/-- The lesser one all along a list is the first of the least ones. -/
theorem foldl_lesser (a : α) (xs : List α) :
    (a :: xs).argmin f = some (xs.foldl (lesser f) a) := by
  have hstep (b x : α) : List.argAux (fun b c => f b < f c) (some b) x = some (lesser f b x) := by
    simp only [List.argAux, lesser]
    split <;> rfl
  show List.foldl _ (some a) xs = _
  induction xs generalizing a with
  | nil => rfl
  | cons x xs ih => rw [List.foldl_cons, hstep, ih, List.foldl_cons]

theorem foldl_lesser_mem (a : α) (xs : List α) : xs.foldl (lesser f) a ∈ a :: xs :=
  List.argmin_mem (foldl_lesser f a xs)

theorem foldl_lesser_le {a : α} {xs : List α} {x : α} (hx : x ∈ a :: xs) :
    f (xs.foldl (lesser f) a) ≤ f x :=
  List.le_of_mem_argmin hx (foldl_lesser f a xs)

end Lesser

namespace Binary64

variable {x y : Binary64}

/-- Numeric order or equality. -/
def le (x y : Binary64) : Bool := lt x y || x == y

/-- Where a number lies: the finite ones in the middle, the infinities on either side, and
not-a-number in the given part of the line. -/
def place (part : Int) : Binary64 → ℤ ×ₗ ℤ
  | .finite x => toLex (0, x.toInt)
  | .infinity true => toLex (-1, 0)
  | .infinity false => toLex (1, 0)
  | .nan => toLex (part, 0)

theorem lt_iff (part : Int) (hx : x ≠ .nan) (hy : y ≠ .nan) :
    lt x y = true ↔ place part x < place part y := by
  rcases x with x | (_ | _) | _ <;> rcases y with y | (_ | _) | _ <;>
    simp_all [lt, place, Prod.Lex.toLex_lt_toLex]

theorem beq_iff (part : Int) (hx : x ≠ .nan) (hy : y ≠ .nan) :
    (x == y) = true ↔ place part x = place part y := by
  show beq x y = true ↔ _
  rcases x with x | (_ | _) | _ <;> rcases y with y | (_ | _) | _ <;> simp_all [beq, place]

theorem le_iff (part : Int) (hx : x ≠ .nan) (hy : y ≠ .nan) :
    le x y = true ↔ place part x ≤ place part y := by
  rw [le, Bool.or_eq_true, lt_iff part hx hy, beq_iff part hx hy, le_iff_lt_or_eq]

/-- The lesser number is the one of the lesser place, not-a-number being the greatest. -/
theorem min_eq_lesser : min = lesser (place 2) := by
  funext x y
  by_cases hx : x = .nan
  · subst hx
    rcases y with y | (_ | _) | _ <;> simp [min, lesser, place, Prod.Lex.toLex_lt_toLex]
  by_cases hy : y = .nan
  · subst hy
    rcases x with x | (_ | _) | _ <;> simp_all [min, lesser, lt, place, Prod.Lex.toLex_lt_toLex]
  simp only [min, lesser, if_neg hx, lt_iff 2 hy hx]

/-- The greater number is the one of the greater place, not-a-number being the least. -/
theorem max_eq_lesser : max = lesser fun x => OrderDual.toDual (place (-2) x) := by
  funext x y
  by_cases hx : x = .nan
  · subst hx
    rcases y with y | (_ | _) | _ <;> simp [max, lesser, place, Prod.Lex.toLex_lt_toLex]
  by_cases hy : y = .nan
  · subst hy
    rcases x with x | (_ | _) | _ <;> simp_all [max, lesser, lt, place, Prod.Lex.toLex_lt_toLex]
  simp only [max, lesser, if_neg hx, lt_iff (-2) hx hy, OrderDual.toDual_lt_toDual]

instance : Std.Associative min := min_eq_lesser ▸ inferInstance

instance : Std.Associative max := max_eq_lesser ▸ inferInstance

/-- The least of numbers is one of them, and none of them is less. -/
theorem foldl_min {a : Binary64} {xs : List Binary64} (h : ∀ x ∈ a :: xs, x ≠ .nan) :
    xs.foldl min a ∈ a :: xs ∧ ∀ x ∈ a :: xs, le (xs.foldl min a) x = true := by
  rw [min_eq_lesser]
  have hmem := foldl_lesser_mem (place 2) a xs
  exact ⟨hmem, fun x hx => (le_iff 2 (h _ hmem) (h x hx)).2 (foldl_lesser_le (place 2) hx)⟩

/-- The greatest of numbers is one of them, and none of them is greater. -/
theorem foldl_max {a : Binary64} {xs : List Binary64} (h : ∀ x ∈ a :: xs, x ≠ .nan) :
    xs.foldl max a ∈ a :: xs ∧ ∀ x ∈ a :: xs, le x (xs.foldl max a) = true := by
  rw [max_eq_lesser]
  have hmem := foldl_lesser_mem (fun x => OrderDual.toDual (place (-2) x)) a xs
  exact ⟨hmem, fun x hx => (le_iff (-2) (h x hx) (h _ hmem)).2
    (foldl_lesser_le (fun x => OrderDual.toDual (place (-2) x)) hx)⟩

end Binary64

end FeatureFilter
