import FeatureFilter.Function.Signature
import FeatureFilter.Text.Lowercase

/-!
# Catalogs of functions

A catalog holds the signatures of known functions. A name stands for the signature whose name has
the same lower-case form; registering a signature replaces the one that was known under its name.
-/

namespace FeatureFilter

/-- The known functions, each under the lower-case form of its name. -/
structure Catalog where
  entries : List (String × Signature)

namespace Catalog

def empty : Catalog := ⟨[]⟩

/-- Adds a signature, in place of the one that was known under its name. -/
def register (c : Catalog) (s : Signature) : Catalog :=
  ⟨(lowercase s.name, s) :: c.entries.filter fun (key, _) => key != lowercase s.name⟩

def registerAll (c : Catalog) (ss : List Signature) : Catalog := ss.foldl register c

/-- Adds signatures if all of them make sense, and otherwise tells what is wrong with the first that
does not. -/
def extend (c : Catalog) (ss : List Signature) : Except SignatureError Catalog := do
  ss.forM Signature.validate
  return c.registerAll ss

/-- The signature that a name stands for. -/
def lookup (c : Catalog) (name : String) : Option Signature :=
  (c.entries.find? fun (key, _) => key == lowercase name).map (·.2)

/-- The names as they were registered, in the order of their characters. -/
def names (c : Catalog) : List String :=
  (c.entries.map (·.2.name)).mergeSort fun a b => a ≤ b

def standardFunctions : List Signature :=
  SpatialOp.all.map .spatial ++ TemporalOp.all.map .temporal ++
    ([.fixed "casei" 1, .fixed "accenti" 1, .fixed "abs" 1, .fixed "ceil" 1, .fixed "floor" 1,
      .fixed "round" 1, .fixed "area" 1, .fixed "length" 1, .fixed "centroid" 1,
      .fixed "boundary" 1, .fixed "buffer" 2, .fixed "distance" 2, .fixed "strConcat" 2,
      .fixed "strLength" 1, .fixed "strToLowerCase" 1, .fixed "strToUpperCase" 1,
      .fixed "strSubstring" 3, .variadic "Concatenate" 1, .variadic "Interpolate" 2,
      .variadic "Categorize" 3, .variadic "Recode" 3, .fixed "PropertyExists" 1,
      .fixed "now" 0] : List Signature)

def standard : Catalog := empty.registerAll standardFunctions

/-- A registered signature is found under every name with its lower-case form, and all other names
stand for what they stood for. -/
theorem lookup_register (c : Catalog) (s : Signature) (name : String) :
    (c.register s).lookup name =
      if lowercase s.name = lowercase name then some s else c.lookup name := by
  by_cases h : lowercase s.name = lowercase name
  · simp [lookup, register, h]
  · simp only [lookup, register, List.find?_cons, beq_eq_false_iff_ne.2 h, if_neg h,
      List.find?_filter]
    congr 2
    funext p
    by_cases hp : p.1 = lowercase name
    · simp [hp, Ne.symm h]
    · simp [hp]

end Catalog

end FeatureFilter
