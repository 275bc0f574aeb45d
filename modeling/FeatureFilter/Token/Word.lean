import FeatureFilter.Text.Caseless
import FeatureFilter.Text.Letter
import FeatureFilter.Text.Slice

/-!
# Words

Words of the filter language are made of letters, digits and a few marks. Some are reserved, and a
word that is not may be followed by further words behind points. A name is written without quotes
when it is a single word that is not reserved and has no later letters in it; such letters are read
in words, but written in quotes.
-/

namespace FeatureFilter

inductive Keyword where
  | and
  | or
  | not
  | between
  | like
  | is
  | null
  | inList
  | isTrue
  | isFalse
  deriving DecidableEq, Repr

namespace Keyword

def all : List Keyword :=
  [and, or, not, between, like, is, null, inList, isTrue, isFalse]

def text : Keyword → String
  | and => "AND"
  | or => "OR"
  | not => "NOT"
  | between => "BETWEEN"
  | like => "LIKE"
  | is => "IS"
  | null => "NULL"
  | inList => "IN"
  | isTrue => "TRUE"
  | isFalse => "FALSE"

def ofWord? (word : String) : Option Keyword :=
  all.find? fun k => sameWord k.text word

end Keyword

def startsWord (c : Char) : Bool := isWordLetter c || c = '_' || c = '$'

def continuesWord (c : Char) : Bool := startsWord c || c.isDigit || c = ':'

/-- The rest of a word, with the words that follow it behind points, and what comes then. A point
belongs to them only when another word starts behind it. -/
def splitWords : List Char → List Char × List Char
  | [] => ([], [])
  | c :: cs =>
    if continuesWord c then
      let (word, rest) := splitWords cs
      (c :: word, rest)
    else match cs with
      | d :: ds =>
        if c = '.' && startsWord d then
          let (word, rest) := splitWords ds
          (c :: d :: word, rest)
        else ([], c :: d :: ds)
      | [] => ([], [c])

/-- Nothing is lost in taking words off the front. -/
theorem splitWords_append (cs : List Char) : (splitWords cs).1 ++ (splitWords cs).2 = cs := by
  fun_induction splitWords cs <;> simp_all

def startsPlainName (c : Char) : Bool := isLetter c || c = '_' || c = '$'

/-- Whether the character can stand inside a name without quotes. -/
def continuesPlainName (c : Char) : Bool := startsPlainName c || c.isDigit || c = ':'

theorem startsWord_of_startsPlainName {c : Char} (h : startsPlainName c = true) :
    startsWord c = true := by
  simp only [startsPlainName, startsWord, Bool.or_eq_true] at h ⊢
  exact h.imp_left (Or.imp_left isWordLetter_of_isLetter)

theorem continuesWord_of_continuesPlainName {c : Char} (h : continuesPlainName c = true) :
    continuesWord c = true := by
  simp only [continuesPlainName, continuesWord, Bool.or_eq_true] at h ⊢
  exact h.imp_left (Or.imp_left startsWord_of_startsPlainName)

def isPlainName (name : List Char) : Bool :=
  match name with
  | [] => false
  | c :: cs =>
    startsPlainName c && cs.all continuesPlainName && (Keyword.ofWord? (String.ofList name)).isNone

end FeatureFilter
