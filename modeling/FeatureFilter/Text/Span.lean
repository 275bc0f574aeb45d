/-!
# Positions and spans

A position says how much of a text lies before a point: in bytes of its UTF-8 form, in lines and
in characters of the line. A span is a range of bytes together with the line and column of its
start.
-/

namespace FeatureFilter

/-- A point of a text. Lines and columns count from one, columns by characters. -/
structure Position where
  offset : Nat
  line : Nat
  column : Nat
  deriving DecidableEq, Repr

namespace Position

def start : Position := ⟨0, 1, 1⟩

/-- The point behind one more character. Only a line feed opens a new line. -/
def advance (p : Position) (c : Char) : Position :=
  if c = '\n' then ⟨p.offset + c.utf8Size, p.line + 1, 1⟩
  else ⟨p.offset + c.utf8Size, p.line, p.column + 1⟩

/-- The point behind a run of characters. -/
def after (p : Position) (cs : List Char) : Position :=
  cs.foldl advance p

@[simp] theorem after_nil (p : Position) : p.after [] = p := rfl

@[simp] theorem after_cons (p : Position) (c : Char) (cs : List Char) :
    p.after (c :: cs) = (p.advance c).after cs := rfl

theorem after_append (p : Position) (a b : List Char) :
    p.after (a ++ b) = (p.after a).after b := by
  simp [after]

end Position

/-- A range of bytes, with the line and column of its start. -/
structure Span where
  start : Nat
  stop : Nat
  line : Nat
  column : Nat
  deriving DecidableEq, Repr

namespace Span

def between (p q : Position) : Span := ⟨p.offset, q.offset, p.line, p.column⟩

/-- The span from the start of `a` through the end of `b`. -/
def through (a b : Span) : Span := { a with stop := max b.stop a.stop }

end Span

end FeatureFilter
