/-!
# Squares of words

The state that the stream cipher and the digest both work on: sixteen words, thought of as four rows
of four. A round mixes the four columns and then the four diagonals, each of them four words into
each other. What mixing means is the business of its users.
-/

namespace Placement

/-- Sixteen words, row by row. -/
abbrev Square : Type := Vector UInt32 16

/-- The four words of a column or a diagonal, from the top. -/
structure Quad where
  a : UInt32
  b : UInt32
  c : UInt32
  d : UInt32
deriving DecidableEq, Repr

namespace Square

/-- Replaces the words at four places by what `f` makes of them. -/
@[inline] def change (s : Square) (i j k l : Fin 16) (f : Quad → Quad) : Square :=
  let q := f ⟨s.get i, s.get j, s.get k, s.get l⟩
  (((s.set i q.a).set j q.b).set k q.c).set l q.d

/-- One round. The mixing is told which of the four columns, numbered from zero, or of the four
diagonals, numbered from four, it works on. -/
@[inline] def round (f : Fin 8 → Quad → Quad) (s : Square) : Square :=
  let s := s.change 0 4 8 12 (f 0)
  let s := s.change 1 5 9 13 (f 1)
  let s := s.change 2 6 10 14 (f 2)
  let s := s.change 3 7 11 15 (f 3)
  let s := s.change 0 5 10 15 (f 4)
  let s := s.change 1 6 11 12 (f 5)
  let s := s.change 2 7 8 13 (f 6)
  s.change 3 4 9 14 (f 7)

end Square

end Placement
