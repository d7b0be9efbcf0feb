import Placement.Random.Source
import Placement.Search.Parameter

/-!
# Tournaments

A tournament draws contestants with replacement and hands the win to the best of them. A contestant
has to be strictly better than the best before it, so among equals the one drawn first wins.
-/

namespace Placement

/-- The size of a tournament, and whether the higher or the lower fitness wins. -/
structure Tournament where
  size : Nat
  higherWins : Bool
deriving DecidableEq, Repr

namespace Tournament

/-- Three contestants, the highest of whom wins. -/
def standard : Tournament := ⟨3, true⟩

/-- A tournament of the given size, won by the highest. -/
def ofSize (size : Nat) : Except ParameterFault Tournament :=
  if size < 1 then .error .tournamentSize else .ok ⟨size, true⟩

/-- The same tournament, won by the lowest. -/
def lowerWins (t : Tournament) : Tournament := { t with higherWins := false }

variable {σ α : Type} [LT α] [DecidableLT α]

/-- Whether `a` is strictly better than `b`. -/
def beats (t : Tournament) (a b : α) : Bool := if t.higherWins then b < a else a < b

/-- The better of the champion so far and a challenger. -/
def duel {n : Nat} (t : Tournament) (fitness : Vector α n) (champion challenger : Fin n) : Fin n :=
  if t.beats (fitness.get challenger) (fitness.get champion) then challenger else champion

variable [RandomSource σ]

/-- Lets further contestants challenge the champion. -/
def challenge {n : Nat} (t : Tournament) (fitness : Vector α n) : (contestants : Nat) → Fin n →
    Draw σ (Fin n)
  | 0, champion => pure champion
  | contestants + 1, champion => do
    let challenger ← Draw.index n
    challenge t fitness contestants (t.duel fitness champion challenger)

/-- The winner of a tournament. Without any fitness there is no one to draw. -/
def run {n : Nat} (t : Tournament) (fitness : Vector α n) : Draw σ (Fin n) :=
  if n = 0 then
    throw (.failure (.algorithm "Cannot run a tournament on an empty population"))
  else do
    let champion ← Draw.index n
    t.challenge fitness (t.size - 1) champion

end Tournament

end Placement
