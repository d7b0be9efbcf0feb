import Placement.Result

/-!
# Scores and summaries

A `Score` is what is kept of the solve of one benchmark instance, and a `Summary` is what is said of
many. Statistics are taken over usable scores only; those of the gap over the usable scores that have
one. A statistic over nothing is absent.
-/

namespace Placement

/-- What is kept of one solve. -/
structure Score (α : Type) where
  name : String
  size : Nat
  status : Status
  objective : Option α
  optimum : Option α
  gap : Option α
  improvement : α
  message : Option String

/-- What is said of many solves. -/
structure Summary (α : Type) where
  total : Nat
  succeeded : Nat
  failed : Nat
  meanGap : Option α
  bestGap : Option α
  worstGap : Option α
  meanImprovement : Option α

/-- The score of an instance that could not be loaded. -/
def Score.unloaded {α : Type} [Zero α] (name message : String) : Score α :=
  { name, size := 0, status := .failed, objective := none, optimum := none, gap := none,
    improvement := 0, message := some message }

namespace Summary

variable {α : Type}

section Extremes

variable [LT α] [DecidableLT α] [BEq α]

/-- The lesser of two numbers; the other one if one of them is not even equal to itself. -/
def lesser (a b : α) : α := if a == a then (if b < a then b else a) else b

/-- The greater of two numbers; the other one if one of them is not even equal to itself. -/
def greater (a b : α) : α := if a == a then (if a < b then b else a) else b

/-- Combines the values of a list from left to right. -/
def combine? (f : α → α → α) : List α → Option α
  | [] => none
  | a :: rest => some (rest.foldl f a)

end Extremes

/-- The mean of the values of a list. The sum starts from the zero that leaves every number as it is
when added to it. -/
def mean? [Zero α] [Neg α] [Add α] [Div α] [Gauge α] (values : List α) : Option α :=
  if values.isEmpty then none
  else some (values.foldl (· + ·) (-0) / Gauge.ofNat values.length)

def ofScores [Zero α] [Neg α] [Add α] [Div α] [Gauge α] [LT α] [DecidableLT α] [BEq α]
    (scores : List (Score α)) : Summary α :=
  let usable := scores.filter fun score => score.status.isUsable
  let gaps := usable.filterMap Score.gap
  { total := scores.length
    succeeded := usable.length
    failed := scores.length - usable.length
    meanGap := mean? gaps
    bestGap := combine? lesser gaps
    worstGap := combine? greater gaps
    meanImprovement := mean? (usable.map Score.improvement) }

end Summary

end Placement
