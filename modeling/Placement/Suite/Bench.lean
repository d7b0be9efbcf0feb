import Placement.Optimizer
import Placement.Suite.Catalog
import Placement.Suite.Folder
import Placement.Suite.Grid
import Placement.Suite.Summary

/-!
# The bench

Runs an optimizer over benchmark instances. An instance is read from the file with its name if a data
folder has one, and made up from its name otherwise. A file that is there but cannot be used is a
failure of that instance alone: the others are solved all the same.
-/

namespace Placement

/-- Where instances come from. -/
structure Bench where
  folder : Option Folder

/-- An instance that is ready to be solved. -/
structure BenchInstance where
  name : String
  size : Nat
  optimum : Option Float
  problem : Problem
  /-- Whether the data were made up. -/
  synthetic : Bool

/-- The scores of a run, and what they come to. -/
structure Report where
  solver : String
  scores : List (Score Float)
  summary : Summary Float

namespace Bench

def fileName (name : String) : String := name ++ ".dat"

/-- The matrices in a file, if they have the size that the catalog says. -/
def load (folder : Folder) (entry : CatalogEntry) : Except Failure (Matrix Float × Matrix Float) := do
  let path := fileName entry.name
  let (distance, flow) ← folder.loadInstance path
  if distance.rows ≠ entry.size then
    throw (.parse (folder.display path ++ " has dimension " ++ toString distance.rows ++
      ", expected " ++ toString entry.size))
  pure (distance, flow)

/-- The folder that has a file for an instance. -/
def source? (b : Bench) (entry : CatalogEntry) : Option Folder :=
  b.folder.filter fun folder => folder.isFile (fileName entry.name)

def problemOf (name : String) (synthetic : Bool) (matrices : Matrix Float × Matrix Float) : Problem :=
  ((Problem.assignment matrices.1 matrices.2).annotate "instance" (.text name)).annotate
    "synthetic" (.flag synthetic)

def instanceNamed (b : Bench) (name : String) : Except Failure BenchInstance :=
  match Catalog.find? name with
  | none => .error (.unknownInstance name)
  | some entry =>
    let ready (synthetic : Bool) (matrices : Matrix Float × Matrix Float) : BenchInstance :=
      { name, size := entry.size, optimum := entry.optimum
        problem := problemOf name synthetic matrices, synthetic }
    match b.source? entry with
    | some folder => (load folder entry).map (ready false)
    | none =>
      match Grid.matrices name entry.size with
      | .ok matrices => .ok (ready true matrices)
      | .error cause => .error cause.toFailure

/-! ## Runs -/

/-- What is kept of the answer to an instance. -/
def scoreOf (i : BenchInstance) (answer : Answer) : Score Float :=
  let answer :=
    match i.optimum with
    | some optimum => answer.withGap optimum
    | none => answer
  { name := i.name
    size := i.size
    status := answer.status
    objective := answer.objective
    optimum := i.optimum
    gap := answer.gap
    improvement := answer.improvement
    message := answer.error? }

variable {ω : Type} [Optimizer ω]

/-- Solves one instance, unless it cannot be loaded. -/
def score (b : Bench) (o : ω) (name : String) : Score Float × ω :=
  match b.instanceNamed name with
  | .error cause => (.unloaded name cause.message, o)
  | .ok i => let (answer, o) := Optimizer.solve o i.problem; (scoreOf i answer, o)

/-- Solves instances one after the other, with the state that the ones before have left. -/
def scores (b : Bench) (o : ω) : List String → List (Score Float) × ω
  | [] => ([], o)
  | name :: names =>
    let (first, o) := b.score o name
    let (rest, o) := b.scores o names
    (first :: rest, o)

/-- The report on a run, and the state in which it leaves the optimizer. -/
def run (b : Bench) (o : ω) (names : List String) : Report × ω :=
  let (scores, last) := b.scores o names
  ({ solver := Optimizer.name last, scores, summary := .ofScores scores }, last)

def runAll (b : Bench) (o : ω) : Report × ω := b.run o Catalog.names

end Bench

end Placement
