import Placement.Dispatch.Factory
import Placement.Suite.Bench
import Placement.Proofs.Arrangement
import Placement.Proofs.AnnealingWalk
import Placement.Proofs.FloatOrder
import Placement.Proofs.GeneticSearch
import Placement.Proofs.SolverContract
import Placement.Proofs.EngineChoice
import Placement.Proofs.FactorySolve
import Placement.Proofs.SwitchHistory
import Placement.Proofs.LongerSearch
import Placement.Proofs.HeuristicAnswers
import Placement.Proofs.FloatClass
import Placement.Proofs.FiniteImprovement
import Placement.Proofs.ReadyInstances
import Placement.Proofs.BenchRuns
import Placement.Proofs.HeuristicStream
import Placement.Proofs.OrderCrossover
import Placement.Proofs.ValidProblems
import Placement.Proofs.NearestRoute
import Placement.Proofs.SpacedWords
import Placement.Proofs.InstanceGrammar
import Placement.Proofs.Cooling
import Placement.Proofs.FloatCounts
import Placement.Proofs.EqualShares
import Placement.Proofs.FloatRounding
import Placement.Proofs.GridMetric
import Placement.Proofs.SettingsEntries
import Placement.Proofs.TournamentWinner
import Placement.Proofs.GapOrder
import Placement.Proofs.GateAgreement
import Placement.Proofs.ScoreStatistics
import Placement.Proofs.PairDraws
import Placement.Proofs.PermutationCheck
import Placement.Proofs.MatrixCells
