import Placement.Decimal.Reader
import Placement.Settings.Basic
import Placement.Text.Blank

/-!
# Reading settings

Settings as they come from an environment or a file: texts under names. Each known name sets one
field and no two names set the same, so the order of the entries does not matter. Unknown names are
passed over, which lets one collection serve several readers.
-/

namespace Placement

/-- The strategy that `s` names, in any case and with blanks around it. -/
def Strategy.read (s : String) : Except Failure Strategy :=
  let word := String.ofList ((Text.trimChars s.toList).map Char.toLower)
  if word = "simulated_annealing" || word = "sa" then .ok .annealing
  else if word = "genetic" || word = "ga" then .ok .genetic
  else .error (.configuration
    ("unknown algorithm '" ++ word ++ "', expected 'simulated_annealing' or 'genetic'"))

namespace Settings

inductive Field where
  | strategy
  | maxIterations
  | temperature
  | cooling
  | floor
  | mutationRate
  | tournamentSize
  | maxPopulation
  | seed
  | timeout
  | gpu
deriving DecidableEq, Repr

namespace Field

def all : List Field :=
  [strategy, maxIterations, temperature, cooling, floor, mutationRate, tournamentSize,
    maxPopulation, seed, timeout, gpu]

def name : Field → String
  | strategy => "algorithm"
  | maxIterations => "max_iterations"
  | temperature => "temperature_init"
  | cooling => "cooling_rate"
  | floor => "min_temperature"
  | mutationRate => "mutation_rate"
  | tournamentSize => "tournament_size"
  | maxPopulation => "max_population"
  | seed => "seed"
  | timeout => "timeout_secs"
  | gpu => "enable_gpu"

def ofName? (name : String) : Option Field := all.find? fun field => field.name == name

theorem ofName?_name (field : Field) : ofName? field.name = some field := by
  cases field <;> decide

end Field

/-! ## Values -/

def unreadable (name cause : String) : Failure :=
  .configuration ("invalid value for " ++ name ++ ": " ++ cause)

def readCount (name raw : String) : Except Failure UInt64 :=
  (Text.readUInt64 (Text.trim raw)).mapError fun e => unreadable name e.message

def readNumber (name raw : String) : Except Failure Float :=
  (Decimal.read (Text.trim raw)).mapError fun e => unreadable name e.message

def readFlag (name raw : String) : Except Failure Bool :=
  match Text.readBool? (Text.trim raw) with
  | some b => .ok b
  | none => .error (unreadable name Text.truthMessage)

def readSpan (name raw : String) : Except Failure Span := do
  let seconds ← readNumber name raw
  (Span.ofSeconds seconds).mapError fun e =>
    .configuration ("invalid " ++ name ++ ": " ++ e.message)

/-- Sets a field to the value that `raw` writes. -/
def assign (s : Settings) (field : Field) (raw : String) : Except Failure Settings :=
  match field with
  | .strategy => (Strategy.read raw).map ({ s with strategy := · })
  | .maxIterations => (readCount field.name raw).map ({ s with maxIterations := · })
  | .temperature => (readNumber field.name raw).map ({ s with temperature := · })
  | .cooling => (readNumber field.name raw).map ({ s with cooling := · })
  | .floor => (readNumber field.name raw).map ({ s with floor := · })
  | .mutationRate => (readNumber field.name raw).map ({ s with mutationRate := · })
  | .tournamentSize => (readCount field.name raw).map ({ s with tournamentSize := · })
  | .maxPopulation => (readCount field.name raw).map ({ s with maxPopulation := · })
  | .seed => (readCount field.name raw).map ({ s with seed := some · })
  | .timeout => (readSpan field.name raw).map ({ s with timeout := some · })
  | .gpu => (readFlag field.name raw).map ({ s with gpu := · })

/-- Takes one entry into account. -/
def enter (s : Settings) (entry : String × String) : Except Failure Settings :=
  match Field.ofName? entry.1 with
  | some field => s.assign field entry.2
  | none => .ok s

/-- The settings that entries make of the standard ones. They must be in range when all entries are
taken. -/
def ofEntries (entries : List (String × String)) : Except Failure Settings := do
  let s ← entries.foldlM enter standard
  s.validate
  pure s

end Settings

end Placement
