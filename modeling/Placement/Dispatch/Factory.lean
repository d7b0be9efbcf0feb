import Placement.Dispatch.Registry
import Placement.Settings.Reader

/-!
# The factory

Builds the optimizer that should solve a problem, according to the switches. It never refuses: if the
engine in charge cannot be built, the heuristic takes its place.

A factory finds out once which engines can be built. From this and from its switches it resolves a
registry, which it keeps and looks things up in, and which it resolves anew whenever switches are set.
-/

namespace Placement

/-- What a factory is set up with. -/
structure FactoryOptions where
  switches : Switches := .off
  /-- The budget of a solve for which neither the caller nor the settings name one. -/
  defaultTimeout : Option Span := some (Span.ofParts 300 0)
  settings : Settings := .standard

namespace FactoryOptions

def defaultTimeoutKey : String := "default_timeout_secs"

def ofEntries (switches : List (String × Bool)) (entries : List (String × String)) :
    Except Failure FactoryOptions := do
  let settings ← Settings.ofEntries entries
  let options : FactoryOptions := { switches := Switches.ofEntries switches, settings }
  match entries.lookup defaultTimeoutKey with
  | none => pure options
  | some raw => do
    let span ← Settings.readSpan defaultTimeoutKey raw
    pure { options with defaultTimeout := some span }

end FactoryOptions

/-- A factory: its options, what engines are given by the world around them, and what it has found out
and resolved so far. -/
structure Factory (σ : Type) where
  options : FactoryOptions
  around : Surroundings σ
  /-- The engines that could be built when the factory was set up. -/
  capabilities : List EngineKind
  /-- The switches as they stand now. -/
  switches : Switches
  /-- Which engine solves what, as it was last resolved. -/
  registry : Registry

namespace Factory

variable {σ : Type} [RandomSource σ]

/-- Tries out which engines can be built. -/
def probe (around : Surroundings σ) : List EngineKind :=
  EngineKind.all.filter fun kind => kind.isCapable around

def ofOptions (options : FactoryOptions) (around : Surroundings σ) : Factory σ :=
  let capabilities := probe around
  { options, around, capabilities, switches := options.switches
    registry := .resolve options.switches capabilities }

def engineFor (f : Factory σ) (kind : ProblemKind) : EngineKind := f.registry.engineFor kind

/-- Sets switches by name, and resolves the registry from where they stand then. Names that no switch
has are passed over, and no engine is tried out again. -/
def update (f : Factory σ) (changes : List (String × Bool)) : Factory σ :=
  let switches := (f.switches.apply changes).1
  { f with switches, registry := .resolve switches f.capabilities }

/-- The settings for one solve: what the caller wants comes first, then the settings, then the switches
and options of the factory. -/
def settingsFor (f : Factory σ) (gpu : Option Bool) (timeout : Option Span) : Settings :=
  let s := f.options.settings
  { s with
    gpu := gpu.getD f.switches.gpu
    timeout := timeout <|> s.timeout <|> f.options.defaultTimeout }

def build (around : Surroundings σ) (kind : EngineKind) (settings : Settings) :
    Except Failure (Engine σ) := do
  let engine ← kind.construct settings around
  Optimizer.prepare engine

def create (f : Factory σ) (p : Problem) (gpu : Option Bool) (timeout : Option Span) : Engine σ :=
  let settings := f.settingsFor gpu timeout
  match build f.around (f.engineFor p.kind) settings with
  | .ok engine => engine
  | .error _ => .heuristic (Heuristic.ofSeed settings.seed f.around.source)

def solve (f : Factory σ) (p : Problem) : Answer := (Optimizer.solve (f.create p none none) p).1

end Factory

end Placement
