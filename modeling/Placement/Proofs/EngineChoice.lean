import Placement.Dispatch.Factory

/-!
# Which engine is in charge

The engine in charge of a kind of problem is found in three steps: the engines are probed, the
registry is resolved from the switches, and the kind is looked up. The steps are taken at different
times: the probe when a factory is set up, the resolving whenever switches are set, the looking up when
a problem comes. So the registry that is looked up is right only if it was kept in step with the
switches (`Coherent`), as setting up a factory and setting its switches do.

Every engine passes its probe, and one family alone has an implementation, so what comes out is one
test: the assignment solver is in charge of assignments while its family is enabled, and the heuristic
of everything else.
-/

namespace Placement

variable {σ : Type}

/-- Settings without a fault make a solver. -/
theorem AssignmentSolver.ofSettings_eq {settings : Settings} (h : settings.fault? = none)
    (clock : Clock) (source : σ) :
    AssignmentSolver.ofSettings settings clock source = .ok ⟨settings, h, clock, source⟩ := by
  unfold ofSettings
  split
  · rfl
  · next fault hfault =>
    rw [h] at hfault
    cases hfault

theorem AssignmentSolver.ofSettings_of_fault {settings : Settings} {fault : ParameterFault}
    (h : settings.fault? = some fault) (clock : Clock) (source : σ) :
    AssignmentSolver.ofSettings settings clock source = .error fault.toFailure := by
  unfold ofSettings
  split
  · next hnone =>
    rw [h] at hnone
    cases hnone
  · next fault' hfault =>
    rw [h] at hfault
    cases hfault
    rfl

theorem Switches.isEnabled_iff (s : Switches) (family : Family) : s.isEnabled family = true ↔
    s.forceHeuristic = false ∧ (s.own family = true ∨ s.allSpecialized = true) := by
  rw [Switches.isEnabled, Bool.and_eq_true, Bool.or_eq_true, Bool.not_eq_true', or_comm]

/-- A family without an implementation takes over nothing. -/
theorem Registry.install_of_ne {switches : Switches} {capable : List EngineKind} {r : Registry}
    {family : Family} (h : family ≠ .assignment) : r.install switches capable family = r := by
  cases family with
  | assignment => exact absurd rfl h
  | _ => rfl

/-- Where every engine can be built, the family of assignments alone decides about the registry. -/
theorem Registry.resolve_eq (switches : Switches) : Registry.resolve switches EngineKind.all =
    if switches.isEnabled .assignment = true then
      Registry.heuristics.assign .assignment .assignment
    else Registry.heuristics := by
  have hothers : ∀ r : Registry,
      [Family.routing, .allocation, .topology, .adversarial, .multiObjective, .metaLearning].foldl
        (Registry.install switches EngineKind.all) r = r := by
    intro r
    simp only [List.foldl_cons, List.foldl_nil]
    repeat rw [install_of_ne (by decide)]
  rw [resolve, Family.all, List.foldl_cons, hothers]
  unfold install Family.implementation?
  cases switches.isEnabled .assignment with
  | true => rfl
  | false => rfl

namespace Factory

/-- What a factory keeps is in step: it knows of every engine, and the registry is the one that follows
from where the switches stand. -/
structure Coherent (f : Factory σ) : Prop where
  capabilities_eq : f.capabilities = EngineKind.all
  registry_eq : f.registry = .resolve f.switches f.capabilities

variable {f : Factory σ}

/-- Setting switches brings the registry back into step, from what was found out at the start. -/
theorem Coherent.update (h : f.Coherent) (changes : List (String × Bool)) :
    (f.update changes).Coherent :=
  ⟨h.capabilities_eq, rfl⟩

theorem Coherent.resolve_eq (h : f.Coherent) : f.registry = .resolve f.switches EngineKind.all := by
  rw [h.registry_eq, h.capabilities_eq]

/-- The assignment solver is in charge of assignments while it is enabled, and of nothing else. -/
theorem Coherent.engineFor_eq (h : f.Coherent) (kind : ProblemKind) : f.engineFor kind =
    if kind = .assignment ∧ f.switches.isEnabled .assignment = true then .assignment
    else .heuristic := by
  rw [engineFor, h.resolve_eq, Registry.resolve_eq]
  cases f.switches.isEnabled .assignment with
  | true => cases kind <;> rfl
  | false => cases kind <;> rfl

end Factory

variable [RandomSource σ]

/-- Every engine can be built from the standard settings. -/
theorem EngineKind.isCapable_eq (kind : EngineKind) (around : Surroundings σ) :
    kind.isCapable around = true := by
  have hstandard : Settings.standard.fault? = none := by decide
  cases kind with
  | heuristic => rfl
  | assignment =>
      rw [isCapable, construct, AssignmentSolver.ofSettings_eq hstandard]
      rfl

namespace Factory

theorem probe_eq (around : Surroundings σ) : probe around = EngineKind.all :=
  List.filter_eq_self.mpr fun kind _ => kind.isCapable_eq around

theorem coherent_ofOptions (options : FactoryOptions) (around : Surroundings σ) :
    (ofOptions options around).Coherent :=
  ⟨probe_eq around, rfl⟩

end Factory

end Placement
