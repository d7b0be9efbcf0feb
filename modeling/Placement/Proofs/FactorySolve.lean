import Placement.Proofs.EngineChoice
import Placement.Proofs.HeuristicAnswers

/-!
# What a factory computes

Over its life a factory is asked to set switches and to solve problems, in any order. Such a history
leaves behind the position of the switches and a registry in step with them (`coherent_after`), and a
solve builds its engine anew, so its answer is settled by the switches, the options and the problem.
With a seed nothing else enters: a seeded engine starts its source over, and therefore forgets the
source it was built with.

There are two ways to the heuristic. Either it is in charge, or it takes the place of an engine that
could not be built; the seed is the same both times, and so is the answer.
-/

namespace Placement

/-! ## What decides about a solve -/

/-- The settings of a solve for which the caller asks for nothing. -/
def FactoryOptions.settingsUnder (o : FactoryOptions) (s : Switches) : Settings :=
  { o.settings with gpu := s.gpu, timeout := o.settings.timeout <|> o.defaultTimeout }

/-- What has to come together for the assignment solver to answer. -/
structure Specialized (o : FactoryOptions) (s : Switches) (p : Problem) : Prop where
  kind_eq : p.kind = .assignment
  unforced : s.forceHeuristic = false
  enabled : s.own .assignment = true ∨ s.allSpecialized = true
  admissible : (o.settingsUnder s).validate = .ok ()

variable {σ : Type}

namespace Factory

/-- Factories that keep their registries in step are the same if they are set up alike and their switches
stand the same. -/
theorem Coherent.eq_of_switches {f f' : Factory σ} (h : f.Coherent) (h' : f'.Coherent)
    (hoptions : f'.options = f.options) (haround : f'.around = f.around)
    (hswitches : f'.switches = f.switches) : f' = f := by
  have hregistry : f'.registry = f.registry := by
    rw [h'.resolve_eq, h.resolve_eq, hswitches]
  have hcapabilities : f'.capabilities = f.capabilities := by
    rw [h'.capabilities_eq, h.capabilities_eq]
  cases f
  cases f'
  cases hoptions
  cases haround
  cases hcapabilities
  cases hswitches
  cases hregistry
  rfl

theorem settingsFor_eq (f : Factory σ) :
    f.settingsFor none none = f.options.settingsUnder f.switches := rfl

end Factory

variable [RandomSource σ]

/-! ## Seeded engines -/

/-- A seeded solver answers without regard to the source it was built with. -/
theorem AssignmentSolver.solve_of_seed (s : AssignmentSolver σ) {seed : UInt64}
    (hseed : s.settings.seed = some seed) (source : σ) (p : Problem) :
    (({ s with source } : AssignmentSolver σ).solve p).1 = (s.solve p).1 := by
  have horigin : ({ s with source } : AssignmentSolver σ).origin = s.origin := by
    unfold origin
    rw [hseed]
  rw [solve_fst, solve_fst, horigin]

/-! ## Histories -/

/-- What a factory is asked to do. -/
inductive Request where
  /-- Sets switches by name. -/
  | update (changes : List (String × Bool))
  | solve (p : Problem)

namespace Factory

/-- Does what is asked, and says what the factory has become and what it answered. -/
def serve (f : Factory σ) : Request → Factory σ × Option Answer
  | .update changes => (f.update changes, none)
  | .solve p => (f, some (f.solve p))

/-- The factory after a history of requests. -/
def after (f : Factory σ) (history : List Request) : Factory σ :=
  history.foldl (fun f request => (f.serve request).1) f

/-- What is asked of a factory never touches its options, nor what is around it. -/
theorem setup_after (f : Factory σ) (history : List Request) :
    (f.after history).options = f.options ∧ (f.after history).around = f.around := by
  induction history generalizing f with
  | nil => exact ⟨rfl, rfl⟩
  | cons request history ih =>
      obtain ⟨hoptions, haround⟩ := ih (f.serve request).1
      rw [after, List.foldl_cons, ← after, hoptions, haround]
      cases request with
      | update changes => exact ⟨rfl, rfl⟩
      | solve p => exact ⟨rfl, rfl⟩

variable {f : Factory σ}

theorem Coherent.serve (h : f.Coherent) (request : Request) : (f.serve request).1.Coherent := by
  cases request with
  | update changes => exact h.update changes
  | solve p => exact h

/-- The registry is in step after every history. -/
theorem Coherent.after (h : f.Coherent) (history : List Request) : (f.after history).Coherent := by
  induction history generalizing f with
  | nil => exact h
  | cons request history ih => exact ih (h.serve request)

theorem coherent_after (options : FactoryOptions) (around : Surroundings σ)
    (history : List Request) : ((ofOptions options around).after history).Coherent :=
  (coherent_ofOptions options around).after history

/-! ## The engine of a solve -/

/-- Where everything comes together, the assignment solver is built and answers. -/
theorem Coherent.solve_of_specialized {p : Problem} (hf : f.Coherent)
    (h : Specialized f.options f.switches p) :
    ∃ hadmissible, f.solve p = ((AssignmentSolver.mk (f.options.settingsUnder f.switches)
      hadmissible f.around.clock f.around.source).solve p).1 := by
  have hfault := Settings.validate_eq_ok_iff.mp h.admissible
  have hcharge : f.engineFor p.kind = .assignment := by
    rw [hf.engineFor_eq]
    exact if_pos ⟨h.kind_eq, (f.switches.isEnabled_iff _).mpr ⟨h.unforced, h.enabled⟩⟩
  refine ⟨hfault, ?_⟩
  rw [solve, create, hcharge, settingsFor_eq, build, EngineKind.construct,
    AssignmentSolver.ofSettings_eq hfault]
  rfl

/-- In every other case the heuristic answers, with the seed of the settings. -/
theorem Coherent.solve_of_not_specialized {p : Problem} {seed : UInt64} (hf : f.Coherent)
    (hseed : f.options.settings.seed = some seed) (h : ¬Specialized f.options f.switches p)
    (source : σ) : f.solve p = ((Heuristic.ofSeed (some seed) source).solve p).1 := by
  have hseeded : (f.options.settingsUnder f.switches).seed = some seed := hseed
  rw [solve, create, hf.engineFor_eq, settingsFor_eq]
  by_cases hcharge : p.kind = .assignment ∧ f.switches.isEnabled .assignment = true
  · have henabled := (f.switches.isEnabled_iff _).mp hcharge.2
    cases hfault : (f.options.settingsUnder f.switches).fault? with
    | none =>
        exact absurd ⟨hcharge.1, henabled.1, henabled.2, Settings.validate_eq_ok_iff.mpr hfault⟩ h
    | some fault =>
        rw [if_pos hcharge, build, EngineKind.construct, AssignmentSolver.ofSettings_of_fault hfault,
          hseeded]
        rfl
  · rw [if_neg hcharge, build, EngineKind.construct, hseeded]
    rfl

/-- What is invalid is refused, whoever is in charge. -/
theorem Coherent.refused_of_invalid {p : Problem} {seed : UInt64} (hf : f.Coherent)
    (hseed : f.options.settings.seed = some seed) (hinvalid : p.validate.valid = false) :
    Refused (f.solve p) := by
  by_cases h : Specialized f.options f.switches p
  · obtain ⟨hadmissible, hsolve⟩ := hf.solve_of_specialized h
    rw [hsolve]
    refine AssignmentSolver.refused_of_invalid _ ?_
    rintro ⟨-, hvalid⟩
    exact absurd (hinvalid.symm.trans hvalid) Bool.false_ne_true
  · rw [hf.solve_of_not_specialized hseed h f.around.source]
    exact Heuristic.refused_of_invalid _ hinvalid

/-- After any history of a factory with a seed, a solve computes what the assignment solver does,
built from the settings and the present switches, if everything comes together for it, and what the
heuristic does otherwise; the source that either is built with is of no account. So histories that
end with the same switches end with the same answers, and what is invalid is refused after all of
them. -/
theorem solve_after_history {options : FactoryOptions} {seed : UInt64}
    (hseed : options.settings.seed = some seed) (around : Surroundings σ) (source : σ)
    {history : List Request} {f : Factory σ} (hf : f = (ofOptions options around).after history)
    (p : Problem) :
    (Specialized options f.switches p → ∃ solver,
      AssignmentSolver.ofSettings (options.settingsUnder f.switches) around.clock source =
        .ok solver ∧ f.solve p = (solver.solve p).1) ∧
    (¬Specialized options f.switches p →
      f.solve p = ((Heuristic.ofSeed (some seed) source).solve p).1) ∧
    (∀ history', ((ofOptions options around).after history').switches = f.switches →
      ((ofOptions options around).after history').solve p = f.solve p) ∧
    (p.validate.valid = false → Refused (f.solve p)) := by
  have hcoherent : f.Coherent := hf ▸ coherent_after options around history
  obtain ⟨hoptions, haround⟩ := setup_after (ofOptions options around) history
  rw [← hf] at hoptions haround
  obtain rfl : f.options = options := hoptions
  obtain rfl : f.around = around := haround
  refine ⟨fun h => ?_, fun h => hcoherent.solve_of_not_specialized hseed h source,
    fun history' h => ?_, hcoherent.refused_of_invalid hseed⟩
  · obtain ⟨hadmissible, hsolve⟩ := hcoherent.solve_of_specialized h
    refine ⟨_, AssignmentSolver.ofSettings_eq hadmissible f.around.clock source, ?_⟩
    rw [hsolve]
    exact (AssignmentSolver.solve_of_seed _ hseed source p).symm
  · obtain ⟨hoptions', haround'⟩ := setup_after (ofOptions f.options f.around) history'
    rw [hcoherent.eq_of_switches (coherent_after _ _ history') hoptions' haround' h]

/-- The standard options with a seed. -/
def seeded : FactoryOptions := { settings := { seed := some 7 } }

theorem solve_after_history_of_update :
    ∃ (f : Factory KeyStream) (solver : AssignmentSolver KeyStream), seeded.settings.seed = some 7 ∧
      f = (ofOptions seeded ⟨.still, RandomSource.ofSeed 0⟩).after
        [.update [("enable_qap_specialized", true)], .solve (.empty .routing)] ∧
      f.solve (.assignment Genetic.twoSlots.distance Genetic.twoSlots.flow) =
        (solver.solve (.assignment Genetic.twoSlots.distance Genetic.twoSlots.flow)).1 := by
  have hadmissible : (seeded.settingsUnder
      ((ofOptions seeded (⟨.still, RandomSource.ofSeed 0⟩ : Surroundings KeyStream)).after
        [.update [("enable_qap_specialized", true)], .solve (.empty .routing)]).switches).validate =
      .ok () := Settings.validate_eq_ok_iff.mpr (by decide)
  obtain ⟨solver, -, hsolve⟩ := (solve_after_history rfl
    (⟨.still, RandomSource.ofSeed 0⟩ : Surroundings KeyStream) (RandomSource.ofSeed 1) rfl
    (.assignment Genetic.twoSlots.distance Genetic.twoSlots.flow)).1
    ⟨rfl, by decide, Or.inl (by decide), hadmissible⟩
  exact ⟨_, solver, rfl, rfl, hsolve⟩

end Factory

end Placement
