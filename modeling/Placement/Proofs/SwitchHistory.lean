import Mathlib.Data.List.Forall2
import Mathlib.Data.List.Nodup
import Placement.Proofs.EngineChoice
import Placement.Random.KeyStream

/-!
# Where the switches stand

Switches are set by maps from names to positions. A map has no order, but it is gone through in one, so
a history is a list of maps together with a list of the orders in which their entries came up
(`Keyed.Lists`). Each name comes up at most once in an order, which is all that makes the order
irrelevant: a switch ends up where the map puts it, or stays (`position_apply`).

Over a history the last mention of a switch decides (`position_updates`). Names that no switch has
decide nothing. The registry is kept in step by every update (`Coherent.updates`), so whatever is read
from it follows from the positions.
-/

namespace Placement

/-! ## Names -/

namespace Switch

/-- Some switch has this name. -/
def Known (name : String) : Prop := ∃ switch : Switch, switch.name = name

theorem known_name (switch : Switch) : Known switch.name :=
  ⟨switch, rfl⟩

theorem name_of_ofName? {name : String} {switch : Switch} (h : ofName? name = some switch) :
    switch.name = name := by
  unfold ofName? at h
  split at h
  · next hname =>
    cases h
    exact hname.symm
  · split at h
    · next hname =>
      cases h
      exact hname.symm
    · split at h
      · next hname =>
        cases h
        exact hname.symm
      · obtain ⟨family, hfamily, rfl⟩ := Option.map_eq_some_iff.mp h
        rw [Family.ofSwitchName?] at hfamily
        have hname := List.find?_some hfamily
        exact eq_of_beq hname

theorem ofName?_eq_none {name : String} (h : ¬Known name) : ofName? name = none := by
  rw [Option.eq_none_iff_forall_ne_some]
  intro switch hswitch
  exact h ⟨switch, name_of_ofName? hswitch⟩

instance : DecidablePred Known := fun name =>
  match h : ofName? name with
  | some switch => .isTrue ⟨switch, name_of_ofName? h⟩
  | none => .isFalse (by
      rintro ⟨switch, rfl⟩
      rw [ofName?_name] at h
      cases h)

end Switch

open Switch (Known)

/-! ## One map -/

namespace Switches

variable {s : Switches}

/-- Switches that stand the same are the same. -/
theorem ext_position {s s' : Switches} (h : ∀ switch, s.position switch = s'.position switch) :
    s = s' := by
  cases s
  cases s'
  have hown := funext fun family => h (.own family)
  have hall := h .allSpecialized
  have hforce := h .forceHeuristic
  have hgpu := h .gpu
  simp only [position] at hown hall hforce hgpu
  simp [hown, hall, hforce, hgpu]

theorem get?_name (s : Switches) (switch : Switch) :
    s.get? switch.name = some (s.position switch) := by
  rw [get?, Switch.ofName?_name]
  rfl

theorem get?_eq_none (s : Switches) {name : String} (h : ¬Known name) : s.get? name = none := by
  rw [get?, Switch.ofName?_eq_none h]
  rfl

theorem apply_known (s : Switches) (switch : Switch) (value : Bool)
    (changes : List (String × Bool)) :
    s.apply ((switch.name, value) :: changes) = (s.put switch value).apply changes := by
  rw [apply, set?, Switch.ofName?_name]
  rfl

theorem apply_unknown (s : Switches) {name : String} (h : ¬Known name) (value : Bool)
    (changes : List (String × Bool)) :
    s.apply ((name, value) :: changes) = ((s.apply changes).1, name :: (s.apply changes).2) := by
  rw [apply, set?, Switch.ofName?_eq_none h]
  rfl

/-- A switch that does not come up stays where it is. -/
theorem position_apply_of_not_mem {changes : List (String × Bool)} {switch : Switch}
    (h : switch.name ∉ changes.map Prod.fst) :
    (s.apply changes).1.position switch = s.position switch := by
  induction changes generalizing s with
  | nil => rfl
  | cons change changes ih =>
      obtain ⟨name, value⟩ := change
      simp only [List.map_cons, List.mem_cons, not_or] at h
      obtain ⟨hne, hrest⟩ := h
      by_cases hknown : Known name
      · obtain ⟨other, rfl⟩ := hknown
        have hother : switch ≠ other := fun heq => hne (congrArg Switch.name heq)
        rw [apply_known, ih hrest, position_put, if_neg hother]
      · rw [apply_unknown s hknown]
        exact ih hrest

/-- A switch that comes up once ends up where it was put. -/
theorem position_apply_of_mem {changes : List (String × Bool)} {switch : Switch} {value : Bool}
    (hnodup : (changes.map Prod.fst).Nodup) (h : (switch.name, value) ∈ changes) :
    (s.apply changes).1.position switch = value := by
  induction changes generalizing s with
  | nil => cases h
  | cons change changes ih =>
      rw [List.map_cons, List.nodup_cons] at hnodup
      rcases List.mem_cons.mp h with rfl | hmem
      · rw [apply_known, position_apply_of_not_mem hnodup.1, position_put, if_pos rfl]
      · obtain ⟨name, other⟩ := change
        by_cases hknown : Known name
        · obtain ⟨switch', rfl⟩ := hknown
          rw [apply_known]
          exact ih hnodup.2 hmem
        · rw [apply_unknown s hknown]
          exact ih hnodup.2 hmem

/-- In whatever order a map is gone through, each switch ends up where the map puts it, or stays. -/
theorem position_apply {changes : List (String × Bool)} {map : Keyed Bool}
    (h : Keyed.Lists changes map) (switch : Switch) :
    (s.apply changes).1.position switch = map[switch.name]?.getD (s.position switch) := by
  cases hmap : map[switch.name]? with
  | some value => exact position_apply_of_mem h.nodup (h.mem_iff.mpr hmap)
  | none =>
      refine position_apply_of_not_mem fun hmem => ?_
      obtain ⟨⟨name, value⟩, hchange, rfl⟩ := List.mem_map.mp hmem
      have hsome := h.mem_iff.mp hchange
      rw [hmap] at hsome
      cases hsome

/-- What is reported are the names that no switch has, as they come up. -/
theorem apply_snd (s : Switches) (changes : List (String × Bool)) :
    (s.apply changes).2 = (changes.map Prod.fst).filter fun name => ¬Known name := by
  induction changes generalizing s with
  | nil => rfl
  | cons change changes ih =>
      obtain ⟨name, value⟩ := change
      by_cases hknown : Known name
      · obtain ⟨switch, rfl⟩ := hknown
        rw [apply_known, ih, List.map_cons, List.filter_cons_of_neg]
        simp [Switch.known_name]
      · rw [apply_unknown s hknown, ih, List.map_cons, List.filter_cons_of_pos]
        simpa using hknown

/-- Names that no switch has could as well be left out. -/
theorem apply_filter_known (s : Switches) (changes : List (String × Bool)) :
    (s.apply (changes.filter fun change => Known change.1)).1 = (s.apply changes).1 := by
  induction changes generalizing s with
  | nil => rfl
  | cons change changes ih =>
      obtain ⟨name, value⟩ := change
      by_cases hknown : Known name
      · rw [List.filter_cons_of_pos (by simpa using hknown)]
        obtain ⟨switch, rfl⟩ := hknown
        rw [apply_known, apply_known, ih]
      · rw [List.filter_cons_of_neg (by simpa using hknown), apply_unknown s hknown, ih]

end Switches

/-! ## Histories of maps -/

/-- Where the last of the maps to mention a name puts it. -/
def lastMention (maps : List (Keyed Bool)) (name : String) : Option Bool :=
  maps.reverse.findSome? fun map => map[name]?

theorem lastMention_cons (map : Keyed Bool) (maps : List (Keyed Bool)) (name : String) :
    lastMention (map :: maps) name = (lastMention maps name).or map[name]? := by
  rw [lastMention, List.reverse_cons, List.findSome?_append, List.findSome?_singleton]
  rfl

variable {σ : Type}

namespace Factory

/-- The last mention of a switch decides where it stands; without any it stays where it was. -/
theorem position_updates {maps : List (Keyed Bool)} {orders : List (List (String × Bool))}
    (h : List.Forall₂ Keyed.Lists orders maps) (f : Factory σ) (switch : Switch) :
    (orders.foldl update f).switches.position switch =
      (lastMention maps switch.name).getD (f.switches.position switch) := by
  induction h generalizing f with
  | nil => rfl
  | @cons order map orders maps horder hrest ih =>
      rw [List.foldl_cons, ih, lastMention_cons]
      show _ = ((lastMention maps switch.name).or map[switch.name]?).getD _
      rw [update, Switches.position_apply horder]
      cases lastMention maps switch.name with
      | some value => rfl
      | none => rfl

variable {f : Factory σ}

/-- The registry is in step after any number of updates. -/
theorem Coherent.updates (h : f.Coherent) (orders : List (List (String × Bool))) :
    (orders.foldl Factory.update f).Coherent := by
  induction orders generalizing f with
  | nil => exact h
  | cons changes orders ih => exact ih (h.update changes)

/-- A map that repeats how the switches stand leaves a factory as it is, its registry included. -/
theorem Coherent.update_of_repeated (h : f.Coherent) {order : List (String × Bool)}
    {map : Keyed Bool} (horder : Keyed.Lists order map)
    (hrepeat : ∀ switch value, map[Switch.name switch]? = some value →
      f.switches.get? switch.name = some value) : f.update order = f := by
  have hswitches : (f.switches.apply order).1 = f.switches := by
    refine Switches.ext_position fun switch => ?_
    rw [Switches.position_apply horder]
    cases hmap : map[switch.name]? with
    | none => rfl
    | some value =>
        have hget := hrepeat switch value hmap
        rw [Switches.get?_name] at hget
        exact (Option.some.inj hget).symm
  rw [Factory.update, hswitches, ← h.registry_eq]

/-- Where registries are kept in step, the positions that are read by name settle them. -/
theorem Coherent.registry_eq_of_get? {f' : Factory σ} (h : f.Coherent) (h' : f'.Coherent)
    (hget : ∀ name, f'.switches.get? name = f.switches.get? name) : f'.registry = f.registry := by
  have hswitches : f'.switches = f.switches := by
    refine Switches.ext_position fun switch => ?_
    have hname := hget switch.name
    rw [Switches.get?_name, Switches.get?_name] at hname
    exact Option.some.inj hname
  rw [h'.resolve_eq, h.resolve_eq, hswitches]

/-- The registry has an entry for every kind, namely the engine that is in charge of it. -/
theorem Coherent.mem_registry_iff (h : f.Coherent) (kind : ProblemKind) (engine : EngineKind) :
    (kind, engine) ∈ f.registry.entries ↔ f.engineFor kind = engine := by
  rw [h.engineFor_eq, h.resolve_eq, Registry.resolve_eq]
  cases f.switches.isEnabled .assignment with
  | true => cases kind <;> cases engine <;> decide
  | false => cases kind <;> cases engine <;> decide

theorem Coherent.kinds_registry (h : f.Coherent) : f.registry.kinds = ProblemKind.all := by
  rw [h.resolve_eq, Registry.resolve_eq]
  split
  · rfl
  · rfl

/-- Three switches decide who is in charge of assignments. -/
theorem Coherent.engineFor_assignment_iff (h : f.Coherent) :
    f.engineFor .assignment = .assignment ↔
      f.switches.get? "force_heuristic" = some false ∧
        (f.switches.get? "enable_qap_specialized" = some true ∨
          f.switches.get? "enable_all_specialized" = some true) := by
  have hforce := f.switches.get?_name .forceHeuristic
  have hown := f.switches.get?_name (.own .assignment)
  have hall := f.switches.get?_name .allSpecialized
  simp only [Switch.name, Family.switchName] at hforce hown hall
  rw [hforce, hown, hall]
  simp only [Option.some.injEq, Switches.position, ← Switches.isEnabled_iff]
  rw [h.engineFor_eq]
  cases f.switches.isEnabled .assignment with
  | true => decide
  | false => decide

/-- What a history of maps makes of a factory whose switches first stood at `initial`: the names of
switches read as they were last mentioned, and the engines in charge follow from three of them. -/
structure Settled (initial : Switches) (maps : List (Keyed Bool)) (f : Factory σ) : Prop where
  known : ∀ switch : Switch, f.switches.get? switch.name =
    some ((lastMention maps switch.name).getD (initial.position switch))
  unknown : ∀ name, ¬Known name → f.switches.get? name = none
  kinds : f.registry.kinds = ProblemKind.all
  entries : ∀ kind engine, (kind, engine) ∈ f.registry.entries ↔ f.engineFor kind = engine
  assignment : f.engineFor .assignment = .assignment ↔
    f.switches.get? "force_heuristic" = some false ∧
      (f.switches.get? "enable_qap_specialized" = some true ∨
        f.switches.get? "enable_all_specialized" = some true)
  others : ∀ kind, kind ≠ .assignment → f.engineFor kind = .heuristic

variable [RandomSource σ]

/-- The factory has come about by setting it up and going through these maps, each in some order. -/
def Reached (options : FactoryOptions) (around : Surroundings σ) (maps : List (Keyed Bool))
    (f : Factory σ) : Prop :=
  ∃ orders, List.Forall₂ Keyed.Lists orders maps ∧ f = orders.foldl update (ofOptions options around)

variable {options : FactoryOptions} {around : Surroundings σ} {maps : List (Keyed Bool)}

theorem Reached.coherent (h : Reached options around maps f) : f.Coherent := by
  obtain ⟨orders, -, rfl⟩ := h
  exact (coherent_ofOptions options around).updates orders

theorem Reached.settled (h : Reached options around maps f) : Settled options.switches maps f where
  known switch := by
    obtain ⟨orders, horders, rfl⟩ := h
    rw [Switches.get?_name, position_updates horders]
    rfl
  unknown name hname := Switches.get?_eq_none _ hname
  kinds := h.coherent.kinds_registry
  entries := h.coherent.mem_registry_iff
  assignment := h.coherent.engineFor_assignment_iff
  others kind hkind := by
    rw [h.coherent.engineFor_eq, if_neg fun hboth => hkind hboth.1]

/-- One more map makes for a longer history. -/
theorem Reached.update (h : Reached options around maps f) {order : List (String × Bool)}
    {map : Keyed Bool} (horder : Keyed.Lists order map) :
    Reached options around (maps ++ [map]) (f.update order) := by
  obtain ⟨orders, horders, rfl⟩ := h
  refine ⟨orders ++ [order], List.rel_append horders (.cons horder .nil), ?_⟩
  rw [List.foldl_append]
  rfl

/-- After any history of maps, in whatever order each was gone through, the switches stand as they
were last put and the registry that the factory keeps is the one that follows. One more map is reported
for exactly the names that no switch has, which change nothing, and a map that repeats what already
holds changes nothing at all. Factories whose histories end with the same positions keep the same
registry, whatever else was different. -/
theorem standing_after_updates {options : FactoryOptions} {around : Surroundings σ}
    {maps : List (Keyed Bool)} {f : Factory σ} (h : Reached options around maps f) :
    Settled options.switches maps f ∧
    (∀ order map, Keyed.Lists order map →
      (∀ name, name ∈ (f.switches.apply order).2 ↔ name ∈ map ∧ ¬Known name) ∧
      (f.switches.apply order).2.Nodup ∧
      (f.switches.apply (order.filter fun change => Known change.1)).1 =
        (f.switches.apply order).1 ∧
      Reached options around (maps ++ [map]) (f.update order) ∧
      ((∀ switch value, map[Switch.name switch]? = some value →
        f.switches.get? switch.name = some value) → f.update order = f)) ∧
    (∀ options' around' maps' (f' : Factory σ), Reached options' around' maps' f' →
      (∀ name, f'.switches.get? name = f.switches.get? name) → f'.registry = f.registry) := by
  refine ⟨h.settled, fun order map horder => ⟨?_, ?_, ?_, ?_, ?_⟩, ?_⟩
  · intro name
    rw [Switches.apply_snd, List.mem_filter, horder.mem_keys_iff]
    simp
  · rw [Switches.apply_snd]
    exact horder.nodup.filter _
  · exact Switches.apply_filter_known _ _
  · exact h.update horder
  · exact h.coherent.update_of_repeated horder
  · intro options' around' maps' f' h'
    exact h.coherent.registry_eq_of_get? h'.coherent

/-- Assignments are given to their solver, everything is forced to the heuristic, and the force is
lifted again. -/
def lifting : List (Keyed Bool) :=
  [(∅ : Keyed Bool).insert "enable_qap_specialized" true,
    (∅ : Keyed Bool).insert "force_heuristic" true,
    (∅ : Keyed Bool).insert "force_heuristic" false]

/-- The switch of the family was masked, not erased, and the registry that is kept says so. -/
theorem standing_after_updates_lifting :
    ∃ f : Factory KeyStream, Reached {} ⟨.still, RandomSource.ofSeed 0⟩ lifting f ∧
      (ProblemKind.assignment, EngineKind.assignment) ∈ f.registry.entries := by
  have horders : List.Forall₂ Keyed.Lists (lifting.map fun map => map.toList) lifting :=
    List.forall₂_map_left_iff.mpr (List.forall₂_same.mpr fun map _ => List.Perm.refl _)
  have hreached : Reached {} (⟨.still, RandomSource.ofSeed 0⟩ : Surroundings KeyStream) lifting _ :=
    ⟨_, horders, rfl⟩
  obtain ⟨hsettled, -⟩ := standing_after_updates hreached
  have hforce : lastMention lifting (Switch.name .forceHeuristic) = some false := by
    simp [lastMention, lifting, Switch.name]
  have hown : lastMention lifting (Switch.name (.own .assignment)) = some true := by
    simp [lastMention, lifting, Switch.name, Family.switchName]
  refine ⟨_, hreached, (hsettled.entries _ _).mpr (hsettled.assignment.mpr ⟨?_, Or.inl ?_⟩)⟩
  · have hget := hsettled.known .forceHeuristic
    rw [hforce] at hget
    exact hget
  · have hget := hsettled.known (.own .assignment)
    rw [hown] at hget
    exact hget

end Factory

end Placement
