import Placement.Decimal.Plain
import Placement.Proofs.EngineChoice
import Placement.Proofs.InstanceGrammar
import Placement.Proofs.ParameterGates
import Placement.Proofs.SettingsValues

/-!
# Settings from a map

Settings are read from a map of texts, whose entries come up in an order that nothing fixes. Each entry
with a known name writes one field, and reads nothing of the others. So a run over the entries ends with
the settings in which every field has what its own entry writes (`foldlM_enter_of_settles`), or at the
first entry that cannot be read (`foldlM_enter_of_unreadable`). As long as no two entries are unreadable,
which of them comes up first does not show.

Ranges are checked once all entries are taken, against settings that do not depend on the order either.
-/

namespace Placement

namespace Settings

/-! ## Fields -/

namespace Field

def get : (field : Field) → Settings → field.Value
  | strategy, s => s.strategy
  | maxIterations, s => s.maxIterations
  | temperature, s => s.temperature
  | cooling, s => s.cooling
  | floor, s => s.floor
  | mutationRate, s => s.mutationRate
  | tournamentSize, s => s.tournamentSize
  | maxPopulation, s => s.maxPopulation
  | seed, s => s.seed
  | timeout, s => s.timeout
  | gpu, s => s.gpu

def put : (field : Field) → field.Value → Settings → Settings
  | strategy, v, s => { s with strategy := v }
  | maxIterations, v, s => { s with maxIterations := v }
  | temperature, v, s => { s with temperature := v }
  | cooling, v, s => { s with cooling := v }
  | floor, v, s => { s with floor := v }
  | mutationRate, v, s => { s with mutationRate := v }
  | tournamentSize, v, s => { s with tournamentSize := v }
  | maxPopulation, v, s => { s with maxPopulation := v }
  | seed, v, s => { s with seed := v }
  | timeout, v, s => { s with timeout := v }
  | gpu, v, s => { s with gpu := v }

theorem get_put_self (field : Field) (v : field.Value) (s : Settings) :
    field.get (field.put v s) = v := by
  cases field <;> rfl

theorem get_put_of_ne {field other : Field} (h : other ≠ field) (v : field.Value) (s : Settings) :
    other.get (field.put v s) = other.get s := by
  cases field <;> cases other <;> first | rfl | exact absurd rfl h

theorem name_of_ofName? {name : String} {field : Field} (h : ofName? name = some field) :
    field.name = name := by
  rw [ofName?] at h
  have hname := List.find?_some h
  exact eq_of_beq hname

theorem name_injective {field other : Field} (h : field.name = other.name) : field = other := by
  have hname := ofName?_name field
  rw [h, ofName?_name] at hname
  exact (Option.some.inj hname).symm

end Field

/-- Settings that agree in every field are the same. -/
theorem ext_get {s s' : Settings} (h : ∀ field : Field, field.get s = field.get s') : s = s' := by
  cases s
  cases s'
  have hstrategy := h .strategy
  have hmaxIterations := h .maxIterations
  have htemperature := h .temperature
  have hcooling := h .cooling
  have hfloor := h .floor
  have hmutationRate := h .mutationRate
  have htournamentSize := h .tournamentSize
  have hmaxPopulation := h .maxPopulation
  have hseed := h .seed
  have htimeout := h .timeout
  have hgpu := h .gpu
  simp only [Field.get] at *
  simp [*]

/-- The settings with the given values. -/
def ofFields (v : (field : Field) → field.Value) : Settings where
  strategy := v .strategy
  maxIterations := v .maxIterations
  temperature := v .temperature
  cooling := v .cooling
  floor := v .floor
  mutationRate := v .mutationRate
  tournamentSize := v .tournamentSize
  maxPopulation := v .maxPopulation
  seed := v .seed
  timeout := v .timeout
  gpu := v .gpu

theorem get_ofFields (v : (field : Field) → field.Value) (field : Field) :
    field.get (ofFields v) = v field := by
  cases field <;> rfl

/-! ## One entry -/

variable {s s' : Settings}

/-- To assign is to read the text, which has nothing to do with the settings, and to put the value. -/
theorem assign_eq (s : Settings) (field : Field) (raw : String) :
    s.assign field raw = (field.read raw).map (field.put · s) := by
  cases field with
  | strategy => rw [assign, readStrategy_eq]; rfl
  | maxIterations | tournamentSize | maxPopulation => rw [assign, readCount_eq]; rfl
  | temperature | cooling | floor | mutationRate => rw [assign, readNumber_eq]; rfl
  | seed =>
      rw [assign, readCount_eq, Field.read]
      cases Field.seed.whole raw <;> rfl
  | timeout =>
      rw [assign, ← readSpan_eq]
      cases readSpan Field.timeout.name raw <;> rfl
  | gpu => rw [assign, readFlag_eq]; rfl

theorem enter_of_unknown (s : Settings) {name : String} (h : Field.ofName? name = none)
    (raw : String) : s.enter (name, raw) = .ok s := by
  rw [enter, h]

theorem enter_known (s : Settings) (field : Field) (raw : String) :
    s.enter (field.name, raw) = (field.read raw).map (field.put · s) := by
  simp only [enter, Field.ofName?_name, assign_eq]

theorem enter_of_ok (s : Settings) {field : Field} {raw : String} {v : field.Value}
    (h : field.read raw = .ok v) : s.enter (field.name, raw) = .ok (field.put v s) := by
  rw [enter_known, h]
  rfl

theorem enter_of_error (s : Settings) {field : Field} {raw : String} {e : Failure}
    (h : field.read raw = .error e) : s.enter (field.name, raw) = .error e := by
  rw [enter_known, h]
  rfl

/-! ## All entries -/

/-- In `s'` every field has what the entries write to it, and the others are as in `s`. -/
def Settles (entries : List (String × String)) (s s' : Settings) : Prop :=
  ∀ field : Field,
    (∀ raw, (field.name, raw) ∈ entries → field.read raw = .ok (field.get s')) ∧
    (field.name ∉ entries.map Prod.fst → field.get s' = field.get s)

theorem foldlM_enter_of_settles {entries : List (String × String)} (h : Settles entries s s') :
    entries.foldlM enter s = .ok s' := by
  induction entries generalizing s with
  | nil =>
      have hsame : s = s' := ext_get fun field => ((h field).2 List.not_mem_nil).symm
      rw [hsame]
      rfl
  | cons entry rest ih =>
      obtain ⟨name, raw⟩ := entry
      rw [List.foldlM_cons]
      cases hname : Field.ofName? name with
      | none =>
          rw [enter_of_unknown s hname]
          refine ih fun field => ⟨fun raw hmem => (h field).1 raw (List.mem_cons_of_mem _ hmem), ?_⟩
          intro hnot
          refine (h field).2 fun hmem => ?_
          rcases List.mem_cons.mp hmem with heq | hrest
          · obtain rfl : field.name = name := heq
            rw [Field.ofName?_name] at hname
            cases hname
          · exact hnot hrest
      | some field =>
          obtain rfl := Field.name_of_ofName? hname
          have hread := (h field).1 raw List.mem_cons_self
          rw [enter_of_ok s hread]
          refine ih fun other => ⟨fun raw hmem => (h other).1 raw (List.mem_cons_of_mem _ hmem), ?_⟩
          intro hnot
          by_cases hother : other = field
          · subst hother
            exact (Field.get_put_self _ _ s).symm
          · rw [Field.get_put_of_ne hother]
            refine (h other).2 fun hmem => ?_
            rcases List.mem_cons.mp hmem with heq | hrest
            · exact hother (Field.name_injective heq)
            · exact hnot hrest

/-- The first entry that cannot be read stops the run with its failure. -/
theorem foldlM_enter_of_unreadable {entries : List (String × String)} (s : Settings)
    (h : ∃ (field : Field) (raw : String) (e : Failure),
      (field.name, raw) ∈ entries ∧ field.read raw = .error e) :
    ∃ (field : Field) (raw : String) (e : Failure), (field.name, raw) ∈ entries ∧
      field.read raw = .error e ∧ entries.foldlM enter s = .error e := by
  induction entries generalizing s with
  | nil =>
      obtain ⟨field, raw, e, hmem, -⟩ := h
      cases hmem
  | cons entry rest ih =>
      obtain ⟨name, raw⟩ := entry
      rw [List.foldlM_cons]
      -- whatever the entry is, if it does not stop the run, the unreadable one is among the rest
      have hrest : ∀ next, s.enter (name, raw) = .ok next →
          (∀ field : Field, field.name = name → ∀ e, field.read raw ≠ .error e) →
          ∃ (field : Field) (raw' : String) (e : Failure), (field.name, raw') ∈ (name, raw) :: rest ∧
            field.read raw' = .error e ∧
            (s.enter (name, raw) >>= fun next => rest.foldlM enter next) = .error e := by
        intro next hnext hreadable
        obtain ⟨field, raw', e, hmem, hread⟩ := h
        have hlater : (field.name, raw') ∈ rest := by
          rcases List.mem_cons.mp hmem with heq | hlater
          · cases heq
            exact absurd hread (hreadable field rfl e)
          · exact hlater
        obtain ⟨field, raw', e, hmem, hread, hrun⟩ := ih next ⟨field, raw', e, hlater, hread⟩
        refine ⟨field, raw', e, List.mem_cons_of_mem _ hmem, hread, ?_⟩
        rw [hnext]
        exact hrun
      cases hname : Field.ofName? name with
      | none =>
          refine hrest s (enter_of_unknown s hname raw) fun field hfield => ?_
          subst hfield
          rw [Field.ofName?_name] at hname
          cases hname
      | some field =>
          obtain rfl := Field.name_of_ofName? hname
          cases hread : field.read raw with
          | error e =>
              refine ⟨field, raw, e, List.mem_cons_self, hread, ?_⟩
              rw [enter_of_error s hread]
              rfl
          | ok v =>
              refine hrest _ (enter_of_ok s hread) fun other hother e herror => ?_
              obtain rfl := Field.name_injective hother
              rw [hread] at herror
              cases herror

/-- Entries with unknown names are passed over, wherever they stand. -/
theorem foldlM_enter_filter (s : Settings) (entries : List (String × String)) :
    (entries.filter fun entry => (Field.ofName? entry.1).isSome).foldlM enter s =
      entries.foldlM enter s := by
  induction entries generalizing s with
  | nil => rfl
  | cons entry rest ih =>
      obtain ⟨name, raw⟩ := entry
      cases hname : Field.ofName? name with
      | none =>
          rw [List.filter_cons_of_neg (by simp [hname]), List.foldlM_cons, enter_of_unknown s hname]
          exact ih s
      | some field =>
          rw [List.filter_cons_of_pos (by simp [hname]), List.foldlM_cons, List.foldlM_cons]
          exact congrArg _ (funext ih)

/-! ## Maps -/

/-- The map has an entry for the field, and the field cannot be read from it. -/
def Unreadable (map : Keyed String) (field : Field) (e : Failure) : Prop :=
  ∃ raw, map[field.name]? = some raw ∧ field.read raw = .error e

/-- Every field has what its own entry writes, and what is standard if there is no such entry. -/
def Describes (map : Keyed String) (s : Settings) : Prop :=
  ∀ field : Field, match map[field.name]? with
    | some raw => field.read raw = .ok (field.get s)
    | none => field.get s = field.get standard

variable {map : Keyed String}

theorem Describes.unique (h : Describes map s) (h' : Describes map s') : s = s' := by
  refine ext_get fun field => ?_
  have hfield := h field
  have hfield' := h' field
  cases hentry : map[field.name]? with
  | none =>
      rw [hentry] at hfield hfield'
      exact hfield.trans hfield'.symm
  | some raw =>
      rw [hentry] at hfield hfield'
      exact Except.ok.inj (hfield.symm.trans hfield')

/-- A map in which everything can be read describes some settings, in range or not. -/
theorem exists_describes (h : ∀ field e, ¬Unreadable map field e) : ∃ s, Describes map s := by
  have hvalue : ∀ field : Field, ∃ v : field.Value, match map[field.name]? with
      | some raw => field.read raw = .ok v
      | none => v = field.get standard := by
    intro field
    cases hentry : map[field.name]? with
    | none => exact ⟨field.get standard, rfl⟩
    | some raw =>
        cases hread : field.read raw with
        | error e => exact absurd ⟨raw, hentry, hread⟩ (h field e)
        | ok v => exact ⟨v, hread⟩
  choose v hv using hvalue
  refine ⟨ofFields v, fun field => ?_⟩
  rw [get_ofFields]
  exact hv field

theorem Describes.settles (h : Describes map s) {entries : List (String × String)}
    (hlists : Keyed.Lists entries map) : Settles entries standard s := by
  intro field
  have hfield := h field
  constructor
  · intro raw hmem
    rw [hlists.mem_iff.mp hmem] at hfield
    exact hfield
  · intro hnot
    rw [hlists.mem_keys_iff, Std.ExtTreeMap.mem_iff_isSome_getElem?] at hnot
    rw [Option.not_isSome_iff_eq_none.mp hnot] at hfield
    exact hfield

theorem ofEntries_eq (entries : List (String × String)) : ofEntries entries =
    entries.foldlM enter standard >>= fun s => s.validate.map fun _ => s := rfl

theorem ofEntries_of_describes (h : Describes map s) {entries : List (String × String)}
    (hlists : Keyed.Lists entries map) : ofEntries entries = s.validate.map fun _ => s := by
  rw [ofEntries_eq, foldlM_enter_of_settles (h.settles hlists)]
  rfl

theorem ofEntries_of_unreadable {field : Field} {e : Failure} (h : Unreadable map field e)
    (hone : ∀ other e', Unreadable map other e' → other = field) {entries : List (String × String)}
    (hlists : Keyed.Lists entries map) : ofEntries entries = .error e := by
  obtain ⟨raw, hentry, hread⟩ := h
  obtain ⟨other, raw', e', hmem, hread', hrun⟩ :=
    foldlM_enter_of_unreadable standard ⟨field, raw, e, hlists.mem_iff.mpr hentry, hread⟩
  have hentry' := hlists.mem_iff.mp hmem
  obtain rfl := hone other e' ⟨raw', hentry', hread'⟩
  obtain rfl := Option.some.inj (hentry.symm.trans hentry')
  obtain rfl := Except.error.inj (hread.symm.trans hread')
  rw [ofEntries_eq, hrun]
  rfl

/-- The maps agree on every name that a field has. -/
def Agree (map other : Keyed String) : Prop :=
  ∀ field : Field, map[field.name]? = other[field.name]?

theorem Describes.of_agree {other : Keyed String} (h : Describes map s) (hagree : Agree map other) :
    Describes other s := by
  intro field
  rw [← hagree field]
  exact h field

theorem Agree.unreadable_iff {other : Keyed String} (hagree : Agree map other) {field : Field}
    {e : Failure} : Unreadable other field e ↔ Unreadable map field e := by
  rw [Unreadable, Unreadable, hagree field]

theorem Unreadable.unique {field : Field} {e e' : Failure} (h : Unreadable map field e)
    (h' : Unreadable map field e') : e = e' := by
  obtain ⟨raw, hentry, hread⟩ := h
  obtain ⟨raw', hentry', hread'⟩ := h'
  obtain rfl := Option.some.inj (hentry.symm.trans hentry')
  exact Except.error.inj (hread.symm.trans hread')

theorem fault?_of_ofEntries {entries : List (String × String)} (h : ofEntries entries = .ok s) :
    s.fault? = none := by
  rw [ofEntries_eq] at h
  obtain ⟨taken, -, hcheck⟩ := ok_of_bind h
  cases hvalid : taken.validate with
  | error e =>
      rw [hvalid] at hcheck
      cases hcheck
  | ok _ =>
      rw [hvalid] at hcheck
      obtain rfl := Except.ok.inj hcheck
      exact validate_eq_ok_iff.mp hvalid

/-! ## Settings written down -/

/-- A way to write the values that fields have. Spans are not written. -/
structure Rendering where
  strategy : Strategy → String
  count : UInt64 → String
  number : Float → String
  flag : Bool → String

namespace Rendering

variable (r : Rendering) (s : Settings)

/-- The text of a field, if it is written at all. -/
def text? : Field → Option String
  | .strategy => some (r.strategy s.strategy)
  | .maxIterations => some (r.count s.maxIterations)
  | .temperature => some (r.number s.temperature)
  | .cooling => some (r.number s.cooling)
  | .floor => some (r.number s.floor)
  | .mutationRate => some (r.number s.mutationRate)
  | .tournamentSize => some (r.count s.tournamentSize)
  | .maxPopulation => some (r.count s.maxPopulation)
  | .seed => s.seed.map r.count
  | .timeout => none
  | .gpu => some (r.flag s.gpu)

/-- The map of the fields that are written. -/
def written : Keyed String :=
  .ofList (Field.all.filterMap fun field => (r.text? s field).map fun text => (field.name, text)) compare

/-- The parsers of the values read back what is written of these settings. -/
structure ReadsBack : Prop where
  strategy : Strategy.read (r.strategy s.strategy) = .ok s.strategy
  count : ∀ n, n = s.maxIterations ∨ n = s.tournamentSize ∨ n = s.maxPopulation ∨ s.seed = some n →
    Text.readUInt64 (r.count n) = .ok n
  number : ∀ x, x = s.temperature ∨ x = s.cooling ∨ x = s.floor ∨ x = s.mutationRate →
    Decimal.read (r.number x) = .ok x
  flag : Text.readBool? (r.flag s.gpu) = some s.gpu

theorem getElem?_written (field : Field) : (r.written s)[field.name]? = r.text? s field := by
  have hdistinct : (Field.all.filterMap fun field => (r.text? s field).map fun text =>
      (field.name, text)).Pairwise fun a b => ¬compare a.1 b.1 = .eq := by
    have hall : Field.all.Pairwise (· ≠ ·) := by decide
    rw [List.pairwise_filterMap]
    refine hall.imp ?_
    rintro a b hne ⟨_, _⟩ ha ⟨_, _⟩ hb heq
    obtain ⟨_, -, ha⟩ := Option.map_eq_some_iff.mp ha
    obtain ⟨_, -, hb⟩ := Option.map_eq_some_iff.mp hb
    cases ha
    cases hb
    exact hne (Field.name_injective (Std.LawfulEqCmp.eq_of_compare heq))
  cases htext : r.text? s field with
  | some text =>
      refine Std.ExtTreeMap.getElem?_ofList_of_mem Std.ReflCmp.compare_self hdistinct ?_
      refine List.mem_filterMap.mpr ⟨field, by cases field <;> decide, ?_⟩
      rw [htext]
      rfl
  | none =>
      refine Std.ExtTreeMap.getElem?_ofList_of_contains_eq_false ?_
      rw [← Bool.not_eq_true, List.contains_iff_mem]
      intro hmem
      obtain ⟨⟨_, text⟩, hentry, hname⟩ := List.mem_map.mp hmem
      obtain ⟨other, -, hother⟩ := List.mem_filterMap.mp hentry
      obtain ⟨text', htext', hpair⟩ := Option.map_eq_some_iff.mp hother
      cases hpair
      obtain rfl := Field.name_injective hname
      rw [htext] at htext'
      cases htext'

variable {r : Rendering} {s : Settings}

theorem whole_of_readUInt64 (field : Field) {raw : String} {n : UInt64}
    (h : Text.readUInt64 raw = .ok n) : field.whole raw = .ok n := by
  rw [Field.whole, Field.parsed_eq_ok_iff, Text.trim_of_unbroken (Text.isWord_of_readUInt64 h).2, h]

theorem number_of_read (field : Field) {raw : String} {x : Float}
    (h : Decimal.read raw = .ok x) : field.number raw = .ok x := by
  rw [Field.number_eq_ok_iff, Text.trim_of_unbroken (Decimal.isWord_of_read h).2, h]

theorem read_gpu_of_readBool? {raw : String} {b : Bool} (h : Text.readBool? raw = some b) :
    Field.gpu.read raw = .ok b := by
  rw [Text.readBool?] at h
  split at h
  · next htrue =>
    subst htrue
    cases h
    rfl
  · split at h
    · next hfalse =>
      subst hfalse
      cases h
      rfl
    · cases h

/-- What is written and read back describes the settings that were written, except for their timeout. -/
theorem describes_written (h : r.ReadsBack s) (htimeout : s.timeout = none) :
    Describes (r.written s) s := by
  intro field
  rw [getElem?_written]
  cases field with
  | strategy => exact (readStrategy_eq _).symm.trans h.strategy
  | maxIterations => exact whole_of_readUInt64 _ (h.count _ (by simp))
  | temperature => exact number_of_read _ (h.number _ (by simp))
  | cooling => exact number_of_read _ (h.number _ (by simp))
  | floor => exact number_of_read _ (h.number _ (by simp))
  | mutationRate => exact number_of_read _ (h.number _ (by simp))
  | tournamentSize => exact whole_of_readUInt64 _ (h.count _ (by simp))
  | maxPopulation => exact whole_of_readUInt64 _ (h.count _ (by simp))
  | seed =>
      cases hseed : s.seed with
      | none =>
          rw [text?, hseed]
          exact hseed
      | some n =>
          rw [text?, hseed]
          show (Field.seed.whole (r.count n)).map some = .ok s.seed
          rw [whole_of_readUInt64 _ (h.count n (by simp [hseed])), hseed]
          rfl
  | timeout => exact htimeout
  | gpu => exact read_gpu_of_readBool? h.flag

end Rendering

/-! ## The answer to a map -/

/-- No two fields have entries that cannot be read. -/
def Legible (map : Keyed String) : Prop :=
  ∀ field other e e', Unreadable map field e → Unreadable map other e' → field = other

/-- A map of which no two entries are unreadable has one answer, which neither the order of its entries
nor entries with other names change: the failure of the unreadable entry if there is one, and otherwise
the settings that the map describes or, if these are out of range, their fault. The second part says of
any list of entries, whatever they are, that other names are passed over. Settings that are answered are
accepted by the solver, and settings in range without a timeout are what is read from their own map. -/
theorem ofEntries_order_free :
    (∀ map, Legible map → ∃ answer,
      (∀ other entries, Agree map other → Keyed.Lists entries other → ofEntries entries = answer) ∧
      (∀ field e, Unreadable map field e → answer = .error e) ∧
      ((∀ field e, ¬Unreadable map field e) →
        ∃ s, (∀ s', Describes map s' ↔ s' = s) ∧ answer = s.validate.map fun _ => s)) ∧
    (∀ entries, ofEntries (entries.filter fun entry => (Field.ofName? entry.1).isSome) =
      ofEntries entries) ∧
    (∀ entries s, ofEntries entries = .ok s → ∀ {σ : Type} (clock : Clock) (source : σ),
      ∃ solver, AssignmentSolver.ofSettings s clock source = .ok solver ∧ solver.settings = s) ∧
    (∀ (r : Rendering) s, r.ReadsBack s → s.validate = .ok () → s.timeout = none →
      ∀ entries, Keyed.Lists entries (r.written s) → ofEntries entries = .ok s) := by
  refine ⟨?_, ?_, ?_, ?_⟩
  · intro map hlegible
    by_cases hsome : ∃ field e, Unreadable map field e
    · obtain ⟨field, e, hfield⟩ := hsome
      refine ⟨.error e, ?_, ?_, ?_⟩
      · intro other entries hagree hlists
        refine ofEntries_of_unreadable (hagree.unreadable_iff.mpr hfield) ?_ hlists
        intro field' e' h'
        exact hlegible field' field e' e (hagree.unreadable_iff.mp h') hfield
      · intro field' e' h'
        obtain rfl := hlegible field field' e e' hfield h'
        rw [hfield.unique h']
      · intro hnone
        exact absurd hfield (hnone field e)
    · have hall : ∀ field e, ¬Unreadable map field e := fun field e h => hsome ⟨field, e, h⟩
      obtain ⟨s, hs⟩ := exists_describes hall
      refine ⟨s.validate.map fun _ => s, ?_, ?_, ?_⟩
      · intro other entries hagree hlists
        exact ofEntries_of_describes (hs.of_agree hagree) hlists
      · intro field e h
        exact absurd h (hall field e)
      · intro _
        refine ⟨s, fun s' => ⟨fun hs' => hs'.unique hs, ?_⟩, rfl⟩
        rintro rfl
        exact hs
  · intro entries
    rw [ofEntries_eq, ofEntries_eq, foldlM_enter_filter]
  · intro entries s h σ clock source
    exact ⟨_, AssignmentSolver.ofSettings_eq (fault?_of_ofEntries h) clock source, rfl⟩
  · intro r s hback hvalid htimeout entries hlists
    rw [ofEntries_of_describes (Rendering.describes_written hback htimeout) hlists, hvalid]
    rfl

/-- One entry that cannot be read, one out of range, and one that is not for these settings. -/
def mixed : Keyed String :=
  .ofList [("seed", "seven"), ("tournament_size", " 0 "), ("verbose", "yes")] compare

/-- Values written out in full. -/
def plain : Rendering where
  strategy := Strategy.name
  count n := toString n
  number := Decimal.text
  flag b := if b then "true" else "false"

/-- The standard settings with another search and a seed. -/
def seeded : Settings := { standard with strategy := .genetic, seed := some 7 }

theorem readsBack_plain_seeded : plain.ReadsBack seeded where
  strategy := by decide +kernel
  count := by
    rintro n (rfl | rfl | rfl | hseed)
    · decide +kernel
    · decide +kernel
    · decide +kernel
    · cases hseed
      decide +kernel
  number := by rintro x (rfl | rfl | rfl | rfl) <;> decide +kernel
  flag := by decide +kernel

/-- The answer to the first map is the failure of the unreadable entry, wherever that comes up. The second
map is read back, and what is read is accepted by the solver. -/
theorem ofEntries_order_free_mixed :
    Legible mixed ∧ (∀ entries, Keyed.Lists entries mixed →
      ofEntries entries = .error (unreadable "seed" "invalid digit found in string")) ∧
    plain.ReadsBack seeded ∧ seeded.validate = .ok () ∧ seeded.timeout = none ∧
    (∀ entries, Keyed.Lists entries (plain.written seeded) → ofEntries entries = .ok seeded) ∧
    ∃ solver, AssignmentSolver.ofSettings seeded .still (0 : Nat) = .ok solver ∧
      solver.settings = seeded := by
  have hothers : ∀ field : Field, field ≠ .seed → field ≠ .tournamentSize →
      mixed[field.name]? = none := by
    intro field hseed hsize
    cases field <;> first | exact absurd rfl hseed | exact absurd rfl hsize | decide +kernel
  have honly : ∀ field e, Unreadable mixed field e → field = .seed := by
    rintro field e ⟨raw, hentry, hread⟩
    by_contra hne
    by_cases hsize : field = .tournamentSize
    · subst hsize
      have hzero : mixed[Field.tournamentSize.name]? = some " 0 " := by decide +kernel
      cases hzero.symm.trans hentry
      cases hread
    · cases (hothers field hne hsize).symm.trans hentry
  have hlegible : Legible mixed := by
    intro field other e e' h h'
    rw [honly field e h, honly other e' h']
  have hseed : Unreadable mixed .seed (unreadable "seed" "invalid digit found in string") :=
    ⟨"seven", by decide +kernel, rfl⟩
  obtain ⟨hanswers, -, haccepted, hroundtrip⟩ := ofEntries_order_free
  obtain ⟨answer, hanswer, herror, -⟩ := hanswers mixed hlegible
  have hread : ∀ entries, Keyed.Lists entries (plain.written seeded) → ofEntries entries = .ok seeded :=
    hroundtrip plain seeded readsBack_plain_seeded rfl rfl
  refine ⟨hlegible, fun entries hlists => ?_, readsBack_plain_seeded, rfl, rfl, hread, ?_⟩
  · rw [hanswer mixed entries (fun _ => rfl) hlists, herror _ _ hseed]
  · exact haccepted (plain.written seeded).toList seeded (hread _ (List.Perm.refl _)) _ _

end Settings

end Placement
