import Placement.Proofs.SpacedWords
import Placement.Settings.Reader

/-!
# What a text writes to a field

Which value a text stands for is said here field by field, without the readers of the library. Blanks
at the ends of the text do not count. The rest is a word for a strategy, a whole number, a decimal
number or a truth value, as the type of the field has it, and of a timeout also the span must exist.
`Field.read` says what the answer is, its complaint included, and `Field.Writes` which texts have a
value at all (`Field.read_eq_ok_iff`). The readers of the library give these answers, to which the last
section ties them one by one.
-/

namespace Placement

/-- The text with `A` to `Z` in lower case. -/
def lowered (text : String) : String := String.ofList (text.toList.map Char.toLower)

/-- The words for a strategy. -/
def Strategy.words : Strategy → List String
  | annealing => ["simulated_annealing", "sa"]
  | genetic => ["genetic", "ga"]

/-- No word stands for both strategies. -/
theorem Strategy.eq_of_mem_words {strategy other : Strategy} {word : String}
    (h : word ∈ strategy.words) (h' : word ∈ other.words) : strategy = other := by
  have hdisjoint : ∀ word ∈ Strategy.annealing.words, word ∉ Strategy.genetic.words := by decide
  cases strategy <;> cases other
  · rfl
  · exact absurd h' (hdisjoint word h)
  · exact absurd h (hdisjoint word h')
  · rfl

namespace Settings

namespace Field

variable {ε α : Type}

/-- The type of what stands in a field. -/
def Value : Field → Type
  | strategy => Strategy
  | maxIterations | tournamentSize | maxPopulation => UInt64
  | temperature | cooling | floor | mutationRate => Float
  | seed => Option UInt64
  | timeout => Option Span
  | gpu => Bool

/-- What a parser makes of a text without the blanks at its ends. The complaint names the field. -/
def parsed (field : Field) (parse : String → Except ε α) (message : ε → String) (raw : String) :
    Except Failure α :=
  match parse (Text.trim raw) with
  | .ok v => .ok v
  | .error e => .error (.configuration ("invalid value for " ++ field.name ++ ": " ++ message e))

/-- A whole number below `2 ^ 64`. -/
def whole (field : Field) : String → Except Failure UInt64 :=
  field.parsed Text.readUInt64 Text.NumeralError.message

/-- A decimal number, or one of the words for infinity and for what is not a number. -/
def number (field : Field) : String → Except Failure Float :=
  field.parsed Decimal.read Decimal.ReadError.message

/-- The budget of so many seconds. -/
def budget (seconds : Float) : Except Failure (Option Span) :=
  match Span.ofSeconds seconds with
  | .ok span => .ok (some span)
  | .error e => .error (.configuration ("invalid timeout_secs: " ++ e.message))

/-- What a text writes to a field. -/
def read : (field : Field) → String → Except Failure field.Value
  | strategy, raw =>
    let word := lowered (Text.trim raw)
    if word ∈ Strategy.annealing.words then .ok .annealing
    else if word ∈ Strategy.genetic.words then .ok .genetic
    else .error (.configuration ("unknown algorithm '" ++ word ++
      "', expected 'simulated_annealing' or 'genetic'"))
  | maxIterations, raw => maxIterations.whole raw
  | temperature, raw => temperature.number raw
  | cooling, raw => cooling.number raw
  | floor, raw => floor.number raw
  | mutationRate, raw => mutationRate.number raw
  | tournamentSize, raw => tournamentSize.whole raw
  | maxPopulation, raw => maxPopulation.whole raw
  | seed, raw => (seed.whole raw).map some
  | timeout, raw => (timeout.number raw).bind budget
  | gpu, raw =>
    if Text.trim raw = "true" then .ok true
    else if Text.trim raw = "false" then .ok false
    else .error (.configuration ("invalid value for enable_gpu: " ++ Text.truthMessage))

/-- The text, which has no blanks at its ends, writes the value to the field. -/
def Writes : (field : Field) → String → field.Value → Prop
  | strategy, text, value => lowered text ∈ Strategy.words value
  | maxIterations, text, n | tournamentSize, text, n | maxPopulation, text, n =>
    Text.WritesWhole text (UInt64.toNat n)
  | temperature, text, x | cooling, text, x | floor, text, x | mutationRate, text, x =>
    Decimal.read text = .ok x
  | seed, text, value => ∃ n : UInt64, value = some n ∧ Text.WritesWhole text n.toNat
  | timeout, text, value => ∃ seconds span, value = some span ∧ Decimal.read text = .ok seconds ∧
      Span.ofSeconds seconds = .ok span
  | gpu, text, value => text = "true" ∧ value = true ∨ text = "false" ∧ value = false

theorem parsed_eq_ok_iff {field : Field} {parse : String → Except ε α} {message : ε → String}
    {raw : String} {v : α} :
    field.parsed parse message raw = .ok v ↔ parse (Text.trim raw) = .ok v := by
  rw [parsed]
  cases parse (Text.trim raw) <;> simp

theorem whole_eq_ok_iff {field : Field} {raw : String} {n : UInt64} :
    field.whole raw = .ok n ↔ Text.WritesWhole (Text.trim raw) n.toNat := by
  rw [whole, parsed_eq_ok_iff, Text.readUInt64_eq_ok_iff]

theorem number_eq_ok_iff {field : Field} {raw : String} {x : Float} :
    field.number raw = .ok x ↔ Decimal.read (Text.trim raw) = .ok x := by
  rw [number, parsed_eq_ok_iff]

theorem read_strategy_eq_ok_iff {raw : String} {value : Strategy} :
    read strategy raw = .ok value ↔ lowered (Text.trim raw) ∈ value.words := by
  have hunique (other : Strategy) (h : lowered (Text.trim raw) ∈ other.words) :
      (Except.ok other : Except Failure Strategy) = .ok value ↔
        lowered (Text.trim raw) ∈ value.words := by
    rw [Except.ok.injEq]
    exact ⟨fun heq => heq ▸ h, Strategy.eq_of_mem_words h⟩
  simp only [read]
  split
  · next h => exact hunique .annealing h
  · next hannealing =>
    split
    · next h => exact hunique .genetic h
    · next hgenetic =>
      refine ⟨nofun, fun h => ?_⟩
      cases value with
      | annealing => exact absurd h hannealing
      | genetic => exact absurd h hgenetic

theorem budget_eq_ok_iff {seconds : Float} {value : Option Span} :
    budget seconds = .ok value ↔ ∃ span, value = some span ∧ Span.ofSeconds seconds = .ok span := by
  rw [budget]
  cases Span.ofSeconds seconds with
  | error e => simp
  | ok span => simp [eq_comm]

theorem read_timeout_eq_ok_iff {raw : String} {value : Option Span} :
    read timeout raw = .ok value ↔ ∃ seconds span, value = some span ∧
      Decimal.read (Text.trim raw) = .ok seconds ∧ Span.ofSeconds seconds = .ok span := by
  have hnumber (x : Float) : timeout.number raw = .ok x ↔ Decimal.read (Text.trim raw) = .ok x :=
    number_eq_ok_iff
  rw [read]
  constructor
  · intro h
    cases hread : timeout.number raw with
    | error e =>
        rw [hread] at h
        cases h
    | ok seconds =>
        rw [hread] at h
        obtain ⟨span, hvalue, hspan⟩ := budget_eq_ok_iff.mp h
        exact ⟨seconds, span, hvalue, (hnumber seconds).mp hread, hspan⟩
  · rintro ⟨seconds, span, hvalue, hread, hspan⟩
    rw [(hnumber seconds).mpr hread]
    exact budget_eq_ok_iff.mpr ⟨span, hvalue, hspan⟩

theorem read_seed_eq_ok_iff {raw : String} {value : Option UInt64} :
    read seed raw = .ok value ↔
      ∃ n, value = some n ∧ Text.WritesWhole (Text.trim raw) (UInt64.toNat n) := by
  have hwhole (n : UInt64) : seed.whole raw = .ok n ↔ Text.WritesWhole (Text.trim raw) n.toNat :=
    whole_eq_ok_iff
  simp only [read, ← hwhole]
  cases seed.whole raw with
  | error e => simp [Except.map]
  | ok n =>
      constructor
      · rintro ⟨⟩
        exact ⟨n, rfl, rfl⟩
      · rintro ⟨_, rfl, ⟨⟩⟩
        rfl

theorem read_gpu_eq_ok_iff {raw : String} {value : Bool} :
    read gpu raw = .ok value ↔
      Text.trim raw = "true" ∧ value = true ∨ Text.trim raw = "false" ∧ value = false := by
  rw [read]
  by_cases htrue : Text.trim raw = "true"
  · have hfalse : Text.trim raw ≠ "false" := by
      rw [htrue]
      decide
    rw [if_pos htrue]
    constructor
    · rintro ⟨⟩
      exact .inl ⟨htrue, rfl⟩
    · rintro (⟨-, rfl⟩ | ⟨h, -⟩)
      · rfl
      · exact absurd h hfalse
  · rw [if_neg htrue]
    split
    · next hfalse =>
      constructor
      · rintro ⟨⟩
        exact .inr ⟨hfalse, rfl⟩
      · rintro (⟨h, -⟩ | ⟨-, rfl⟩)
        · exact absurd h htrue
        · rfl
    · next hfalse =>
      refine ⟨nofun, ?_⟩
      rintro (⟨h, -⟩ | ⟨h, -⟩)
      · exact absurd h htrue
      · exact absurd h hfalse

/-- A text has a value for a field if what stands between the blanks at its ends writes it, and then it
is this one. -/
theorem read_eq_ok_iff (field : Field) (raw : String) (value : field.Value) :
    field.read raw = .ok value ↔ ∃ text, Text.Trims raw text ∧ field.Writes text value := by
  have htrim : (∃ text, Text.Trims raw text ∧ field.Writes text value) ↔
      field.Writes (Text.trim raw) value := by
    constructor
    · rintro ⟨text, htrims, hwrites⟩
      exact (Text.trim_eq_iff.mpr htrims).symm ▸ hwrites
    · exact fun h => ⟨_, Text.trims_trim raw, h⟩
  rw [htrim]
  cases field with
  | strategy => exact read_strategy_eq_ok_iff
  | maxIterations | tournamentSize | maxPopulation => exact whole_eq_ok_iff
  | temperature | cooling | floor | mutationRate => exact number_eq_ok_iff
  | seed => exact read_seed_eq_ok_iff
  | timeout => exact read_timeout_eq_ok_iff
  | gpu => exact read_gpu_eq_ok_iff

end Field

/-! ## The readers -/

theorem readCount_eq (field : Field) (raw : String) : readCount field.name raw = field.whole raw := by
  rw [readCount, Field.whole, Field.parsed]
  cases Text.readUInt64 (Text.trim raw) <;> rfl

theorem readNumber_eq (field : Field) (raw : String) :
    readNumber field.name raw = field.number raw := by
  rw [readNumber, Field.number, Field.parsed]
  cases Decimal.read (Text.trim raw) <;> rfl

theorem readSpan_eq (raw : String) :
    (readSpan Field.timeout.name raw).map some = Field.timeout.read raw := by
  rw [readSpan, readNumber_eq, Field.read]
  cases Field.timeout.number raw with
  | error e => rfl
  | ok seconds =>
      simp only [bind, Except.bind, Field.budget]
      cases Span.ofSeconds seconds <;> rfl

theorem readFlag_eq (raw : String) : readFlag Field.gpu.name raw = Field.gpu.read raw := by
  rw [readFlag, Text.readBool?, Field.read]
  split_ifs <;> rfl

theorem readStrategy_eq (raw : String) : Strategy.read raw = Field.strategy.read raw := by
  have hword : String.ofList ((Text.trimChars raw.toList).map Char.toLower) =
      lowered (Text.trim raw) := by
    rw [lowered, Text.trim, String.toList_ofList]
  rw [Strategy.read, Field.read, hword]
  simp only [Strategy.words, List.mem_cons, List.not_mem_nil, or_false, Bool.or_eq_true,
    decide_eq_true_eq]
  rfl

end Settings

end Placement
