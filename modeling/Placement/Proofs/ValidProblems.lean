import Placement.Assignment.Solver
import Placement.Proofs.ParameterGates

/-!
# What the check of a problem asks for

The check looks for one defect after another and stops at the first. Read from the other end, it asks
for certain data, and accepts exactly the problems that have them (`Complete`): what they are depends on
the kind of the problem, and other data than those do not matter. Each test is read back on its own, for
a matrix, for a pair and for a problem, and a chain of tests finds nothing if none of them does.

An assignment problem is checked at three gates, as a problem, by the solver, and where its instance is
made. All of them come down to the same test of a pair of matrices, which is why they agree.
-/

namespace Placement

/-! ## Matrices -/

namespace Matrix

/-- A square of this side, all of whose entries are finite. -/
structure IsGrid (m : Matrix Float) (side : Nat) : Prop where
  dim_eq : m.dim = (side, side)
  finite : ∀ x ∈ m.values, x.isFinite = true

theorem IsGrid.rows_eq {m : Matrix Float} {side : Nat} (h : m.IsGrid side) : m.rows = side :=
  congrArg Prod.fst h.dim_eq

theorem IsGrid.cols_eq {m : Matrix Float} {side : Nat} (h : m.IsGrid side) : m.cols = side :=
  congrArg Prod.snd h.dim_eq

/-- Every entry is an amount that can be asked for or given. -/
def HoldsAmounts (m : Matrix Float) : Prop :=
  ∀ x ∈ m.values, x.isFinite = true ∧ 0 ≤ x

theorem isFinite_iff {m : Matrix Float} :
    m.isFinite = true ↔ ∀ x ∈ m.values, x.isFinite = true := by
  rw [isFinite, Array.all_eq_true_iff_forall_mem]

theorem isAmounts_iff {m : Matrix Float} : m.isAmounts = true ↔ m.HoldsAmounts := by
  rw [isAmounts, Array.all_eq_true_iff_forall_mem]
  simp only [Bool.and_eq_true, decide_eq_true_eq, HoldsAmounts]

theorem isEmpty_eq_false_iff {α : Type} {m : Matrix α} :
    m.isEmpty = false ↔ 0 < m.values.size := by
  rw [isEmpty, Array.isEmpty_eq_false_iff, Array.size_pos_iff]

/-- A square has entries if it has a row. -/
theorem size_pos_iff {α : Type} {m : Matrix α} {side : Nat} (h : m.dim = (side, side)) :
    0 < m.values.size ↔ 1 ≤ side := by
  rw [size_of_dim h, Nat.pos_iff_ne_zero, ne_eq, Nat.mul_eq_zero, or_self, Nat.one_le_iff_ne_zero]

theorem isSquare_iff {α : Type} {m : Matrix α} : m.isSquare = true ↔ m.dim = (m.rows, m.rows) := by
  rw [isSquare, beq_iff_eq, dim, Prod.mk.injEq, eq_self, true_and, eq_comm]

theorem squareDefect?_eq_none_iff {key : String} {m : Matrix Float} :
    m.squareDefect? key = none ↔ ∃ side, 1 ≤ side ∧ m.IsGrid side := by
  simp only [squareDefect?, ite_some_eq_none, Bool.or_eq_true, Bool.not_eq_true', not_or,
    Bool.not_eq_false, Bool.not_eq_true, isFinite_iff, isSquare_iff, and_true]
  constructor
  · rintro ⟨⟨hdim, hfull⟩, hfinite⟩
    exact ⟨m.rows, (size_pos_iff hdim).mp (isEmpty_eq_false_iff.mp hfull), hdim, hfinite⟩
  · rintro ⟨side, hside, hgrid⟩
    obtain rfl := hgrid.rows_eq
    have hdim := hgrid.dim_eq
    exact ⟨⟨hdim, isEmpty_eq_false_iff.mpr ((size_pos_iff hdim).mpr hside)⟩, hgrid.finite⟩

theorem contentDefect?_eq_none_iff {key : String} {m : Matrix Float} :
    m.contentDefect? key = none ↔ 0 < m.values.size ∧ ∀ x ∈ m.values, x.isFinite = true := by
  simp only [contentDefect?, ite_some_eq_none, Bool.not_eq_true', Bool.not_eq_false,
    Bool.not_eq_true, isFinite_iff, isEmpty_eq_false_iff, and_true]

end Matrix

/-- Two squares of the same side have no defect as a pair but that an entry is not finite. -/
theorem pairDefect?_of_dim {distance flow : Matrix Float} {n : Nat} (hn : 0 < n)
    (hd : distance.dim = (n, n)) (hf : flow.dim = (n, n)) :
    pairDefect? distance flow =
      if distance.isFinite && flow.isFinite then none else some .notFinite := by
  have hfull : distance.isEmpty = false :=
    Matrix.isEmpty_eq_false_iff.mpr ((Matrix.size_pos_iff hd).mpr hn)
  simp only [Matrix.dim, Prod.mk.injEq] at hd hf
  unfold pairDefect?
  simp only [Matrix.isSquare, hd.1, hd.2, hf.1, hf.2, hfull, beq_self_eq_true, Bool.not_true,
    ne_eq, not_true_eq_false, if_false, Bool.false_eq_true]
  cases distance.isFinite <;> cases flow.isFinite <;> rfl

theorem pairDefect?_eq_none_iff {distance flow : Matrix Float} :
    pairDefect? distance flow = none ↔
      ∃ side, 1 ≤ side ∧ distance.IsGrid side ∧ flow.IsGrid side := by
  constructor
  · intro h
    obtain ⟨hd, hf⟩ := Instance.dims_of_pairDefect? h
    simp only [pairDefect?, ite_some_eq_none, Bool.or_eq_true, Bool.not_eq_true', not_or,
      Bool.not_eq_false, Bool.not_eq_true, Matrix.isFinite_iff, Matrix.isEmpty_eq_false_iff] at h
    obtain ⟨-, -, -, hfull, ⟨hdistance, hflow⟩, -⟩ := h
    exact ⟨distance.rows, (Matrix.size_pos_iff hd).mp hfull, ⟨hd, hdistance⟩, hf, hflow⟩
  · rintro ⟨side, hside, hd, hf⟩
    rw [pairDefect?_of_dim hside hd.dim_eq hf.dim_eq, Matrix.isFinite_iff.mpr hd.finite,
      Matrix.isFinite_iff.mpr hf.finite]
    rfl

/-! ## Problems -/

namespace Problem

/-- The problem has the data that its kind asks for, in the right shape and with usable numbers. -/
def Complete (p : Problem) : Prop :=
  match p.kind with
  | .assignment => ∃ distance flow, p.get? DataKey.distance = some distance ∧
      p.get? DataKey.flow = some flow ∧
      ∃ side, 1 ≤ side ∧ distance.IsGrid side ∧ flow.IsGrid side
  | .routing => ∃ distance, p.get? DataKey.distance = some distance ∧
      ∃ side, 1 ≤ side ∧ distance.IsGrid side
  | .topology => ∃ adjacency, p.get? DataKey.adjacency = some adjacency ∧
      ∃ side, 1 ≤ side ∧ adjacency.IsGrid side
  | .allocation => ∃ demand, p.get? DataKey.demand = some demand ∧
      0 < demand.values.size ∧ demand.HoldsAmounts ∧
      ∀ capacity, p.get? DataKey.capacity = some capacity → capacity.HoldsAmounts
  | .adversarial | .multiObjective => (∃ key m, p.get? key = some m) ∧
      ∀ key m, p.get? key = some m → 0 < m.values.size ∧ ∀ x ∈ m.values, x.isFinite = true

variable {p : Problem}

theorem squareDefect?_eq_none_iff {key : String} : p.squareDefect? key = none ↔
    ∃ m, p.get? key = some m ∧ ∃ side, 1 ≤ side ∧ m.IsGrid side := by
  unfold squareDefect?
  cases p.get? key with
  | none => simp
  | some m => simp [Matrix.squareDefect?_eq_none_iff]

theorem assignmentDefect?_eq_none_iff : p.assignmentDefect? = none ↔
    ∃ distance flow, p.get? DataKey.distance = some distance ∧ p.get? DataKey.flow = some flow ∧
      ∃ side, 1 ≤ side ∧ distance.IsGrid side ∧ flow.IsGrid side := by
  unfold assignmentDefect?
  cases p.get? DataKey.distance with
  | none => simp
  | some distance =>
      cases p.get? DataKey.flow with
      | none => simp
      | some flow => simp [pairDefect?_eq_none_iff]

theorem allocationDefect?_eq_none_iff : p.allocationDefect? = none ↔
    ∃ demand, p.get? DataKey.demand = some demand ∧ 0 < demand.values.size ∧
      demand.HoldsAmounts ∧
      ∀ capacity, p.get? DataKey.capacity = some capacity → capacity.HoldsAmounts := by
  unfold allocationDefect?
  cases p.get? DataKey.demand with
  | none => simp
  | some demand =>
      simp only [ite_some_eq_none, Bool.not_eq_true, Bool.not_eq_true', Bool.not_eq_false,
        Matrix.isEmpty_eq_false_iff, Matrix.isAmounts_iff, Option.some.injEq, exists_eq_left']
      cases p.get? DataKey.capacity with
      | none => simp
      | some capacity => simp [Matrix.isAmounts_iff]

theorem anyDataDefect?_eq_none_iff : p.anyDataDefect? = none ↔
    (∃ key m, p.get? key = some m) ∧
      ∀ key m, p.get? key = some m → 0 < m.values.size ∧ ∀ x ∈ m.values, x.isFinite = true := by
  have hdata : ¬p.data.isEmpty = true ↔ ∃ (key : String) (m : Matrix Float), p.data[key]? = some m := by
    simp only [Std.ExtTreeMap.isEmpty_iff, Std.ExtTreeMap.eq_empty_iff_forall_not_mem,
      Std.ExtTreeMap.mem_iff_isSome_getElem?, Option.isSome_iff_exists, not_forall, not_not]
  simp only [anyDataDefect?, ite_some_eq_none, hdata, List.findSome?_eq_none_iff, Prod.forall,
    Std.ExtTreeMap.mem_toList_iff_getElem?_eq_some, Matrix.contentDefect?_eq_none_iff, get?]

/-- The check finds nothing exactly in a complete problem. -/
theorem validate_valid_iff_complete (p : Problem) : p.validate.valid = true ↔ p.Complete := by
  rw [validate_valid_iff, defect?, Complete]
  cases p.kind with
  | assignment => exact assignmentDefect?_eq_none_iff
  | routing => exact squareDefect?_eq_none_iff
  | allocation => exact allocationDefect?_eq_none_iff
  | topology => exact squareDefect?_eq_none_iff
  | adversarial => exact anyDataDefect?_eq_none_iff
  | multiObjective => exact anyDataDefect?_eq_none_iff

/-! What is missing is reported before anything is said of what is there. -/

theorem squareDefect?_eq_missing_iff {key key' : String} :
    p.squareDefect? key = some (.missing p.kind key') ↔ p.get? key = none ∧ key = key' := by
  unfold squareDefect?
  cases p.get? key with
  | none => simp
  | some m =>
      simp only [Matrix.squareDefect?]
      split
      · simp
      · split <;> simp

theorem allocationDefect?_eq_missing_iff {key : String} :
    p.allocationDefect? = some (.missing p.kind key) ↔
      p.get? DataKey.demand = none ∧ DataKey.demand = key := by
  unfold allocationDefect?
  cases p.get? DataKey.demand with
  | none => simp
  | some demand =>
      simp only [reduceCtorEq, false_and, iff_false]
      repeat' split
      all_goals simp

theorem assignmentDefect?_eq_missing_iff {key : String} :
    p.assignmentDefect? = some (.missing p.kind key) ↔
      [DataKey.distance, DataKey.flow].find? (fun key => (p.get? key).isNone) = some key := by
  unfold assignmentDefect?
  cases hd : p.get? DataKey.distance with
  | none => simp [hd]
  | some distance => cases hf : p.get? DataKey.flow <;> simp [hd, hf]

theorem anyDataDefect?_ne_missing (p : Problem) (key : String) :
    p.anyDataDefect? ≠ some (.missing p.kind key) := by
  intro h
  unfold anyDataDefect? at h
  split at h
  · cases h
  · obtain ⟨entry, -, hentry⟩ := List.exists_of_findSome?_eq_some h
    simp only [Matrix.contentDefect?] at hentry
    split at hentry
    · simp at hentry
    · split at hentry <;> simp at hentry

/-- Of the required keys without data the first is reported, and then nothing else. -/
theorem defect?_eq_missing_iff (p : Problem) (key : String) :
    p.defect? = some (.missing p.kind key) ↔
      p.kind.requiredKeys.find? (fun key => (p.get? key).isNone) = some key := by
  have hone : ∀ required, [required].find? (fun key => (p.get? key).isNone) = some key ↔
      p.get? required = none ∧ required = key := by
    intro required
    cases h : p.get? required <;> simp [h]
  have hnone : p.anyDataDefect? = some (.missing p.kind key) ↔
      [].find? (fun key => (p.get? key).isNone) = some key := by
    simp [p.anyDataDefect?_ne_missing key]
  obtain ⟨kind, data, constraints, objectives, annotations⟩ := p
  cases kind with
  | assignment => exact assignmentDefect?_eq_missing_iff
  | routing => exact squareDefect?_eq_missing_iff.trans (hone DataKey.distance).symm
  | allocation => exact allocationDefect?_eq_missing_iff.trans (hone DataKey.demand).symm
  | topology => exact squareDefect?_eq_missing_iff.trans (hone DataKey.adjacency).symm
  | adversarial => exact hnone
  | multiObjective => exact hnone

theorem defect?_assignment (distance flow : Matrix Float) :
    (assignment distance flow).defect? = (pairDefect? distance flow).map Defect.pair := by
  show (assignment distance flow).assignmentDefect? = _
  rw [assignmentDefect?, get?_assignment_distance, get?_assignment_flow]

end Problem

/-! ## The gates of assignments -/

namespace Instance

variable {distance flow : Matrix Float}

theorem ofMatrices_eq_ok_iff {t : Instance Float} : ofMatrices distance flow = .ok t ↔
    pairDefect? distance flow = none ∧ t.distance = distance ∧ t.flow = flow := by
  unfold ofMatrices
  split
  · next defect h => simp [h]
  · next h =>
    constructor
    · intro hok
      cases hok
      exact ⟨h, rfl, rfl⟩
    · rintro ⟨-, rfl, rfl⟩
      have hside : t.distance.rows = t.side := congrArg Prod.fst t.dim_distance
      simp only [hside]

theorem exists_ofMatrices_iff :
    (∃ t, ofMatrices distance flow = .ok t) ↔ pairDefect? distance flow = none := by
  constructor
  · rintro ⟨t, ht⟩
    exact (ofMatrices_eq_ok_iff.mp ht).1
  · intro h
    obtain ⟨hd, hf⟩ := dims_of_pairDefect? h
    exact ⟨⟨distance.rows, distance, flow, hd, hf⟩, ofMatrices_eq_ok_iff.mpr ⟨h, rfl, rfl⟩⟩

theorem ofProblem_assignment (distance flow : Matrix Float) :
    ofProblem (.assignment distance flow) = ofMatrices distance flow := by
  have hkind : ¬(Problem.assignment distance flow).kind ≠ .assignment := not_not_intro rfl
  rw [ofProblem, if_neg hkind, Problem.get?_assignment_distance, Problem.get?_assignment_flow]

theorem exists_ofProblem_iff {p : Problem} :
    (∃ t, ofProblem p = .ok t) ↔ p.kind = .assignment ∧ p.validate.valid = true := by
  unfold ofProblem
  by_cases hkind : p.kind = .assignment
  · rw [if_neg (not_not_intro hkind), p.validate_valid_iff, Problem.defect?, hkind]
    simp only [Problem.assignmentDefect?, true_and]
    cases p.get? DataKey.distance with
    | none => simp
    | some distance =>
        cases p.get? DataKey.flow with
        | none => simp
        | some flow => simp [exists_ofMatrices_iff]
  · simp [hkind]

theorem get?_of_ofProblem {p : Problem} {t : Instance Float} (h : ofProblem p = .ok t) :
    p.get? DataKey.distance = some t.distance ∧ p.get? DataKey.flow = some t.flow := by
  unfold ofProblem at h
  split at h
  · cases h
  · split at h
    · cases h
    · cases h
    · next distance flow hd hf =>
      obtain ⟨-, rfl, rfl⟩ := ofMatrices_eq_ok_iff.mp h
      exact ⟨hd, hf⟩

end Instance

/-- Only a valid problem of the right kind passes the solver's own test. -/
theorem AssignmentSolver.validateFor_valid_iff (p : Problem) :
    (p.validateFor name kinds).valid = true ↔ p.kind = .assignment ∧ p.validate.valid = true := by
  unfold Problem.validateFor
  by_cases hkind : p.kind = .assignment
  · rw [hkind, if_pos (by decide)]
    exact ⟨fun h => ⟨rfl, h⟩, fun h => h.2⟩
  · have hnot : ¬kinds.contains p.kind = true := by
      rw [kinds, List.contains_iff_mem, List.mem_singleton]
      exact hkind
    rw [if_neg hnot]
    exact ⟨fun h => Bool.noConfusion h, fun h => absurd h.1 hkind⟩

/-- The check lets through exactly the complete problems, and has a text for exactly the others; a
required key without data comes first in it. The solver lets through exactly the problems that state an
instance. Two matrices make an instance exactly if their problem is valid, and it is the one that the
problem states. -/
theorem valid_iff_complete_at_every_gate {σ : Type} [RandomSource σ] :
    (∀ p : Problem, (p.validate.valid = true ↔ p.Complete) ∧
      (p.validate.message.isSome = true ↔ p.validate.valid = false) ∧
      ∀ key, p.defect? = some (.missing p.kind key) ↔
        p.kind.requiredKeys.find? (fun key => (p.get? key).isNone) = some key) ∧
    (∀ (s : AssignmentSolver σ) (p : Problem), (Optimizer.validate s p).valid = true ↔
      ∃ t, Instance.ofProblem p = .ok t) ∧
    ∀ distance flow : Matrix Float,
      ((∃ t, Instance.ofMatrices distance flow = .ok t) ↔
        (Problem.assignment distance flow).validate.valid = true) ∧
      Instance.ofProblem (.assignment distance flow) = Instance.ofMatrices distance flow := by
  refine ⟨fun p => ⟨p.validate_valid_iff_complete, ?_, p.defect?_eq_missing_iff⟩, fun s p => ?_,
    fun distance flow => ⟨?_, Instance.ofProblem_assignment distance flow⟩⟩
  · rw [Bool.eq_false_iff, ne_eq, p.validate_valid_iff, p.validate_message, Option.isSome_map,
      Option.isSome_iff_ne_none]
  · exact (AssignmentSolver.validateFor_valid_iff p).trans Instance.exists_ofProblem_iff.symm
  · rw [Problem.validate_valid_iff, Problem.defect?_assignment, Option.map_eq_none_iff,
      Instance.exists_ofMatrices_iff]

end Placement
