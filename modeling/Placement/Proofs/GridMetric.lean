import Mathlib.Order.Bounds.Defs
import Placement.Proofs.Draws
import Placement.Proofs.FloatRoots
import Placement.Proofs.MatrixCells
import Placement.Proofs.ValidProblems
import Placement.Suite.Grid

/-!
# Instances made up on a grid

The width of the grid is computed in floats, but comes to the side of the least square with room for all
slots (`isLeast_width`). Slots are numbered row by row, so a slot is known from its column and its row:
two slots apart are apart in one of them (`steps_pos`), and steps along the grid obey the triangle
inequality (`steps_triangle`).

Both matrices are filled in pair by pair. What is filled in so far is said of the pairs gone through
(`Filled`): their cells hold what belongs to them, in both directions, and all others zero. One pair keeps
this (`ensures_fillPair`), hence a row and all rows, and then every pair of different numbers has been
gone through once (`mem_pairs`). So the loops come to a table of steps, and one of counts below ten
(`exists_matrices`). The counts are small, so the conversion to floats and the sum of two of them are
exact, and what holds of the counts holds of the floats.

All this takes matrices whose values can have addresses. A greater size breaks a precondition.
-/

namespace Placement

namespace Matrix

theorem isFinite_ofFn {rows cols : Nat} {f : Nat → Nat → Float}
    (h : ∀ i < rows, ∀ j < cols, (f i j).isFinite = true) :
    (Matrix.ofFn rows cols f).isFinite = true := by
  rw [Matrix.isFinite, Array.all_eq_true_iff_forall_mem]
  intro x hx
  obtain ⟨k, rfl⟩ := Array.mem_ofFn.mp hx
  have hcols : 0 < cols := Nat.pos_of_ne_zero fun h0 => by
    have hk := k.isLt
    simp [h0] at hk
  exact h _ (Nat.div_lt_of_lt_mul (Nat.mul_comm rows cols ▸ k.isLt)) _ (Nat.mod_lt _ hcols)

/-- A square of side `n` with zeros on the diagonal, which reads the same by rows and by columns. -/
structure IsMirrored (m : Matrix Float) (n : Nat) : Prop where
  dim_eq : m.dim = (n, n)
  diagonal : ∀ i < n, m.cell i i = 0
  symmetric : ∀ i < n, ∀ j < n, m.cell i j = m.cell j i

end Matrix

namespace Grid

/-! ## Steps -/

theorem apart_self (a : Nat) : apart a a = 0 := by
  unfold apart
  omega

theorem apart_comm (a b : Nat) : apart a b = apart b a :=
  Nat.add_comm _ _

theorem apart_pos {a b : Nat} (h : a ≠ b) : 0 < apart a b := by
  unfold apart
  omega

theorem apart_triangle (a b c : Nat) : apart a c ≤ apart a b + apart b c := by
  unfold apart
  omega

theorem apart_lt {a b n : Nat} (ha : a < n) (hb : b < n) : apart a b < n := by
  unfold apart
  omega

section Steps

variable (width : Nat)

theorem steps_self (i : Nat) : steps width i i = 0 := by
  rw [steps, apart_self, apart_self]

theorem steps_comm (i j : Nat) : steps width i j = steps width j i := by
  rw [steps, steps, apart_comm (i % width), apart_comm (i / width)]

/-- Different slots differ in their column or in their row. -/
theorem steps_pos {i j : Nat} (h : i ≠ j) : 0 < steps width i j := by
  rw [steps]
  by_cases hcol : i % width = j % width
  · have hrow : i / width ≠ j / width := by
      intro hrow
      apply h
      rw [← Nat.div_add_mod i width, ← Nat.div_add_mod j width, hcol, hrow]
    have := apart_pos hrow
    omega
  · have := apart_pos hcol
    omega

theorem steps_triangle (i j k : Nat) : steps width i k ≤ steps width i j + steps width j k := by
  have hcol := apart_triangle (i % width) (j % width) (k % width)
  have hrow := apart_triangle (i / width) (j / width) (k / width)
  unfold steps
  omega

/-- A column and a row are not further on than the slot. -/
theorem steps_lt {n i j : Nat} (hi : i < n) (hj : j < n) : steps width i j < 2 * n := by
  have hcol := apart_lt ((Nat.mod_le i width).trans_lt hi) ((Nat.mod_le j width).trans_lt hj)
  have hrow := apart_lt ((Nat.div_le_self i width).trans_lt hi) ((Nat.div_le_self j width).trans_lt hj)
  unfold steps
  omega

end Steps

/-! ## The width -/

theorem ceil_ofNat {k : Nat} (hk : k < 2 ^ 53) : ceil (Float.ofNat k) = Float.ofNat k := by
  rw [ceil, FloatRoots.toUInt64_ofNat hk, if_neg (FloatOrder.lt_irrefl _)]

theorem width_eq {n w : Nat} (hn : n ≤ 2 ^ 52) (hlow : w * w < n) (hhigh : n ≤ (w + 1) * (w + 1)) :
    width n = w + 1 := by
  have hw : w < 2 ^ 26 := lt_of_mul_self_lt_mul_self₀ (Nat.zero_le _) (by omega)
  have hceil : ceil (Float.ofNat n).sqrt = Float.ofNat (w + 1) := by
    rcases FloatRoots.sqrt_ofNat hn hlow hhigh with hroot | ⟨habove, hwhole⟩
    · rw [hroot, ceil_ofNat (by omega)]
    · rw [ceil, hwhole, if_pos habove]
  have hmax : max (Float.ofNat (w + 1)) 1 = Float.ofNat (w + 1) := by
    show (if Float.ofNat (w + 1) ≤ Float.ofNat 1 then Float.ofNat 1 else Float.ofNat (w + 1)) = _
    split
    · next hle =>
      have hone := (FloatCounts.ofNat_le_ofNat_iff (by omega) (by decide)).mp hle
      rw [Nat.le_antisymm hone (Nat.succ_le_succ (Nat.zero_le w))]
    · rfl
  rw [width, hceil, hmax, FloatRoots.toUInt64_ofNat (by omega)]

/-- The width is the side of the least square with room for all slots: rounding the root does not show. -/
theorem isLeast_width {n : Nat} (hn : n ≤ 2 ^ 52) :
    IsLeast {w | 1 ≤ w ∧ n ≤ w * w} (width n) := by
  rcases Nat.eq_zero_or_pos n with rfl | hpos
  · have hone : width 0 = 1 := by decide +kernel
    rw [hone]
    exact ⟨⟨Nat.le_refl 1, Nat.zero_le _⟩, fun w hw => hw.1⟩
  · have hlow : Nat.sqrt (n - 1) * Nat.sqrt (n - 1) ≤ n - 1 := Nat.sqrt_le _
    have hhigh : n - 1 < (Nat.sqrt (n - 1) + 1) * (Nat.sqrt (n - 1) + 1) := Nat.lt_succ_sqrt _
    have hwidth : width n = Nat.sqrt (n - 1) + 1 := width_eq hn (by omega) (by omega)
    rw [hwidth]
    refine ⟨⟨Nat.succ_le_succ (Nat.zero_le _), by omega⟩, fun w hw => ?_⟩
    exact Nat.sqrt_lt.mpr ((Nat.sub_lt hpos Nat.one_pos).trans_le hw.2)

/-! ## Tables of counts -/

/-- A table of counts, none of which is too large to be a float. -/
def counts (n : Nat) (f : Nat → Nat → Nat) : Matrix Float := .ofFn n n fun i j => Float.ofNat (f i j)

theorem tabulates_counts (n : Nat) (f : Nat → Nat → Nat) :
    (counts n f).Tabulates n n fun i j => some (Float.ofNat (f i j)) :=
  Matrix.tabulates_ofFn n n _

theorem cell_counts {n : Nat} (f : Nat → Nat → Nat) {i j : Nat} (hi : i < n) (hj : j < n) :
    (counts n f).cell i j = Float.ofNat (f i j) :=
  (tabulates_counts n f).cell_eq hi hj

theorem isMirrored_counts {n : Nat} {f : Nat → Nat → Nat} (hself : ∀ i, f i i = 0)
    (hcomm : ∀ i j, f i j = f j i) : (counts n f).IsMirrored n := by
  refine ⟨rfl, ?_, ?_⟩
  · intro i hi
    rw [cell_counts f hi hi, hself]
    rfl
  · intro i hi j hj
    rw [cell_counts f hi hj, cell_counts f hj hi, hcomm]

theorem isFinite_counts {n : Nat} {f : Nat → Nat → Nat} (h : ∀ i < n, ∀ j < n, f i j < 2 ^ 53) :
    (counts n f).isFinite = true :=
  Matrix.isFinite_ofFn fun i hi j hj => FloatCounts.isFinite_ofNat (h i hi j hj)

/-! ## Pairs -/

/-- The pairs of `i` with the numbers behind it. -/
def row (n i : Nat) : List (Nat × Nat) := (List.range' (i + 1) (n - (i + 1))).map fun j => (i, j)

/-- All pairs, row by row. -/
def pairs (n : Nat) : List (Nat × Nat) := (List.range n).flatMap (row n)

theorem mem_pairs {n i j : Nat} : (i, j) ∈ pairs n ↔ i < j ∧ j < n := by
  simp only [pairs, row, List.mem_flatMap, List.mem_map, List.mem_range, List.mem_range'_1,
    Prod.mk.injEq]
  constructor
  · rintro ⟨_, hi, _, hj, rfl, rfl⟩
    omega
  · rintro ⟨hij, hj⟩
    exact ⟨i, by omega, j, by omega, rfl, rfl⟩

/-- The pair is among these, in one direction or the other. -/
def Linked (done : List (Nat × Nat)) (i j : Nat) : Prop := (i, j) ∈ done ∨ (j, i) ∈ done

instance (done : List (Nat × Nat)) (i j : Nat) : Decidable (Linked done i j) :=
  inferInstanceAs (Decidable (_ ∨ _))

theorem linked_append {done : List (Nat × Nat)} {i j row col : Nat} :
    Linked (done ++ [(i, j)]) row col ↔
      Linked done row col ∨ row = i ∧ col = j ∨ row = j ∧ col = i := by
  simp only [Linked, List.mem_append, List.mem_singleton, Prod.mk.injEq]
  tauto

theorem linked_pairs {n i j : Nat} (hi : i < n) (hj : j < n) : Linked (pairs n) i j ↔ i ≠ j := by
  simp only [Linked, mem_pairs]
  omega

/-! ## Filling in -/

theorem exists_storeBoth {α : Type} {m : Matrix α} {n : Nat} {held : Nat → Nat → Option α}
    (h : m.Tabulates n n held) {i j : Nat} (hi : i < n) (hj : j < n) (a : α) :
    ∃ m', m.storeBoth i j a = .ok m' ∧ m'.Tabulates n n fun row col =>
      if row = i ∧ col = j ∨ row = j ∧ col = i then some a else held row col := by
  obtain ⟨m₁, hm₁, htable₁⟩ := h.exists_store hi hj a
  obtain ⟨m₂, hm₂, htable₂⟩ := htable₁.exists_store hj hi a
  refine ⟨m₂, ?_, htable₂.congr fun row _ col _ => ?_⟩
  · rw [Matrix.storeBoth, hm₁]
    exact hm₂
  · by_cases hback : row = j ∧ col = i
    · rw [if_pos hback, if_pos (Or.inr hback)]
    · rw [if_neg hback]
      exact if_congr (by simp [hback]) rfl rfl

/-- Counts between zero and nine, the same in both directions, and zero for the pairs not among these. -/
structure Flows (done : List (Nat × Nat)) (f : Nat → Nat → Nat) : Prop where
  le : ∀ i j, f i j ≤ 9
  comm : ∀ i j, f i j = f j i
  zero : ∀ i j, ¬Linked done i j → f i j = 0

/-- A count for one more pair, in both directions. -/
theorem Flows.insert {done : List (Nat × Nat)} {f : Nat → Nat → Nat} (h : Flows done f) (i j : Nat)
    {k : Nat} (hk : k ≤ 9) : Flows (done ++ [(i, j)]) fun row col =>
      if row = i ∧ col = j ∨ row = j ∧ col = i then k else f row col where
  le row col := by
    split
    · exact hk
    · exact h.le row col
  comm row col := by
    rw [h.comm row col]
    exact if_congr (by tauto) rfl rfl
  zero row col hnew := by
    rw [linked_append, not_or] at hnew
    rw [if_neg hnew.2]
    exact h.zero row col hnew.1

/-- Both matrices hold what belongs to the pairs gone through, and zero otherwise. -/
structure Filled (n : Nat) (done : List (Nat × Nat)) (t : Tables) : Prop where
  distance : t.1.Tabulates n n fun i j =>
    some (Float.ofNat (if Linked done i j then steps (width n) i j else 0))
  flow : ∃ f, Flows done f ∧ t.2.Tabulates n n fun i j => some (Float.ofNat (f i j))

variable {σ : Type} [RandomSource σ] {n : Nat} {done : List (Nat × Nat)} {t : Tables}

/-- One more pair is filled in, and nothing else is touched. -/
theorem ensures_fillPair (h : Filled n done t) {i j : Nat} (hij : i < j) (hj : j < n) :
    Draw.Ensures (fillPair (width n) i t j : Draw σ Tables) (Filled n (done ++ [(i, j)])) := by
  have hi : i < n := hij.trans hj
  obtain ⟨f, hf, hflow⟩ := h.flow
  obtain ⟨distance, hdistance, htable⟩ :=
    exists_storeBoth h.distance hi hj (Float.ofNat (steps (width n) i j))
  refine (Draw.ensures_checked (P := (· = distance)) hdistance rfl).bind fun _ hd => ?_
  obtain rfl := hd
  refine (Draw.ensures_between (by decide)).bind fun drawn hdrawn => ?_
  obtain ⟨k, rfl⟩ : ∃ k : Nat, drawn = k := ⟨drawn.toNat, by omega⟩
  have hk : k ≤ 9 := by omega
  obtain ⟨flow, hstored, htable'⟩ := exists_storeBoth hflow hi hj (Float.ofNat k)
  refine (Draw.ensures_checked (P := (· = flow)) hstored rfl).bind fun _ hs => ?_
  obtain rfl := hs
  refine Draw.ensures_pure ⟨htable.congr fun row _ col _ => ?_, _, hf.insert i j hk,
    htable'.congr fun row _ col _ => ?_⟩
  · simp only [linked_append]
    by_cases hcell : row = i ∧ col = j ∨ row = j ∧ col = i
    · rw [if_pos hcell, if_pos (Or.inr hcell)]
      rcases hcell with ⟨rfl, rfl⟩ | ⟨rfl, rfl⟩
      · rfl
      · rw [steps_comm]
    · rw [if_neg hcell]
      simp only [hcell, or_false]
  · split <;> rfl

theorem ensures_fillRow (h : Filled n done t) (i : Nat) :
    Draw.Ensures (fillRow (width n) n t i : Draw σ Tables) (Filled n (done ++ row n i)) := by
  have hrow := Draw.ensures_foldlM (σ := σ) (f := fillPair (width n) i)
    (I := fun js => Filled n (done ++ js.map fun j => (i, j))) (List.range' (i + 1) (n - (i + 1)))
    (fun js t j hj ht => ?_) [] (b := t) (by simpa using h)
  · exact hrow
  · rw [List.mem_range'_1] at hj
    rw [List.map_append, ← List.append_assoc]
    exact ensures_fillPair ht (by omega) (by omega)

theorem ensures_fillRows (h : Filled n [] t) :
    Draw.Ensures ((List.range n).foldlM (fillRow (width n) n) t : Draw σ Tables)
      (Filled n (pairs n)) := by
  refine Draw.ensures_foldlM (I := fun is => Filled n (is.flatMap (row n))) _
    (fun is t i _ ht => ?_) [] h
  rw [List.flatMap_append, List.flatMap_singleton]
  exact ensures_fillRow ht i

/-- A matrix of zeros holds what belongs to no pair at all. -/
theorem filled_zeros {zeros : Matrix Float} (h : Matrix.fill n n 0 = .ok zeros) :
    Filled n [] (zeros, zeros) := by
  have htable := Matrix.tabulates_fill h
  refine ⟨htable.congr fun i _ j _ => ?_, fun _ _ => 0,
    ⟨fun _ _ => Nat.zero_le 9, fun _ _ => rfl, fun _ _ _ => rfl⟩, htable⟩
  rw [if_neg (by simp [Linked])]
  rfl

/-- Where the matrices can be had, filling them in comes to a table of steps and a table of flows. -/
theorem ensures_tables (hn : n < 2 ^ 30) : Draw.Ensures (tables n : Draw σ Tables) fun t =>
    ∃ f, Flows (pairs n) f ∧ t = (counts n (steps (width n)), counts n f) := by
  have hroom : n * n < Matrix.addressable := Nat.mul_self_lt_mul_self hn
  obtain ⟨zeros, hzeros⟩ : ∃ zeros, Matrix.fill n n (0 : Float) = .ok zeros :=
    Matrix.exists_fill_iff.mpr hroom
  have hchecked : Draw.Ensures (Draw.checked (Matrix.fill n n 0) : Draw σ (Matrix Float)) (· = zeros) :=
    Draw.ensures_checked hzeros rfl
  refine hchecked.bind fun distance hdistance => hchecked.bind fun flow hflow => ?_
  rw [hdistance, hflow]
  refine (ensures_fillRows (σ := σ) (filled_zeros hzeros)).mono fun t ht => ?_
  obtain ⟨f, hf, hflow⟩ := ht.flow
  refine ⟨f, hf, Prod.ext (ht.distance.ext (tabulates_counts n _) fun i hi j hj => ?_)
    (hflow.ext (tabulates_counts n f) fun _ _ _ _ => rfl)⟩
  by_cases hne : i = j
  · subst hne
    rw [steps_self, ite_self]
  · rw [if_pos ((linked_pairs hi hj).mpr hne)]

/-! ## Instances -/

/-- The instance of a name is a table of steps, and a table of counts below ten. -/
theorem exists_matrices (name : String) (hn : n < 2 ^ 30) : ∃ f, Flows (pairs n) f ∧
    matrices name n = .ok (counts n (steps (width n)), counts n f) := by
  obtain ⟨_, _, hyields, f, hf, rfl⟩ :=
    ensures_tables hn (RandomSource.ofSeed (seedOf name) : KeyStream)
  exact ⟨f, hf, congrArg Prod.fst hyields⟩

/-- The values of a larger matrix cannot have addresses, as long as they can be counted. -/
theorem matrices_of_large (name : String) (hn : 2 ^ 30 ≤ n) (hcount : n < 2 ^ 32) :
    matrices name n = .error (.breach .unaddressable) := by
  rw [matrices, tables, Matrix.fill_eq_unaddressable (Nat.mul_self_lt_mul_self hcount)
    (Nat.mul_self_le_mul_self hn)]
  rfl

theorem Flows.self {f : Nat → Nat → Nat} (h : Flows (pairs n) f) (i : Nat) : f i i = 0 := by
  refine h.zero i i ?_
  simp only [Linked, mem_pairs]
  omega

/-- The problem of a made up instance has a defect only if there is nothing to place. -/
theorem validate_counts_iff {f g : Nat → Nat → Nat} (hf : ∀ i < n, ∀ j < n, f i j < 2 ^ 53)
    (hg : ∀ i < n, ∀ j < n, g i j < 2 ^ 53) :
    (Problem.assignment (counts n f) (counts n g)).validate.valid = true ↔ 1 ≤ n := by
  rw [Problem.validate_valid_iff, Problem.defect?_assignment, Option.map_eq_none_iff]
  constructor
  · intro hnone
    obtain ⟨m, hm, hgrid, -⟩ := pairDefect?_eq_none_iff.mp hnone
    rwa [← hgrid.rows_eq] at hm
  · intro hpos
    rw [pairDefect?_of_dim hpos rfl rfl, isFinite_counts hf, isFinite_counts hg]
    rfl

/-- Every made up instance is one of slots on the least square grid with room for them, for every name and
for every size whose matrices can be had. A greater size breaks a precondition, as long as the cells of
its matrices can be counted. -/
theorem matrices_metric (name : String) (n : Nat) :
    (n < 2 ^ 30 → ∃ distance flow, matrices name n = .ok (distance, flow) ∧
      distance.IsMirrored n ∧ flow.IsMirrored n ∧
      (∀ i < n, ∀ j < n, i ≠ j → ∃ d, 0 < d ∧ d < 2 ^ 53 ∧ distance.cell i j = Float.ofNat d) ∧
      (∀ i < n, ∀ j < n, ∀ k < n,
        distance.cell i k ≤ distance.cell i j + distance.cell j k) ∧
      (∃ w, IsLeast {w | 1 ≤ w ∧ n ≤ w * w} w ∧
        ∀ i < n, ∀ j < n, distance.cell i j = Float.ofNat (steps w i j)) ∧
      (∀ i < n, ∀ j < n, ∃ f ≤ 9, flow.cell i j = Float.ofNat f) ∧
      ((Problem.assignment distance flow).validate.valid = true ↔ 1 ≤ n) ∧
      ∀ other, ∃ flow', matrices other n = .ok (distance, flow')) ∧
    (2 ^ 30 ≤ n → n < 2 ^ 32 → matrices name n = .error (.breach .unaddressable)) := by
  refine ⟨fun hn => ?_, matrices_of_large name⟩
  obtain ⟨f, hf, hmade⟩ := exists_matrices name hn
  have hsteps : ∀ i < n, ∀ j < n, steps (width n) i j < 2 ^ 52 := fun i hi j hj =>
    (steps_lt (width n) hi hj).trans (by omega)
  refine ⟨_, _, hmade, isMirrored_counts (steps_self _) (steps_comm _),
    isMirrored_counts hf.self hf.comm, ?_, ?_, ?_, ?_, ?_, fun other => ?_⟩
  · intro i hi j hj hne
    exact ⟨steps (width n) i j, steps_pos _ hne, (hsteps i hi j hj).trans (by decide),
      cell_counts _ hi hj⟩
  · intro i hi j hj k hk
    have hij := hsteps i hi j hj
    have hjk := hsteps j hj k hk
    have hik := hsteps i hi k hk
    rw [cell_counts _ hi hk, cell_counts _ hi hj, cell_counts _ hj hk,
      FloatCounts.ofNat_add (by omega), FloatCounts.ofNat_le_ofNat_iff (by omega) (by omega)]
    exact steps_triangle (width n) i j k
  · exact ⟨width n, isLeast_width (hn.le.trans (by decide)), fun i hi j hj => cell_counts _ hi hj⟩
  · intro i hi j hj
    exact ⟨f i j, hf.le i j, cell_counts _ hi hj⟩
  · exact validate_counts_iff (fun i hi j hj => (hsteps i hi j hj).trans (by decide))
      fun i _ j _ => (Nat.lt_succ_of_le (hf.le i j)).trans (by decide)
  · obtain ⟨g, -, hother⟩ := exists_matrices other hn
    exact ⟨_, hother⟩

/-- Three columns from slot zero to slot eleven of a grid four wide, and two rows. -/
theorem matrices_metric_twelve : 12 < 2 ^ 30 ∧ ∃ distance flow,
    matrices "nug12" 12 = .ok (distance, flow) ∧ distance.cell 0 11 = 5 ∧
    distance.cell 0 11 ≤ distance.cell 0 6 + distance.cell 6 11 ∧
    (Problem.assignment distance flow).validate.valid = true := by
  have hn : 12 < 2 ^ 30 := by decide
  obtain ⟨distance, flow, hmade, -, -, -, htriangle, ⟨w, hw, hcells⟩, -, hvalid, -⟩ :=
    (matrices_metric "nug12" 12).1 hn
  obtain rfl : w = 4 := by
    have hle : w ≤ 4 := hw.2 ⟨by decide, by decide⟩
    have hroom := hw.1.2
    interval_cases w <;> omega
  exact ⟨hn, distance, flow, hmade, hcells 0 (by decide) 11 (by decide),
    htriangle 0 (by decide) 6 (by decide) 11 (by decide), hvalid.mpr (by decide)⟩

/-- Values of eight bytes for all pairs of `2 ^ 30` slots are too many to have addresses, though the steps
between the slots are all floats without rounding. -/
theorem matrices_unaddressable :
    (∀ i < 2 ^ 30, ∀ j < 2 ^ 30, steps (width (2 ^ 30)) i j < 2 ^ 53) ∧
    matrices "x" (2 ^ 30) = .error (.breach .unaddressable) :=
  ⟨fun i hi j hj => (steps_lt _ hi hj).trans (by decide),
    matrices_of_large "x" (Nat.le_refl _) (by decide)⟩

end Grid

end Placement
