import Placement.Proofs.FloatCounts
import Placement.Proofs.HeuristicAnswers

/-!
# Equal shares

The heuristic answers an allocation problem with its total supply divided by the number of consumers.
Read over exact numbers the shares add up to the supply (`sum_replicate_share`). On floats the total is
a running sum, which may overflow although every value was checked, and nothing looks at it again. This
is the only way in which an amount can fail to be finite: no division by a count overflows, or brings
back what has (`solve_shares_up_to_overflow`).
-/

namespace Placement

/-- The matrix with every value put through `f`. -/
def Matrix.map {α β : Type} (f : α → β) (m : Matrix α) : Matrix β :=
  ⟨m.rows, m.cols, m.values.map f, by rw [Array.size_map, m.size_values]⟩

namespace Heuristic

open FloatRounding FloatCounts

/-! ## Exact numbers -/

section Exact

variable {K : Type} [Field K]

theorem total_eq_sum (m : Matrix K) : total m = m.values.toList.sum := by
  rw [total, neg_zero, ← Array.foldl_toList, List.sum_eq_foldl]

/-- If nothing is rounded, the shares of `n` consumers add up to what was divided. -/
theorem sum_replicate_share [CharZero K] [Gauge K] (hcount : ∀ k, (Gauge.ofNat k : K) = k)
    (m : Matrix K) {n : Nat} (hn : 1 ≤ n) : (Array.replicate n (share m n)).toList.sum = m.values.toList.sum := by
  have hne : (n : K) ≠ 0 := Nat.cast_ne_zero.mpr (Nat.ne_of_gt hn)
  calc (Array.replicate n (share m n)).toList.sum = n * share m n := by
        rw [Array.toList_replicate, List.sum_replicate, nsmul_eq_mul]
    _ = n * (total m / n) := by rw [share, hcount]
    _ = total m := mul_div_cancel₀ _ hne
    _ = m.values.toList.sum := total_eq_sum m

end Exact

/-! ## Floats -/

theorem zero_le_total {m : Matrix Float} (h : m.HoldsAmounts) : 0 ≤ total m := by
  have hstart : (0 : Float) ≤ -0 := by decide
  rw [total, ← Array.foldl_toList]
  exact zero_le_foldl_add hstart fun x hx => (h x (Array.mem_toList_iff.mp hx)).2

theorem isFinite_share_iff (m : Matrix Float) {n : Nat} (hn : 1 ≤ n) :
    (share m n).isFinite = true ↔ (total m).isFinite = true :=
  isFinite_div_ofNat_iff hn

theorem zero_le_share {m : Matrix Float} (h : m.HoldsAmounts) {n : Nat} (hn : 1 ≤ n)
    (hfinite : (share m n).isFinite = true) : 0 ≤ share m n :=
  zero_le_div_ofNat (zero_le_total h) ((isFinite_share_iff m hn).mp hfinite) hn

variable {σ : Type} [RandomSource σ]

theorem solve_of_allocation (h : Heuristic σ) {p : Problem} (hkind : p.kind = .allocation)
    (hvalid : p.validate.valid = true) {demand : Matrix Float}
    (hd : p.get? DataKey.demand = some demand) :
    (h.solve p).1 = answered (.allocation (Array.replicate demand.values.size
      (share ((p.get? DataKey.capacity).getD demand) demand.values.size)), strategy .allocation) := by
  have hdim : p.dimension? = some demand.values.size := by simp [Problem.dimension?, hkind, hd]
  have hpropose : (propose p : Draw σ (Solution × String)) =
      pure (.allocation (Array.replicate demand.values.size
        (share ((p.get? DataKey.capacity).getD demand) demand.values.size)), strategy .allocation) := by
    simp only [propose, hdim, hkind, hd, pure_bind]
    rfl
  rw [solve_fst, attempt_of_valid hvalid, hpropose]
  rfl

/-- Whatever the sizes and the number of the demands, a valid allocation problem is answered by one and
the same amount for each consumer. Up to rounding it is the equal share of the capacity, or of the demand
if there is no capacity; it is not negative; and it is finite unless the running sum of what is divided is
not. -/
theorem solve_shares_up_to_overflow (h : Heuristic σ) {p : Problem} (hkind : p.kind = .allocation)
    (hvalid : p.validate.valid = true) : ∃ demand supply n,
      p.get? DataKey.demand = some demand ∧ n = demand.values.size ∧ 1 ≤ n ∧
      supply = (p.get? DataKey.capacity).getD demand ∧
      (h.solve p).1.status = .fallback ∧
      (h.solve p).1.solution = some (.allocation (Array.replicate n (share supply n))) ∧
      0 ≤ total supply ∧
      ((share supply n).isFinite = true ↔ (total supply).isFinite = true) ∧
      ((share supply n).isFinite = true → 0 ≤ share supply n) ∧
      ∀ {K : Type} [Field K] [CharZero K] [Gauge K], (∀ k, (Gauge.ofNat k : K) = k) →
        ∀ exact : Float → K, (Array.replicate n (share (supply.map exact) n)).toList.sum =
          (supply.values.toList.map exact).sum := by
  have hdefect := p.validate_valid_iff.mp hvalid
  rw [Problem.defect?, hkind] at hdefect
  obtain ⟨demand, hd, hpos, hdemand, hcapacity⟩ := Problem.allocationDefect?_eq_none_iff.mp hdefect
  have hsolve := h.solve_of_allocation hkind hvalid hd
  obtain ⟨supply, hs⟩ : ∃ supply, supply = (p.get? DataKey.capacity).getD demand := ⟨_, rfl⟩
  have hamounts : supply.HoldsAmounts := by
    cases hc : p.get? DataKey.capacity with
    | none =>
        rw [hs, hc]
        exact hdemand
    | some capacity =>
        rw [hs, hc]
        exact hcapacity capacity hc
  rw [← hs] at hsolve
  refine ⟨demand, supply, demand.values.size, hd, rfl, hpos, hs, by rw [hsolve]; rfl,
    by rw [hsolve]; rfl, zero_le_total hamounts, isFinite_share_iff supply hpos,
    zero_le_share hamounts hpos, ?_⟩
  intro K _ _ _ hcount exact
  rw [sum_replicate_share hcount _ hpos]
  simp [Matrix.map]

/-- Three consumers, and a capacity that comes from two places. -/
def rationed : Problem :=
  ((Problem.empty .allocation).withData DataKey.demand (.vector #[3, 1, 2])).withData DataKey.capacity
    (.vector #[2.5, 2])

/-- Nothing is rounded among the rationals. -/
instance : Gauge ℚ where
  ofNat n := n
  isFinite _ := true

theorem solve_shares_up_to_overflow_rationed :
    rationed.kind = .allocation ∧ rationed.validate.valid = true ∧
    ((ofSeed none (RandomSource.ofSeed 7 : KeyStream)).solve rationed).1.solution =
      some (.allocation (Array.replicate 3 1.5)) ∧
    (∀ k, (Gauge.ofNat k : ℚ) = k) ∧ ∀ exact : Float → ℚ,
      (Array.replicate 3 (share ((Matrix.vector #[2.5, 2]).map exact) 3)).toList.sum =
        exact 2.5 + exact 2 := by
  have hvalid : rationed.validate.valid = true := by decide +kernel
  have hdemand : rationed.get? DataKey.demand = some (.vector #[3, 1, 2]) := by
    rw [rationed, Problem.get?, Problem.withData, Problem.withData, Std.ExtTreeMap.getElem?_insert,
      if_neg (by decide), Std.ExtTreeMap.getElem?_insert_self]
  have hcapacity : rationed.get? DataKey.capacity = some (.vector #[2.5, 2]) :=
    Std.ExtTreeMap.getElem?_insert_self
  have hshare : share (.vector #[2.5, 2]) 3 = (1.5 : Float) := by decide +kernel
  obtain ⟨demand, supply, n, hd, hn, -, hs, -, hsolution, -, -, -, hsum⟩ :=
    solve_shares_up_to_overflow (ofSeed none (RandomSource.ofSeed 7 : KeyStream)) rfl hvalid
  rw [hdemand] at hd
  cases hd
  obtain rfl : n = 3 := hn
  rw [hcapacity, Option.getD_some] at hs
  rw [hs, hshare] at hsolution
  have hcount : ∀ k, (Gauge.ofNat k : ℚ) = k := fun _ => rfl
  refine ⟨rfl, hvalid, hsolution, hcount, fun exact => ?_⟩
  rw [← hs, hsum hcount exact, hs]
  show exact 2.5 + (exact 2 + 0) = exact 2.5 + exact 2
  rw [add_zero]

/-- Two demands that are finite, with a sum that is not. -/
def excessive : Problem :=
  (Problem.empty .allocation).withData DataKey.demand (.vector #[1e308, 1e308])

/-- The problem is valid and its answer counts as usable, but no amount in it is finite. -/
theorem solve_shares_overflow : excessive.kind = .allocation ∧ excessive.validate.valid = true ∧
    ((ofSeed none (RandomSource.ofSeed 7 : KeyStream)).solve excessive).1.status = .fallback ∧
    ∃ amounts, ((ofSeed none (RandomSource.ofSeed 7 : KeyStream)).solve excessive).1.solution =
      some (.allocation amounts) ∧ amounts.size = 2 ∧ ∀ amount ∈ amounts, amount.isFinite = false := by
  have hvalid : excessive.validate.valid = true := by decide +kernel
  have hdemand : excessive.get? DataKey.demand = some (.vector #[1e308, 1e308]) :=
    Std.ExtTreeMap.getElem?_insert_self
  have hcapacity : excessive.get? DataKey.capacity = none := by
    rw [excessive, Problem.get?, Problem.withData, Std.ExtTreeMap.getElem?_insert, if_neg (by decide)]
    rfl
  have hshare : (share (.vector #[1e308, 1e308]) 2 : Float).isFinite = false := by decide +kernel
  have hsolve := (ofSeed none (RandomSource.ofSeed 7 : KeyStream)).solve_of_allocation rfl hvalid hdemand
  rw [hcapacity, Option.getD_none] at hsolve
  refine ⟨rfl, hvalid, by rw [hsolve]; rfl, _, by rw [hsolve]; rfl, Array.size_replicate, ?_⟩
  intro amount hmem
  rw [(Array.mem_replicate.mp hmem).2]
  exact hshare

end Heuristic

end Placement
