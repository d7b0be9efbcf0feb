import Mathlib.Algebra.BigOperators.Group.Finset.Basic
import Mathlib.Algebra.BigOperators.Intervals
import Mathlib.Algebra.BigOperators.Ring.Finset
import Mathlib.Tactic.Ring
import Placement.Proofs.Arrangement

/-!
# The change of an exchange

Over exact numbers the objective is a double sum, and an exchange of two slots changes only the terms
in which one of the two takes part. These are the corner terms of `cornerDelta`, where both indices
are among the two slots, and for every other slot the four terms of `crossDelta`. Setting them apart
on both sides of the exchange gives `objective_swapIfInBounds`: the objective afterwards is the
objective before, plus `swapDelta`.

Nothing of this asks for an arrangement. A unit may stand in several slots, and the matrices need be
neither symmetric nor zero on the diagonal. As long as every unit has its row of flows, the checked
forms that a search calls read only cells that exist (`objective?_swapIfInBounds`).
-/

namespace Placement

namespace Instance

open Finset (range)

variable {α : Type} [CommRing α]

/-! ## Folds as sums -/

theorem fold_add_eq_sum (n : Nat) (g : Nat → α) (init : α) :
    Nat.fold n (fun i _ total => total + g i) init = init + ∑ i ∈ range n, g i := by
  induction n with
  | zero => simp
  | succ n ih => rw [Nat.fold_succ, ih, Finset.sum_range_succ, add_assoc]

theorem objective_eq_sum (t : Instance α) (p : Array Nat) :
    t.objective p = ∑ i ∈ range t.side, ∑ j ∈ range t.side,
      t.distance.cell i j * t.flow.cell (p.getD i 0) (p.getD j 0) := by
  have hrow : ∀ i total, t.addRow p i total = total + ∑ j ∈ range t.side,
      t.distance.cell i j * t.flow.cell (p.getD i 0) (p.getD j 0) := fun i total =>
    fold_add_eq_sum t.side
      (fun j => t.distance.cell i j * t.flow.cell (p.getD i 0) (p.getD j 0)) total
  simp only [objective, hrow]
  rw [fold_add_eq_sum, zero_add]

/-! ## Setting two slots apart -/

/-- All slots but two. -/
def others (n r s : Nat) : Finset Nat :=
  ((range n).erase r).erase s

theorem mem_others {n r s k : Nat} : k ∈ others n r s ↔ k ≠ s ∧ k ≠ r ∧ k < n := by
  rw [others, Finset.mem_erase, Finset.mem_erase, Finset.mem_range]

theorem sum_range_eq {n r s : Nat} (hr : r < n) (hs : s < n) (hrs : r ≠ s) (h : Nat → α) :
    ∑ k ∈ range n, h k = h r + h s + ∑ k ∈ others n r s, h k := by
  rw [← Finset.add_sum_erase _ h (Finset.mem_range.mpr hr),
    ← Finset.add_sum_erase _ h (Finset.mem_erase.mpr ⟨hrs.symm, Finset.mem_range.mpr hs⟩),
    add_assoc]
  rfl

/-- A double sum whose terms vanish where neither index is `r` or `s`. -/
theorem sum_sum_range_eq {n r s : Nat} (hr : r < n) (hs : s < n) (hrs : r ≠ s)
    (g : Nat → Nat → α) (hg : ∀ i ∈ others n r s, ∀ j ∈ others n r s, g i j = 0) :
    ∑ i ∈ range n, ∑ j ∈ range n, g i j =
      g r r + g r s + g s r + g s s +
        ∑ k ∈ others n r s, (g k r + g k s + g r k + g s k) := by
  have hrest : ∑ i ∈ others n r s, ∑ j ∈ range n, g i j =
      ∑ k ∈ others n r s, (g k r + g k s) := by
    refine Finset.sum_congr rfl fun i hi => ?_
    rw [sum_range_eq hr hs hrs, Finset.sum_eq_zero (hg i hi), add_zero]
  rw [sum_range_eq hr hs hrs, hrest, sum_range_eq hr hs hrs, sum_range_eq hr hs hrs]
  simp only [Finset.sum_add_distrib]
  ring

theorem swapDelta_eq_sum (t : Instance α) {p : Array Nat} {r s : Nat} (hr : r < p.size)
    (hs : s < p.size) (hrs : r ≠ s) :
    t.swapDelta p r s = t.cornerDelta r s (p.getD r 0) (p.getD s 0) +
      ∑ k ∈ others p.size r s,
        t.crossDelta r s (p.getD r 0) (p.getD s 0) k (p.getD k 0) := by
  let cross : Nat → α := fun k =>
    if k = r ∨ k = s then 0 else t.crossDelta r s (p.getD r 0) (p.getD s 0) k (p.getD k 0)
  have hstep : ∀ (k : Nat) (delta : α), (if k = r || k = s then delta else
      delta + t.crossDelta r s (p.getD r 0) (p.getD s 0) k (p.getD k 0)) = delta + cross k := by
    intro k delta
    by_cases hk : k = r ∨ k = s
    · simp [cross, hk]
    · simp [cross, hk]
  rw [swapDelta, if_neg hrs]
  simp only [hstep]
  rw [fold_add_eq_sum, sum_range_eq hr hs hrs]
  have hothers : ∑ k ∈ others p.size r s, cross k = ∑ k ∈ others p.size r s,
      t.crossDelta r s (p.getD r 0) (p.getD s 0) k (p.getD k 0) := by
    refine Finset.sum_congr rfl fun k hk => ?_
    obtain ⟨hks, hkr, -⟩ := mem_others.mp hk
    simp [cross, hks, hkr]
  rw [hothers]
  simp [cross]

/-! ## The exchange -/

theorem getD_swapIfInBounds {p : Array Nat} {r s : Nat} (hr : r < p.size) (hs : s < p.size)
    (k : Nat) : (p.swapIfInBounds r s).getD k 0 =
      if k = r then p.getD s 0 else if k = s then p.getD r 0 else p.getD k 0 := by
  by_cases hk : k < p.size
  · simp only [Array.getD, Array.size_swapIfInBounds, hk, hr, hs, dif_pos, Array.getInternal_eq_getElem]
    rw [Array.getElem_swapIfInBounds]
    by_cases hkr : k = r
    · rw [dif_pos ⟨hkr, hs⟩, if_pos hkr]
    · rw [dif_neg fun h => hkr h.1, if_neg hkr]
      by_cases hks : k = s
      · rw [dif_pos ⟨hks, hr⟩, if_pos hks]
      · rw [dif_neg fun h => hks h.1, if_neg hks]
  · have hkr : k ≠ r := fun h => hk (h ▸ hr)
    have hks : k ≠ s := fun h => hk (h ▸ hs)
    simp [Array.getD, hk, hkr, hks]

/-- After an exchange, the objective has changed by what `swapDelta` says. -/
theorem objective_swapIfInBounds (t : Instance α) {p : Array Nat} {r s : Nat}
    (hp : p.size = t.side) (hr : r < t.side) (hs : s < t.side) :
    t.objective (p.swapIfInBounds r s) = t.objective p + t.swapDelta p r s := by
  by_cases hrs : r = s
  · subst hrs
    have hself : p.swapIfInBounds r r = p := by
      refine Array.ext Array.size_swapIfInBounds fun k hk hk' => ?_
      rw [Array.getElem_swapIfInBounds]
      split_ifs with h <;> simp [h]
    rw [swapDelta, if_pos rfl, add_zero, hself]
  · have hrp : r < p.size := hp ▸ hr
    have hsp : s < p.size := hp ▸ hs
    have hat := getD_swapIfInBounds hrp hsp
    have hchange : t.objective (p.swapIfInBounds r s) - t.objective p =
        ∑ i ∈ range t.side, ∑ j ∈ range t.side, t.distance.cell i j *
          (t.flow.cell ((p.swapIfInBounds r s).getD i 0) ((p.swapIfInBounds r s).getD j 0) -
            t.flow.cell (p.getD i 0) (p.getD j 0)) := by
      simp only [objective_eq_sum, mul_sub, Finset.sum_sub_distrib]
    rw [← sub_eq_iff_eq_add', hchange, sum_sum_range_eq hr hs hrs, swapDelta_eq_sum t hrp hsp hrs, hp]
    · have hcorner : ∀ k ∈ others t.side r s, k ≠ r ∧ k ≠ s := fun k hk =>
        ⟨(mem_others.mp hk).2.1, (mem_others.mp hk).1⟩
      congr 1
      · simp [hat, cornerDelta, Ne.symm hrs]
      · refine Finset.sum_congr rfl fun k hk => ?_
        obtain ⟨hkr, hks⟩ := hcorner k hk
        simp [hat, crossDelta, hkr, hks, Ne.symm hrs]
    · intro i hi j hj
      obtain ⟨his, hir, -⟩ := mem_others.mp hi
      obtain ⟨hjs, hjr, -⟩ := mem_others.mp hj
      simp [hat, his, hir, hjs, hjr]

/-! ## The checked forms -/

/-- For every assignment of units that have their flows, the objective, the change for any two slots
and the objective after their exchange can all be read off, and the third is the sum of the others. -/
theorem objective?_swapIfInBounds (t : Instance α) {p : Array Nat} {r s : Nat}
    (hsize : p.size = t.side) (hlt : ∀ v ∈ p, v < t.side) (hr : r < t.side) (hs : s < t.side) :
    ∃ before change,
      t.objective? p = .ok before ∧
      t.swapDelta? p r s = .ok change ∧
      t.objective? (p.swapIfInBounds r s) = .ok (before + change) ∧
      before = ∑ i ∈ range t.side, ∑ j ∈ range t.side,
        t.distance.cell i j * t.flow.cell (p.getD i 0) (p.getD j 0) := by
  have hsize' : (p.swapIfInBounds r s).size = t.side := by
    rw [Array.size_swapIfInBounds, hsize]
  have hlt' : ∀ v ∈ p.swapIfInBounds r s, v < t.side := by
    intro v hv
    have hmem : v ∈ p.toList := (swapIfInBounds_perm p r s).mem_iff.mp (Array.mem_def.mp hv)
    exact hlt v (Array.mem_def.mpr hmem)
  refine ⟨_, _, objective?_of_lt hsize hlt, swapDelta?_of_lt hsize hlt hr hs, ?_,
    t.objective_eq_sum p⟩
  rw [objective?_of_lt hsize' hlt', t.objective_swapIfInBounds hsize hr hs]

/-- Three slots, with distances and flows that depend on the direction and do not vanish on the
diagonal. -/
def lopsided : Instance Int where
  side := 3
  distance := ⟨3, 3, #[1, 2, 3, 4, 5, 6, 7, 8, 9], rfl⟩
  flow := ⟨3, 3, #[2, 7, 1, 8, 2, 8, 1, 8, 3], rfl⟩
  dim_distance := rfl
  dim_flow := rfl

/-- One unit stands in two slots, and the third unit in none. -/
theorem objective?_swapIfInBounds_lopsided :
    (#[2, 0, 2] : Array Nat).size = lopsided.side ∧ (∀ v ∈ #[2, 0, 2], v < lopsided.side) ∧
    ∃ before change,
      lopsided.objective? #[2, 0, 2] = .ok before ∧
      lopsided.swapDelta? #[2, 0, 2] 0 1 = .ok change ∧
      lopsided.objective? #[0, 2, 2] = .ok (before + change) ∧
      before = 90 ∧ change = 12 := by
  have hlt : ∀ v ∈ #[2, 0, 2], v < lopsided.side := by decide
  have hobjective : lopsided.objective? #[2, 0, 2] = .ok 90 := by decide +kernel
  have hdelta : lopsided.swapDelta? #[2, 0, 2] 0 1 = .ok 12 := by decide +kernel
  obtain ⟨before, change, hbefore, hchange, hafter, -⟩ :=
    objective?_swapIfInBounds lopsided (p := #[2, 0, 2]) (r := 0) (s := 1) rfl hlt (by decide)
      (by decide)
  exact ⟨rfl, hlt, before, change, hbefore, hchange, hafter,
    Except.ok.inj (hbefore.symm.trans hobjective), Except.ok.inj (hchange.symm.trans hdelta)⟩

end Instance

end Placement
