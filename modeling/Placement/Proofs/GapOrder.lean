import Mathlib.Data.Sign.Basic
import Placement.Proofs.EqualShares
import Placement.Result

/-!
# How gaps rank results

Solvers rank results by their objective: lower is better. A gap is meant to rank them likewise, but it
is a percentage of the optimum itself, not of its magnitude. So it is the `excess` over the optimum, as
a percentage of its magnitude, times the sign of the optimum (`gapTo?_eq`). The excess ranks results as
their objectives do. The gap does so against an optimum above zero; against one below zero it ranks them
the other way round, and calls those negative that are worse than the optimum.
-/

namespace Placement

namespace Result

variable {K : Type} [Field K] [LinearOrder K]

/-- By how many percent of the magnitude of `optimum` an objective exceeds it. -/
def excess (optimum achieved : K) : K :=
  (achieved - optimum) / |optimum| * 100

theorem excess_self (o : K) : excess o o = 0 := by
  rw [excess, sub_self, zero_div, zero_mul]

section Sign

variable {o : K}

theorem sign_mul_of_pos (ho : 0 < o) (x : K) : SignType.sign o * x = x := by
  rw [sign_pos ho, SignType.coe_one, one_mul]

theorem sign_mul_of_neg (ho : o < 0) (x : K) : SignType.sign o * x = -x := by
  rw [sign_neg ho, SignType.coe_neg_one, neg_one_mul]

end Sign

variable [IsStrictOrderedRing K]

section Excess

variable {o a b : K}

theorem excess_lt_excess (ho : o ≠ 0) : excess o a < excess o b ↔ a < b := by
  have hpos : 0 < |o| := abs_pos.mpr ho
  rw [excess, excess, mul_lt_mul_iff_left₀ (by norm_num), div_lt_div_iff_of_pos_right hpos,
    sub_lt_sub_iff_right]

theorem excess_pos_iff (ho : o ≠ 0) : 0 < excess o a ↔ o < a := by
  rw [← excess_self o, excess_lt_excess ho]

theorem excess_neg_iff (ho : o ≠ 0) : excess o a < 0 ↔ a < o := by
  rw [← excess_self o, excess_lt_excess ho]

theorem excess_eq_zero_iff (ho : o ≠ 0) : excess o a = 0 ↔ a = o := by
  rw [excess, mul_eq_zero_iff_right (by norm_num), div_eq_zero_iff, or_iff_left (abs_ne_zero.mpr ho),
    sub_eq_zero]

end Excess

section Gap

variable [Gauge K] {o : K}

/-- A gap is the excess, with the sign of the optimum. -/
theorem gapTo?_eq (hcount : ∀ k, (Gauge.ofNat k : K) = k) (ho : o ≠ 0)
    (hfinite : Gauge.isFinite o = true) {r : Result K} {a : K} (hr : r.objective = some a) :
    r.gapTo? o = some (SignType.sign o * excess o a) := by
  have hhundred : (Gauge.ofNat 100 : K) = 100 := hcount 100
  have hquotient : (a - o) / o = SignType.sign o * ((a - o) / |o|) := by
    rcases lt_or_gt_of_ne ho with hneg | hpos
    · rw [sign_mul_of_neg hneg, abs_of_neg hneg, div_neg, neg_neg]
    · rw [sign_mul_of_pos hpos, abs_of_pos hpos]
  rw [gapTo?, hr, Option.bind_some, if_neg (by simp [ho, hfinite]), hhundred, hquotient, excess,
    mul_assoc]

/-- Against an optimum that is finite and not zero, every objective has a gap. It is zero exactly at
the optimum. Against an optimum above zero it is positive exactly for objectives that are worse, and
ranks results as their objectives do; against one below zero it is positive exactly for objectives that
are better, and ranks results the other way round. -/
theorem gap_ranks_by_sign (hcount : ∀ k, (Gauge.ofNat k : K) = k) (ho : o ≠ 0)
    (hfinite : Gauge.isFinite o = true) :
    (∀ (r : Result K) (a : K), r.objective = some a → ∃ g, r.gapTo? o = some g ∧
      (r.withGap o).gap = some g ∧ g = SignType.sign o * excess o a ∧ (g = 0 ↔ a = o) ∧
      (0 < o → (0 < g ↔ o < a)) ∧ (o < 0 → (0 < g ↔ a < o))) ∧
    ∀ (r r' : Result K) (a b g g' : K), r.objective = some a → r'.objective = some b →
      r.gapTo? o = some g → r'.gapTo? o = some g' →
      (0 < o → (g < g' ↔ a < b)) ∧ (o < 0 → (g < g' ↔ b < a)) := by
  constructor
  · intro r a hr
    have hgap := gapTo?_eq hcount ho hfinite hr
    refine ⟨_, hgap, hgap, rfl, ?_, fun hpos => ?_, fun hneg => ?_⟩
    · rcases lt_or_gt_of_ne ho with hneg | hpos
      · rw [sign_mul_of_neg hneg, neg_eq_zero, excess_eq_zero_iff ho]
      · rw [sign_mul_of_pos hpos, excess_eq_zero_iff ho]
    · rw [sign_mul_of_pos hpos, excess_pos_iff ho]
    · rw [sign_mul_of_neg hneg, neg_pos, excess_neg_iff ho]
  · intro r r' a b g g' hr hr' hg hg'
    rw [gapTo?_eq hcount ho hfinite hr, Option.some.injEq] at hg
    rw [gapTo?_eq hcount ho hfinite hr', Option.some.injEq] at hg'
    subst hg hg'
    refine ⟨fun hpos => ?_, fun hneg => ?_⟩
    · rw [sign_mul_of_pos hpos, sign_mul_of_pos hpos, excess_lt_excess ho]
    · rw [sign_mul_of_neg hneg, sign_mul_of_neg hneg, neg_lt_neg_iff, excess_lt_excess ho]

end Gap

/-- A result of which nothing but the objective is told. -/
def reaching (objective : ℚ) : Result ℚ :=
  { (ofStatus .success : Result ℚ) with objective := some objective }

theorem gap_ranks_by_sign_fifty : (50 : ℚ) ≠ 0 ∧ (∀ k, (Gauge.ofNat k : ℚ) = k) ∧
    ∃ g g', (reaching 55).gapTo? 50 = some g ∧ (reaching 60).gapTo? 50 = some g' ∧ 0 < g ∧ g < g' := by
  have ho : (50 : ℚ) ≠ 0 := by norm_num
  have hcount : ∀ k, (Gauge.ofNat k : ℚ) = k := fun _ => rfl
  obtain ⟨hgaps, hranks⟩ := gap_ranks_by_sign hcount ho rfl
  obtain ⟨g, hg, -, -, -, hpos, -⟩ := hgaps (reaching 55) 55 rfl
  obtain ⟨g', hg', -⟩ := hgaps (reaching 60) 60 rfl
  refine ⟨ho, hcount, g, g', hg, hg', (hpos (by norm_num)).mpr (by norm_num), ?_⟩
  exact ((hranks _ _ _ _ _ _ rfl rfl hg hg').1 (by norm_num)).mpr (by norm_num)

/-- Against an optimum of less than zero, two results that are both worse than the optimum have negative
gaps, and the one that is worse has the lesser gap. -/
theorem gap_reversed_below_zero : ∃ g g', (reaching (-90)).gapTo? (-100) = some g ∧
    (reaching (-80)).gapTo? (-100) = some g' ∧ (-100 : ℚ) < -90 ∧ (-90 : ℚ) < -80 ∧ g < 0 ∧ g' < g :=
  ⟨-10, -20, by decide +kernel, by decide +kernel, by norm_num, by norm_num, by norm_num, by norm_num⟩

end Result

end Placement
