import Mathlib.MeasureTheory.Measure.Dirac
import Placement.Proofs.Arrangement
import Placement.Random.KeyStream

/-!
# Pairs of different indices

A pair of different indices is made of two draws: an index, and a place among those that are left. To
skip the first index over is what `Fin.succAbove` does, so the second draw reaches each of the others
from one place and no other. Of the draws and the pairs, each therefore stands for the other
(`bijOn_pairOf`), and a pair comes out of exactly those states of the source that its two draws come
from (`comesFrom_distinctPair`). That is why a pair is no likelier than another where the draws are
not, whatever likelihood is taken to be.
-/

namespace Placement

open MeasureTheory
open scoped ENNReal

namespace Draw

variable {σ α β : Type}

/-! ## Draws and pairs -/

/-- The indices that an index and a place among the others stand for. -/
def pairOf (bound : Nat) (draws : Fin bound × Fin (bound - 1)) : Fin bound × Fin bound :=
  (draws.1, skipping draws.1 draws.2)

theorem skipping_eq_succAbove {n : Nat} (first : Fin (n + 1)) (k : Fin n) :
    skipping first k = first.succAbove k := by
  unfold skipping Fin.succAbove
  by_cases h : first.val ≤ k.val
  · have hlt : ¬k.castSucc < first := Nat.not_lt_of_le h
    rw [if_pos h, if_neg hlt]
    rfl
  · have hlt : k.castSucc < first := Nat.lt_of_not_le h
    rw [if_neg h, if_pos hlt]
    rfl

/-- Every pair of different indices stands for one index and one place among the others. -/
theorem bijOn_pairOf (bound : Nat) :
    Set.BijOn (pairOf bound) Set.univ {pair | pair.1 ≠ pair.2} := by
  cases bound with
  | zero =>
      exact ⟨fun draws => draws.1.elim0, fun draws => draws.1.elim0, fun pair => pair.1.elim0⟩
  | succ n =>
      refine ⟨fun draws _ => (skipping_ne draws.1 draws.2).symm, ?_, ?_⟩
      · rintro ⟨first, k⟩ - ⟨first', k'⟩ - h
        obtain ⟨rfl, hsecond⟩ := Prod.mk.inj h
        simp only [skipping_eq_succAbove] at hsecond
        exact congrArg (Prod.mk first) (Fin.succAbove_right_injective hsecond)
      · rintro ⟨first, second⟩ hne
        obtain ⟨k, hk⟩ := Fin.exists_succAbove_eq (Ne.symm hne)
        refine ⟨(first, k), Set.mem_univ _, ?_⟩
        rw [pairOf, skipping_eq_succAbove, hk]

theorem pairOf_injective (bound : Nat) : Function.Injective (pairOf bound) :=
  Set.injOn_univ.mp (bijOn_pairOf bound).injOn

/-! ## States of the source -/

/-- The states of the source from which `x` comes to the value `a`. -/
def comesFrom (x : Draw σ α) (a : α) : Set σ := {s | ∃ s', Yields x s a s'}

/-- With the source in a state that is taken at random, `x` comes to each of these values with the same
chance, and to nothing else. -/
structure IsUniform [MeasurableSpace σ] (μ : Measure σ) (x : Draw σ α) (values : Finset α) :
    Prop where
  chance : ∀ a ∈ values, μ (comesFrom x a) = (values.card : ℝ≥0∞)⁻¹
  nothing_else : ∀ a ∉ values, μ (comesFrom x a) = 0

theorem comesFrom_map {f : α → β} (hf : Function.Injective f) (x : Draw σ α) (a : α) :
    comesFrom (f <$> x) (f a) = comesFrom x a := by
  ext s
  constructor
  · rintro ⟨s', h⟩
    obtain ⟨a', ha', heq⟩ := yields_map.mp h
    rw [hf heq]
    exact ⟨s', ha'⟩
  · rintro ⟨s', h⟩
    exact ⟨s', yields_map.mpr ⟨a, h, rfl⟩⟩

variable [RandomSource σ]

/-- The two draws that a pair is made of. -/
def drawsOfPair (bound : Nat) : Draw σ (Fin bound × Fin (bound - 1)) := do
  let first ← index bound
  let k ← index (bound - 1)
  pure (first, k)

theorem distinctPair_eq (bound : Nat) :
    (distinctPair bound : Draw σ (Fin bound × Fin bound)) = pairOf bound <$> drawsOfPair bound := by
  simp only [distinctPair, drawsOfPair, pairOf, map_bind, map_pure]

theorem comesFrom_distinctPair (bound : Nat) (draws : Fin bound × Fin (bound - 1)) :
    comesFrom (distinctPair bound : Draw σ (Fin bound × Fin bound)) (pairOf bound draws) =
      comesFrom (drawsOfPair bound) draws := by
  rw [distinctPair_eq, comesFrom_map (pairOf_injective bound)]

/-- There are as many pairs as draws. -/
theorem card_offDiag (bound : Nat) : (Finset.univ : Finset (Fin bound)).offDiag.card =
    (Finset.univ : Finset (Fin bound × Fin (bound - 1))).card := by
  rw [Finset.offDiag_card, Finset.card_univ, Finset.card_univ, Fintype.card_prod, Fintype.card_fin,
    Fintype.card_fin, Nat.mul_sub_one]

/-- Pairs are as evenly spread as the draws they are made of. -/
theorem IsUniform.distinctPair [MeasurableSpace σ] {μ : Measure σ} {bound : Nat}
    (h : IsUniform μ (drawsOfPair bound) Finset.univ) :
    IsUniform μ (distinctPair bound) Finset.univ.offDiag := by
  refine ⟨fun pair hpair => ?_, fun pair hpair => ?_⟩
  · have hne : pair.1 ≠ pair.2 := (Finset.mem_offDiag.mp hpair).2.2
    obtain ⟨draws, -, rfl⟩ := (bijOn_pairOf bound).surjOn hne
    rw [comesFrom_distinctPair, h.chance draws (Finset.mem_univ draws), card_offDiag]
  · have hnone : comesFrom (Draw.distinctPair bound : Draw σ (Fin bound × Fin bound)) pair = ∅ := by
      refine Set.eq_empty_of_forall_notMem fun s hs => hpair ?_
      obtain ⟨s', hs'⟩ := hs
      have hne := (ensures_distinctPair (two_le_of_distinctPair hs')).of_yields hs'
      exact Finset.mem_offDiag.mpr ⟨Finset.mem_univ _, Finset.mem_univ _, hne⟩
    rw [hnone, measure_empty]

end Draw

open Draw

/-! ## Mutation -/

/-- The slots whose entry is another one in `q` than in `p`. -/
def changedSlots (p q : Array Nat) : Finset Nat :=
  (Finset.range p.size).filter fun k => q[k]? ≠ p[k]?

/-- An exchange in an arrangement changes the two slots and no other. -/
theorem changedSlots_swap {p : Array Nat} {n : Nat} (h : Arranges p n) {i j : Fin p.size}
    (hne : i ≠ j) : changedSlots p (p.swap i j i.isLt j.isLt) = {i.val, j.val} := by
  have hij : i.val ≠ j.val := fun heq => hne (Fin.ext heq)
  have hentries : p[i.val] ≠ p[j.val] := fun heq => hij (h.nodup.getElem_inj_iff.mp heq)
  ext k
  rw [changedSlots, Finset.mem_filter, Finset.mem_range, Finset.mem_insert, Finset.mem_singleton,
    Array.getElem?_swap]
  by_cases hi : k = i.val
  · subst hi
    simp [hij.symm, hentries.symm]
  · by_cases hj : k = j.val
    · subst hj
      simp [hentries]
    · simp [hi, hj, Ne.symm hi, Ne.symm hj]

section Mutation

variable {σ : Type} [RandomSource σ]

/-- Mutation exchanges the slots of the pair that it draws. -/
theorem yields_swapMutation {p : Array Nat} {i j : Fin p.size} {s s' : σ}
    (h : Yields (distinctPair p.size) s (i, j) s') :
    Yields (swapMutation p) s (p.swap i j i.isLt j.isLt) s' := by
  have hsize : ¬p.size < 2 := Nat.not_lt_of_le (two_le_of_distinctPair h)
  rw [swapMutation, if_neg hsize]
  exact h.bind rfl

theorem exists_swapMutation {p : Array Nat} {n : Nat} (hp : Arranges p n) (hn : 2 ≤ n) (s : σ) :
    ∃ i j s' q, Yields (distinctPair p.size) s (i, j) s' ∧ Yields (swapMutation p) s q s' ∧
      Arranges q n ∧ changedSlots p q = {i.val, j.val} ∧ (changedSlots p q).card = 2 := by
  have hsize : 2 ≤ p.size := hp.size_eq ▸ hn
  obtain ⟨⟨i, j⟩, s', hpair, hne⟩ := ensures_distinctPair hsize s
  have hmutant := yields_swapMutation hpair
  have hchanged := changedSlots_swap hp hne
  refine ⟨i, j, s', _, hpair, hmutant, (ensures_swapMutation hp).of_yields hmutant, hchanged, ?_⟩
  rw [hchanged]
  exact Finset.card_pair fun heq => hne (Fin.ext heq)

end Mutation

/-- Drawing a pair turns an index and a place among the others into two different indices, and does
so one to one: every pair of different indices comes of one such draw. Hence it is as evenly spread as
the draws are, and mutating an arrangement of two or more entries, which exchanges the slots of such a
pair, makes an arrangement that differs in just these two slots. -/
theorem distinctPair_reaches_each_pair_once {σ : Type} [RandomSource σ] {bound : Nat}
    (hb : 2 ≤ bound) :
    Set.BijOn (pairOf bound) Set.univ {pair | pair.1 ≠ pair.2} ∧
    (∀ s : σ, ∃ draws s', Yields (drawsOfPair bound) s draws s' ∧
      Yields (distinctPair bound) s (pairOf bound draws) s') ∧
    (∀ [MeasurableSpace σ] (μ : Measure σ), IsUniform μ (drawsOfPair bound) Finset.univ →
      IsUniform μ (distinctPair bound) Finset.univ.offDiag) ∧
    ∀ p, Arranges p bound → ∀ s : σ, ∃ i j s' q, Yields (distinctPair p.size) s (i, j) s' ∧
      Yields (swapMutation p) s q s' ∧ Arranges q bound ∧
      changedSlots p q = {i.val, j.val} ∧ (changedSlots p q).card = 2 := by
  refine ⟨bijOn_pairOf bound, fun s => ?_, fun μ h => h.distinctPair,
    fun p hp s => exists_swapMutation hp hb s⟩
  obtain ⟨pair, s', hpair, -⟩ := ensures_distinctPair hb s
  have hmapped := hpair
  rw [distinctPair_eq] at hmapped
  obtain ⟨draws, hdraws, rfl⟩ := yields_map.mp hmapped
  exact ⟨draws, s', hdraws, hpair⟩

section Seeds

/-- One state for each value, all taken with the same chance, spread a draw evenly. -/
theorem isUniform_of_states {σ α : Type} [MeasurableSpace σ] [DiscreteMeasurableSpace σ] [Fintype α]
    {x : Draw σ α} {state : α → σ} (h : ∀ a, ∃ s', Yields x (state a) a s') :
    IsUniform (∑ a, (Fintype.card α : ℝ≥0∞)⁻¹ • Measure.dirac (state a)) x Finset.univ := by
  classical
  refine ⟨fun a _ => ?_, fun a ha => absurd (Finset.mem_univ a) ha⟩
  have hmem : ∀ b, state b ∈ comesFrom x a ↔ b = a := by
    intro b
    obtain ⟨s', hb⟩ := h b
    refine ⟨fun ⟨s₁, ha⟩ => (hb.unique ha).1, fun heq => ?_⟩
    rw [← heq]
    exact ⟨s', hb⟩
  rw [Measure.finsetSum_apply]
  simp [Set.indicator_apply, hmem, Finset.card_univ]

instance : MeasurableSpace KeyStream := ⊤

instance : DiscreteMeasurableSpace KeyStream := ⟨fun _ => trivial⟩

/-- Seeds that give each index below three, and each place among the other two, once. -/
def seedFor : Fin 3 × Fin 2 → UInt64
  | (0, 0) => 2
  | (0, 1) => 9
  | (1, 0) => 5
  | (1, 1) => 4
  | (2, 0) => 0
  | (2, 1) => 25

/-- Six seeds give each of the six pairs of different indices below three once. -/
theorem distinctPair_reaches_each_pair_once_three :
    2 ≤ 3 ∧ Arranges #[2, 0, 1] 3 ∧ ∃ μ : Measure KeyStream,
      IsUniform μ (drawsOfPair 3) Finset.univ ∧ IsUniform μ (distinctPair 3) Finset.univ.offDiag ∧
      ∀ s : KeyStream, ∃ q s', Yields (swapMutation #[2, 0, 1]) s q s' ∧ Arranges q 3 ∧
        (changedSlots #[2, 0, 1] q).card = 2 := by
  have hp : Arranges #[2, 0, 1] 3 := by
    rw [Arranges]
    decide
  have hseeds : ∀ draws : Fin 3 × Fin 2,
      ((drawsOfPair 3).run (RandomSource.ofSeed (seedFor draws) : KeyStream)).1 = .ok draws := by
    decide +kernel
  have huniform := isUniform_of_states (x := drawsOfPair 3) fun draws => ⟨_, Prod.ext (hseeds draws) rfl⟩
  obtain ⟨-, -, hspread, hmutants⟩ :=
    distinctPair_reaches_each_pair_once (σ := KeyStream) (show 2 ≤ 3 by decide)
  refine ⟨by decide, hp, _, huniform, hspread _ huniform, fun s => ?_⟩
  obtain ⟨i, j, s', q, -, hq, harranges, -, hcard⟩ := hmutants _ hp s
  exact ⟨q, s', hq, harranges, hcard⟩

end Seeds

end Placement
