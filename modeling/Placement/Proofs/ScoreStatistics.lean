import Placement.Proofs.EqualShares
import Placement.Suite.Summary

/-!
# What a summary says of its scores

A summary has two counts and four statistics. `Faithful` says what each of them is, score by score and
without the order in which the scores come: which scores count, what a mean is (`Averages`), and what
the best and the worst of some values are (`Selects`). Over exact numbers this leaves no choice
(`Faithful.unique`), and the summary that is computed is faithful (`faithful_ofScores`). So it does not
change when the scores are put in another order, and failed scores have no part in a statistic.

Over floats a sum depends on the order of its terms. Nothing here is said of them.
-/

namespace Placement

namespace Summary

/-! ## Statistics of a list -/

section Statistics

variable {K : Type}

/-- The mean of nothing is absent; any other is the sum, divided equally. -/
structure Averages [Semiring K] (values : List K) (mean : Option K) : Prop where
  none_iff : mean = none ↔ values = []
  mul_length : ∀ m, mean = some m → m * values.length = values.sum

/-- A selection from nothing is absent; any other is the extreme of the values in the sense of
`Extreme`. -/
structure Selects (Extreme : Set K → K → Prop) (values : List K) (selected : Option K) : Prop where
  none_iff : selected = none ↔ values = []
  extreme : ∀ a, selected = some a → Extreme {x | x ∈ values} a

variable {values values' : List K} {o o' : Option K}

theorem eq_nil_iff_of_perm (hp : values.Perm values') : values' = [] ↔ values = [] := by
  rw [← List.perm_nil, ← List.perm_nil, hp.congr_left]

/-- Two options are equal if they are absent together and their values, where present, agree. -/
theorem eq_of_absent_together (hnone : o = none ↔ o' = none)
    (hsome : ∀ a b, o = some a → o' = some b → a = b) : o = o' := by
  cases o with
  | none => exact (hnone.mp rfl).symm
  | some a =>
      cases o' with
      | none => exact hnone.mpr rfl
      | some b => exact congrArg some (hsome a b rfl rfl)

theorem Selects.perm {Extreme : Set K → K → Prop} (h : Selects Extreme values o)
    (hp : values.Perm values') : Selects Extreme values' o := by
  have hset : {x | x ∈ values'} = {x | x ∈ values} := Set.ext fun x => hp.symm.mem_iff
  exact ⟨h.none_iff.trans (eq_nil_iff_of_perm hp).symm, fun a ha => hset ▸ h.extreme a ha⟩

/-- A selection is settled where a set has but one extreme. -/
theorem Selects.unique {Extreme : Set K → K → Prop} (h : Selects Extreme values o)
    (h' : Selects Extreme values o') (hone : ∀ s a b, Extreme s a → Extreme s b → a = b) :
    o = o' :=
  eq_of_absent_together (h.none_iff.trans h'.none_iff.symm) fun a b ha hb =>
    hone _ a b (h.extreme a ha) (h'.extreme b hb)

theorem Averages.perm [Semiring K] (h : Averages values o) (hp : values.Perm values') :
    Averages values' o := by
  refine ⟨h.none_iff.trans (eq_nil_iff_of_perm hp).symm, fun m hm => ?_⟩
  rw [← hp.length_eq, ← hp.sum_eq]
  exact h.mul_length m hm

theorem Averages.unique [Field K] [CharZero K] (h : Averages values o) (h' : Averages values o') :
    o = o' := by
  refine eq_of_absent_together (h.none_iff.trans h'.none_iff.symm) fun a b ha hb => ?_
  have hnonempty : values ≠ [] := fun hnil => Option.some_ne_none a (ha ▸ h.none_iff.mpr hnil)
  have hne : (values.length : K) ≠ 0 := Nat.cast_ne_zero.mpr (mt List.length_eq_zero_iff.mp hnonempty)
  have hsame : a * values.length = b * values.length :=
    (h.mul_length a ha).trans (h'.mul_length b hb).symm
  exact mul_right_cancel₀ hne hsame

end Statistics

/-! ## The statistics that are computed -/

section Extremes

variable {K : Type} [LinearOrder K]

theorem lesser_eq_min (a b : K) : lesser a b = min a b := by
  rw [lesser, if_pos (beq_self_eq_true a), min_comm, min_def_lt]

theorem greater_eq_max (a b : K) : greater a b = max a b := by
  rw [greater, if_pos (beq_self_eq_true a), max_def_lt]

theorem selects_lesser (values : List K) : Selects IsLeast values (combine? lesser values) := by
  have hmin : combine? lesser values = values.min? := by
    have hlesser : (lesser : K → K → K) = min := funext₂ lesser_eq_min
    rw [hlesser]
    cases values with
    | nil => rfl
    | cons a rest => rfl
  rw [hmin]
  exact ⟨List.min?_eq_none_iff, fun a ha => List.min?_eq_some_iff.mp ha⟩

theorem selects_greater (values : List K) : Selects IsGreatest values (combine? greater values) := by
  have hmax : combine? greater values = values.max? := by
    have hgreater : (greater : K → K → K) = max := funext₂ greater_eq_max
    rw [hgreater]
    cases values with
    | nil => rfl
    | cons a rest => rfl
  rw [hmax]
  exact ⟨List.max?_eq_none_iff, fun a ha => List.max?_eq_some_iff.mp ha⟩

end Extremes

section Means

variable {K : Type} [Field K]

theorem averages_mean? [CharZero K] [Gauge K] (hcount : ∀ k, (Gauge.ofNat k : K) = k) (values : List K) :
    Averages values (mean? values) := by
  cases values with
  | nil => exact ⟨⟨fun _ => rfl, fun _ => rfl⟩, fun m hm => (nomatch hm)⟩
  | cons a rest =>
      refine ⟨⟨fun hnone => (nomatch hnone), fun hnil => (nomatch hnil)⟩, fun m hm => ?_⟩
      have hne : ((a :: rest).length : K) ≠ 0 := Nat.cast_ne_zero.mpr (Nat.succ_ne_zero _)
      -- the sum starts from a negative zero, which is zero in a field
      have hsum : (a :: rest).foldl (· + ·) (-0) = (a :: rest).sum := by
        rw [neg_zero, List.sum_eq_foldl]
      obtain rfl : (a :: rest).foldl (· + ·) (-0) / Gauge.ofNat (a :: rest).length = m :=
        Option.some.inj hm
      rw [hcount, hsum, div_mul_cancel₀ _ hne]

/-- The mean of some values lies between the least and the greatest of them. -/
theorem Averages.between [LinearOrder K] [IsStrictOrderedRing K] {values : List K} {m least greatest : K}
    (h : Averages values (some m)) (hleast : IsLeast {x | x ∈ values} least)
    (hgreatest : IsGreatest {x | x ∈ values} greatest) : least ≤ m ∧ m ≤ greatest := by
  have hsum := h.mul_length m rfl
  have hpos : 0 < (values.length : K) := by
    exact_mod_cast List.length_pos_of_mem hleast.1
  constructor
  · have hbelow := values.card_nsmul_le_sum least fun x hx => hleast.2 hx
    rw [← hsum, nsmul_eq_mul, mul_comm] at hbelow
    exact le_of_mul_le_mul_right hbelow hpos
  · have habove := values.sum_le_card_nsmul greatest fun x hx => hgreatest.2 hx
    rw [← hsum, nsmul_eq_mul, mul_comm (values.length : K)] at habove
    exact le_of_mul_le_mul_right habove hpos

end Means

/-! ## Scores -/

section Scores

variable {K : Type}

theorem isUsable_iff {status : Status} : status.isUsable = true ↔ status ≠ .failed :=
  bne_iff_ne

/-- The gap that a score counts with. A failed score does not count. -/
def countedGap? (score : Score K) : Option K :=
  if score.status = .failed then none else score.gap

/-- The improvement that a score counts with, whether or not it has a gap. -/
def countedImprovement? (score : Score K) : Option K :=
  if score.status = .failed then none else some score.improvement

theorem usableGaps_eq (scores : List (Score K)) :
    (scores.filter fun score => score.status.isUsable).filterMap Score.gap =
      scores.filterMap countedGap? := by
  rw [List.filterMap_filter]
  congr
  funext score
  simp only [countedGap?, isUsable_iff, ite_not]

theorem usableImprovements_eq (scores : List (Score K)) :
    (scores.filter fun score => score.status.isUsable).map Score.improvement =
      scores.filterMap countedImprovement? := by
  rw [← List.filterMap_eq_map, List.filterMap_filter]
  congr
  funext score
  simp only [countedImprovement?, isUsable_iff, ite_not, Function.comp]

theorem gaps_eq_nil_iff {scores : List (Score K)} : scores.filterMap countedGap? = [] ↔
    ∀ score ∈ scores, score.status ≠ .failed → score.gap = none := by
  simp only [List.filterMap_eq_nil_iff, countedGap?, ite_eq_left_iff]

theorem improvements_eq_nil_iff {scores : List (Score K)} :
    scores.filterMap countedImprovement? = [] ↔ ∀ score ∈ scores, score.status = .failed := by
  simp [List.filterMap_eq_nil_iff, countedImprovement?]

theorem length_usable (scores : List (Score K)) :
    (scores.filter fun score => score.status.isUsable).length =
      scores.countP (·.status ≠ .failed) := by
  rw [← List.countP_eq_length_filter]
  refine List.countP_congr fun score _ => ?_
  rw [decide_eq_true_iff, isUsable_iff]

/-- Failed scores are counted, and have no other part in a summary. -/
theorem ofScores_filter_usable [Zero K] [Neg K] [Add K] [Div K] [Gauge K] [LT K] [DecidableLT K]
    [BEq K] (scores : List (Score K)) : ofScores scores =
      { ofScores (scores.filter fun score => score.status.isUsable) with
        total := scores.length
        failed := scores.countP (·.status = .failed) } := by
  have hagain : (scores.filter fun score => score.status.isUsable).filter
      (fun score => score.status.isUsable) = scores.filter fun score => score.status.isUsable := by
    simp only [List.filter_filter, Bool.and_self]
  have hall : scores.length =
      scores.countP (·.status = .failed) + scores.countP (·.status ≠ .failed) := by
    rw [List.length_eq_countP_add_countP (·.status = .failed)]
    simp only [decide_eq_true_eq]
  have hfailed : scores.length - (scores.filter fun score => score.status.isUsable).length =
      scores.countP (·.status = .failed) := by
    rw [length_usable, hall, Nat.add_sub_cancel]
  simp only [ofScores, hagain, hfailed]

/-! ## Faithful summaries -/

section Faithful

/-- What a summary has to say of some scores. -/
structure Faithful [Semiring K] [LinearOrder K] (scores : List (Score K)) (s : Summary K) : Prop where
  total_eq : s.total = scores.length
  succeeded_eq : s.succeeded = scores.countP (·.status ≠ .failed)
  failed_eq : s.failed = scores.countP (·.status = .failed)
  meanGap : Averages (scores.filterMap countedGap?) s.meanGap
  bestGap : Selects IsLeast (scores.filterMap countedGap?) s.bestGap
  worstGap : Selects IsGreatest (scores.filterMap countedGap?) s.worstGap
  meanImprovement : Averages (scores.filterMap countedImprovement?) s.meanImprovement

theorem Faithful.perm [Semiring K] [LinearOrder K] {scores scores' : List (Score K)} {s : Summary K}
    (h : Faithful scores s) (hp : scores.Perm scores') : Faithful scores' s where
  total_eq := h.total_eq.trans hp.length_eq
  succeeded_eq := h.succeeded_eq.trans (hp.countP_eq _)
  failed_eq := h.failed_eq.trans (hp.countP_eq _)
  meanGap := h.meanGap.perm (hp.filterMap _)
  bestGap := h.bestGap.perm (hp.filterMap _)
  worstGap := h.worstGap.perm (hp.filterMap _)
  meanImprovement := h.meanImprovement.perm (hp.filterMap _)

variable [Field K] [LinearOrder K]

theorem Faithful.unique [CharZero K] {scores : List (Score K)} {s s' : Summary K}
    (h : Faithful scores s) (h' : Faithful scores s') : s = s' := by
  cases s
  cases s'
  congr
  · exact h.total_eq.trans h'.total_eq.symm
  · exact h.succeeded_eq.trans h'.succeeded_eq.symm
  · exact h.failed_eq.trans h'.failed_eq.symm
  · exact h.meanGap.unique h'.meanGap
  · exact h.bestGap.unique h'.bestGap fun _ _ _ ha hb => ha.unique hb
  · exact h.worstGap.unique h'.worstGap fun _ _ _ ha hb => ha.unique hb
  · exact h.meanImprovement.unique h'.meanImprovement

variable [Gauge K]

theorem faithful_ofScores [CharZero K] (hcount : ∀ k, (Gauge.ofNat k : K) = k)
    (scores : List (Score K)) : Faithful scores (ofScores scores) := by
  have hfailed := congrArg Summary.failed (ofScores_filter_usable scores)
  refine ⟨rfl, length_usable scores, hfailed, ?_, ?_, ?_, ?_⟩
  · rw [← usableGaps_eq]
    exact averages_mean? hcount _
  · rw [← usableGaps_eq]
    exact selects_lesser _
  · rw [← usableGaps_eq]
    exact selects_greater _
  · rw [← usableImprovements_eq]
    exact averages_mean? hcount _

/-- Over exact numbers, the summary of some scores is the one faithful summary. Its statistics of gaps
are all absent if no usable score has a gap, and all present otherwise, the mean between the other two;
its mean improvement is absent only if no score is usable. Leaving out the failed scores changes
nothing but how many there are and how many failed, and putting the scores in another order changes
nothing at all. -/
theorem ofScores_faithful_in_any_order [IsStrictOrderedRing K]
    (hcount : ∀ k, (Gauge.ofNat k : K) = k) (scores : List (Score K)) :
    (∀ s, s = ofScores scores ↔ Faithful scores s) ∧
    ((∀ score ∈ scores, score.status ≠ .failed → score.gap = none) ∧
        (ofScores scores).meanGap = none ∧ (ofScores scores).bestGap = none ∧
        (ofScores scores).worstGap = none ∨
      (∃ score ∈ scores, score.status ≠ .failed ∧ score.gap ≠ none) ∧
        ∃ best mean worst, (ofScores scores).bestGap = some best ∧
          (ofScores scores).meanGap = some mean ∧ (ofScores scores).worstGap = some worst ∧
          best ≤ mean ∧ mean ≤ worst) ∧
    ((ofScores scores).meanImprovement = none ↔ ∀ score ∈ scores, score.status = .failed) ∧
    (ofScores scores = { ofScores (scores.filter fun score => score.status.isUsable) with
      total := scores.length
      failed := scores.countP (·.status = .failed) }) ∧
    ∀ scores', scores.Perm scores' → ofScores scores' = ofScores scores := by
  have h := faithful_ofScores hcount scores
  refine ⟨fun s => ⟨fun hs => hs ▸ h, fun hs => hs.unique h⟩, ?_,
    h.meanImprovement.none_iff.trans improvements_eq_nil_iff, ofScores_filter_usable scores, ?_⟩
  · by_cases hgapless : ∀ score ∈ scores, score.status ≠ .failed → score.gap = none
    · have hnil := gaps_eq_nil_iff.mpr hgapless
      exact Or.inl ⟨hgapless, h.meanGap.none_iff.mpr hnil, h.bestGap.none_iff.mpr hnil,
        h.worstGap.none_iff.mpr hnil⟩
    · have hsome : scores.filterMap countedGap? ≠ [] := fun hnil => hgapless (gaps_eq_nil_iff.mp hnil)
      obtain ⟨best, hbest⟩ := Option.ne_none_iff_exists'.mp (mt h.bestGap.none_iff.mp hsome)
      obtain ⟨mean, hmean⟩ := Option.ne_none_iff_exists'.mp (mt h.meanGap.none_iff.mp hsome)
      obtain ⟨worst, hworst⟩ := Option.ne_none_iff_exists'.mp (mt h.worstGap.none_iff.mp hsome)
      have hbetween := (hmean ▸ h.meanGap).between (h.bestGap.extreme best hbest)
        (h.worstGap.extreme worst hworst)
      push Not at hgapless
      exact Or.inr ⟨hgapless, best, mean, worst, hbest, hmean, hworst, hbetween⟩
  · intro scores' hp
    exact (faithful_ofScores hcount scores').unique (h.perm hp)

/-- A score with a name, a gap and an improvement. -/
def scored (name : String) (gap : Option ℚ) (improvement : ℚ) : Score ℚ :=
  { name, size := 3, status := .success, objective := some 1, optimum := some 1, gap, improvement,
    message := none }

/-- Two scores with a gap, one without, and one of an instance that could not be loaded. -/
def mixed : List (Score ℚ) :=
  [scored "near" (some 2) 10, scored "far" (some 6) 20, scored "alone" none 30,
    .unloaded "lost" "no such instance"]

/-- The mean gap is that of two scores and the mean improvement that of three, also the other way
round. -/
theorem ofScores_faithful_in_any_order_mixed :
    (∀ k, (Gauge.ofNat k : ℚ) = k) ∧ mixed.Perm mixed.reverse ∧
    (ofScores mixed.reverse).meanGap = some 4 ∧ (ofScores mixed.reverse).worstGap = some 6 ∧
    (ofScores mixed.reverse).meanImprovement = some 20 := by
  have hcount : ∀ k, (Gauge.ofNat k : ℚ) = k := fun _ => rfl
  obtain ⟨-, -, -, -, horder⟩ := ofScores_faithful_in_any_order hcount mixed
  have hperm : mixed.Perm mixed.reverse := (List.reverse_perm mixed).symm
  refine ⟨hcount, hperm, ?_⟩
  rw [horder _ hperm]
  decide +kernel

end Faithful

end Scores

end Summary

end Placement
