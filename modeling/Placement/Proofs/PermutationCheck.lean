import Placement.Proofs.Arrangement
import Placement.Result

/-!
# What is recognised as a permutation

The check counts the entries, and then goes through them and marks each in a table. It turns away what
lies out of range and what comes twice, and never asks whether an index is missing. It need not: as many
different entries below `n` as there are indices below `n` leave none of them out (`arranges_of_nodup`).

Entries are guarded by `n`, while marks are read from a table. That the two fit together, so that no
mark is ever read or written outside of the table, is a fact about the whole scan: marking keeps the
size of the table, and the first table has it (`guardedScan_eq`).
-/

namespace Placement

/-! ## The scan -/

/-- Entries pass if they are different, and each has a place in the table that is not yet marked. -/
theorem allFresh_iff {vs : List Nat} {seen : Array Bool} :
    allFresh vs seen = true ↔ vs.Nodup ∧ ∀ v ∈ vs, seen[v]? = some false := by
  induction vs generalizing seen with
  | nil => simp [allFresh]
  | cons u us ih =>
      rw [allFresh]
      by_cases hu : u < seen.size
      · rw [dif_pos hu]
        cases hmark : seen[u] with
        | true => simp [hu, hmark]
        | false =>
            -- the mark on `u` turns away a second `u`, and nothing else
            have hmarked : (∀ v ∈ us, (seen.set u true hu)[v]? = some false) ↔
                u ∉ us ∧ ∀ v ∈ us, seen[v]? = some false := by
              simp only [Array.getElem?_set]
              grind
            rw [if_neg Bool.false_ne_true, ih, hmarked]
            simp only [List.nodup_cons, List.forall_mem_cons, Array.getElem?_eq_getElem hu, hmark,
              true_and]
            tauto
      · simp [hu]

/-- The scan with its guard and its table apart: an entry is turned away if it is not below `n`, and
otherwise looked up in the table, which breaks a precondition if the table has no place for it. -/
def guardedScan (n : Nat) : List Nat → (seen : Array Bool) → Except Breach Bool
  | [], _ => .ok true
  | v :: vs, seen =>
    if n ≤ v then .ok false
    else if h : v < seen.size then
      if seen[v] then .ok false else guardedScan n vs (seen.set v true h)
    else .error .outOfBounds

/-- With a place for each index below `n`, the guard keeps every look-up within the table. -/
theorem guardedScan_eq {n : Nat} {seen : Array Bool} (h : seen.size = n) (vs : List Nat) :
    guardedScan n vs seen = .ok (allFresh vs seen) := by
  induction vs generalizing seen with
  | nil => rfl
  | cons v vs ih =>
      rw [guardedScan, allFresh]
      by_cases hv : v < seen.size
      · have hguard : ¬n ≤ v := by omega
        rw [if_neg hguard, dif_pos hv, dif_pos hv]
        split
        · rfl
        · exact ih ((Array.size_set hv).trans h)
      · have hguard : n ≤ v := by omega
        rw [if_pos hguard, dif_neg hv]

/-- A table that is too small would not do. -/
example : guardedScan 2 [0, 1] #[false] = .error .outOfBounds := rfl

/-- The check as a guarded scan. -/
def isPermutation? (values : Array Nat) (n : Nat) : Except Breach Bool :=
  if values.size ≠ n then .ok false
  else guardedScan n values.toList (Array.replicate n false)

theorem isPermutation?_eq (values : Array Nat) (n : Nat) :
    isPermutation? values n = .ok (isPermutation values n) := by
  unfold isPermutation? isPermutation
  rw [guardedScan_eq Array.size_replicate]
  split
  · next hsize => rw [beq_false_of_ne hsize, Bool.false_and]
  · next hsize => rw [beq_iff_eq.mpr (not_not.mp hsize), Bool.true_and]

/-! ## Permutations -/

variable {values : Array Nat} {n : Nat}

/-- So many different entries below `n` are all that there are. -/
theorem arranges_of_nodup (hsize : values.size = n) (hnodup : values.toList.Nodup)
    (hlt : ∀ v ∈ values.toList, v < n) : Arranges values n := by
  have hsub : values.toList ⊆ List.range n := fun v hv => List.mem_range.mpr (hlt v hv)
  refine (List.subperm_of_subset hnodup hsub).perm_of_length_le ?_
  rw [List.length_range, Array.length_toList, hsize]

theorem isPermutation_eq_true_iff : isPermutation values n = true ↔ Arranges values n := by
  have hunmarked : ∀ v, (Array.replicate n false)[v]? = some false ↔ v < n := by
    intro v
    simp [Array.getElem?_replicate]
  simp only [isPermutation, Bool.and_eq_true, beq_iff_eq, allFresh_iff, hunmarked]
  constructor
  · rintro ⟨hsize, hnodup, hlt⟩
    exact arranges_of_nodup hsize hnodup hlt
  · intro h
    exact ⟨h.size_eq, h.nodup, fun v hv => h.mem_iff.mp hv⟩

theorem arranges_iff_count : Arranges values n ↔
    (∀ v < n, values.toList.count v = 1) ∧ ∀ v ∈ values, v < n := by
  simp only [Arranges, List.perm_iff_count, List.count_range]
  constructor
  · intro h
    refine ⟨fun v hv => ?_, fun v hv => ?_⟩
    · rw [h v, if_pos hv]
    · by_contra hge
      have hcount := h v
      rw [if_neg hge, List.count_eq_zero] at hcount
      exact hcount (Array.mem_def.mp hv)
  · rintro ⟨honce, hlt⟩ v
    split
    · next hv => exact honce v hv
    · next hge => exact List.count_eq_zero.mpr fun hmem => hge (hlt v (Array.mem_def.mpr hmem))

theorem Solution.isPermutationOf_eq_true_iff (s : Solution) (n : Nat) :
    s.isPermutationOf n = true ↔ ∃ slots, s = .permutation slots ∧ Arranges slots n := by
  cases s with
  | permutation slots =>
      simp [isPermutationOf, permutation?, isPermutation_eq_true_iff]
  | allocation amounts =>
      simp [isPermutationOf, permutation?]

/-- Of all lists, the check accepts exactly the rearrangements of `0, …, n - 1`, in other words those in
which each index below `n` occurs once and nothing else occurs. Whatever the entries are, it never looks
outside of its table. A solution passes if it is a permutation, and one of these. -/
theorem isPermutation_accepts_rearrangements (values : Array Nat) (n : Nat) :
    (isPermutation values n = true ↔ Arranges values n) ∧
    (Arranges values n ↔ (∀ v < n, values.toList.count v = 1) ∧ ∀ v ∈ values, v < n) ∧
    isPermutation? values n = .ok (isPermutation values n) ∧
    ∀ s : Solution, s.isPermutationOf n = true ↔
      ∃ slots, s = .permutation slots ∧ Arranges slots n :=
  ⟨isPermutation_eq_true_iff, arranges_iff_count, isPermutation?_eq values n,
    fun s => s.isPermutationOf_eq_true_iff n⟩

end Placement
