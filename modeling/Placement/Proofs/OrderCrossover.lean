import Placement.Proofs.Arrangement
import Placement.Random.KeyStream

/-!
# What the order crossover makes

A child of two arrangements keeps a slice of the first parent in its slots. Around the slice stand the
other entries in the order that they have in the second parent, and there is nothing else in it. These
two facts and its size leave no choice: an array has them exactly if it is the child that the crossover
builds (`withSlice_eq_ok_iff`). So nothing that the crossover does besides, such as filling up a child
that lacks entries, ever shows.
-/

namespace Placement

open Draw

namespace Crossover

/-- The entries outside the slots from `start` up to `stop`, from left to right. -/
def around (p : Array Nat) (start stop : Nat) : List Nat :=
  p.toList.take start ++ p.toList.drop stop

/-- The child has the entries of `a` in the slots from `start` up to `stop`, and outside of them it
reads as `b` without these entries. -/
structure IsChild (a b : Array Nat) (start stop : Nat) (child : Array Nat) : Prop where
  size_eq : child.size = a.size
  kept : ∀ i, start ≤ i → i < stop → child[i]? = a[i]?
  around_eq : around child start stop = lacking (slice a start stop) b.toList

section Slice

variable {p q : Array Nat} {start stop : Nat}

theorem getElem?_slice (p : Array Nat) (start stop k : Nat) :
    (slice p start stop)[k]? = if k < stop - start then p[start + k]? else none := by
  rw [slice, List.getElem?_take, List.getElem?_drop, Array.getElem?_toList]

theorem slice_eq_iff (h : start ≤ stop) :
    slice p start stop = slice q start stop ↔ ∀ i, start ≤ i → i < stop → p[i]? = q[i]? := by
  constructor
  · intro heq i hstart hstop
    have hk : i - start < stop - start := by omega
    have hi : start + (i - start) = i := by omega
    have hget := congrArg (·[i - start]?) heq
    simp only [getElem?_slice, if_pos hk, hi] at hget
    exact hget
  · intro hall
    refine List.ext_getElem? fun k => ?_
    rw [getElem?_slice, getElem?_slice]
    split
    · exact hall _ (by omega) (by omega)
    · rfl

/-- An array is its slice with what stands around it. -/
theorem toList_eq_around_slice (h₁ : start ≤ stop) (h₂ : stop ≤ p.size) :
    p.toList = (around p start stop).take start ++ slice p start stop ++
      (around p start stop).drop start := by
  have hlen : (p.toList.take start).length = start := by
    rw [List.length_take, Array.length_toList]
    omega
  have hback : (p.toList.drop start).drop (stop - start) = p.toList.drop stop := by
    rw [List.drop_drop, Nat.add_sub_cancel' h₁]
  rw [around, List.take_left' hlen, List.drop_left' hlen, List.append_assoc, slice, ← hback,
    List.take_append_drop, List.take_append_drop]

end Slice

variable {a b child : Array Nat} {n start stop : Nat}

/-- Of two arrangements the crossover makes exactly the array that has the slice of the first and the
order of the second. -/
theorem withSlice_eq_ok_iff (ha : Arranges a n) (hb : Arranges b n) (h₁ : start ≤ stop)
    (h₂ : stop ≤ n) : withSlice a b start stop = .ok child ↔ IsChild a b start stop child := by
  have hrest := length_lacking ha hb h₁ h₂
  have hfront : ((lacking (slice a start stop) b.toList).take start).length = start := by
    rw [List.length_take]
    omega
  have hslice : (slice a start stop).length = stop - start := by
    rw [slice, List.length_take, List.length_drop, ha.length_toList]
    omega
  rw [withSlice_eq ha hb h₁ h₂, Except.ok.injEq]
  constructor
  · rintro rfl
    have hmiddle : ((lacking (slice a start stop) b.toList).take start ++
        slice a start stop).length = stop := by
      rw [List.length_append]
      omega
    refine ⟨?_, (slice_eq_iff h₁).mp ?_, ?_⟩
    · rw [List.size_toArray, List.length_append, hmiddle, List.length_drop, ha.size_eq]
      omega
    · rw [slice, List.append_assoc, List.drop_left' hfront, List.take_left' hslice]
    · rw [around, List.drop_left' hmiddle, List.append_assoc, List.take_left' hfront,
        List.take_append_drop]
  · rintro ⟨hsize, hkept, haround⟩
    have hstop : stop ≤ child.size := by
      rw [hsize, ha.size_eq]
      exact h₂
    rw [← haround, ← (slice_eq_iff h₁).mpr hkept, ← toList_eq_around_slice h₁ hstop]

theorem IsChild.arranges (h : IsChild a b start stop child) (ha : Arranges a n)
    (hb : Arranges b n) (h₁ : start ≤ stop) (h₂ : stop ≤ n) : Arranges child n := by
  obtain ⟨other, hother, hn⟩ := withSlice_arranges ha hb h₁ h₂
  cases hother.symm.trans ((withSlice_eq_ok_iff ha hb h₁ h₂).mpr h)
  exact hn

/-- An arrangement is its own child if the slice is all of it. -/
theorem isChild_self (ha : Arranges a n) (hb : Arranges b n) : IsChild a b 0 n a := by
  have hlen := length_lacking ha hb (Nat.zero_le n) (Nat.le_refl n)
  rw [Nat.sub_zero, Nat.sub_self] at hlen
  refine ⟨rfl, fun i _ _ => rfl, ?_⟩
  rw [List.length_eq_zero_iff.mp hlen, around, List.take_zero, List.nil_append,
    List.drop_of_length_le (Nat.le_of_eq ha.length_toList)]

/-! ## A random slice -/

variable {σ : Type} [RandomSource σ]

/-- From two draws in whatever order comes the slice between them, its ends included. -/
theorem yields_random (ha : Arranges a n) (hb : Arranges b n) (hn : 2 ≤ n) {s s₁ s₂ : σ}
    {i j : Fin a.size} (hi : Yields (index a.size) s i s₁) (hj : Yields (index a.size) s₁ j s₂) :
    ∃ child, Yields (random a b) s child s₂ ∧
      IsChild a b (min i.val j.val) (max i.val j.val + 1) child := by
  have hsize : ¬a.size < 2 := by
    rw [ha.size_eq]
    omega
  have hle : min i.val j.val ≤ max i.val j.val + 1 := by omega
  have hstop : max i.val j.val + 1 ≤ n := by
    have hn := ha.size_eq
    have hi := i.isLt
    have hj := j.isLt
    omega
  obtain ⟨child, hchild, -⟩ := withSlice_arranges ha hb hle hstop
  refine ⟨child, ?_, (withSlice_eq_ok_iff ha hb hle hstop).mp hchild⟩
  rw [random, if_neg hsize]
  exact hi.bind (hj.bind (yields_checked.mpr ⟨hchild, rfl⟩))

theorem exists_random (ha : Arranges a n) (hb : Arranges b n) (hn : 1 ≤ n) (s : σ) :
    ∃ child s' start stop, Yields (random a b) s child s' ∧ start < stop ∧ stop ≤ n ∧
      IsChild a b start stop child := by
  by_cases hsize : a.size < 2
  · refine ⟨a, s, 0, n, ?_, hn, Nat.le_refl n, isChild_self ha hb⟩
    rw [random, if_pos hsize]
    exact yields_pure.mpr ⟨rfl, rfl⟩
  · have hpos : 0 < a.size := by omega
    obtain ⟨i, s₁, hi, -⟩ := ensures_index hpos s
    obtain ⟨j, s₂, hj, -⟩ := ensures_index hpos s₁
    obtain ⟨child, hchild, his⟩ := yields_random ha hb (ha.size_eq ▸ by omega) hi hj
    refine ⟨child, s₂, _, _, hchild, by omega, ?_, his⟩
    have hn := ha.size_eq
    have hi := i.isLt
    have hj := j.isLt
    omega

/-- The child of two arrangements at any slice is an arrangement, and the one array that has the slice
of the first parent and around it the order of the second. Drawing the ends of a slice, in whatever
order they come, makes the child for the slice between them, which has at least one slot. -/
theorem child_has_slice_and_order {a b : Array Nat} {n : Nat} (ha : Arranges a n)
    (hb : Arranges b n) :
    (∀ start stop, start ≤ stop → stop ≤ n → ∃ child, withSlice a b start stop = .ok child ∧
      Arranges child n ∧ (n ≤ unfilled → unfilled ∉ child) ∧
      ∀ other, IsChild a b start stop other ↔ other = child) ∧
    (1 ≤ n → ∀ s : σ, ∃ child s' start stop, Yields (random a b) s child s' ∧ Arranges child n ∧
      start < stop ∧ stop ≤ n ∧ IsChild a b start stop child) ∧
    (2 ≤ n → ∀ (s : σ) i s₁ j s₂, Yields (index a.size) s i s₁ → Yields (index a.size) s₁ j s₂ →
      ∃ child, Yields (random a b) s child s₂ ∧
        IsChild a b (min i.val j.val) (max i.val j.val + 1) child) := by
  refine ⟨fun start stop h₁ h₂ => ?_, fun hn s => ?_, fun hn s i s₁ j s₂ => yields_random ha hb hn⟩
  · obtain ⟨child, hchild, harranges⟩ := withSlice_arranges ha hb h₁ h₂
    refine ⟨child, hchild, harranges, fun hn hmem => ?_, fun other => ?_⟩
    · have hlt := harranges.lt_of_mem hmem
      omega
    · rw [← withSlice_eq_ok_iff ha hb h₁ h₂, hchild, Except.ok.injEq, eq_comm]
  · obtain ⟨child, s', start, stop, hyields, h₁, h₂, hchild⟩ := exists_random ha hb hn s
    exact ⟨child, s', start, stop, hyields, hchild.arranges ha hb h₁.le h₂, h₁, h₂, hchild⟩

/-- The second parent gives its entries to the slots on both sides of the slice. -/
theorem child_has_slice_and_order_four :
    Arranges #[3, 1, 0, 2] 4 ∧ Arranges #[0, 1, 2, 3] 4 ∧
    withSlice #[3, 1, 0, 2] #[0, 1, 2, 3] 1 3 = .ok #[2, 1, 0, 3] ∧
    IsChild #[3, 1, 0, 2] #[0, 1, 2, 3] 1 3 #[2, 1, 0, 3] ∧
    ∃ child s', Yields (random #[3, 1, 0, 2] #[0, 1, 2, 3]) (RandomSource.ofSeed 7 : KeyStream)
      child s' ∧ Arranges child 4 := by
  have ha : Arranges #[3, 1, 0, 2] 4 := by
    rw [Arranges]
    decide
  have hb : Arranges #[0, 1, 2, 3] 4 := arranges_range 4
  have hchild : withSlice #[3, 1, 0, 2] #[0, 1, 2, 3] 1 3 = .ok #[2, 1, 0, 3] := by decide
  obtain ⟨hslice, hrandom, -⟩ := child_has_slice_and_order (σ := KeyStream) ha hb
  obtain ⟨child, hmade, -, -, hiff⟩ := hslice 1 3 (by decide) (by decide)
  cases hchild.symm.trans hmade
  obtain ⟨child, s', -, -, hyields, harranges, -⟩ := hrandom (by decide) (RandomSource.ofSeed 7)
  exact ⟨ha, hb, hchild, (hiff _).mpr rfl, child, s', hyields, harranges⟩

end Crossover

end Placement
