import Mathlib.Data.List.Perm.Basic
import Mathlib.Data.List.Nodup
import Placement.Assignment.Instance
import Placement.Permutation
import Placement.Proofs.Draws

/-!
# Arrangements stay arrangements

An array arranges `n` if its entries are `0, …, n - 1`, each once. The shuffle makes such arrays out of
nothing, exchanges keep them, and the order crossover makes one out of two. The last is the only case
with an argument. Its two loops are followed slot by slot (`Kept`, `Filled`), for any two parents whose
entries the table of marks has room for, and what they build is written down at once
(`withSlice_eq_ofFn`). If the parents are arrangements, the entries of the second that the slice of the
first lacks are exactly as many as the slots around the slice, so every slot is filled, and no entry
comes twice.

Of an arrangement, all cells that the objective and the change of an exchange read do exist. This is
what keeps a search from stopping short.
-/

namespace Placement

/-- The entries are `0, …, n - 1`, each once. -/
def Arranges (p : Array Nat) (n : Nat) : Prop :=
  p.toList.Perm (List.range n)

namespace Arranges

variable {p : Array Nat} {n : Nat}

theorem length_toList (h : Arranges p n) : p.toList.length = n := by
  rw [h.length_eq, List.length_range]

theorem size_eq (h : Arranges p n) : p.size = n :=
  h.length_toList

theorem mem_iff (h : Arranges p n) {v : Nat} : v ∈ p.toList ↔ v < n := by
  rw [List.Perm.mem_iff h, List.mem_range]

theorem nodup (h : Arranges p n) : p.toList.Nodup :=
  (List.Perm.nodup_iff h).mpr List.nodup_range

theorem lt_of_mem (h : Arranges p n) {v : Nat} (hv : v ∈ p) : v < n :=
  h.mem_iff.mp (Array.mem_def.mp hv)

end Arranges

theorem arranges_range (n : Nat) : Arranges (Array.range n) n := by
  rw [Arranges, Array.toList_range]

/-- An exchange of two entries loses none and makes none. -/
theorem swapIfInBounds_perm (p : Array Nat) (i j : Nat) :
    (p.swapIfInBounds i j).toList.Perm p.toList := by
  rw [Array.swapIfInBounds_def]
  by_cases hi : i < p.size
  · by_cases hj : j < p.size
    · rw [dif_pos hi, dif_pos hj]
      exact (Array.swap_perm hi hj).toList
    · rw [dif_pos hi, dif_neg hj]
  · rw [dif_neg hi]

theorem Arranges.swapIfInBounds {p : Array Nat} {n : Nat} (h : Arranges p n) (i j : Nat) :
    Arranges (p.swapIfInBounds i j) n :=
  (swapIfInBounds_perm p i j).trans h

/-! ## The shuffle -/

section Source

variable {σ : Type} [RandomSource σ]

/-- Every step of the shuffle is an exchange, whatever is drawn. -/
theorem shuffleFrom_perm (last : Nat) (values : Array Nat) (s : σ) :
    ((Random.shuffleFrom last values).run s).1.toList.Perm values.toList := by
  induction last generalizing values s with
  | zero => exact List.Perm.refl _
  | succ last ih =>
      let drawn := (Random.partner (last + 1) : StateM σ (Fin (last + 1 + 1))).run s
      exact (ih (values.swapIfInBounds (last + 1) drawn.1) drawn.2).trans
        (swapIfInBounds_perm values (last + 1) drawn.1)

theorem permutation_arranges (n : Nat) (s : σ) :
    Arranges ((Random.permutation n).run s).1 n :=
  (shuffleFrom_perm (n - 1) (Array.range n) s).trans (arranges_range n)

theorem ensures_permutation (n : Nat) :
    Draw.Ensures (liftM (Random.permutation n : StateM σ (Array Nat)) : Draw σ (Array Nat))
      (Arranges · n) :=
  Draw.ensures_lift (P := (Arranges · n)) (permutation_arranges n)

end Source

/-! ## The order crossover -/

namespace Crossover

/-- What a list lacks of another one that holds all its entries. -/
def lacking (slice vs : List Nat) : List Nat :=
  vs.filter fun v => !decide (v ∈ slice)

/-- A part of the entries, and the entries that it lacks, are all of them. -/
theorem append_lacking_perm {slice vs : List Nat} (hs : slice.Nodup) (hv : vs.Nodup)
    (hsub : ∀ v ∈ slice, v ∈ vs) : (slice ++ lacking slice vs).Perm vs := by
  have hin : (vs.filter fun v => decide (v ∈ slice)).Perm slice := by
    rw [List.perm_ext_iff_of_nodup (hv.filter _) hs]
    intro v
    rw [List.mem_filter, decide_eq_true_eq]
    exact ⟨fun h => h.2, fun h => ⟨hsub v h, h⟩⟩
  exact (hin.symm.append_right _).trans (List.filter_append_perm _ vs)

variable {a b : Array Nat} {n start stop : Nat}

/-- The slice that a child keeps of its first parent. -/
def slice (a : Array Nat) (start stop : Nat) : List Nat :=
  (a.toList.drop start).take (stop - start)

theorem mem_of_mem_slice {v : Nat} (h : v ∈ slice a start stop) : v ∈ a.toList :=
  List.mem_of_mem_drop (List.mem_of_mem_take h)

theorem slice_succ (h : start ≤ stop) (hstop : stop < a.size) :
    slice a start (stop + 1) = slice a start stop ++ [a[stop]] := by
  have hlen : stop - start < (a.toList.drop start).length := by
    rw [List.length_drop, Array.length_toList]
    omega
  rw [slice, Nat.succ_sub h, ← List.take_append_getElem hlen, slice, List.getElem_drop,
    Array.getElem_toList]
  simp only [Nat.add_sub_cancel' h]

/-! ### The slots of the slice -/

/-- The child and the marks once the slots from `start` up to `stop` have been copied. -/
structure Kept (a : Array Nat) (start stop : Nat) (made : Array Nat × Array Bool) : Prop where
  size_child : made.1.size = a.size
  size_marks : made.2.size = a.size
  child_eq : ∀ j < a.size, made.1[j]? = if start ≤ j ∧ j < stop then a[j]? else some unfilled
  marked_eq : ∀ v, made.2.getD v false = decide (v ∈ slice a start stop)

theorem kept_start (a : Array Nat) (start : Nat) :
    Kept a start start (Array.replicate a.size unfilled, Array.replicate a.size false) where
  size_child := Array.size_replicate
  size_marks := Array.size_replicate
  child_eq j hj := by
    rw [if_neg (by omega), Array.getElem?_replicate, if_pos hj]
  marked_eq v := by
    rw [slice, Nat.sub_self, List.take_zero]
    simp [Array.getD]

theorem Kept.keep {made : Array Nat × Array Bool} (h : Kept a start stop made)
    (hle : start ≤ stop) (hstop : stop < a.size) (hv : a[stop] < a.size) :
    ∃ made', keep a made stop = .ok made' ∧ Kept a start (stop + 1) made' := by
  have hmark : a[stop] < made.2.size := h.size_marks.symm ▸ hv
  refine ⟨_, by rw [Crossover.keep, dif_pos hstop, dif_pos hmark], ?_, ?_, fun j hj => ?_,
    fun v => ?_⟩
  · rw [Array.size_setIfInBounds, h.size_child]
  · rw [Array.size_set, h.size_marks]
  · by_cases hj' : stop = j
    · subst hj'
      rw [Array.getElem?_setIfInBounds_self_of_lt (h.size_child.symm ▸ hstop),
        if_pos ⟨hle, Nat.lt_succ_self stop⟩, Array.getElem?_eq_getElem hstop]
    · rw [Array.getElem?_setIfInBounds_ne hj', h.child_eq j hj]
      exact if_congr (by omega) rfl rfl
  · have hother := h.marked_eq v
    rw [slice_succ hle hstop]
    by_cases hv' : a[stop] = v
    · subst hv'
      simp [Array.getD, hmark]
    · simp only [Array.getD_eq_getD_getElem?, Array.getElem?_set_ne hmark hv'] at hother ⊢
      rw [hother]
      simp [Ne.symm hv']

/-- Copying the slots of a slice comes through if the table of marks has room for its entries. -/
theorem exists_kept (a : Array Nat) (start len : Nat) (hstop : start + len ≤ a.size)
    (hlt : ∀ v ∈ slice a start (start + len), v < a.size) :
    ∃ made, (List.range' start len).foldlM (keep a)
        (Array.replicate a.size unfilled, Array.replicate a.size false) = .ok made ∧
      Kept a start (start + len) made := by
  induction len with
  | zero => exact ⟨_, rfl, kept_start a start⟩
  | succ len ih =>
      have hle : start ≤ start + len := Nat.le_add_right _ _
      rw [← Nat.add_assoc, slice_succ hle (by omega)] at hlt
      obtain ⟨made, hmade, hkept⟩ := ih (by omega) fun v hv => hlt v (List.mem_append_left _ hv)
      obtain ⟨made', hmade', hkept'⟩ := hkept.keep hle (by omega)
        (hlt _ (List.mem_append_right _ (List.mem_singleton_self _)))
      refine ⟨made', ?_, hkept'⟩
      rw [List.range'_1_concat, List.foldlM_append, hmade]
      simp [bind, Except.bind, hmade', pure, Except.pure]

/-! ### The slots around the slice -/

/-- The entries that are not marked, in their order. -/
def free (placed : Array Bool) (vs : List Nat) : List Nat :=
  vs.filter fun v => !placed.getD v false

/-- Pulling passes over marked entries until the first that is not. -/
theorem exists_pull {placed : Array Bool} {vs : List Nat} (h : ∀ v ∈ vs, v < placed.size) :
    (free placed vs = [] ∧ pull placed vs = .ok none) ∨
    ∃ v rest, pull placed vs = .ok (some (v, rest)) ∧ free placed vs = v :: free placed rest ∧
      ∀ w ∈ rest, w < placed.size := by
  induction vs with
  | nil => exact .inl ⟨rfl, rfl⟩
  | cons u us ih =>
      have hu : u < placed.size := h u List.mem_cons_self
      have hus : ∀ v ∈ us, v < placed.size := fun v hv => h v (List.mem_cons_of_mem _ hv)
      cases hm : placed[u] with
      | true =>
          have hfree : free placed (u :: us) = free placed us :=
            List.filter_cons_of_neg (by simp [Array.getD, hu, hm])
          rw [pull, dif_pos hu, if_pos hm, hfree]
          exact ih hus
      | false =>
          refine .inr ⟨u, us, ?_, List.filter_cons_of_pos (by simp [Array.getD, hu, hm]), hus⟩
          rw [pull, dif_pos hu, if_neg (by simp [hm])]

/-- How many of the first `i` slots lie outside the slice. -/
def outside (start stop i : Nat) : Nat := min i start + (i - stop)

theorem outside_succ_of_mem {i : Nat} (h : start ≤ i ∧ i < stop) :
    outside start stop (i + 1) = outside start stop i := by
  rw [outside, outside]
  omega

theorem outside_succ_of_not_mem {i : Nat} (hle : start ≤ stop) (h : ¬(start ≤ i ∧ i < stop)) :
    outside start stop (i + 1) = outside start stop i + 1 := by
  rw [outside, outside]
  omega

/-- What the slots of the child hold once those below `i` have been filled from `given`. -/
structure Filled (a : Array Nat) (given : List Nat) (placed : Array Bool) (start stop i : Nat)
    (made : Array Nat × List Nat) : Prop where
  size_eq : made.1.size = a.size
  rest_lt : ∀ v ∈ made.2, v < placed.size
  rest_eq : free placed made.2 = given.drop (outside start stop i)
  child_eq : ∀ j < a.size, made.1[j]? =
    if start ≤ j ∧ j < stop then a[j]?
    else if j < i then some (given.getD (outside start stop j) unfilled) else some unfilled

section Slot

variable {given : List Nat} {placed : Array Bool} {i : Nat} {made : Array Nat × List Nat}

theorem Filled.of_slice (h : Filled a given placed start stop i made)
    (hslice : start ≤ i ∧ i < stop) : Filled a given placed start stop (i + 1) made where
  size_eq := h.size_eq
  rest_lt := h.rest_lt
  rest_eq := by rw [h.rest_eq, outside_succ_of_mem hslice]
  child_eq j hj := by
    rw [h.child_eq j hj]
    by_cases hj' : start ≤ j ∧ j < stop
    · rw [if_pos hj', if_pos hj']
    · rw [if_neg hj', if_neg hj']
      exact if_congr (by omega) rfl rfl

/-- Where nothing is left to give, the slot keeps its filler. -/
theorem Filled.of_none (h : Filled a given placed start stop i made) (hle : start ≤ stop)
    (hslice : ¬(start ≤ i ∧ i < stop)) (hnone : free placed made.2 = []) :
    Filled a given placed start stop (i + 1) (made.1, []) := by
  have hlen : given.length ≤ outside start stop i := by
    rw [← List.drop_eq_nil_iff, ← h.rest_eq, hnone]
  refine ⟨h.size_eq, nofun, ?_, fun j hj => ?_⟩
  · rw [outside_succ_of_not_mem hle hslice, List.drop_of_length_le (Nat.le_succ_of_le hlen)]
    rfl
  · rw [h.child_eq j hj]
    by_cases hij : j = i
    · subst hij
      rw [if_neg hslice, if_neg hslice, if_neg (Nat.lt_irrefl j), if_pos (Nat.lt_succ_self j),
        List.getD_eq_getElem?_getD, List.getElem?_eq_none hlen, Option.getD_none]
    · exact if_congr Iff.rfl rfl (if_congr (by omega) rfl rfl)

theorem Filled.of_some (h : Filled a given placed start stop i made) (hle : start ≤ stop)
    (hslice : ¬(start ≤ i ∧ i < stop)) (hi : i < a.size) {v : Nat} {rest : List Nat}
    (hsome : free placed made.2 = v :: free placed rest) (hrest : ∀ w ∈ rest, w < placed.size) :
    Filled a given placed start stop (i + 1) (made.1.setIfInBounds i v, rest) := by
  have hdrop : given.drop (outside start stop i) = v :: free placed rest :=
    h.rest_eq.symm.trans hsome
  have hv : given.getD (outside start stop i) unfilled = v := by
    have hget := congrArg (·[0]?) hdrop
    simp only [List.getElem?_drop, Nat.add_zero, List.getElem?_cons_zero] at hget
    rw [List.getD_eq_getElem?_getD, hget, Option.getD_some]
  refine ⟨?_, hrest, ?_, fun j hj => ?_⟩
  · rw [Array.size_setIfInBounds, h.size_eq]
  · rw [outside_succ_of_not_mem hle hslice, ← List.drop_drop, hdrop, List.drop_one,
      List.tail_cons]
  · by_cases hij : i = j
    · subst hij
      rw [Array.getElem?_setIfInBounds_self_of_lt (h.size_eq.symm ▸ hi), if_neg hslice,
        if_pos (Nat.lt_succ_self i), hv]
    · rw [Array.getElem?_setIfInBounds_ne hij, h.child_eq j hj]
      exact if_congr Iff.rfl rfl (if_congr (by omega) rfl rfl)

theorem Filled.fillSlot (h : Filled a given placed start stop i made) (hle : start ≤ stop)
    (hi : i < a.size) : ∃ made', fillSlot placed start stop made i = .ok made' ∧
      Filled a given placed start stop (i + 1) made' := by
  by_cases hslice : start ≤ i ∧ i < stop
  · exact ⟨made, by rw [Crossover.fillSlot, if_pos hslice]; rfl, h.of_slice hslice⟩
  · obtain ⟨hnone, hpull⟩ | ⟨v, rest, hpull, hsome, hrest⟩ := exists_pull h.rest_lt
    · refine ⟨(made.1, []), ?_, h.of_none hle hslice hnone⟩
      rw [Crossover.fillSlot, if_neg hslice, hpull]
      rfl
    · refine ⟨(made.1.setIfInBounds i v, rest), ?_, h.of_some hle hslice hi hsome hrest⟩
      rw [Crossover.fillSlot, if_neg hslice, hpull]
      rfl

/-- The slots below `i` are filled from left to right, each outside the slice with the next entry. -/
theorem exists_filled (h : Filled a given placed start stop 0 made) (hle : start ≤ stop)
    (hi : i ≤ a.size) :
    ∃ made', (List.range i).foldlM (Crossover.fillSlot placed start stop) made = .ok made' ∧
      Filled a given placed start stop i made' := by
  induction i with
  | zero => exact ⟨made, rfl, h⟩
  | succ i ih =>
      obtain ⟨made', hmade', hfilled⟩ := ih (by omega)
      obtain ⟨made'', hmade'', hfilled'⟩ := hfilled.fillSlot hle hi
      refine ⟨made'', ?_, hfilled'⟩
      rw [List.range_succ, List.foldlM_append, hmade']
      simp [bind, Except.bind, hmade'', pure, Except.pure]

end Slot

/-- The child of two parents of one length, whose entries all have a place in the table of marks: in
the slots of the slice the entries of the first parent, and in the slots around it, from left to
right, what the slice lacks of the second, until nothing is left. -/
theorem withSlice_eq_ofFn (hsize : b.size = a.size) (h₁ : start ≤ stop) (h₂ : stop ≤ a.size)
    (ha : ∀ v ∈ slice a start stop, v < a.size) (hb : ∀ v ∈ b.toList, v < a.size) :
    withSlice a b start stop = .ok (Array.ofFn fun j : Fin a.size =>
      if start ≤ j ∧ j < stop then a[j]
      else (lacking (slice a start stop) b.toList).getD (outside start stop j) unfilled) := by
  have hstop : start + (stop - start) = stop := by omega
  obtain ⟨⟨child, placed⟩, hkeep, hkept⟩ := exists_kept a start (stop - start) (by omega)
    (hstop.symm ▸ ha)
  rw [hstop] at hkept
  have hfree : free placed b.toList = lacking (slice a start stop) b.toList :=
    List.filter_congr fun v _ => by rw [hkept.marked_eq v]
  have hnone : Filled a (lacking (slice a start stop) b.toList) placed start stop 0
      (child, b.toList) := by
    refine ⟨hkept.size_child, fun v hv => hkept.size_marks.symm ▸ hb v hv, ?_, fun j hj => ?_⟩
    · rw [hfree, outside, Nat.zero_min, Nat.zero_sub, List.drop_zero]
    · rw [if_neg (Nat.not_lt_zero j)]
      exact hkept.child_eq j hj
  obtain ⟨⟨child', rest⟩, hfill, hfilled⟩ := exists_filled hnone h₁ (Nat.le_refl _)
  have hchild : child' = Array.ofFn fun j : Fin a.size =>
      if start ≤ j ∧ j < stop then a[j]
      else (lacking (slice a start stop) b.toList).getD (outside start stop j) unfilled := by
    refine Array.ext (by rw [Array.size_ofFn]; exact hfilled.size_eq) fun j hj _ => ?_
    have hja : j < a.size := hfilled.size_eq ▸ hj
    have hget := hfilled.child_eq j hja
    rw [Array.getElem?_eq_getElem hj, Array.getElem?_eq_getElem hja, if_pos hja,
      ← apply_ite some] at hget
    rw [Array.getElem_ofFn]
    exact Option.some.inj hget
  unfold withSlice
  simp only [hsize, ne_eq, not_true_eq_false, if_false, h₁, h₂, and_self, hkeep, bind, Except.bind,
    hfill, pure, Except.pure, hchild]

/-! ### The child of two arrangements -/

theorem slice_nodup (ha : Arranges a n) : (slice a start stop).Nodup :=
  (ha.nodup.sublist (List.drop_sublist _ _)).sublist (List.take_sublist _ _)

theorem slice_append_lacking_perm (ha : Arranges a n) (hb : Arranges b n) :
    (slice a start stop ++ lacking (slice a start stop) b.toList).Perm b.toList :=
  append_lacking_perm (slice_nodup ha) hb.nodup fun _ hv =>
    hb.mem_iff.mpr (ha.mem_iff.mp (mem_of_mem_slice hv))

/-- The second parent has as many entries outside the slice as there are slots around it. -/
theorem length_lacking (ha : Arranges a n) (hb : Arranges b n) (h₁ : start ≤ stop)
    (h₂ : stop ≤ n) : (lacking (slice a start stop) b.toList).length = n - (stop - start) := by
  have hlen : (slice a start stop ++ lacking (slice a start stop) b.toList).length =
      b.toList.length := (slice_append_lacking_perm ha hb).length_eq
  have hslice : (slice a start stop).length = stop - start := by
    rw [slice, List.length_take, List.length_drop, ha.length_toList]
    omega
  rw [List.length_append, hslice, hb.length_toList] at hlen
  omega

theorem length_slice (ha : Arranges a n) (h₂ : stop ≤ n) :
    (slice a start stop).length = stop - start := by
  rw [slice, List.length_take, List.length_drop, ha.length_toList]
  omega

/-- The child of two arrangements: the slice of the first in its place, and around it what the slice
lacks of the second, in its order. -/
theorem withSlice_eq (ha : Arranges a n) (hb : Arranges b n) (h₁ : start ≤ stop) (h₂ : stop ≤ n) :
    withSlice a b start stop =
      .ok ((lacking (slice a start stop) b.toList).take start ++ slice a start stop ++
        (lacking (slice a start stop) b.toList).drop start).toArray := by
  have hlen := length_lacking ha hb h₁ h₂
  have hslice : (slice a start stop).length = stop - start := length_slice ha h₂
  rw [withSlice_eq_ofFn (hb.size_eq.trans ha.size_eq.symm) h₁ (ha.size_eq.symm ▸ h₂)
    (fun v hv => ha.size_eq.symm ▸ ha.mem_iff.mp (mem_of_mem_slice hv))
    (fun v hv => ha.size_eq.symm ▸ hb.mem_iff.mp hv)]
  generalize lacking (slice a start stop) b.toList = given at hlen
  have hsize : a.size = n := ha.size_eq
  have hfront : (given.take start).length = start := by
    rw [List.length_take]
    omega
  have hmiddle : (given.take start ++ slice a start stop).length = stop := by
    rw [List.length_append]
    omega
  refine congrArg Except.ok (Array.ext ?_ fun j hj _ => ?_)
  · simp only [Array.size_ofFn, List.size_toArray, List.length_append, List.length_drop, hfront,
      hslice]
    omega
  · rw [Array.size_ofFn] at hj
    simp only [Array.getElem_ofFn, List.getElem_toArray, Fin.getElem_fin]
    obtain hbefore | hin | hbehind : j < start ∨ (start ≤ j ∧ j < stop) ∨ stop ≤ j := by omega
    · have hj' : outside start stop j = j := by
        rw [outside]
        omega
      have hmid : j < (given.take start ++ slice a start stop).length := by omega
      have hgiven : j < given.length := by omega
      rw [if_neg (by omega), hj', List.getElem_append_left hmid,
        List.getElem_append_left (by omega), List.getElem_take, List.getD_eq_getElem?_getD,
        List.getElem?_eq_getElem hgiven, Option.getD_some]
    · have hmid : j < (given.take start ++ slice a start stop).length := by omega
      have hj' : start + (j - start) = j := by omega
      rw [if_pos hin, List.getElem_append_left hmid, List.getElem_append_right (by omega)]
      simp only [slice, List.getElem_take, List.getElem_drop, Array.getElem_toList, hfront, hj']
    · have hj' : outside start stop j = start + (j - stop) := by
        rw [outside]
        omega
      have hgiven : start + (j - stop) < given.length := by omega
      rw [if_neg (by omega), hj', List.getElem_append_right (by omega), List.getElem_drop,
        List.getD_eq_getElem?_getD, List.getElem?_eq_getElem hgiven, Option.getD_some]
      simp only [hmiddle]

/-- The child of two arrangements is one. -/
theorem withSlice_arranges (ha : Arranges a n) (hb : Arranges b n) (h₁ : start ≤ stop)
    (h₂ : stop ≤ n) : ∃ child, withSlice a b start stop = .ok child ∧ Arranges child n := by
  refine ⟨_, withSlice_eq ha hb h₁ h₂, ?_⟩
  have hfree := List.take_append_drop start (lacking (slice a start stop) b.toList)
  have hperm : ((lacking (slice a start stop) b.toList).take start ++ slice a start stop ++
      (lacking (slice a start stop) b.toList).drop start).Perm
      (slice a start stop ++ lacking (slice a start stop) b.toList) := by
    conv_rhs => rw [← hfree, ← List.append_assoc]
    exact List.perm_append_comm.append_right _
  exact (hperm.trans (slice_append_lacking_perm ha hb)).trans hb

variable {σ : Type} [RandomSource σ]

theorem ensures_random (ha : Arranges a n) (hb : Arranges b n) :
    Draw.Ensures (random a b : Draw σ (Array Nat)) (Arranges · n) := by
  unfold random
  split
  · exact Draw.ensures_pure ha
  · next hsize =>
    refine (Draw.ensures_index (by omega)).bind fun i _ => ?_
    refine (Draw.ensures_index (by omega)).bind fun j _ => ?_
    have hi : i.val < n := ha.size_eq ▸ i.isLt
    have hj : j.val < n := ha.size_eq ▸ j.isLt
    have hle : min i.val j.val ≤ max i.val j.val + 1 := by omega
    obtain ⟨child, hchild, hn⟩ := withSlice_arranges ha hb hle (by omega)
    exact Draw.ensures_checked hchild hn

end Crossover

/-- Mutation exchanges two entries or none. -/
theorem ensures_swapMutation {σ : Type} [RandomSource σ] {p : Array Nat} {n : Nat}
    (h : Arranges p n) : Draw.Ensures (swapMutation p : Draw σ (Array Nat)) (Arranges · n) := by
  unfold swapMutation
  split
  · exact Draw.ensures_pure h
  · next hsize =>
    refine (Draw.ensures_distinctPair (by omega)).bind fun pair _ => Draw.ensures_pure ?_
    exact (Array.swap_perm _ _).toList.trans h

/-! ## Reading an instance through an arrangement -/

namespace Instance

variable {α : Type} {t : Instance α} {p : Array Nat}

theorem all_lt (hlt : ∀ v ∈ p, v < t.side) : p.all (· < t.side) = true := by
  rw [Array.all_eq_true_iff_forall_mem]
  intro v hv
  exact decide_eq_true (hlt v hv)

theorem objective?_of_lt [Zero α] [Add α] [Mul α] (hsize : p.size = t.side)
    (hlt : ∀ v ∈ p, v < t.side) : t.objective? p = .ok (t.objective p) := by
  have hcovers : t.covers p = true := by
    rw [covers, all_lt hlt, hsize, beq_self_eq_true, Bool.and_self]
  rw [objective?, if_pos hcovers]

theorem swapDelta?_of_lt [Zero α] [Add α] [Sub α] [Mul α] (hsize : p.size = t.side)
    (hlt : ∀ v ∈ p, v < t.side) {r s : Nat} (hr : r < t.side) (hs : s < t.side) :
    t.swapDelta? p r s = .ok (t.swapDelta p r s) := by
  have hadmits : t.admits p r s = true := by
    rw [admits, all_lt hlt, hsize]
    simp [hr, hs]
  rw [swapDelta?, hadmits, Bool.or_true, if_pos rfl]

/-- An arrangement of all slots has an objective. -/
theorem objective?_eq [Zero α] [Add α] [Mul α] (h : Arranges p t.side) :
    t.objective? p = .ok (t.objective p) :=
  objective?_of_lt h.size_eq fun _ => h.lt_of_mem

/-- The change for an exchange of two slots of an arrangement can be read off. -/
theorem swapDelta?_eq [Zero α] [Add α] [Sub α] [Mul α] (h : Arranges p t.side) {r s : Nat}
    (hr : r < t.side) (hs : s < t.side) : t.swapDelta? p r s = .ok (t.swapDelta p r s) :=
  swapDelta?_of_lt h.size_eq (fun _ => h.lt_of_mem) hr hs

end Instance

end Placement
