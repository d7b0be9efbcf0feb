import Mathlib.Data.Int.Order.Basic
import Mathlib.Data.List.Nodup
import Placement.Heuristic
import Placement.Proofs.Arrangement
import Placement.Proofs.FloatOrder

/-!
# Routes go to the nearest node

Distances are compared by rank. This is an order of all floats, and one that agrees with the order of
numbers (`rank_lt_rank_of_lt`). A route is built one move at a time. Candidates are compared from left to
right, and a later one takes the place of an earlier one only if it is strictly nearer, so a comparison
ends at the first of the nearest (`Nearest`). The nodes that are left stand in ascending order all along
the route, hence the first of them is the smallest.

A `Tour` records every move together with the nodes that were left for it. Going through the nodes makes
one, which has as many moves as there are nodes: the search for the next node never comes back empty.
-/

namespace Placement

namespace Route

/-! ## The order of distances -/

section Rank

open FloatOrder

theorem rank_of_nonneg {x : Float} (h : x.toBits.toNat < 2 ^ 63) :
    rank x = (x.toBits.toNat : ℤ) :=
  if_pos h

theorem rank_of_neg {x : Float} (h : 2 ^ 63 ≤ x.toBits.toNat) :
    rank x = 2 ^ 63 - 1 - (x.toBits.toNat : ℤ) :=
  if_neg (Nat.not_lt.mpr h)

/-- Of two numbers the smaller one has the lower rank. -/
theorem rank_lt_rank_of_lt {x y : Float} (h : x < y) : rank x < rank y := by
  obtain ⟨_, _, hx, hy, hlt⟩ := lt_iff.mp h
  obtain ⟨s, k, g, e, m, hk, hbits, hstands, rfl⟩ := exists_stands hx
  obtain ⟨s', k', g', e', m', hk', hbits', hstands', rfl⟩ := exists_stands hy
  cases s with
  | positive =>
    cases s' with
    | positive =>
      have hbelow : k < k' := hstands.lt hstands' hlt
      simp only [signBits] at hbits hbits'
      rw [rank_of_nonneg (by omega), rank_of_nonneg (by omega)]
      omega
    | negative =>
      -- what is not negative is never below what is
      simp only [signed, height_lt_height] at hlt
      cases hstands <;> cases hstands' <;> omega
  | negative =>
    cases s' with
    | positive =>
      simp only [signBits] at hbits hbits'
      rw [rank_of_neg (by omega), rank_of_nonneg (by omega)]
      omega
    | negative =>
      have hopposite : height g' e' m' < height g e m := by
        simp only [signed, height_lt_height] at hlt ⊢
        omega
      have habove : k' < k := hstands'.lt hstands hopposite
      simp only [signBits] at hbits hbits'
      rw [rank_of_neg (by omega), rank_of_neg (by omega)]
      omega

end Rank

/-! ## The nearest node -/

variable {distance : Matrix Float} {current next : Nat} {left : List Nat}

theorem nearer_eq {a b : Nat} (hcurrent : current < distance.rows) (ha : a < distance.cols)
    (hb : b < distance.cols) : nearer distance current a b =
      .ok (if rank (distance.cell current b) < rank (distance.cell current a) then b else a) := by
  rw [nearer, distance.read_eq_cell hcurrent ha, distance.read_eq_cell hcurrent hb]
  rfl

/-- Of the nodes that are left `next` is one nearest to `current`, and the first of them. -/
def Nearest (distance : Matrix Float) (current : Nat) (left : List Nat) (next : Nat) : Prop :=
  ∃ front back, left = front ++ next :: back ∧
    (∀ v ∈ front, rank (distance.cell current next) < rank (distance.cell current v)) ∧
    ∀ v ∈ back, rank (distance.cell current next) ≤ rank (distance.cell current v)

theorem Nearest.mem (h : Nearest distance current left next) : next ∈ left := by
  obtain ⟨front, back, rfl, -, -⟩ := h
  simp

theorem Nearest.rank_le (h : Nearest distance current left next) {v : Nat} (hv : v ∈ left) :
    rank (distance.cell current next) ≤ rank (distance.cell current v) := by
  obtain ⟨front, back, rfl, hfront, hback⟩ := h
  rcases List.mem_append.mp hv with hv | hv
  · exact (hfront v hv).le
  · rcases List.mem_cons.mp hv with rfl | hv
    · exact Int.le_refl _
    · exact hback v hv

/-- Where the nodes stand in ascending order, the first of the nearest is the smallest of them. -/
theorem Nearest.le_of_rank_eq (h : Nearest distance current left next)
    (hsorted : left.Pairwise (· < ·)) {v : Nat} (hv : v ∈ left)
    (heq : rank (distance.cell current v) = rank (distance.cell current next)) : next ≤ v := by
  obtain ⟨front, back, rfl, hfront, -⟩ := h
  rcases List.mem_append.mp hv with hv | hv
  · have hlt := hfront v hv
    omega
  · rcases List.mem_cons.mp hv with rfl | hv
    · exact Nat.le_refl _
    · have htail := (List.pairwise_append.mp hsorted).2.1
      exact (List.rel_of_pairwise_cons htail hv).le

/-- Comparing candidates one after the other ends at the first of the nearest. -/
theorem foldlM_nearer (hcurrent : current < distance.rows) {a : Nat} {rest : List Nat}
    (hcols : ∀ v ∈ a :: rest, v < distance.cols) :
    ∃ next, rest.foldlM (nearer distance current) a = .ok next ∧
      Nearest distance current (a :: rest) next := by
  induction rest generalizing a with
  | nil => exact ⟨a, rfl, [], [], rfl, by simp, by simp⟩
  | cons b rest ih =>
      have ha := hcols a (by simp)
      have hb := hcols b (by simp)
      simp only [List.foldlM_cons, nearer_eq hcurrent ha hb]
      split
      -- the later candidate is kept, and what comes of it is no farther than it is
      · next hlt =>
        obtain ⟨next, hfold, hnearest⟩ := ih fun v hv => hcols v (List.mem_cons_of_mem a hv)
        have hle := hnearest.rank_le (List.mem_cons_self (a := b))
        obtain ⟨front, back, hsplit, hfront, hback⟩ := hnearest
        refine ⟨next, hfold, a :: front, back, by rw [hsplit, List.cons_append], ?_, hback⟩
        intro v hv
        rcases List.mem_cons.mp hv with rfl | hv
        · exact hle.trans_lt hlt
        · exact hfront v hv
      -- the earlier candidate is kept, at the end or until a nearer one comes
      · next hle =>
        obtain ⟨next, hfold, front, back, hsplit, hfront, hback⟩ :=
          ih (a := a) fun v hv => hcols v (by simp at hv ⊢; tauto)
        refine ⟨next, hfold, ?_⟩
        cases front with
        | nil =>
            obtain ⟨rfl, rfl⟩ := List.cons.inj hsplit
            refine ⟨[], b :: rest, rfl, by simp, fun v hv => ?_⟩
            rcases List.mem_cons.mp hv with rfl | hv
            · omega
            · exact hback v hv
        | cons a' front =>
            obtain ⟨rfl, rfl⟩ := List.cons.inj hsplit
            have hlt := hfront a List.mem_cons_self
            refine ⟨a :: b :: front, back, rfl, fun v hv => ?_, hback⟩
            rcases List.mem_cons.mp hv with rfl | hv
            · exact hlt
            · rcases List.mem_cons.mp hv with rfl | hv
              · omega
              · exact hfront v (List.mem_cons_of_mem a hv)

theorem nearest?_eq (hcurrent : current < distance.rows) (hleft : left ≠ [])
    (hcols : ∀ v ∈ left, v < distance.cols) :
    ∃ next, nearest? distance current left = .ok (some next) ∧
      Nearest distance current left next := by
  cases left with
  | nil => exact absurd rfl hleft
  | cons a rest =>
      obtain ⟨next, hfold, hnearest⟩ := foldlM_nearer hcurrent hcols
      exact ⟨next, by rw [nearest?, hfold]; rfl, hnearest⟩

/-! ## Tours -/

/-- From `current` on, the nodes that are left are visited in this order. Each is what the search among
those still left comes to. -/
inductive Tour (distance : Matrix Float) : (current : Nat) → (left visits : List Nat) → Prop
  | done {current : Nat} : Tour distance current [] []
  | move {current next : Nat} {left visits : List Nat} :
      nearest? distance current left = .ok (some next) → Nearest distance current left next →
      Tour distance next (left.erase next) visits → Tour distance current left (next :: visits)

theorem Tour.perm {visits : List Nat} (h : Tour distance current left visits) :
    visits.Perm left := by
  induction h with
  | done => exact List.Perm.refl []
  | move _ hnearest _ ih => exact (ih.cons _).trans (List.perm_cons_erase hnearest.mem).symm

/-- Each move of a tour is one from among the nodes that the moves before it have left. -/
theorem Tour.move_at {visits : List Nat} (h : Tour distance current left visits) {i : Nat}
    (hi : i < visits.length) : ∃ u v, (current :: visits)[i]? = some u ∧ visits[i]? = some v ∧
      nearest? distance u (left.diff (visits.take i)) = .ok (some v) ∧
      Nearest distance u (left.diff (visits.take i)) v := by
  induction h generalizing i with
  | done => simp at hi
  | @move current next left visits hfound hnearest _ ih =>
      cases i with
      | zero => exact ⟨current, next, rfl, rfl, hfound, hnearest⟩
      | succ i =>
          rw [List.length_cons] at hi
          obtain ⟨u, v, hu, hv, hmove⟩ := ih (i := i) (by omega)
          refine ⟨u, v, hu, hv, ?_⟩
          rw [List.take_succ_cons, List.diff_cons]
          exact hmove

/-- Going through the nodes that are left is a tour of them. -/
theorem through_tour (hsquare : distance.rows = distance.cols) (hcurrent : current < distance.rows)
    (hrows : ∀ v ∈ left, v < distance.rows) :
    ∃ visits, through distance left.length current left = .ok visits ∧
      Tour distance current left visits := by
  generalize hmissing : left.length = missing
  induction missing generalizing current left with
  | zero =>
      obtain rfl := List.length_eq_zero_iff.mp hmissing
      exact ⟨[], rfl, Tour.done⟩
  | succ missing ih =>
      have hleft : left ≠ [] := by
        rintro rfl
        simp at hmissing
      obtain ⟨next, hfound, hnearest⟩ :=
        nearest?_eq hcurrent hleft fun v hv => hsquare ▸ hrows v hv
      have hlength : (left.erase next).length = missing := by
        rw [List.length_erase_of_mem hnearest.mem]
        omega
      obtain ⟨visits, hvisits, htour⟩ :=
        ih (hrows next hnearest.mem) (fun v hv => hrows v (List.mem_of_mem_erase hv)) hlength
      refine ⟨next :: visits, ?_, Tour.move hfound hnearest htour⟩
      rw [through, hfound]
      show (through distance missing next (left.erase next) >>= _) = _
      rw [hvisits]
      rfl

/-! ## The whole route -/

/-- The nodes below `n` that are not among those seen, in ascending order. -/
def unseen (n : Nat) (seen : List Nat) : List Nat :=
  (List.range n).filter (· ∉ seen)

theorem mem_unseen {n v : Nat} {seen : List Nat} : v ∈ unseen n seen ↔ v < n ∧ v ∉ seen := by
  simp [unseen]

theorem unseen_sorted (n : Nat) (seen : List Nat) : (unseen n seen).Pairwise (· < ·) :=
  List.pairwise_lt_range.filter _

/-- Having seen some nodes and standing at `current`, a route finds the node to go to. It is a new one,
no other new one is nearer, neither by rank nor as a number, and of those of the same rank it is the
smallest. -/
structure GoesTo (distance : Matrix Float) (seen : List Nat) (current next : Nat) : Prop where
  found : nearest? distance current (unseen distance.rows seen) = .ok (some next)
  lt_rows : next < distance.rows
  not_mem : next ∉ seen
  rank_le : ∀ v < distance.rows, v ∉ seen →
    rank (distance.cell current next) ≤ rank (distance.cell current v)
  not_lt : ∀ v < distance.rows, v ∉ seen →
    ¬distance.cell current v < distance.cell current next
  le_of_rank_eq : ∀ v < distance.rows, v ∉ seen →
    rank (distance.cell current v) = rank (distance.cell current next) → next ≤ v

theorem goesTo_of_nearest {seen : List Nat}
    (hfound : nearest? distance current (unseen distance.rows seen) = .ok (some next))
    (h : Nearest distance current (unseen distance.rows seen) next) :
    GoesTo distance seen current next := by
  obtain ⟨hlt, hnew⟩ := mem_unseen.mp h.mem
  have hleast : ∀ v < distance.rows, v ∉ seen →
      rank (distance.cell current next) ≤ rank (distance.cell current v) :=
    fun v hv hseen => h.rank_le (mem_unseen.mpr ⟨hv, hseen⟩)
  refine ⟨hfound, hlt, hnew, hleast, fun v hv hseen hnearer => ?_, fun v hv hseen heq => ?_⟩
  · exact Int.not_lt.mpr (hleast v hv hseen) (rank_lt_rank_of_lt hnearer)
  · exact h.le_of_rank_eq (unseen_sorted _ _) (mem_unseen.mpr ⟨hv, hseen⟩) heq

/-- A route over a square starts at node zero and goes on from node to node, until it has seen all. -/
theorem greedy_goesTo (hsquare : distance.rows = distance.cols) :
    ∃ visits, greedy distance = .ok visits ∧ Arranges visits.toArray distance.rows ∧
      (0 < distance.rows → visits[0]? = some 0) ∧
      ∀ i, i + 1 < distance.rows → ∃ u v, visits[i]? = some u ∧ visits[i + 1]? = some v ∧
        GoesTo distance (visits.take (i + 1)) u v := by
  have hmem : ∀ v ∈ List.range distance.rows, v < distance.rows := fun v => List.mem_range.mp
  unfold greedy Arranges
  cases hnodes : List.range distance.rows with
  | nil =>
      have hrows : distance.rows = 0 := by simpa using hnodes
      exact ⟨[], rfl, List.Perm.refl [], by omega, by omega⟩
  | cons first left =>
      rw [hnodes] at hmem
      obtain ⟨visits, hvisits, htour⟩ := through_tour hsquare (hmem first (by simp))
        fun v hv => hmem v (List.mem_cons_of_mem first hv)
      have hlength : left.length + 1 = distance.rows := by
        rw [← List.length_cons (a := first), ← hnodes, List.length_range]
      have hfirst : first = 0 := by
        have hhead := congrArg List.head? hnodes
        rw [List.head?_range] at hhead
        split at hhead <;> simp_all
      refine ⟨first :: visits, ?_, htour.perm.cons first, fun _ => by rw [hfirst]; rfl, ?_⟩
      · simp only [hvisits]
        rfl
      · intro i hi
        have hlen := htour.perm.length_eq
        obtain ⟨u, v, hu, hv, hfound, hnearest⟩ := htour.move_at (i := i) (by omega)
        have hseen : left.diff (visits.take i) =
            unseen distance.rows ((first :: visits).take (i + 1)) := by
          rw [List.take_succ_cons, unseen, ← List.nodup_range.sdiff_eq_filter, hnodes,
            List.diff_cons, List.erase_cons_head]
        rw [hseen] at hfound hnearest
        exact ⟨u, v, hu, hv, goesTo_of_nearest hfound hnearest⟩

end Route

end Placement
