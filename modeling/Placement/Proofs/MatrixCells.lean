import Placement.Matrix

/-!
# The cells of a matrix

A matrix is the table of what its cells hold (`Tabulates`), and this is said of every way to make one:
from values in row order, from rows, as a vector, filled with one value, and by storing values into
another matrix. Of all of them it comes down to where a cell is stored. Within the shape every cell has
a place, and no two cells share one (`place_inj`), be there ever so few rows or columns. So a value that
is stored is found in its own cell, and nowhere else.
-/

namespace Placement

namespace Matrix

variable {α : Type}

/-- The matrix has this shape, values for all of it, and in each cell what the function says. -/
structure Tabulates (m : Matrix α) (rows cols : Nat) (held : Nat → Nat → Option α) : Prop where
  dim_eq : m.dim = (rows, cols)
  size_eq : m.values.size = rows * cols
  get?_eq : ∀ row < rows, ∀ col < cols, m.get? row col = held row col

/-! ## Places -/

section Place

variable (m : Matrix α) {row col row' col' : Nat}

theorem place_div (row : Nat) (hc : col < m.cols) : m.place row col / m.cols = row := by
  have hcols : 0 < m.cols := Nat.zero_lt_of_lt hc
  rw [place, Nat.mul_comm, Nat.mul_add_div hcols, Nat.div_eq_of_lt hc, Nat.add_zero]

theorem place_mod (row : Nat) (hc : col < m.cols) : m.place row col % m.cols = col := by
  rw [place, Nat.add_comm, Nat.add_mul_mod_self_right, Nat.mod_eq_of_lt hc]

theorem place_inj (hc : col < m.cols) (hc' : col' < m.cols) :
    m.place row col = m.place row' col' ↔ row = row' ∧ col = col' := by
  constructor
  · intro h
    obtain rfl : row = row' := by
      rw [← m.place_div row hc, h, m.place_div row' hc']
    exact ⟨rfl, Nat.add_left_cancel h⟩
  · rintro ⟨rfl, rfl⟩
    rfl

/-- A cell within the shape holds a value. -/
theorem exists_get? (hr : row < m.rows) (hc : col < m.cols) :
    ∃ a, m.get? row col = some a ∧ m.read row col = .ok a := by
  have hplace := m.place_lt hr hc
  have hget : m.get? row col = some m.values[m.place row col] := Array.getElem?_eq_getElem hplace
  exact ⟨_, hget, by rw [read, hget]⟩

/-- A row within the shape is there as a whole. -/
theorem exists_row? (hr : row < m.rows) : ∃ values, m.row? row = some values ∧
    values.size = m.cols ∧ ∀ col < m.cols, values[col]? = m.get? row col := by
  have hend : (row + 1) * m.cols ≤ m.values.size := by
    rw [m.size_values]
    exact Nat.mul_le_mul_right m.cols hr
  have hlen : (row + 1) * m.cols - row * m.cols = m.cols := by
    rw [Nat.succ_mul, Nat.add_sub_cancel_left]
  refine ⟨_, if_pos hend, ?_, fun col hcol => ?_⟩
  · rw [Array.size_extract, Nat.min_eq_left hend, hlen]
  · rw [Array.getElem?_extract, Nat.min_eq_left hend, hlen, if_pos hcol]
    rfl

/-- Storing a value in a cell of the shape changes this cell and no other. -/
theorem exists_set? (hr : row < m.rows) (hc : col < m.cols) (a : α) :
    ∃ m', m.set? row col a = some m' ∧ m'.dim = m.dim ∧ ∀ row' col', col' < m.cols →
      m'.get? row' col' = if row' = row ∧ col' = col then some a else m.get? row' col' := by
  have hplace := m.place_lt hr hc
  refine ⟨_, dif_pos hplace, rfl, fun row' col' hc' => ?_⟩
  show (m.values.set (m.place row col) a hplace)[m.place row' col']? = _
  rw [Array.getElem?_set]
  simp only [m.place_inj hc hc', eq_comm]
  rfl

end Place

/-- The cells of the matrix with a value stored in a cell of the shape. -/
theorem Tabulates.exists_store {m : Matrix α} {rows cols : Nat} {held : Nat → Nat → Option α}
    (h : m.Tabulates rows cols held) {row col : Nat} (hr : row < rows) (hc : col < cols) (a : α) :
    ∃ m', m.store row col a = .ok m' ∧ m'.Tabulates rows cols fun row' col' =>
      if row' = row ∧ col' = col then some a else held row' col' := by
  obtain ⟨hrows, hcols⟩ := Prod.mk.inj h.dim_eq
  obtain ⟨m', hset, hdim, hget⟩ := m.exists_set? (hrows ▸ hr) (hcols ▸ hc) a
  have hdim' : m'.dim = (rows, cols) := hdim.trans h.dim_eq
  refine ⟨m', by rw [store, hset], hdim', size_of_dim hdim', fun row' hr' col' hc' => ?_⟩
  rw [hget row' col' (hcols ▸ hc'), h.get?_eq row' hr' col' hc']

/-- Where a matrix can be read and written: every cell within its shape has a place of its own among the
values, holds a value, is found in its row, and can be stored without a change to any other. -/
structure Addressed (m : Matrix α) : Prop where
  place_lt : ∀ row < m.rows, ∀ col < m.cols, m.place row col < m.values.size
  place_inj : ∀ row, ∀ col < m.cols, ∀ row', ∀ col' < m.cols,
    m.place row col = m.place row' col' → row = row' ∧ col = col'
  get : ∀ row < m.rows, ∀ col < m.cols, ∃ a, m.get? row col = some a ∧ m.read row col = .ok a
  row : ∀ row < m.rows, ∃ values, m.row? row = some values ∧ values.size = m.cols ∧
    ∀ col < m.cols, values[col]? = m.get? row col
  set : ∀ row < m.rows, ∀ col < m.cols, ∀ a, ∃ m', m.set? row col a = some m' ∧
    m'.Tabulates m.rows m.cols fun row' col' =>
      if row' = row ∧ col' = col then some a else m.get? row' col'

theorem addressed (m : Matrix α) : m.Addressed where
  place_lt _ hr _ hc := m.place_lt hr hc
  place_inj _ _ hc _ _ hc' := (m.place_inj hc hc').mp
  get _ hr _ hc := m.exists_get? hr hc
  row _ hr := m.exists_row? hr
  set _ hr _ hc a := by
    obtain ⟨m', hset, hdim, hget⟩ := m.exists_set? hr hc a
    exact ⟨m', hset, hdim, size_of_dim hdim, fun row' _ col' hc' => hget row' col' hc'⟩

/-- The value of a cell is what is read there. -/
theorem Tabulates.cell_eq [Zero α] {m : Matrix α} {rows cols : Nat} {held : Nat → Nat → Option α}
    (h : m.Tabulates rows cols held) {row col : Nat} (hr : row < rows) (hc : col < cols) :
    m.cell row col = (held row col).getD 0 := by
  rw [cell, Array.getD_eq_getD_getElem?, ← h.get?_eq row hr col hc]
  rfl

/-- A table can be read as any other that agrees within the shape. -/
theorem Tabulates.congr {m : Matrix α} {rows cols : Nat} {held held' : Nat → Nat → Option α}
    (h : m.Tabulates rows cols held)
    (hsame : ∀ row < rows, ∀ col < cols, held row col = held' row col) :
    m.Tabulates rows cols held' :=
  ⟨h.dim_eq, h.size_eq, fun row hrow col hcol =>
    (h.get?_eq row hrow col hcol).trans (hsame row hrow col hcol)⟩

/-- Matrices of one shape that hold the same in every cell are the same. -/
theorem Tabulates.ext {m m' : Matrix α} {rows cols : Nat} {held held' : Nat → Nat → Option α}
    (h : m.Tabulates rows cols held) (h' : m'.Tabulates rows cols held')
    (hsame : ∀ row < rows, ∀ col < cols, held row col = held' row col) : m = m' := by
  refine eq_of_values (h.dim_eq.trans h'.dim_eq.symm) ?_
  refine Array.ext_getElem? fun k => ?_
  rcases Nat.lt_or_ge k (rows * cols) with hk | hk
  · have hcols : 0 < cols := Nat.pos_of_ne_zero fun h0 => by
      rw [h0, Nat.mul_zero] at hk
      exact Nat.not_lt_zero k hk
    have hrow : k / cols < rows := Nat.div_lt_of_lt_mul (Nat.mul_comm rows cols ▸ hk)
    have hcol : k % cols < cols := Nat.mod_lt k hcols
    have hplace : ∀ {m : Matrix α}, m.dim = (rows, cols) → m.place (k / cols) (k % cols) = k := by
      intro m hdim
      rw [place, (Prod.mk.inj hdim).2]
      exact Nat.div_add_mod' k cols
    have hget := h.get?_eq _ hrow _ hcol
    have hget' := h'.get?_eq _ hrow _ hcol
    rw [get?, hplace h.dim_eq] at hget
    rw [get?, hplace h'.dim_eq] at hget'
    rw [hget, hget', hsame _ hrow _ hcol]
  · rw [Array.getElem?_eq_none (h.size_eq ▸ hk), Array.getElem?_eq_none (h'.size_eq ▸ hk)]

/-! ## Storing values one after the other -/

/-- A value, and the cell that it is to be stored in. -/
structure Write (α : Type) where
  row : Nat
  col : Nat
  value : α

/-- Stores values in the order of a list. -/
def setEach? (m : Matrix α) (writes : List (Write α)) : Option (Matrix α) :=
  writes.foldlM (fun m write => m.set? write.row write.col write.value) m

/-- What is stored last in a cell. -/
def lastStored (writes : List (Write α)) (row col : Nat) : Option α :=
  writes.reverse.findSome? fun write =>
    if row = write.row ∧ col = write.col then some write.value else none

theorem lastStored_cons (write : Write α) (writes : List (Write α)) (row col : Nat) :
    lastStored (write :: writes) row col = (lastStored writes row col).or
      (if row = write.row ∧ col = write.col then some write.value else none) := by
  rw [lastStored, List.reverse_cons, List.findSome?_append, List.findSome?_singleton]
  rfl

/-- Of all that is stored in a cell the last value stays; a cell where nothing is stored keeps its
own. -/
theorem exists_setEach? (m : Matrix α) (writes : List (Write α))
    (h : ∀ write ∈ writes, write.row < m.rows ∧ write.col < m.cols) :
    ∃ m', m.setEach? writes = some m' ∧ m'.Tabulates m.rows m.cols fun row col =>
      (lastStored writes row col).or (m.get? row col) := by
  induction writes generalizing m with
  | nil => exact ⟨m, rfl, rfl, m.size_values, fun row _ col _ => rfl⟩
  | cons write writes ih =>
      obtain ⟨hr, hc⟩ := h write List.mem_cons_self
      obtain ⟨m₁, hset, hone⟩ := m.addressed.set _ hr _ hc write.value
      obtain ⟨hrows, hcols⟩ := Prod.mk.inj hone.dim_eq
      obtain ⟨m', hrest, htable⟩ := ih m₁ fun next hnext => by
        rw [hrows, hcols]
        exact h next (List.mem_cons_of_mem _ hnext)
      rw [hrows, hcols] at htable
      refine ⟨m', ?_, htable.dim_eq, htable.size_eq, fun row hrow col hcol => ?_⟩
      · rw [setEach?, List.foldlM_cons, hset]
        exact hrest
      · rw [htable.get?_eq row hrow col hcol, hone.get?_eq row hrow col hcol, lastStored_cons,
          Option.or_assoc]
        split <;> rfl

/-! ## Making a matrix -/

theorem tabulates_ofValues {rows cols : Nat} {values : Array α} {m : Matrix α}
    (h : ofValues rows cols values = .ok m) :
    m.Tabulates rows cols fun row col => values[row * cols + col]? := by
  obtain ⟨-, hdim, rfl⟩ := ofValues_eq_ok_iff.mp h
  obtain ⟨-, hcols⟩ := Prod.mk.inj hdim
  refine ⟨hdim, size_of_dim hdim, fun row _ col _ => ?_⟩
  rw [get?, place, hcols]

theorem exists_ofValues_iff {rows cols : Nat} {values : Array α} :
    (∃ m, ofValues rows cols values = .ok m) ↔
      rows * cols < UInt64.size ∧ values.size = rows * cols := by
  constructor
  · rintro ⟨m, hm⟩
    obtain ⟨hfits, hdim, rfl⟩ := ofValues_eq_ok_iff.mp hm
    exact ⟨hfits, size_of_dim hdim⟩
  · rintro ⟨hfits, hsize⟩
    exact ⟨⟨rows, cols, values, hsize⟩, ofValues_eq_ok_iff.mpr ⟨hfits, rfl, rfl⟩⟩

theorem tabulates_vector (values : Array α) :
    (vector values).Tabulates 1 values.size fun _ col => values[col]? := by
  refine ⟨rfl, (Nat.one_mul _).symm, fun row hrow col _ => ?_⟩
  obtain rfl := Nat.lt_one_iff.mp hrow
  show values[0 * values.size + col]? = values[col]?
  rw [Nat.zero_mul, Nat.zero_add]

theorem exists_fill_iff {rows cols : Nat} {a : α} :
    (∃ m, fill rows cols a = .ok m) ↔ rows * cols < addressable := by
  constructor
  · rintro ⟨m, hm⟩
    exact (fill_eq_ok_iff.mp hm).1
  · intro hroom
    exact ⟨⟨rows, cols, Array.replicate (rows * cols) a, Array.size_replicate⟩,
      fill_eq_ok_iff.mpr ⟨hroom, rfl, rfl⟩⟩

theorem tabulates_fill {rows cols : Nat} {a : α} {m : Matrix α} (h : fill rows cols a = .ok m) :
    m.Tabulates rows cols fun _ _ => some a := by
  obtain ⟨-, hdim, hvalues⟩ := fill_eq_ok_iff.mp h
  obtain ⟨-, hcols⟩ := Prod.mk.inj hdim
  refine ⟨hdim, size_of_dim hdim, fun row hrow col hcol => ?_⟩
  rw [get?, place, hvalues, hcols, Array.getElem?_replicate, if_pos (index_lt hrow hcol)]

theorem tabulates_ofFn (rows cols : Nat) (f : Nat → Nat → α) :
    (ofFn rows cols f).Tabulates rows cols fun row col => some (f row col) := by
  refine ⟨rfl, Array.size_ofFn, fun row hrow col hcol => ?_⟩
  have hdiv : (row * cols + col) / cols = row := (ofFn rows cols f).place_div row hcol
  have hmod : (row * cols + col) % cols = col := (ofFn rows cols f).place_mod row hcol
  show (Array.ofFn fun k : Fin (rows * cols) => f (k / cols) (k % cols))[row * cols + col]? = _
  rw [Array.getElem?_ofFn, dif_pos (index_lt hrow hcol), hdiv, hmod]

/-! ## Rows under each other -/

/-- The values of rows, one row after the other. -/
def joined (rows : List (Array α)) : Array α := (rows.flatMap Array.toList).toArray

/-- How long the first row is. -/
def width (rows : List (Array α)) : Nat := (rows.head?.map Array.size).getD 0

theorem even_iff {rows : List (Array α)} :
    (∃ cols, ∀ row ∈ rows, row.size = cols) ↔ ∀ row ∈ rows, row.size = width rows := by
  constructor
  · rintro ⟨cols, h⟩
    cases rows with
    | nil => exact nofun
    | cons first rows =>
        have hwidth : width (first :: rows) = cols := h first List.mem_cons_self
        rw [hwidth]
        exact h
  · exact fun h => ⟨_, h⟩

/-- In rows of the same length, each row starts a whole number of rows behind the first. -/
theorem getElem?_joined {rows : List (Array α)} {cols : Nat} (h : ∀ row ∈ rows, row.size = cols)
    {i j : Nat} (hj : j < cols) : (joined rows)[i * cols + j]? = rows[i]?.bind (·[j]?) := by
  rw [joined, List.getElem?_toArray]
  induction rows generalizing i with
  | nil => rfl
  | cons row rows ih =>
      have hlen : row.toList.length = cols := h row List.mem_cons_self
      rw [List.flatMap_cons]
      cases i with
      | zero =>
          rw [Nat.zero_mul, Nat.zero_add, List.getElem?_append_left (hlen ▸ hj)]
          exact Array.getElem?_toList
      | succ i =>
          have hle : cols ≤ (i + 1) * cols + j := by
            rw [Nat.succ_mul]
            omega
          have hrest : (i + 1) * cols + j - cols = i * cols + j := by
            rw [Nat.succ_mul]
            omega
          rw [List.getElem?_append_right (hlen ▸ hle), hlen, hrest, List.getElem?_cons_succ]
          exact ih fun row hrow => h row (List.mem_cons_of_mem _ hrow)

theorem stack_eq_ok_iff {cols : Nat} {rows : List (Array α)} {m m' : Matrix α} (hm : m.cols = cols) :
    stack cols rows m hm = .ok m' ↔ (∀ row ∈ rows, row.size = cols) ∧
      m'.dim = (m.rows + rows.length, cols) ∧
      m'.values.toList = m.values.toList ++ rows.flatMap Array.toList := by
  induction rows generalizing m with
  | nil =>
      rw [stack, Except.ok.injEq]
      constructor
      · rintro rfl
        exact ⟨nofun, by rw [dim, hm]; rfl, (List.append_nil _).symm⟩
      · rintro ⟨-, hdim, hvalues⟩
        refine eq_of_values ?_ ?_
        · rw [hdim, dim, hm]
          rfl
        · rw [List.flatMap_nil, List.append_nil] at hvalues
          exact (Array.toList_inj.mp hvalues).symm
  | cons row rows ih =>
      rw [stack]
      split
      · next hrow =>
        rw [ih, List.forall_mem_cons, List.length_cons, List.flatMap_cons, Array.toList_append,
          List.append_assoc, Nat.add_assoc, Nat.add_comm 1]
        simp only [hrow, true_and]
      · next hrow =>
        refine ⟨nofun, ?_⟩
        rintro ⟨hall, -⟩
        exact absurd (hall row List.mem_cons_self) hrow

theorem ofRows_eq_ok_iff {rows : List (Array α)} {m : Matrix α} :
    ofRows rows = .ok m ↔ (∀ row ∈ rows, row.size = width rows) ∧
      m.dim = (rows.length, width rows) ∧ m.values = joined rows := by
  have hstack : ofRows rows = stack (width rows) rows ⟨0, width rows, #[], by simp⟩ rfl := rfl
  rw [hstack, stack_eq_ok_iff, Nat.zero_add, List.nil_append, joined, ← Array.toList_inj]

theorem size_joined {rows : List (Array α)} {cols : Nat} (h : ∀ row ∈ rows, row.size = cols) :
    (joined rows).size = rows.length * cols := by
  rw [joined, List.size_toArray]
  induction rows with
  | nil => simp
  | cons row rows ih =>
      obtain ⟨hrow, hrest⟩ := List.forall_mem_cons.mp h
      rw [List.flatMap_cons, List.length_append, Array.length_toList, hrow, ih hrest,
        List.length_cons, Nat.succ_mul, Nat.add_comm]

theorem exists_ofRows_iff {rows : List (Array α)} :
    (∃ m, ofRows rows = .ok m) ↔ ∃ cols, ∀ row ∈ rows, row.size = cols := by
  rw [even_iff]
  constructor
  · rintro ⟨m, hm⟩
    exact (ofRows_eq_ok_iff.mp hm).1
  · intro h
    exact ⟨⟨rows.length, width rows, joined rows, size_joined h⟩, ofRows_eq_ok_iff.mpr ⟨h, rfl, rfl⟩⟩

/-- Rows that can be put under each other are the rows of the matrix. -/
theorem tabulates_ofRows {rows : List (Array α)} {m : Matrix α} (h : ofRows rows = .ok m) :
    (∀ row ∈ rows, row.size = m.cols) ∧
      m.Tabulates rows.length m.cols fun row col => rows[row]?.bind (·[col]?) := by
  obtain ⟨heven, hdim, hvalues⟩ := ofRows_eq_ok_iff.mp h
  obtain ⟨hrows, hcols⟩ := Prod.mk.inj hdim
  rw [← hcols] at heven
  refine ⟨heven, by rw [dim, hrows], by rw [m.size_values, hrows], fun row _ col hcol => ?_⟩
  rw [get?, place, hvalues, getElem?_joined heven hcol]

/-- It makes no difference whether a matrix is made of rows, or of their values in one go. -/
theorem ofValues_joined {rows : List (Array α)} {m : Matrix α} (h : ofRows rows = .ok m)
    (hfits : rows.length * m.cols < UInt64.size) :
    ofValues rows.length m.cols (joined rows) = .ok m := by
  obtain ⟨-, hdim, hvalues⟩ := ofRows_eq_ok_iff.mp h
  obtain ⟨hrows, -⟩ := Prod.mk.inj hdim
  exact ofValues_eq_ok_iff.mpr ⟨hfits, by rw [dim, hrows], hvalues⟩

/-! ## All of them -/

/-- A matrix is made exactly where the values fill a shape whose cells can be counted in 64 bits, or
where all rows have the same length. It then has the cells that it was made of, and rows come to the
same as their values in one go, as far as their number can be counted. With one value everywhere it is
made exactly where its values can have addresses, and a shape whose cells cannot be counted is a broken
precondition. Whatever matrix it is, and whatever has been stored within its shape since, in any order
and any number: it keeps its shape and fills it, each of its cells can be read, found in its row and
overwritten on its own, and it holds what was last stored in it. -/
theorem cells_hold_what_was_stored_last {α : Type} :
    (∀ rows cols (values : Array α),
      ((∃ m, ofValues rows cols values = .ok m) ↔
        rows * cols < UInt64.size ∧ values.size = rows * cols) ∧
      ∀ m, ofValues rows cols values = .ok m →
        m.Tabulates rows cols fun row col => values[row * cols + col]?) ∧
    (∀ n (values : Array α),
      ((∃ m, square n values = .ok m) ↔ n * n < UInt64.size ∧ values.size = n * n) ∧
      ∀ m, square n values = .ok m → m.Tabulates n n fun row col => values[row * n + col]?) ∧
    (∀ values : Array α, (vector values).Tabulates 1 values.size fun _ col => values[col]?) ∧
    (∀ rows cols (a : α),
      ((∃ m, fill rows cols a = .ok m) ↔ rows * cols < addressable) ∧
      (fill rows cols a = .error .overflow ↔ UInt64.size ≤ rows * cols) ∧
      ∀ m, fill rows cols a = .ok m → m.Tabulates rows cols fun _ _ => some a) ∧
    (∀ rows : List (Array α),
      ((∃ m, ofRows rows = .ok m) ↔ ∃ cols, ∀ row ∈ rows, row.size = cols) ∧
      ∀ m, ofRows rows = .ok m →
        (∀ row ∈ rows, row.size = m.cols) ∧
        (m.Tabulates rows.length m.cols fun row col => rows[row]?.bind (·[col]?)) ∧
        (rows.length * m.cols < UInt64.size →
          ofValues rows.length m.cols (joined rows) = .ok m)) ∧
    ∀ (m : Matrix α) (writes : List (Write α)),
      (∀ write ∈ writes, write.row < m.rows ∧ write.col < m.cols) →
      ∃ m', m.setEach? writes = some m' ∧ m'.Addressed ∧
        m'.Tabulates m.rows m.cols fun row col =>
          (lastStored writes row col).or (m.get? row col) := by
  refine ⟨fun rows cols values => ⟨exists_ofValues_iff, fun m => tabulates_ofValues⟩,
    fun n values => ⟨exists_ofValues_iff, fun m => tabulates_ofValues⟩, tabulates_vector,
    fun rows cols a => ⟨exists_fill_iff, fill_eq_overflow_iff, fun m => tabulates_fill⟩,
    fun rows => ⟨exists_ofRows_iff, fun m hm => ?_⟩, fun m writes hwrites => ?_⟩
  · obtain ⟨heven, htable⟩ := tabulates_ofRows hm
    exact ⟨heven, htable, ofValues_joined hm⟩
  · obtain ⟨m', hset, htable⟩ := m.exists_setEach? writes hwrites
    exact ⟨m', hset, m'.addressed, htable⟩

/-- Two rows of three cells, one of which is overwritten twice. -/
theorem cells_hold_what_was_stored_last_twice :
    ∃ m m' : Matrix Nat, ofRows [#[1, 2, 3], #[4, 5, 6]] = .ok m ∧
      ofValues 2 3 #[1, 2, 3, 4, 5, 6] = .ok m ∧
      m.setEach? [⟨0, 2, 9⟩, ⟨1, 0, 7⟩, ⟨0, 2, 8⟩] = some m' ∧ m'.dim = (2, 3) ∧
      m'.get? 0 2 = some 8 ∧ m'.get? 1 0 = some 7 ∧ m'.get? 1 2 = some 6 := by
  obtain ⟨-, -, -, -, hrows, hwrites⟩ := cells_hold_what_was_stored_last (α := Nat)
  obtain ⟨hiff, hmade⟩ := hrows [#[1, 2, 3], #[4, 5, 6]]
  obtain ⟨m, hm⟩ := hiff.mpr ⟨3, by simp⟩
  obtain ⟨heven, htable, hjoined⟩ := hmade m hm
  obtain ⟨hrows, hcols⟩ : m.rows = 2 ∧ m.cols = 3 :=
    ⟨congrArg Prod.fst htable.dim_eq, (heven #[1, 2, 3] (by simp)).symm⟩
  rw [hcols] at htable hjoined
  obtain ⟨m', hset, -, hheld⟩ := hwrites m [⟨0, 2, 9⟩, ⟨1, 0, 7⟩, ⟨0, 2, 8⟩] (by simp [hrows, hcols])
  rw [hrows, hcols] at hheld
  refine ⟨m, m', hm, hjoined (by decide), hset, hheld.dim_eq, ?_, ?_, ?_⟩
  · exact hheld.get?_eq 0 (by decide) 2 (by decide)
  · exact hheld.get?_eq 1 (by decide) 0 (by decide)
  · have hkept := hheld.get?_eq 1 (by decide) 2 (by decide)
    rw [htable.get?_eq 1 (by decide) 2 (by decide)] at hkept
    exact hkept

/-- In a square of side `2 ^ 32` the count of the cells is lost. As many values as are counted are none at
all, so that not even the first cell has one, and filling the square breaks a precondition. A matrix made
from values has this number checked, and refuses the shape. -/
theorem fill_loses_count :
    counted UInt32.size UInt32.size = 0 ∧
    (Array.replicate (counted UInt32.size UInt32.size) 0)[0 * UInt32.size + 0]? =
      (none : Option Nat) ∧
    fill UInt32.size UInt32.size 0 = (.error .overflow : Except Breach (Matrix Nat)) ∧
    ofValues UInt32.size UInt32.size #[] =
      (.error (.tooLarge UInt32.size UInt32.size) : Except Misshape (Matrix Nat)) := by
  have hcounted : counted UInt32.size UInt32.size = 0 := by decide
  refine ⟨hcounted, ?_, fill_eq_overflow_iff.mpr (by decide), if_pos (by decide)⟩
  rw [hcounted]
  rfl

end Matrix

end Placement
