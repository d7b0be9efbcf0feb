import Placement.Failure

/-!
# Matrices

Dense tables stored row by row. A vector is a matrix of one row. The values always fill the shape
exactly, which is part of the type; the shape itself is free, so a matrix may have rows without
columns.

Cells are addressed by their place in the stored values. `get?` therefore answers wherever that place
exists, `read` breaks its precondition where it does not, and `cell` reads a place known to exist.
-/

namespace Placement

/-- A table of `rows` by `cols` values. -/
structure Matrix (α : Type) where
  rows : Nat
  cols : Nat
  values : Array α
  size_values : values.size = rows * cols

namespace Matrix

variable {α : Type}

def dim (m : Matrix α) : Nat × Nat := (m.rows, m.cols)

/-- A matrix is known from its shape and its values. -/
theorem eq_of_values {m m' : Matrix α} (hdim : m.dim = m'.dim) (h : m.values = m'.values) :
    m = m' := by
  cases m
  cases m'
  cases hdim
  cases h
  rfl

inductive Misshape where
  /-- The number of cells does not fit into 64 bits. -/
  | tooLarge (rows cols : Nat)
  | wrongCount (rows cols count : Nat)
  /-- The row with this number is not as long as the first one. -/
  | ragged (row length cols : Nat)
deriving DecidableEq, Repr

def Misshape.message : Misshape → String
  | tooLarge rows cols => "a " ++ toString rows ++ "x" ++ toString cols ++ " matrix is too large"
  | wrongCount rows cols count =>
    "expected " ++ toString (rows * cols) ++ " values for a " ++ toString rows ++ "x" ++
      toString cols ++ " matrix, got " ++ toString count
  | ragged row length cols =>
    "row " ++ toString row ++ " has " ++ toString length ++ " columns, expected " ++ toString cols

/-- The matrix of the given shape. -/
def ofValues (rows cols : Nat) (values : Array α) : Except Misshape (Matrix α) :=
  if UInt64.size ≤ rows * cols then .error (.tooLarge rows cols)
  else if h : values.size = rows * cols then .ok ⟨rows, cols, values, h⟩
  else .error (.wrongCount rows cols values.size)

/-- A matrix is made exactly where its cells can be counted and the values fill its shape. -/
theorem ofValues_eq_ok_iff {rows cols : Nat} {values : Array α} {m : Matrix α} :
    ofValues rows cols values = .ok m ↔
      rows * cols < UInt64.size ∧ m.dim = (rows, cols) ∧ m.values = values := by
  unfold ofValues
  split
  · next hlarge => exact ⟨nofun, fun h => absurd h.1 (Nat.not_lt_of_le hlarge)⟩
  · next hsmall =>
    have hfits : rows * cols < UInt64.size := Nat.lt_of_not_le hsmall
    split
    · constructor
      · intro h
        cases h
        exact ⟨hfits, rfl, rfl⟩
      · rintro ⟨-, hdim, rfl⟩
        cases hdim
        rfl
    · next hsize =>
      refine ⟨nofun, ?_⟩
      rintro ⟨-, hdim, rfl⟩
      cases hdim
      exact absurd m.size_values hsize

def square (n : Nat) (values : Array α) : Except Misshape (Matrix α) := ofValues n n values

def vector (values : Array α) : Matrix α := ⟨1, values.size, values, (Nat.one_mul _).symm⟩

/-- The number of cells as a word of 64 bits counts them: what goes beyond the word is lost. -/
def counted (rows cols : Nat) : Nat := (UInt64.ofNat rows * UInt64.ofNat cols).toNat

/-- How many values of eight bytes are too many to have an address each: sizes have 63 bits. -/
def addressable : Nat := 0x1000000000000000

/-- The matrix of the given shape with the same value everywhere. It takes the cells to be counted: where
a word does not hold their number, the values would not fill the shape, and the precondition is broken.
It is too where there are more values than can have an address. -/
def fill (rows cols : Nat) (a : α) : Except Breach (Matrix α) :=
  if h : counted rows cols = rows * cols then
    if counted rows cols < addressable then
      .ok ⟨rows, cols, Array.replicate (counted rows cols) a, by rw [Array.size_replicate, h]⟩
    else .error .unaddressable
  else .error .overflow

/-- A word counts the cells exactly where it holds their number. -/
theorem counted_eq_iff {rows cols : Nat} :
    counted rows cols = rows * cols ↔ rows * cols < UInt64.size := by
  have hcounted : counted rows cols = rows * cols % UInt64.size := by
    rw [counted, UInt64.toNat_mul, UInt64.toNat_ofNat', UInt64.toNat_ofNat', ← Nat.mul_mod]
  rw [hcounted]
  exact Nat.mod_eq_iff_lt (by decide)

/-- A filled matrix is made exactly where its values can have addresses. -/
theorem fill_eq_ok_iff {rows cols : Nat} {a : α} {m : Matrix α} :
    fill rows cols a = .ok m ↔ rows * cols < addressable ∧ m.dim = (rows, cols) ∧
      m.values = Array.replicate (rows * cols) a := by
  unfold fill
  split
  · next hcounted =>
    rw [← hcounted]
    split
    · next hroom =>
      constructor
      · intro h
        cases h
        exact ⟨hroom, rfl, rfl⟩
      · rintro ⟨-, hdim, hvalues⟩
        exact congrArg Except.ok (eq_of_values hdim.symm hvalues.symm)
    · next hroom => exact ⟨nofun, fun h => absurd h.1 hroom⟩
  · next hcounted =>
    refine ⟨nofun, fun h => absurd (counted_eq_iff.mpr ?_) hcounted⟩
    exact Nat.lt_trans h.1 (by decide)

theorem fill_eq_overflow_iff {rows cols : Nat} {a : α} :
    fill rows cols a = .error .overflow ↔ UInt64.size ≤ rows * cols := by
  rw [← Nat.not_lt, ← counted_eq_iff, fill]
  split
  · next hcounted =>
    refine ⟨?_, fun h => absurd hcounted h⟩
    split
    · exact nofun
    · intro h
      simp [Breach.overflow, Breach.unaddressable, Breach.saying] at h
  · next hcounted => exact ⟨fun _ => hcounted, fun _ => rfl⟩

theorem fill_eq_unaddressable {rows cols : Nat} (hcount : rows * cols < UInt64.size)
    (hlarge : addressable ≤ rows * cols) (a : α) : fill rows cols a = .error .unaddressable := by
  have hcounted : counted rows cols = rows * cols := counted_eq_iff.mpr hcount
  have hroom : ¬counted rows cols < addressable := hcounted.symm ▸ Nat.not_lt.mpr hlarge
  rw [fill, dif_pos hcounted, if_neg hroom]

/-- The matrix whose cell at each place is given by a function. -/
def ofFn (rows cols : Nat) (f : Nat → Nat → α) : Matrix α :=
  ⟨rows, cols, Array.ofFn fun k : Fin (rows * cols) => f (k / cols) (k % cols), Array.size_ofFn⟩

/-- Puts rows under each other, as long as each has `cols` values. -/
def stack (cols : Nat) : List (Array α) → (m : Matrix α) → m.cols = cols →
    Except Misshape (Matrix α)
  | [], m, _ => .ok m
  | row :: rows, m, hm =>
    if h : row.size = cols then
      stack cols rows
        ⟨m.rows + 1, cols, m.values ++ row, by
          rw [Array.size_append, m.size_values, h, hm, Nat.succ_mul]⟩ rfl
    else .error (.ragged m.rows row.size cols)

/-- The matrix of the given rows. The first one decides the number of columns. -/
def ofRows (rows : List (Array α)) : Except Misshape (Matrix α) :=
  let cols := (rows.head?.map Array.size).getD 0
  stack cols rows ⟨0, cols, #[], by simp⟩ rfl

def isSquare (m : Matrix α) : Bool := m.rows == m.cols

def isEmpty (m : Matrix α) : Bool := m.values.isEmpty

/-! ## Cells -/

/-- Where a cell is stored. -/
@[inline] def place (m : Matrix α) (row col : Nat) : Nat := row * m.cols + col

/-- The value stored where the cell would be. -/
def get? (m : Matrix α) (row col : Nat) : Option α := m.values[m.place row col]?

/-- Reads a cell that must be stored. -/
def read (m : Matrix α) (row col : Nat) : Except Breach α :=
  match m.get? row col with
  | some a => .ok a
  | none => .error .outOfBounds

/-- Stores a value where the cell would be. -/
def set? (m : Matrix α) (row col : Nat) (a : α) : Option (Matrix α) :=
  if h : m.place row col < m.values.size then
    some ⟨m.rows, m.cols, m.values.set (m.place row col) a h, by rw [Array.size_set, m.size_values]⟩
  else none

/-- Stores a value in a cell that must be stored. -/
def store (m : Matrix α) (row col : Nat) (a : α) : Except Breach (Matrix α) :=
  match m.set? row col a with
  | some m => .ok m
  | none => .error .outOfBounds

def row? (m : Matrix α) (row : Nat) : Option (Array α) :=
  if (row + 1) * m.cols ≤ m.values.size then
    some (m.values.extract (row * m.cols) ((row + 1) * m.cols))
  else none

/-- The value of a cell; zero where nothing is stored. -/
@[inline] def cell [Zero α] (m : Matrix α) (row col : Nat) : α := m.values.getD (m.place row col) 0

/-- Counted row by row, fewer cells come before a cell than there are in all. -/
theorem index_lt {rows cols row col : Nat} (hr : row < rows) (hc : col < cols) :
    row * cols + col < rows * cols := by
  calc row * cols + col < row * cols + cols := Nat.add_lt_add_left hc _
    _ = (row + 1) * cols := (Nat.succ_mul ..).symm
    _ ≤ rows * cols := Nat.mul_le_mul_right _ hr

/-- A cell within the shape has a place of its own among the values. -/
theorem place_lt (m : Matrix α) {row col : Nat} (hr : row < m.rows) (hc : col < m.cols) :
    m.place row col < m.values.size := by
  rw [m.size_values]
  exact index_lt hr hc

theorem size_of_dim {m : Matrix α} {rows cols : Nat} (h : m.dim = (rows, cols)) :
    m.values.size = rows * cols := by
  obtain ⟨hrows, hcols⟩ := Prod.mk.inj h
  rw [m.size_values, hrows, hcols]

theorem read_eq_cell [Zero α] (m : Matrix α) {row col : Nat} (hr : row < m.rows)
    (hc : col < m.cols) : m.read row col = .ok (m.cell row col) := by
  have hplace := m.place_lt hr hc
  rw [read, get?, Array.getElem?_eq_getElem hplace, cell, Array.getD, dif_pos hplace]
  rfl

/-- Equal shapes, and values that compare equal. -/
instance [BEq α] : BEq (Matrix α) where
  beq a b := a.rows == b.rows && a.cols == b.cols && a.values == b.values

def isFinite (m : Matrix Float) : Bool := m.values.all Float.isFinite

end Matrix

end Placement
