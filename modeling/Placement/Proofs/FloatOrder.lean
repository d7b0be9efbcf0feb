import Mathlib.Data.Prod.Lex
import Mathlib.Algebra.Order.Ring.Int
import Mathlib.Order.Compare

/-!
# The order of floats

Comparisons of floats are decided by sign, exponent and mantissa. `height?` turns these three into one
element of a linear order, which only what is not a number lacks: comparing two floats is comparing
their heights (`compare_eq`), and fails where a height is missing. The laws below are those of that
order. Reflexivity is not among them, since it fails for what is not a number.

Bits without a sign, read as a number, are in the order of their heights (`Stands.lt`).
-/

namespace Placement

namespace FloatOrder

open Float.Model (UnpackedFloat Format)
open Float.Model.UnpackedFloat (Sign unpack unpackSign unpackExponent unpackMantissa)

/-- The linear order in which floats are compared: the class of the float, from negative to positive
infinity, then its exponent, then its mantissa. -/
abbrev Height : Type := ℤ ×ₗ ℤ ×ₗ ℤ

def height (grade exponent mantissa : ℤ) : Height :=
  toLex (grade, toLex (exponent, mantissa))

/-- The height of positive infinity, above which there is none. -/
def top : Height :=
  height 2 0 0

/-- How high an unpacked float stands. Among negative ones a larger exponent or mantissa is lower. -/
def heightOf? : UnpackedFloat → Option Height
  | .notANumber => none
  | .infinity .positive => some top
  | .infinity .negative => some (height (-2) 0 0)
  | .zero _ => some (height 0 0 0)
  | .finite .positive m e _ => some (height 1 e m)
  | .finite .negative m e _ => some (height (-1) (-e) (-m))

/-- How high a float stands. -/
def height? (x : Float) : Option Height :=
  heightOf? x.toModel.unpack

/-! ## Comparing is comparing heights -/

theorem compare_height (g e m g' e' m' : ℤ) :
    compare (height g e m) (height g' e' m') =
      (compare g g').then ((compare e e').then (compare m m')) := rfl

theorem compare_natCast (m m' : ℕ) : compare (m : ℤ) (m' : ℤ) = compare m m' := by
  rcases lt_trichotomy m m' with h | rfl | h
  · rw [compare_lt_iff_lt.mpr h, compare_lt_iff_lt.mpr (Int.ofNat_lt.mpr h)]
  · rw [compare_eq_iff_eq.mpr rfl, compare_eq_iff_eq.mpr rfl]
  · rw [compare_gt_iff_gt.mpr h, compare_gt_iff_gt.mpr (Int.ofNat_lt.mpr h)]

theorem compare_neg_neg (x y : ℤ) : compare (-x) (-y) = (compare x y).swap := by
  rcases lt_trichotomy x y with h | rfl | h
  · rw [compare_lt_iff_lt.mpr h, Ordering.swap, compare_gt_iff_gt]
    exact Int.neg_lt_neg h
  · rw [compare_eq_iff_eq.mpr rfl, compare_eq_iff_eq.mpr rfl, Ordering.swap]
  · rw [compare_gt_iff_gt.mpr h, Ordering.swap, compare_lt_iff_lt]
    exact Int.neg_lt_neg h

theorem isLE_compare {x y : Height} : (compare x y).isLE = true ↔ x ≤ y :=
  Ordering.isLE_iff_ne_gt.trans compare_le_iff_le

/-- The comparison of unpacked floats, which is laid out case by case, is that of their heights. -/
theorem compare_eq (a b : UnpackedFloat) :
    a.compare b = (heightOf? a).bind fun x => (heightOf? b).map (compare x) := by
  rcases a with s | _ | s | ⟨s, m, e, hm⟩ <;> rcases b with s' | _ | s' | ⟨s', m', e', hm'⟩ <;>
    (try cases s) <;> (try cases s') <;> try rfl
  · show some ((compare e e').then (compare m m')).swap = some (compare _ _)
    rw [compare_height, compare_neg_neg e, compare_neg_neg (m : ℤ), compare_natCast, Ordering.swap_then]
    rfl
  · show some ((compare e e').then (compare m m')) = some (compare _ _)
    rw [compare_height, compare_natCast]
    rfl

variable {a b c : Float}

theorem lt_iff : a < b ↔ ∃ x y, height? a = some x ∧ height? b = some y ∧ x < y := by
  have h : a < b ↔ (a.toModel.unpack.compare b.toModel.unpack == some .lt) = true :=
    decide_eq_true_iff
  rw [h, compare_eq, beq_iff_eq, Option.bind_eq_some_iff]
  constructor
  · rintro ⟨x, hx, hxy⟩
    obtain ⟨y, hy, hlt⟩ := Option.map_eq_some_iff.mp hxy
    exact ⟨x, y, hx, hy, compare_lt_iff_lt.mp hlt⟩
  · rintro ⟨x, y, hx, hy, hlt⟩
    exact ⟨x, hx, Option.map_eq_some_iff.mpr ⟨y, hy, compare_lt_iff_lt.mpr hlt⟩⟩

theorem le_iff : a ≤ b ↔ ∃ x y, height? a = some x ∧ height? b = some y ∧ x ≤ y := by
  have h : a ≤ b ↔ (a.toModel.unpack.compare b.toModel.unpack).any (·.isLE) = true :=
    decide_eq_true_iff
  rw [h, compare_eq, Option.any_eq_true]
  constructor
  · rintro ⟨o, ho, hle⟩
    obtain ⟨x, hx, hxy⟩ := Option.bind_eq_some_iff.mp ho
    obtain ⟨y, hy, rfl⟩ := Option.map_eq_some_iff.mp hxy
    exact ⟨x, y, hx, hy, isLE_compare.mp hle⟩
  · rintro ⟨x, y, hx, hy, hle⟩
    refine ⟨compare x y, Option.bind_eq_some_iff.mpr ⟨x, hx, ?_⟩, isLE_compare.mpr hle⟩
    exact Option.map_eq_some_iff.mpr ⟨y, hy, rfl⟩

/-! ## Laws -/

theorem lt_irrefl (a : Float) : ¬a < a := by
  intro h
  obtain ⟨x, y, hx, hy, hlt⟩ := lt_iff.mp h
  cases hx.symm.trans hy
  exact hlt.false

theorem le_of_lt (h : a < b) : a ≤ b := by
  obtain ⟨x, y, hx, hy, hlt⟩ := lt_iff.mp h
  exact le_iff.mpr ⟨x, y, hx, hy, hlt.le⟩

theorem not_le_of_lt (h : a < b) : ¬b ≤ a := by
  intro hle
  obtain ⟨x, y, hx, hy, hlt⟩ := lt_iff.mp h
  obtain ⟨y', x', hy', hx', hyx⟩ := le_iff.mp hle
  cases hx.symm.trans hx'
  cases hy.symm.trans hy'
  exact hlt.not_ge hyx

theorem lt_of_le_of_lt (h : a ≤ b) (h' : b < c) : a < c := by
  obtain ⟨x, y, hx, hy, hle⟩ := le_iff.mp h
  obtain ⟨y', z, hy', hz, hlt⟩ := lt_iff.mp h'
  cases hy.symm.trans hy'
  exact lt_iff.mpr ⟨x, z, hx, hz, hle.trans_lt hlt⟩

theorem lt_of_lt_of_le (h : a < b) (h' : b ≤ c) : a < c := by
  obtain ⟨x, y, hx, hy, hlt⟩ := lt_iff.mp h
  obtain ⟨y', z, hy', hz, hle⟩ := le_iff.mp h'
  cases hy.symm.trans hy'
  exact lt_iff.mpr ⟨x, z, hx, hz, hlt.trans_le hle⟩

/-! ## Floats that are numbers -/

theorem heightOf?_eq_none_iff {u : UnpackedFloat} : heightOf? u = none ↔ u.isNaN = true := by
  rcases u with s | _ | s | ⟨s, m, e, hm⟩
  · cases s with
    | positive => exact ⟨fun h => (nomatch h), fun h => (nomatch h)⟩
    | negative => exact ⟨fun h => (nomatch h), fun h => (nomatch h)⟩
  · exact ⟨fun _ => rfl, fun _ => rfl⟩
  · exact ⟨fun h => (nomatch h), fun h => (nomatch h)⟩
  · cases s with
    | positive => exact ⟨fun h => (nomatch h), fun h => (nomatch h)⟩
    | negative => exact ⟨fun h => (nomatch h), fun h => (nomatch h)⟩

theorem height?_eq_none_iff : height? a = none ↔ a.isNaN = true :=
  heightOf?_eq_none_iff

theorem exists_height (h : a.isNaN = false) : ∃ x, height? a = some x := by
  refine Option.ne_none_iff_exists'.mp fun hnone => ?_
  rw [height?_eq_none_iff.mp hnone] at h
  cases h

/-- Two numbers can always be compared. -/
theorem le_of_not_lt (ha : a.isNaN = false) (hb : b.isNaN = false) (h : ¬a < b) : b ≤ a := by
  obtain ⟨x, hx⟩ := exists_height ha
  obtain ⟨y, hy⟩ := exists_height hb
  refine le_iff.mpr ⟨y, x, hy, hx, le_of_not_gt fun hlt => h ?_⟩
  exact lt_iff.mpr ⟨x, y, hx, hy, hlt⟩

theorem le_refl_of_number (h : a.isNaN = false) : a ≤ a :=
  le_of_not_lt h h (lt_irrefl a)

/-- A comparison fails because the opposite holds, or because it has nothing to compare. -/
theorem not_le_iff : ¬a ≤ b ↔ b < a ∨ a.isNaN = true ∨ b.isNaN = true := by
  constructor
  · intro h
    cases ha : a.isNaN with
    | true => exact Or.inr (Or.inl rfl)
    | false =>
        cases hb : b.isNaN with
        | true => exact Or.inr (Or.inr rfl)
        | false =>
            refine Or.inl (Classical.byContradiction fun hlt => h ?_)
            exact le_of_not_lt hb ha hlt
  · rintro (hlt | hnan | hnan) hle
    · exact not_le_of_lt hlt hle
    · obtain ⟨x, y, hx, -⟩ := le_iff.mp hle
      cases hx.symm.trans (height?_eq_none_iff.mpr hnan)
    · obtain ⟨x, y, -, hy, -⟩ := le_iff.mp hle
      cases hy.symm.trans (height?_eq_none_iff.mpr hnan)

/-! ## Positive infinity -/

theorem height_lt_top {g : ℤ} (hg : g < 2) (e m : ℤ) : height g e m < top :=
  Prod.Lex.toLex_lt_toLex.mpr (Or.inl hg)

/-- Nothing stands above positive infinity, and whatever is finite stands below it. -/
theorem heightOf?_le_top {u : UnpackedFloat} {x : Height} (h : heightOf? u = some x) :
    x ≤ top ∧ (u.isFinite = true → x < top) := by
  have hbelow : x < top → x ≤ top ∧ (u.isFinite = true → x < top) := fun hlt =>
    ⟨hlt.le, fun _ => hlt⟩
  rcases u with s | _ | s | ⟨s, m, e, hm⟩
  · cases s with
    | positive =>
        cases h
        exact ⟨le_refl top, fun hfinite => Bool.noConfusion hfinite⟩
    | negative =>
        cases h
        exact hbelow (height_lt_top (by decide) 0 0)
  · cases h
  · cases h
    exact hbelow (height_lt_top (by decide) 0 0)
  · cases s with
    | positive =>
        cases h
        exact hbelow (height_lt_top (by decide) e m)
    | negative =>
        cases h
        exact hbelow (height_lt_top (by decide) (-e) (-m))

theorem isSome_heightOf?_of_isFinite {u : UnpackedFloat} (h : u.isFinite = true) :
    ∃ x, heightOf? u = some x := by
  rcases u with s | _ | s | ⟨s, m, e, hm⟩ <;> (try cases s) <;> first | exact ⟨_, rfl⟩ | cases h

theorem height?_infinity : height? (Float.ofBits 0x7FF0000000000000) = some top := by
  decide

theorem lt_infinity_of_isFinite (h : a.isFinite = true) :
    a < Float.ofBits 0x7FF0000000000000 := by
  obtain ⟨x, hx⟩ := isSome_heightOf?_of_isFinite h
  exact lt_iff.mpr ⟨x, top, hx, height?_infinity, (heightOf?_le_top hx).2 h⟩

/-- What is smaller than anything is smaller than positive infinity. -/
theorem lt_infinity_of_lt (h : a < b) : a < Float.ofBits 0x7FF0000000000000 := by
  obtain ⟨x, y, hx, hy, hlt⟩ := lt_iff.mp h
  exact lt_iff.mpr ⟨x, top, hx, height?_infinity, hlt.trans_le (heightOf?_le_top hy).1⟩

/-! ## Heights in bits -/

theorem height_lt_height {g e m g' e' m' : ℤ} : height g e m < height g' e' m' ↔
    g < g' ∨ g = g' ∧ (e < e' ∨ e = e' ∧ m < m') := by
  simp only [height, Prod.Lex.toLex_lt_toLex]

theorem height_inj {g e m g' e' m' : ℤ} : height g e m = height g' e' m' ↔
    g = g' ∧ e = e' ∧ m = m' := by
  rw [height, height, toLex_inj, Prod.mk.injEq, toLex_inj, Prod.mk.injEq]

/-- A height or its opposite. -/
def signed : Sign → ℤ → ℤ → ℤ → Height
  | .positive, g, e, m => height g e m
  | .negative, g, e, m => height (-g) (-e) (-m)

theorem heightOf?_infinity (s : Sign) : heightOf? (.infinity s) = some (signed s 2 0 0) := by
  cases s <;> rfl

theorem heightOf?_zero (s : Sign) : heightOf? (.zero s) = some (signed s 0 0 0) := by
  cases s <;> rfl

theorem heightOf?_finite (s : Sign) {m : ℕ} {e : ℤ} {hm : 0 < m} :
    heightOf? (.finite s m e hm) = some (signed s 1 e m) := by
  cases s <;> rfl

/-- The three parts of the height at which a float with these bits stands, if its sign bit is not one of
them. -/
inductive Stands : (bits : ℕ) → (grade exponent mantissa : ℤ) → Prop
  | zero : Stands 0 0 0 0
  | subnormal {k : ℕ} {e m : ℤ} : 0 < k → k < 2 ^ 52 → e = -1074 → m = k → Stands k 1 e m
  | normal {k : ℕ} {e m : ℤ} : 2 ^ 52 ≤ k → k < 2047 * 2 ^ 52 →
      e = (k / 2 ^ 52 : ℕ) - 1075 → m = 2 ^ 52 + (k % 2 ^ 52 : ℕ) → Stands k 1 e m
  | infinity : Stands (2047 * 2 ^ 52) 2 0 0

theorem Stands.lt {k k' : ℕ} {g e m g' e' m' : ℤ} (h : Stands k g e m) (h' : Stands k' g' e' m')
    (hlt : height g e m < height g' e' m') : k < k' := by
  rw [height_lt_height] at hlt
  cases h <;> cases h' <;> omega

theorem exponentBias_eq : Format.binary64.exponentBias = 1023 := by
  decide

/-- What a sign adds to the bits. -/
def signBits : Sign → ℕ
  | .positive => 0
  | .negative => 2 ^ 63

theorem toNat_eq_add_signBits (b : BitVec 64) : b.toNat =
    b.toNat % 2 ^ 63 + signBits (Sign.ofBitVec (@unpackSign Format.binary64 b)) := by
  have hb := b.isLt
  obtain ⟨sign, hsign⟩ : ∃ v, @unpackSign Format.binary64 b = v := ⟨_, rfl⟩
  have hs : sign.toNat = b.toNat / 2 ^ 63 := by
    have hbit : sign.toNat = b.toNat >>> 63 % 2 := hsign ▸ BitVec.extractLsb_toNat 63 63 b
    rw [hbit, Nat.shiftRight_eq_div_pow]
    omega
  rw [hsign, Sign.ofBitVec]
  split
  · next hzero =>
    have hzero : sign.toNat = 0 := congrArg BitVec.toNat hzero
    show _ = _ + 0
    omega
  · next hone =>
    have hone : sign.toNat ≠ 0 := fun hnat => hone (BitVec.eq_of_toNat_eq hnat)
    show _ = _ + 2 ^ 63
    omega

theorem stands_of_unpack {b : BitVec 64} {x : Height}
    (h : heightOf? (unpack Format.binary64 b) = some x) :
    ∃ g e m, Stands (b.toNat % 2 ^ 63) g e m ∧
      x = signed (Sign.ofBitVec (@unpackSign Format.binary64 b)) g e m := by
  have hbias := exponentBias_eq
  have hwidth : Format.binary64.mantissaBitsWithoutImplicit = 52 := rfl
  have hmantissa : (@unpackMantissa Format.binary64 b).toNat = b.toNat % 2 ^ 52 :=
    BitVec.extractLsb_toNat 51 0 b
  have hexponent : (@unpackExponent Format.binary64 b).toNat = b.toNat / 2 ^ 52 % 2 ^ 11 := by
    rw [← Nat.shiftRight_eq_div_pow]
    exact BitVec.extractLsb_toNat 62 52 b
  unfold unpack at h
  dsimp only at h
  -- all ones in the exponent, then all zeros, then anything else
  by_cases htop : @unpackExponent Format.binary64 b = -1#_
  · have hones : (@unpackExponent Format.binary64 b).toNat = 2047 := congrArg BitVec.toNat htop
    rw [if_pos htop] at h
    by_cases hzero : @unpackMantissa Format.binary64 b = 0#_
    · have hnone : (@unpackMantissa Format.binary64 b).toNat = 0 := congrArg BitVec.toNat hzero
      have hbits : b.toNat % 2 ^ 63 = 2047 * 2 ^ 52 := by omega
      rw [if_pos hzero, heightOf?_infinity] at h
      cases h
      exact ⟨2, 0, 0, hbits ▸ .infinity, rfl⟩
    · rw [if_neg hzero] at h
      cases h
  · have hones : (@unpackExponent Format.binary64 b).toNat ≠ 2047 := fun hnat =>
      htop (BitVec.eq_of_toNat_eq hnat)
    rw [if_neg htop] at h
    by_cases hleast : @unpackExponent Format.binary64 b = 0#_
    · have hzeros : (@unpackExponent Format.binary64 b).toNat = 0 := congrArg BitVec.toNat hleast
      rw [if_pos hleast] at h
      by_cases hzero : @unpackMantissa Format.binary64 b = 0#_
      · have hnone : (@unpackMantissa Format.binary64 b).toNat = 0 := congrArg BitVec.toNat hzero
        have hbits : b.toNat % 2 ^ 63 = 0 := by omega
        rw [dif_pos hzero, heightOf?_zero] at h
        cases h
        exact ⟨0, 0, 0, hbits ▸ .zero, rfl⟩
      · have hsome : (@unpackMantissa Format.binary64 b).toNat ≠ 0 := fun hnat =>
          hzero (BitVec.eq_of_toNat_eq hnat)
        rw [dif_neg hzero, heightOf?_finite] at h
        cases h
        exact ⟨_, _, _, .subnormal (by omega) (by omega) (by omega) (by omega), rfl⟩
    · have hzeros : (@unpackExponent Format.binary64 b).toNat ≠ 0 := fun hnat =>
        hleast (BitVec.eq_of_toNat_eq hnat)
      have hfull : (1#1 ++ @unpackMantissa Format.binary64 b).toNat =
          2 ^ 52 + (@unpackMantissa Format.binary64 b).toNat := by
        rw [BitVec.toNat_append, ← Nat.shiftLeft_add_eq_or_of_lt (BitVec.isLt _)]
        rfl
      rw [if_neg hleast, heightOf?_finite] at h
      cases h
      exact ⟨_, _, _, .normal (by omega) (by omega) (by omega) (by omega), rfl⟩

/-- Every float with a height is a sign and bits that stand at this height. -/
theorem exists_stands {a : Float} {x : Height} (h : height? a = some x) :
    ∃ s k g e m, k < 2 ^ 63 ∧ a.toBits.toNat = k + signBits s ∧ Stands k g e m ∧
      x = signed s g e m := by
  obtain ⟨g, e, m, hstands, hx⟩ := stands_of_unpack h
  exact ⟨_, _, g, e, m, Nat.mod_lt _ (by decide), toNat_eq_add_signBits a.toBits.toBitVec, hstands,
    hx⟩

end FloatOrder

end Placement
