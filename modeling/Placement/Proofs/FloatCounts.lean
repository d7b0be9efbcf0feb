import Placement.Proofs.FloatRounding

/-!
# Counts as floats

A count below `2 ^ 53` is a float without rounding, and so is the sum of two counts if it is below
`2 ^ 53` too. Within this range adding and comparing floats is adding and comparing counts. Above it a
count is still a number that is finite or has overflowed to infinity, and never below two, which is all
that a division by it needs (`isFinite_div_ofNat`).
-/

namespace Placement

namespace FloatCounts

open Float.Model (UnpackedFloat Format totalExponent)
open Float.Model.UnpackedFloat
open FloatRounding

/-- The float that a count is: its leading bit at the front of 53 bits. -/
def count (k : ℕ) : UnpackedFloat :=
  if h : k = 0 then .zero .positive
  else .finite .positive (k * 2 ^ (52 - k.log2)) (k.log2 - 52)
    (Nat.mul_pos (Nat.pos_of_ne_zero h) (Nat.two_pow_pos _))

variable {k : ℕ}

theorem count_of_pos (hpos : 0 < k) : count k = .finite .positive (k * 2 ^ (52 - k.log2))
    (k.log2 - 52) (Nat.mul_pos hpos (Nat.two_pow_pos _)) :=
  dif_neg (Nat.ne_of_gt hpos)

theorem count_one : count 1 = .finite .positive (2 ^ 52) (-52) (by decide) :=
  rfl

/-- The leading bit of a count is the first of 53. -/
theorem mantissa_count (hpos : 0 < k) (hlt : k < 2 ^ 53) :
    2 ^ 52 ≤ k * 2 ^ (52 - k.log2) ∧ k * 2 ^ (52 - k.log2) < 2 ^ 53 := by
  have hlog := log2_le_of_lt hlt
  have hle : 2 ^ k.log2 ≤ k := Nat.log2_self_le (Nat.ne_of_gt hpos)
  have hsum : k.log2 + (52 - k.log2) = 52 := by omega
  constructor
  · calc 2 ^ 52 = 2 ^ k.log2 * 2 ^ (52 - k.log2) := by rw [← Nat.pow_add, hsum]
      _ ≤ k * 2 ^ (52 - k.log2) := Nat.mul_le_mul_right _ hle
  · calc k * 2 ^ (52 - k.log2) < 2 ^ (k.log2 + 1) * 2 ^ (52 - k.log2) :=
          Nat.mul_lt_mul_of_pos_right Nat.lt_log2_self (Nat.two_pow_pos _)
      _ = 2 ^ 53 := by rw [← Nat.pow_add, Nat.add_right_comm, hsum]

theorem unpack_pack_count (hlt : k < 2 ^ 53) : (Float.Model.pack (count k)).unpack = count k := by
  rcases Nat.eq_zero_or_pos k with rfl | hpos
  · rfl
  · have hlog := log2_le_of_lt hlt
    obtain ⟨hlead, hbits⟩ := mantissa_count hpos hlt
    rw [count_of_pos hpos]
    exact unpack_pack hlead hbits (by omega) (by omega)

/-- Rounding finds the float of a count, with however many zero bits it is written. -/
theorem roundWithAccuracy_count (hpos : 0 < k) (hlt : k < 2 ^ 53) {m : ℕ} {e : ℤ} (n : ℕ)
    (hm : m = k * 2 ^ (52 - k.log2) * 2 ^ n) (he : e = k.log2 - 52 - n) :
    roundWithAccuracy Format.binary64 .positive m e .exact = count k := by
  have hlog := log2_le_of_lt hlt
  obtain ⟨hlead, hbits⟩ := mantissa_count hpos hlt
  have haim : aim (k * 2 ^ (52 - k.log2)) (k.log2 - 52) = k.log2 - 52 := by
    rw [aim_eq, (Nat.log2_eq_iff (by omega)).mpr ⟨hlead, hbits⟩]
    omega
  rw [count_of_pos hpos, hm, he]
  exact round_exact .positive _ haim n

theorem round_count (hpos : 0 < k) (hlt : k < 2 ^ 53) (j : ℕ) :
    UnpackedFloat.round Format.binary64 .positive (k * 2 ^ j) (-j) = count k := by
  have hlog := log2_le_of_lt hlt
  have haim : Format.binary64.targetExponent (totalExponent (k * 2 ^ j) (-j)) = k.log2 - 52 := by
    show aim (k * 2 ^ j) (-j) = _
    rw [aim_eq, log2_mul_two_pow hpos]
    omega
  simp only [UnpackedFloat.round, haim, decreaseExponent]
  refine roundWithAccuracy_count hpos hlt (j + (-j - (k.log2 - 52 : ℤ)).toNat - (52 - k.log2)) ?_ ?_
  · rw [Nat.shiftLeft_eq, Nat.mul_assoc, ← Nat.pow_add, Nat.mul_assoc, ← Nat.pow_add]
    congr 2
    omega
  · omega

/-! ## Conversion -/

theorem unpack_ofNat_uint64 (hlt : k < 2 ^ 53) :
    k.toUInt64.toFloat.toModel.unpack = count k := by
  have hword : k.toUInt64.toNat = k := Nat.mod_eq_of_lt (by omega)
  show (Float.Model.pack (UnpackedFloat.ofNat Format.binary64 k.toUInt64.toNat)).unpack = _
  rw [hword]
  have hround : UnpackedFloat.ofNat Format.binary64 k = count k := by
    rcases Nat.eq_zero_or_pos k with rfl | hpos
    · rfl
    · have hgt : compare (k : ℤ) 0 = .gt := compare_gt_iff_gt.mpr (Int.natCast_pos.mpr hpos)
      rw [UnpackedFloat.ofNat, UnpackedFloat.ofInt, UnpackedFloat.normalize, hgt]
      simpa using round_count hpos hlt 0
  rw [hround, unpack_pack_count hlt]

/-- Multiplying by one gives back a count. -/
theorem mul_one_count (hlt : k < 2 ^ 53) :
    UnpackedFloat.mul Format.binary64 (count k) (count 1) = count k := by
  rcases Nat.eq_zero_or_pos k with rfl | hpos
  · rfl
  · rw [count_of_pos hpos, count_one]
    show roundWithAccuracy Format.binary64 .positive (k * 2 ^ (52 - k.log2) * 2 ^ 52)
      (k.log2 - 52 + -52) .exact = _
    rw [roundWithAccuracy_count hpos hlt 52 rfl (by omega), count_of_pos hpos]

theorem ofNat_eq (hlt : k < 2 ^ 53) :
    Float.ofNat k = Float.ofModel (Float.Model.pack (count k)) := by
  have hone : (Float.ofBits 0x3FF0000000000000).toModel.unpack = count 1 := by rfl
  have hfast : Float.ofNat k = k.toUInt64.toFloat * Float.ofBits 0x3FF0000000000000 :=
    dif_pos ⟨hlt, by decide⟩
  rw [hfast]
  show Float.ofModel (Float.Model.pack (UnpackedFloat.mul Format.binary64 _ _)) = _
  rw [unpack_ofNat_uint64 hlt, hone, mul_one_count hlt]

theorem unpack_ofNat (hlt : k < 2 ^ 53) : (Float.ofNat k).toModel.unpack = count k := by
  rw [ofNat_eq hlt]
  exact unpack_pack_count hlt

theorem isFinite_ofNat (hlt : k < 2 ^ 53) : (Float.ofNat k).isFinite = true := by
  show (Float.ofNat k).toModel.unpack.isFinite = true
  rw [unpack_ofNat hlt, count]
  split <;> rfl

/-! ## Sums -/

theorem add_count {a b : ℕ} (h : a + b < 2 ^ 53) :
    UnpackedFloat.add Format.binary64 (count a) (count b) = count (a + b) := by
  rcases Nat.eq_zero_or_pos a with rfl | ha
  · rw [Nat.zero_add]
    rcases Nat.eq_zero_or_pos b with rfl | hb
    · rfl
    · rw [count_of_pos hb]
      rfl
  rcases Nat.eq_zero_or_pos b with rfl | hb
  · rw [Nat.add_zero, count_of_pos ha]
    rfl
  have hla := log2_le_of_lt (r := a) (by omega)
  have hlb := log2_le_of_lt (r := b) (by omega)
  -- both are written with as many zero bits as the one with the lower exponent
  obtain ⟨j, hj⟩ : ∃ j : ℕ, min (a.log2 - 52 : ℤ) (b.log2 - 52) = -j := ⟨52 - min a.log2 b.log2, by omega⟩
  have hshift : ∀ c : ℕ, c.log2 ≤ 52 → 52 - c.log2 ≤ j →
      c * 2 ^ (52 - c.log2) * 2 ^ ((c.log2 - 52 : ℤ) - -j).toNat = c * 2 ^ j := by
    intro c hlog hle
    have hbits : 52 - c.log2 + ((c.log2 - 52 : ℤ) - -j).toNat = j := by omega
    rw [Nat.mul_assoc, ← Nat.pow_add, hbits]
  have hgt : compare ((a * 2 ^ j : ℕ) + (b * 2 ^ j : ℕ) : ℤ) 0 = .gt := by
    have hpos : 0 < a * 2 ^ j := Nat.mul_pos ha (Nat.two_pow_pos j)
    exact compare_gt_iff_gt.mpr (by omega)
  have hsum : ((a * 2 ^ j : ℕ) + (b * 2 ^ j : ℕ) : ℤ).toNat = (a + b) * 2 ^ j := by
    rw [← Int.natCast_add, Int.toNat_natCast, Nat.add_mul]
  rw [count_of_pos ha, count_of_pos hb]
  simp only [UnpackedFloat.add, decreaseExponent, hj, Nat.shiftLeft_eq]
  rw [hshift a hla (by omega), hshift b hlb (by omega)]
  show UnpackedFloat.normalize Format.binary64 ((a * 2 ^ j : ℕ) + (b * 2 ^ j : ℕ) : ℤ) (-j) .positive = _
  rw [UnpackedFloat.normalize, hgt, hsum]
  exact round_count (by omega) h j

/-- Adding the floats of counts is adding counts. -/
theorem ofNat_add {a b : ℕ} (h : a + b < 2 ^ 53) :
    Float.ofNat a + Float.ofNat b = Float.ofNat (a + b) := by
  rw [ofNat_eq h, ← add_count h]
  show Float.ofModel (Float.Model.pack (UnpackedFloat.add Format.binary64 _ _)) = _
  rw [unpack_ofNat (by omega), unpack_ofNat (by omega)]

/-! ## Order -/

theorem height?_ofNat_lt {a b : ℕ} (hlt : a < b) (hb : b < 2 ^ 53) :
    ∃ x y, FloatOrder.height? (Float.ofNat a) = some x ∧ FloatOrder.height? (Float.ofNat b) = some y ∧
      x < y := by
  rw [FloatOrder.height?, FloatOrder.height?, unpack_ofNat (hlt.trans hb), unpack_ofNat hb,
    count_of_pos (by omega : 0 < b), FloatOrder.heightOf?_finite]
  rcases Nat.eq_zero_or_pos a with rfl | ha
  · refine ⟨_, _, FloatOrder.heightOf?_zero .positive, rfl, ?_⟩
    exact FloatOrder.height_lt_height.mpr (Or.inl (by decide))
  · rw [count_of_pos ha, FloatOrder.heightOf?_finite]
    refine ⟨_, _, rfl, rfl, FloatOrder.height_lt_height.mpr (Or.inr ⟨rfl, ?_⟩)⟩
    have hlog : a.log2 ≤ b.log2 :=
      (Nat.le_log2 (by omega)).mpr ((Nat.log2_self_le (Nat.ne_of_gt ha)).trans hlt.le)
    rcases Nat.lt_or_eq_of_le hlog with hless | hsame
    · exact Or.inl (by omega)
    · refine Or.inr ⟨by rw [hsame], ?_⟩
      rw [hsame]
      exact Int.ofNat_lt.mpr (Nat.mul_lt_mul_of_pos_right hlt (Nat.two_pow_pos _))

theorem ofNat_lt_ofNat {a b : ℕ} (hlt : a < b) (hb : b < 2 ^ 53) : Float.ofNat a < Float.ofNat b :=
  FloatOrder.lt_iff.mpr (height?_ofNat_lt hlt hb)

/-- Comparing the floats of counts is comparing counts. -/
theorem ofNat_le_ofNat_iff {a b : ℕ} (ha : a < 2 ^ 53) (hb : b < 2 ^ 53) :
    Float.ofNat a ≤ Float.ofNat b ↔ a ≤ b := by
  constructor
  · intro hle
    by_contra hlt
    exact FloatOrder.not_le_of_lt (ofNat_lt_ofNat (Nat.lt_of_not_le hlt) ha) hle
  · intro hle
    rcases Nat.lt_or_eq_of_le hle with hlt | rfl
    · exact FloatOrder.le_of_lt (ofNat_lt_ofNat hlt hb)
    · rcases Nat.eq_zero_or_pos a with rfl | hpos
      · decide
      · obtain ⟨x, y, -, hy, -⟩ := height?_ofNat_lt hpos ha
        exact FloatOrder.le_iff.mpr ⟨y, y, hy, hy, le_refl y⟩

/-! ## Division by a count -/

/-- A positive number of at least two, or infinity. -/
inductive FromTwo : UnpackedFloat → Prop
  | infinity : FromTwo (.infinity .positive)
  | finite (m : ℕ) (e : ℤ) (hm : 0 < m) (h : 1 ≤ m.log2 + e) : FromTwo (.finite .positive m e hm)

/-- Beyond 53 bits a count is rounded, but not below the power of two that its leading bit stands for. -/
theorem roundWithAccuracy_large (hlarge : 2 ^ 53 ≤ k) :
    ∃ m e hm, roundWithAccuracy Format.binary64 .positive (k * 2 ^ 53) (-53) .exact =
        .finite .positive m e hm ∧ 2 ^ 52 ≤ m ∧ m < 2 ^ 53 ∧ 1 ≤ e := by
  have hpos : 0 < k := by omega
  have hlog : 53 ≤ k.log2 := (Nat.le_log2 (by omega)).mpr hlarge
  have haim : aim (k * 2 ^ 53) (-53) = k.log2 - 52 := by
    rw [aim_eq, log2_mul_two_pow hpos]
    omega
  have hshift : (aim (k * 2 ^ 53) (-53) - -53).toNat = k.log2 + 1 := by omega
  have hlead : 2 ^ 52 ≤ rounded (k * 2 ^ 53) (-53) .exact := by
    refine le_trans ?_ (le_rounded (k * 2 ^ 53) (-53) .exact).1
    rw [hshift, Nat.le_div_iff_mul_le (Nat.two_pow_pos _), ← Nat.pow_add]
    calc 2 ^ (52 + (k.log2 + 1)) = 2 ^ k.log2 * 2 ^ 53 := by rw [← Nat.pow_add]; congr 1; omega
      _ ≤ k * 2 ^ 53 := Nat.mul_le_mul_right _ (Nat.log2_self_le (Nat.ne_of_gt hpos))
  have hrounds := rounds .positive (k * 2 ^ 53) (-53) .exact
  rw [haim, max_eq_right (by omega)] at hrounds
  generalize rounded (k * 2 ^ 53) (-53) .exact = r at hrounds hlead
  generalize roundWithAccuracy _ _ _ _ _ = u at hrounds ⊢
  cases hrounds with
  | zero => exact absurd hlead (by decide)
  | fits hr hlt => exact ⟨r, _, hr, rfl, hlead, hlt, by omega⟩
  | carries => exact ⟨_, _, _, rfl, le_refl _, by decide, by omega⟩

theorem ofScientific_of_pos (hpos : 0 < k) : UnpackedFloat.ofScientific Format.binary64 k 0 =
    roundWithAccuracy Format.binary64 .positive (k * 2 ^ 53) (-53) .exact := by
  have hbits : Format.binary64.mantissaBits = 53 := rfl
  have hrange : ¬(0 : ℤ) < -(2 ^ Format.binary64.exponentBits + (k.log2 : ℤ)) := by
    have : (0 : ℤ) ≤ 2 ^ Format.binary64.exponentBits := by positivity
    omega
  rw [UnpackedFloat.ofScientific, dif_neg (Nat.ne_of_gt hpos), if_neg (by decide), if_neg hrange,
    if_pos (le_refl 0)]
  simp only [UnpackedFloat.mul, hbits, Nat.shiftLeft_eq, Int.toNat_zero, Nat.pow_zero, Nat.mul_one,
    Int.add_zero]
  rfl

theorem fromTwo_ofNat (h : 2 ≤ k) : FromTwo (Float.ofNat k).toModel.unpack := by
  have hpos : 0 < k := by omega
  rcases Nat.lt_or_ge k (2 ^ 53) with hlt | hlarge
  · have hlog : 1 ≤ k.log2 := (Nat.le_log2 (by omega)).mpr h
    have hlog' := log2_le_of_lt hlt
    rw [unpack_ofNat hlt, count_of_pos hpos]
    refine .finite _ _ _ ?_
    rw [log2_mul_two_pow hpos]
    omega
  · have hslow : Float.ofNat k = Float.ofModel (Float.Model.ofScientific k 0) :=
      dif_neg fun hfast => absurd hfast.1 (by omega)
    obtain ⟨m, e, hm, hround, hlead, hbits, he⟩ := roundWithAccuracy_large hlarge
    rw [hslow]
    show FromTwo (Float.Model.pack (UnpackedFloat.ofScientific Format.binary64 k 0)).unpack
    rw [ofScientific_of_pos hpos, hround]
    rcases lt_or_ge 971 e with hover | hroom
    · rw [unpack_pack_of_overflow hover]
      exact .infinity
    · rw [unpack_pack hlead hbits (by omega) hroom]
      exact .finite _ _ _ (by omega)

theorem isFinite_pack_zero (s : Sign) : (Float.Model.pack (.zero s)).unpack.isFinite = true := by
  rw [unpack_pack_zero]
  rfl

theorem isFinite_pack_of_rounds {s : Sign} {e : ℤ} {r : ℕ} {u : UnpackedFloat} (h : Rounds s e r u)
    (he : e ≤ 970) : (Float.Model.pack u).unpack.isFinite = true := by
  cases h with
  | zero => exact isFinite_pack_zero s
  | fits hpos _ => exact bears_pack.2 (by omega)
  | carries => exact bears_pack.2 (by omega)

/-- The quotient of two mantissas has no more bits than their difference leaves. -/
theorem log2_div_le {a b : ℕ} (h : 0 < a / b) : (a / b).log2 + b.log2 ≤ a.log2 := by
  have hb : 0 < b := Nat.pos_of_ne_zero fun h0 => by simp [h0] at h
  have ha : a ≠ 0 := fun h0 => by simp [h0] at h
  refine (Nat.le_log2 ha).mpr ?_
  calc 2 ^ ((a / b).log2 + b.log2) = 2 ^ (a / b).log2 * 2 ^ b.log2 := Nat.pow_add ..
    _ ≤ a / b * b := Nat.mul_le_mul (Nat.log2_self_le (Nat.ne_of_gt h)) (Nat.log2_self_le (Nat.ne_of_gt hb))
    _ ≤ a := Nat.div_mul_le_self a b

/-- The mantissa of a quotient is taken with zero bits added, at an exponent low enough for 53 bits. -/
theorem divCore_eq (m m' : ℕ) (e e' : ℤ) : ∃ t, t ≤ e - e' ∧
    t ≤ max (m.log2 + e - (m'.log2 + e') - 53) (-1074) ∧
    divCore Format.binary64 m e m' e' = (m * 2 ^ (e - e' - t).toNat / m', t,
      accuracyOfFraction (m * 2 ^ (e - e' - t).toNat % m') m') := by
  refine ⟨min (e - e') (Format.binary64.targetExponent (totalExponent m e - totalExponent m' e')),
    min_le_left _ _, (min_le_right _ _).trans (le_of_eq ?_), ?_⟩
  · rw [targetExponent_eq, totalExponent, totalExponent]
    omega
  · simp only [divCore, Nat.shiftLeft_eq]

/-- Divided by at least two, the greatest exponents leave room for a carry. -/
theorem rounds_div_fromTwo {s s' : Sign} {m m' : ℕ} {e e' : ℤ} {hm : 0 < m} {hm' : 0 < m'}
    (hbits : m < 2 ^ 53) (he : e ≤ 971) (h : 1 ≤ m'.log2 + e') :
    ∃ E r, E ≤ 970 ∧ Rounds (s / s') E r
      (UnpackedFloat.div Format.binary64 (.finite s m e hm) (.finite s' m' e' hm')) := by
  have hlog := log2_le_of_lt hbits
  obtain ⟨t, hdiff, ht, hcore⟩ := divCore_eq m m' e e'
  have hquotient : ((m * 2 ^ (e - e' - t).toNat / m').log2 : ℤ) + t ≤ max t 1022 := by
    rcases Nat.eq_zero_or_pos (m * 2 ^ (e - e' - t).toNat / m') with hzero | hpos
    · rw [hzero, Nat.log2_zero]
      omega
    · have hle := log2_div_le hpos
      rw [log2_mul_two_pow hm] at hle
      omega
  simp only [UnpackedFloat.div, hcore]
  refine ⟨_, _, ?_, rounds (s / s') _ t _⟩
  rw [aim_eq]
  omega

/-- Divided by one, a number is only moved to the exponent where it belongs. -/
theorem div_one_finite (s : Sign) {m : ℕ} {e : ℤ} (hm : 0 < m) (hbits : m < 2 ^ 53) (hlow : -1074 ≤ e)
    (he : e ≤ 971) : ∃ m' e' hm', e' ≤ 971 ∧
      UnpackedFloat.div Format.binary64 (.finite s m e hm) (count 1) =
        .finite (s / .positive) m' e' hm' := by
  have hlog := log2_le_of_lt hbits
  have hone : (2 ^ 52 : ℕ).log2 = 52 := Nat.log2_two_pow
  obtain ⟨t, hdiff, ht, hcore⟩ := divCore_eq m (2 ^ 52) e (-52)
  rw [hone] at ht
  -- the exponent that 53 bits need is not above the one that the number has
  obtain ⟨i, hi⟩ : ∃ i : ℕ, aim m e = e - i := ⟨(e - aim m e).toNat, by rw [aim_eq]; omega⟩
  obtain ⟨j, hj⟩ : ∃ j : ℕ, t = e - i - j := ⟨(e - i - t).toNat, by
    rw [aim_eq] at hi
    omega⟩
  have hshift : (e - -52 - t).toNat = i + j + 52 := by omega
  have hexact : m * 2 ^ (e - -52 - t).toNat = m * 2 ^ i * 2 ^ j * 2 ^ 52 := by
    rw [hshift, Nat.pow_add, Nat.pow_add]
    ring
  have haim : aim (m * 2 ^ i) (e - i) = e - i := by
    rw [← hi, aim_eq, aim_eq, log2_mul_two_pow hm]
    rw [aim_eq] at hi
    omega
  refine ⟨m * 2 ^ i, e - i, Nat.mul_pos hm (Nat.two_pow_pos i), by omega, ?_⟩
  rw [count_one]
  simp only [UnpackedFloat.div, hcore]
  rw [hexact, Nat.mul_div_cancel _ (Nat.two_pow_pos 52), Nat.mul_mod_left, hj]
  exact round_exact _ _ haim j

theorem isFinite_div_fromTwo {x : Float} {v : UnpackedFloat} (hx : x.toModel.unpack.isFinite = true)
    (hv : FromTwo v) :
    (Float.Model.pack (UnpackedFloat.div Format.binary64 x.toModel.unpack v)).unpack.isFinite = true := by
  rcases hu : x.toModel.unpack with s | _ | s | ⟨s, m, e, hm⟩ <;> rw [hu] at hx <;> (try cases hx)
  · cases hv <;> exact isFinite_pack_zero _
  · obtain ⟨hbits, -, hhigh⟩ := FloatClass.bounds_of_unpack hu
    cases hv with
    | infinity => exact isFinite_pack_zero _
    | finite m' e' hm' hle =>
        obtain ⟨E, r, hE, hrounds⟩ := rounds_div_fromTwo hbits hhigh hle
        exact isFinite_pack_of_rounds hrounds hE

theorem isFinite_div_one {x : Float} (hx : x.toModel.unpack.isFinite = true) :
    (Float.Model.pack (UnpackedFloat.div Format.binary64 x.toModel.unpack
      (count 1))).unpack.isFinite = true := by
  rcases hu : x.toModel.unpack with s | _ | s | ⟨s, m, e, hm⟩ <;> rw [hu] at hx <;> (try cases hx)
  · exact isFinite_pack_zero _
  · obtain ⟨hbits, hlow, hhigh⟩ := FloatClass.bounds_of_unpack hu
    obtain ⟨m', e', hm', he', hdiv⟩ := div_one_finite s hm hbits hlow hhigh
    rw [hdiv]
    exact bears_pack.2 he'

/-- A finite number divided by a count is finite, whatever rounding does. -/
theorem isFinite_div_ofNat {x : Float} (hx : x.isFinite = true) (hk : 1 ≤ k) :
    (x / Float.ofNat k).isFinite = true := by
  show (Float.Model.pack (UnpackedFloat.div Format.binary64 x.toModel.unpack
    (Float.ofNat k).toModel.unpack)).unpack.isFinite = true
  rcases Nat.lt_or_eq_of_le hk with htwo | rfl
  · exact isFinite_div_fromTwo hx (fromTwo_ofNat htwo)
  · rw [unpack_ofNat (by decide)]
    exact isFinite_div_one hx

/-- A count of at least one is an infinity or a regular number, and positive. -/
theorem bears_ofNat (hk : 1 ≤ k) : Bears .positive (Float.ofNat k).toModel.unpack ∧
    (Float.ofNat k).toModel.unpack ≠ .zero .positive := by
  rcases Nat.lt_or_eq_of_le hk with htwo | rfl
  · have hfrom := fromTwo_ofNat htwo
    generalize (Float.ofNat k).toModel.unpack = v at hfrom ⊢
    cases hfrom with
    | infinity => exact ⟨.infinity, nofun⟩
    | finite => exact ⟨.finite .., nofun⟩
  · rw [unpack_ofNat (by decide)]
    exact ⟨.finite .., nofun⟩

theorem zero_le_div_ofNat {x : Float} (h0 : 0 ≤ x) (hx : x.isFinite = true) (hk : 1 ≤ k) :
    0 ≤ x / Float.ofNat k := by
  obtain ⟨hbears, hne⟩ := bears_ofNat hk
  exact zero_le_iff.mpr ((zero_le_iff.mp h0).div hx hbears hne).pack

/-- What is not finite is not made so by dividing it. -/
theorem isFinite_of_div_ofNat {x : Float} (hk : 1 ≤ k) (h : (x / Float.ofNat k).isFinite = true) :
    x.isFinite = true := by
  obtain ⟨hbears, hne⟩ := bears_ofNat hk
  have hfinite : (FloatClass.ofUnpacked (UnpackedFloat.div Format.binary64 x.toModel.unpack
      (Float.ofNat k).toModel.unpack)).isFinite = true := by
    rw [← FloatClass.isFinite_of] at h
    exact (FloatClass.scaled_pack _).isFinite h
  have hnan : FloatClass.nan.isFinite ≠ true := by decide
  have hinfinite : FloatClass.infinite.isFinite ≠ true := by decide
  show x.toModel.unpack.isFinite = true
  generalize (Float.ofNat k).toModel.unpack = v at hbears hne hfinite
  generalize x.toModel.unpack = u at hfinite ⊢
  rcases u with s | _ | s | ⟨s, m, e, hm⟩
  · rcases hbears with _ | _ | ⟨m', e', hm'⟩
    · exact absurd hfinite hnan
    · exact absurd rfl hne
    · exact absurd hfinite hinfinite
  · exact absurd hfinite hnan
  · rfl
  · rfl

/-- Dividing by a count neither overflows nor hides an overflow. -/
theorem isFinite_div_ofNat_iff {x : Float} (hk : 1 ≤ k) :
    (x / Float.ofNat k).isFinite = true ↔ x.isFinite = true :=
  ⟨isFinite_of_div_ofNat hk, fun hx => isFinite_div_ofNat hx hk⟩

end FloatCounts

end Placement
