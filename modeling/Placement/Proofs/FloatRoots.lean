import Mathlib.Data.Nat.Sqrt
import Placement.Proofs.FloatCounts

/-!
# Roots of counts

The root of a count as a float: its first 53 bits, found from the root of the count with zero bits added
(`root`), and rounded. Rounding does not cross a whole number. Of the two whole numbers that the exact
root lies between, the lower one is never reached unless it is the root, because a count is at least one
above the square below it, and that is more than half of the last bit. So the float is the upper one, or
lies strictly between them (`sqrt_ofNat`).

All of this is for counts up to `2 ^ 52`. For the next one the root is rounded down to a whole number.
-/

namespace Placement

namespace FloatRoots

open Float.Model (UnpackedFloat Format totalExponent)
open Float.Model.UnpackedFloat
open FloatRounding FloatCounts

variable {k w : ℕ}

/-! ## Whole numbers -/

/-- Cutting off the bits behind the point. -/
theorem roundToInt_neg (m n : ℕ) : roundToInt .positive m (-(n : ℤ)) = (m / 2 ^ n : ℕ) := by
  have hkeep : (-(n : ℤ) - 0).toNat = 0 := by omega
  have hcut : (0 - (-(n : ℤ) - (0 : ℕ))).toNat = n := by omega
  simp only [roundToInt, decreaseExponent, hkeep, shiftToExponent, hcut, Nat.shiftLeft_zero,
    mantissa_shiftRight, mantissa_ofMantissaAndAccuracy]
  rfl

theorem toNat_ofNatClamp {n : ℕ} (h : n < UInt64.size) : (UInt64.ofNatClamp n).toNat = n := by
  rw [UInt64.ofNatClamp, dif_pos h]
  rfl

/-- A count is got back from its float. -/
theorem toUInt64_ofNat (hlt : k < 2 ^ 53) : (Float.ofNat k).toUInt64.toNat = k := by
  have hwhole : UnpackedFloat.toInt 0 (UInt64.size - 1) (count k) = k := by
    rcases Nat.eq_zero_or_pos k with rfl | hpos
    · rfl
    · have hlog := log2_le_of_lt hlt
      have hexponent : (k.log2 - 52 : ℤ) = -(52 - k.log2 : ℕ) := by omega
      rw [count_of_pos hpos, UnpackedFloat.toInt, hexponent, roundToInt_neg,
        Nat.mul_div_cancel _ (Nat.two_pow_pos _)]
  show (UInt64.ofNatClamp (UnpackedFloat.toInt 0 (UInt64.size - 1)
    (Float.ofNat k).toModel.unpack).toNat).toNat = k
  rw [unpack_ofNat hlt, hwhole, Int.toNat_natCast]
  exact toNat_ofNatClamp (hlt.trans (by decide))

/-! ## Digits -/

/-- How many of the 53 bits of the root of a count lie behind the point. -/
def places (k : ℕ) : ℕ := 52 - k.log2 / 2

/-- The count with so many zero bits added that its root has 53 bits. -/
def radicand (k : ℕ) : ℕ := k * (2 ^ places k * 2 ^ places k)

/-- The root in units of its last bit, without what is left over. -/
def root (k : ℕ) : ℕ := Nat.sqrt (radicand k)

/-- How the root goes on behind its last bit. -/
def accuracy (k : ℕ) : Accuracy :=
  if radicand k - root k * root k = 0 then .exact
  else .inexact (if radicand k - root k * root k ≤ root k then .lt else .gt)

theorem sqrtCore_count (hpos : 0 < k) (hlt : k < 2 ^ 53) :
    sqrtCore Format.binary64 (k * 2 ^ (52 - k.log2)) (k.log2 - 52) =
      (root k, -(places k : ℤ), accuracy k) := by
  have hlog := log2_le_of_lt hlt
  have htarget : min ((k.log2 - 52 : ℤ).ediv 2) (Format.binary64.targetExponent
      ((totalExponent (k * 2 ^ (52 - k.log2)) (k.log2 - 52) + 1).ediv 2)) = -(places k : ℤ) := by
    rw [targetExponent_eq, totalExponent, log2_mul_two_pow hpos, places]
    show min ((k.log2 - 52 : ℤ) / 2) (max ((_ : ℤ) / 2 - 53) (-1074)) = _
    omega
  have hshift : 52 - k.log2 + (k.log2 - 52 - 2 * -(places k : ℤ)).toNat = places k + places k := by
    rw [places]
    omega
  have hradicand : (k * 2 ^ (52 - k.log2)) <<< (k.log2 - 52 - 2 * -(places k : ℤ)).toNat =
      radicand k := by
    rw [Nat.shiftLeft_eq, Nat.mul_assoc, ← Nat.pow_add, hshift, Nat.pow_add, radicand]
  simp only [sqrtCore, htarget, hradicand]
  rfl

theorem root_bounds (hpos : 0 < k) (hlt : k < 2 ^ 53) : 2 ^ 52 ≤ root k ∧ root k < 2 ^ 53 := by
  have hlog := log2_le_of_lt hlt
  have hpow : 2 ^ places k * 2 ^ places k = 2 ^ (104 - 2 * (k.log2 / 2)) := by
    rw [← Nat.pow_add, places]
    congr 1
    omega
  constructor
  · rw [root, Nat.le_sqrt, radicand, hpow]
    calc 2 ^ 52 * 2 ^ 52 ≤ 2 ^ (k.log2 + (104 - 2 * (k.log2 / 2))) := by
          rw [← Nat.pow_add]
          exact Nat.pow_le_pow_right (by decide) (by omega)
      _ = 2 ^ k.log2 * 2 ^ (104 - 2 * (k.log2 / 2)) := Nat.pow_add ..
      _ ≤ k * 2 ^ (104 - 2 * (k.log2 / 2)) :=
          Nat.mul_le_mul_right _ (Nat.log2_self_le (Nat.ne_of_gt hpos))
  · rw [root, Nat.sqrt_lt, radicand, hpow]
    calc k * 2 ^ (104 - 2 * (k.log2 / 2))
        < 2 ^ (k.log2 + 1) * 2 ^ (104 - 2 * (k.log2 / 2)) :=
          Nat.mul_lt_mul_of_pos_right Nat.lt_log2_self (Nat.two_pow_pos _)
      _ = 2 ^ (k.log2 + 1 + (104 - 2 * (k.log2 / 2))) := (Nat.pow_add ..).symm
      _ ≤ 2 ^ 53 * 2 ^ 53 := by
          rw [← Nat.pow_add]
          exact Nat.pow_le_pow_right (by decide) (by omega)

/-! ## Rounding -/

/-- The root is rounded at its last bit. -/
theorem aim_root (hpos : 0 < k) (hlt : k < 2 ^ 53) : aim (root k) (-(places k : ℤ)) = -(places k : ℤ) := by
  have hbounds := root_bounds hpos hlt
  have hlog : (root k).log2 = 52 := (Nat.log2_eq_iff (by omega)).mpr hbounds
  rw [aim_eq, hlog, places]
  omega

/-- The root in units of its last bit, rounded. -/
def nearest (k : ℕ) : ℕ := (accuracy k).roundToNearestEven (root k)

theorem rounded_root (hpos : 0 < k) (hlt : k < 2 ^ 53) :
    rounded (root k) (-(places k : ℤ)) (accuracy k) = nearest k := by
  have hstay : (aim (root k) (-(places k : ℤ)) - -(places k : ℤ)).toNat = 0 := by
    rw [aim_root hpos hlt, sub_self]
    rfl
  rw [rounded, hstay]
  show (ExtendedMantissa.ofMantissaAndAccuracy (root k) (accuracy k)).roundedMantissa = nearest k
  unfold accuracy nearest accuracy
  split
  · rfl
  · split <;> rfl

theorem rounds_sqrt (hpos : 0 < k) (hlt : k < 2 ^ 53) : Rounds .positive (-(places k : ℤ)) (nearest k)
    (UnpackedFloat.sqrt Format.binary64 (count k)) := by
  have hrounds := rounds .positive (root k) (-(places k : ℤ)) (accuracy k)
  rw [aim_root hpos hlt, max_self, rounded_root hpos hlt] at hrounds
  rw [count_of_pos hpos]
  simp only [UnpackedFloat.sqrt, sqrtCore_count hpos hlt]
  exact hrounds

theorem root_le_nearest (k : ℕ) : root k ≤ nearest k ∧ nearest k ≤ root k + 1 := by
  unfold nearest accuracy
  split
  · exact ⟨Nat.le_refl _, Nat.le_succ _⟩
  · split
    · exact ⟨Nat.le_refl _, Nat.le_succ _⟩
    · exact ⟨Nat.le_succ _, Nat.le_refl _⟩

theorem nearest_of_exact (h : radicand k ≤ root k * root k) : nearest k = root k := by
  rw [nearest, accuracy, if_pos (Nat.sub_eq_zero_of_le h)]
  rfl

/-- More than half of the last bit is rounded up. -/
theorem nearest_of_more (h : root k * root k + root k < radicand k) : nearest k = root k + 1 := by
  rw [nearest, accuracy, if_neg (by omega), if_neg (by omega)]
  rfl

/-- Between whole numbers: the root of a count above the square of `w` is rounded to more than `w`, and
that of a count up to the square of `w + 1` to no more than `w + 1`. -/
theorem nearest_bounds (hk : k ≤ 2 ^ 52) (hlow : w * w < k) (hhigh : k ≤ (w + 1) * (w + 1)) :
    w * 2 ^ places k < nearest k ∧ nearest k ≤ (w + 1) * 2 ^ places k := by
  have hlog := log2_le_of_lt (r := k) (by omega)
  have hw : w < 2 ^ 26 := lt_of_mul_self_lt_mul_self₀ (Nat.zero_le _) (by omega)
  have hplaces : 26 ≤ places k := by
    rw [places]
    omega
  -- a difference of one in the count is more than the root, in units of the square of the last bit
  have hunit : w * 2 ^ places k < 2 ^ places k * 2 ^ places k :=
    Nat.mul_lt_mul_of_pos_right (hw.trans_le (Nat.pow_le_pow_right (by decide) hplaces))
      (Nat.two_pow_pos _)
  obtain ⟨hfloor, hceil⟩ := root_le_nearest k
  have hroot : root k * root k ≤ radicand k := Nat.sqrt_le _
  have hlow' : (w * w + 1) * (2 ^ places k * 2 ^ places k) ≤ radicand k :=
    Nat.mul_le_mul_right _ hlow
  have hhigh' : radicand k ≤ (w + 1) * (w + 1) * (2 ^ places k * 2 ^ places k) :=
    Nat.mul_le_mul_right _ hhigh
  generalize 2 ^ places k = p at hunit hlow' hhigh' ⊢
  have hsquare : ∀ v, v * v * (p * p) = v * p * (v * p) := fun v => by ring
  rw [Nat.add_mul, Nat.one_mul, hsquare] at hlow'
  rw [hsquare] at hhigh'
  constructor
  · have hbelow : w * p ≤ root k := Nat.le_sqrt.mpr ((Nat.le_add_right _ _).trans hlow')
    rcases Nat.lt_or_eq_of_le hbelow with hlt | heq
    · omega
    · have hmore : nearest k = root k + 1 := nearest_of_more (by rw [← heq]; omega)
      omega
  · have habove : root k ≤ (w + 1) * p :=
      Nat.mul_self_le_mul_self_iff.mp (hroot.trans hhigh')
    rcases Nat.lt_or_eq_of_le habove with hlt | heq
    · omega
    · rw [nearest_of_exact (by rw [heq]; exact hhigh'), heq]

/-! ## The float -/

/-- Rounded to `r` units of its last bit, a root is a number of 53 bits. -/
inductive Shows (k : ℕ) : ℕ → UnpackedFloat → Prop
  | fits {r : ℕ} (hpos : 0 < r) (hlead : 2 ^ 52 ≤ r) (hlt : r < 2 ^ 53) :
      Shows k r (.finite .positive r (-(places k : ℤ)) hpos)
  | carries : Shows k (2 ^ 53) (.finite .positive (2 ^ 52) (-(places k : ℤ) + 1) (by decide))

theorem shows_sqrt (hpos : 0 < k) (hlt : k < 2 ^ 53) :
    Shows k (nearest k) (UnpackedFloat.sqrt Format.binary64 (count k)) := by
  have hrounds := rounds_sqrt hpos hlt
  have hlead := (root_bounds hpos hlt).1.trans (root_le_nearest k).1
  generalize UnpackedFloat.sqrt Format.binary64 (count k) = u at hrounds ⊢
  generalize nearest k = r at hrounds hlead ⊢
  cases hrounds with
  | zero => exact absurd hlead (by decide)
  | fits hr hlt => exact .fits hr hlead hlt
  | carries => exact .carries

namespace Shows

variable {r : ℕ} {u : UnpackedFloat}

theorem unpack_pack (h : Shows k r u) : (Float.Model.pack u).unpack = u := by
  have hplaces : places k ≤ 52 := Nat.sub_le _ _
  cases h with
  | fits hr hlead hlt => exact FloatRounding.unpack_pack hlead hlt (by omega) (by omega)
  | carries => exact FloatRounding.unpack_pack (le_refl _) (by decide) (by omega) (by omega)

/-- A root that is rounded to a whole number is the float of this number. -/
theorem eq_count (h : Shows k (w * 2 ^ places k) u) (hplaces : 1 ≤ places k) : u = count w := by
  have hw : 0 < w := by
    by_contra h0
    obtain rfl : w = 0 := by omega
    rw [Nat.zero_mul] at h
    cases h
    omega
  rw [count_of_pos hw]
  generalize hr : w * 2 ^ places k = r at h
  have hlog : r.log2 = w.log2 + places k := by rw [← hr, log2_mul_two_pow hw]
  cases h with
  | fits hr' hlead hlt =>
      rw [(Nat.log2_eq_iff (by omega)).mpr ⟨hlead, hlt⟩] at hlog
      have hbits : 52 - w.log2 = places k := by omega
      congr 1
      · rw [hbits, hr]
      · omega
  | carries =>
      rw [Nat.log2_two_pow] at hlog
      have hbits : 52 - w.log2 + 1 = places k := by omega
      congr 1
      · have htwice : w * 2 ^ (52 - w.log2) * 2 = 2 ^ 53 := by
          rw [Nat.mul_assoc, ← Nat.pow_succ, Nat.succ_eq_add_one, hbits, hr]
        omega
      · omega

/-- Above a whole number, a root is above the float of this number. -/
theorem height_count_lt (h : Shows k r u) (hlt : w * 2 ^ places k < r) :
    ∃ x y, FloatOrder.heightOf? (count w) = some x ∧ FloatOrder.heightOf? u = some y ∧ x < y := by
  rcases Nat.eq_zero_or_pos w with rfl | hw
  · cases h with
    | fits => exact ⟨_, _, FloatOrder.heightOf?_zero .positive, FloatOrder.heightOf?_finite _,
        FloatOrder.height_lt_height.mpr (Or.inl (by decide))⟩
    | carries => exact ⟨_, _, FloatOrder.heightOf?_zero .positive, FloatOrder.heightOf?_finite _,
        FloatOrder.height_lt_height.mpr (Or.inl (by decide))⟩
  · have hbits : w.log2 + places k < 53 := by
      have hr : r ≤ 2 ^ 53 := by cases h <;> omega
      refine (Nat.pow_lt_pow_iff_right (a := 2) (by decide)).mp ?_
      calc 2 ^ (w.log2 + places k) = 2 ^ w.log2 * 2 ^ places k := Nat.pow_add ..
        _ ≤ w * 2 ^ places k := Nat.mul_le_mul_right _ (Nat.log2_self_le (Nat.ne_of_gt hw))
        _ < 2 ^ 53 := hlt.trans_le hr
    rw [count_of_pos hw]
    cases h with
    | fits hr hlead hlt' =>
        refine ⟨_, _, FloatOrder.heightOf?_finite _, FloatOrder.heightOf?_finite _,
          FloatOrder.height_lt_height.mpr (Or.inr ⟨rfl, ?_⟩)⟩
        rcases Nat.lt_or_eq_of_le (Nat.le_of_lt_succ hbits) with hless | hsame
        · exact Or.inl (by omega)
        · refine Or.inr ⟨by omega, ?_⟩
          rw [show 52 - w.log2 = places k by omega]
          exact Int.ofNat_lt.mpr hlt
    | carries =>
        exact ⟨_, _, FloatOrder.heightOf?_finite _, FloatOrder.heightOf?_finite _,
          FloatOrder.height_lt_height.mpr (Or.inr ⟨rfl, Or.inl (by omega)⟩)⟩

/-- Without its places behind the point, a root is a whole number. -/
theorem toInt_eq (h : Shows k r u) (hplaces : 1 ≤ places k) (low high : ℤ) :
    UnpackedFloat.toInt low high u = (r / 2 ^ places k : ℕ) := by
  cases h with
  | fits hr => exact roundToInt_neg r (places k)
  | carries =>
      obtain ⟨n, hn⟩ : ∃ n, places k = n + 1 := ⟨places k - 1, by omega⟩
      have hexponent : -(places k : ℤ) + 1 = -(n : ℤ) := by omega
      have hhalf : 2 ^ 53 / 2 ^ (n + 1) = 2 ^ 52 / 2 ^ n :=
        Nat.mul_div_mul_right (2 ^ 52) (2 ^ n) (by decide)
      rw [UnpackedFloat.toInt, hexponent, roundToInt_neg, hn, hhalf]

end Shows

/-- The root of a count that lies above the square of `w`, and not above that of `w + 1`, is `w + 1` or
strictly between the two. -/
theorem sqrt_ofNat (hk : k ≤ 2 ^ 52) (hlow : w * w < k) (hhigh : k ≤ (w + 1) * (w + 1)) :
    (Float.ofNat k).sqrt = Float.ofNat (w + 1) ∨
      Float.ofNat w < (Float.ofNat k).sqrt ∧ (Float.ofNat k).sqrt.toUInt64.toNat = w := by
  have hlt : k < 2 ^ 53 := by omega
  have hw : w < 2 ^ 26 := lt_of_mul_self_lt_mul_self₀ (Nat.zero_le _) (by omega)
  have hplaces : 1 ≤ places k := by
    have hlog := log2_le_of_lt hlt
    rw [places]
    omega
  have hshows := shows_sqrt (Nat.zero_lt_of_lt hlow) hlt
  have hsqrt : (Float.ofNat k).sqrt =
      Float.ofModel (Float.Model.pack (UnpackedFloat.sqrt Format.binary64 (count k))) := by
    rw [← unpack_ofNat hlt]
    rfl
  obtain ⟨hmore, hle⟩ := nearest_bounds hk hlow hhigh
  rw [hsqrt]
  generalize UnpackedFloat.sqrt Format.binary64 (count k) = u at hshows ⊢
  generalize nearest k = r at hshows hmore hle
  rcases Nat.lt_or_eq_of_le hle with hless | rfl
  · refine Or.inr ⟨FloatOrder.lt_iff.mpr ?_, ?_⟩
    · rw [FloatOrder.height?, FloatOrder.height?, unpack_ofNat (by omega)]
      show ∃ x y, _ ∧ FloatOrder.heightOf? (Float.Model.pack u).unpack = some y ∧ x < y
      rw [hshows.unpack_pack]
      exact hshows.height_count_lt hmore
    · have hwhole : r / 2 ^ places k = w :=
        Nat.div_eq_of_lt_le hmore.le hless
      show (UInt64.ofNatClamp (UnpackedFloat.toInt 0 (UInt64.size - 1)
        (Float.Model.pack u).unpack).toNat).toNat = w
      rw [hshows.unpack_pack, hshows.toInt_eq hplaces, hwhole, Int.toNat_natCast]
      exact toNat_ofNatClamp (hw.trans (by decide))
  · left
    rw [hshows.eq_count hplaces, ofNat_eq (by omega)]

end FloatRoots

end Placement
