import Placement.Proofs.FloatClass

/-!
# Rounding and packing

The result of a floating-point operation is known exactly, as a mantissa, an exponent and what is left
over, before it is rounded to 53 bits and packed into 64. Rounding moves the mantissa to the exponent
at which 53 bits hold it (`aim`), and may carry once more when the mantissa rounds up to a power of two.
`Rounds` lists the three ways in which this can end.

From it come the two facts that the library depends on. What needs no rounding is not changed by it
(`round_exact`), and the sign of a number survives rounding and packing (`Positive`).
-/

namespace Placement

namespace FloatRounding

open Float.Model (UnpackedFloat Format totalExponent)
open Float.Model.UnpackedFloat

/-! ## Shifting -/

theorem mantissa_shiftRight (em : ExtendedMantissa) (n : ℕ) :
    (em >>> n).mantissa = em.mantissa / 2 ^ n := by
  induction n with
  | zero => exact (Nat.div_one _).symm
  | succ n ih =>
      show (em >>> n).mantissa / 2 = _
      rw [ih, Nat.div_div_eq_div_mul, ← Nat.pow_succ]

/-- Zero bits are dropped without a trace. -/
theorem exact_shiftRight (m n : ℕ) :
    ExtendedMantissa.ofMantissaAndAccuracy (m * 2 ^ n) .exact >>> n =
      ExtendedMantissa.ofMantissaAndAccuracy m .exact := by
  induction n generalizing m with
  | zero =>
      rw [Nat.pow_zero, Nat.mul_one]
      rfl
  | succ n ih =>
      show (ExtendedMantissa.ofMantissaAndAccuracy (m * 2 ^ (n + 1)) .exact >>> n).shiftRightOne = _
      rw [Nat.pow_succ', ← Nat.mul_assoc, ih]
      simp [ExtendedMantissa.shiftRightOne, ExtendedMantissa.ofMantissaAndAccuracy]

theorem mantissa_ofMantissaAndAccuracy (m : ℕ) (acc : Accuracy) :
    (ExtendedMantissa.ofMantissaAndAccuracy m acc).mantissa = m := by
  rcases acc with _ | o
  · rfl
  · cases o <;> rfl

theorem le_roundedMantissa (em : ExtendedMantissa) :
    em.mantissa ≤ em.roundedMantissa ∧ em.roundedMantissa ≤ em.mantissa + 1 := by
  rcases em with ⟨m, round, sticky⟩
  cases round <;> cases sticky <;>
    simp only [ExtendedMantissa.roundedMantissa, ExtendedMantissa.accuracy,
      Accuracy.roundToNearestEven] <;> omega

/-! ## Rounding -/

/-- The exponent of 53 bits, unless it is below the least one. -/
theorem targetExponent_eq (total : ℤ) :
    Format.binary64.targetExponent total = max (total - 53) (-1074) := by
  have hmin : Format.binary64.minExponent = -1074 := by decide
  rw [Format.targetExponent, hmin]
  rfl

/-- The exponent that a number with this mantissa and exponent is rounded to. -/
def aim (m : ℕ) (e : ℤ) : ℤ :=
  Format.binary64.targetExponent (totalExponent m e)

theorem aim_eq (m : ℕ) (e : ℤ) : aim m e = max (m.log2 - 52 + e) (-1074) := by
  rw [aim, targetExponent_eq, totalExponent]
  omega

/-- The mantissa once the bits below the exponent aimed at are rounded away. -/
def rounded (m : ℕ) (e : ℤ) (acc : Accuracy) : ℕ :=
  (ExtendedMantissa.ofMantissaAndAccuracy m acc >>> (aim m e - e).toNat).roundedMantissa

theorem le_rounded (m : ℕ) (e : ℤ) (acc : Accuracy) :
    m / 2 ^ (aim m e - e).toNat ≤ rounded m e acc ∧
      rounded m e acc ≤ m / 2 ^ (aim m e - e).toNat + 1 := by
  have hbounds := le_roundedMantissa
    (ExtendedMantissa.ofMantissaAndAccuracy m acc >>> (aim m e - e).toNat)
  rwa [mantissa_shiftRight, mantissa_ofMantissaAndAccuracy] at hbounds

theorem rounded_le (m : ℕ) (e : ℤ) (acc : Accuracy) : rounded m e acc ≤ 2 ^ 53 := by
  have hshift : m.log2 + 1 ≤ 53 + (aim m e - e).toNat := by
    rw [aim_eq]
    omega
  have hlt : m / 2 ^ (aim m e - e).toNat < 2 ^ 53 := by
    rw [Nat.div_lt_iff_lt_mul (Nat.two_pow_pos _), ← Nat.pow_add]
    calc m < 2 ^ (m.log2 + 1) := Nat.lt_log2_self
      _ ≤ 2 ^ (53 + (aim m e - e).toNat) := Nat.pow_le_pow_right (by decide) hshift
  have := (le_rounded m e acc).2
  omega

/-- The result of rounding with sign `s`, by the exponent aimed at and the mantissa there. A mantissa
that does not fit is a power of two, and carries. -/
inductive Rounds (s : Sign) (e : ℤ) : ℕ → UnpackedFloat → Prop
  | zero : Rounds s e 0 (.zero s)
  | fits {r : ℕ} (hpos : 0 < r) (hlt : r < 2 ^ 53) : Rounds s e r (.finite s r e hpos)
  | carries : Rounds s e (2 ^ 53) (.finite s (2 ^ 52) (e + 1) (by decide))

theorem shiftToTargetExponent_eq (m : ℕ) (e : ℤ) (acc : Accuracy) :
    shiftToTargetExponent Format.binary64 m e acc =
      (ExtendedMantissa.ofMantissaAndAccuracy m acc >>> (aim m e - e).toNat,
        e + (aim m e - e).toNat) := rfl

theorem log2_le_of_lt {r : ℕ} (h : r < 2 ^ 53) : r.log2 ≤ 52 := by
  rcases Nat.eq_zero_or_pos r with rfl | hpos
  · decide
  · have := (Nat.log2_lt (Nat.ne_of_gt hpos)).mpr h
    omega

/-- Where 53 bits are enough, there is nothing to shift. -/
theorem shiftToTargetExponent_of_lt {r : ℕ} {e : ℤ} (hr : r < 2 ^ 53) (he : -1074 ≤ e) :
    shiftToTargetExponent Format.binary64 r e .exact = (⟨r, false, false⟩, e) := by
  have hlog := log2_le_of_lt hr
  have hstay : (aim r e - e).toNat = 0 := by
    rw [aim_eq]
    omega
  rw [shiftToTargetExponent_eq, hstay]
  simp [ExtendedMantissa.ofMantissaAndAccuracy, HShiftRight.hShiftRight, Nat.repeat]

theorem shiftToTargetExponent_two_pow {e : ℤ} (he : -1074 ≤ e) :
    shiftToTargetExponent Format.binary64 (2 ^ 53) e .exact = (⟨2 ^ 52, false, false⟩, e + 1) := by
  have hlog : (2 ^ 53 : ℕ).log2 = 53 := Nat.log2_two_pow
  have hstep : (aim (2 ^ 53) e - e).toNat = 1 := by
    rw [aim_eq, hlog]
    omega
  rw [shiftToTargetExponent_eq, hstep]
  rfl

/-- Rounding never lowers an exponent, so one that is above the exponent aimed at is kept. -/
theorem rounds (s : Sign) (m : ℕ) (e : ℤ) (acc : Accuracy) :
    Rounds s (max e (aim m e)) (rounded m e acc)
      (roundWithAccuracy Format.binary64 s m e acc) := by
  have hmove : e + (aim m e - e).toNat = max e (aim m e) := by omega
  have hlow : -1074 ≤ max e (aim m e) := by
    rw [aim_eq]
    omega
  have hround : roundWithAccuracy Format.binary64 s m e acc =
      let final := shiftToTargetExponent Format.binary64 (rounded m e acc) (max e (aim m e)) .exact
      if h : final.1.mantissa = 0 then .zero s
      else .finite s final.1.mantissa final.2 (Nat.pos_of_ne_zero h) := by
    rw [roundWithAccuracy, shiftToTargetExponent_eq, hmove]
    rfl
  have hle := rounded_le m e acc
  rw [hround]
  generalize rounded m e acc = r at hle
  rcases Nat.lt_or_ge r (2 ^ 53) with hlt | hge
  · rw [shiftToTargetExponent_of_lt hlt hlow]
    rcases Nat.eq_zero_or_pos r with rfl | hpos
    · exact .zero
    · simp only [dif_neg (Nat.ne_of_gt hpos)]
      exact .fits hpos hlt
  · obtain rfl : r = 2 ^ 53 := by omega
    rw [shiftToTargetExponent_two_pow hlow]
    exact .carries

theorem log2_mul_two_pow {m : ℕ} (hm : 0 < m) (n : ℕ) : (m * 2 ^ n).log2 = m.log2 + n := by
  have hpos : 0 < m * 2 ^ n := Nat.mul_pos hm (Nat.two_pow_pos n)
  rw [Nat.log2_eq_iff (Nat.ne_of_gt hpos), Nat.pow_add, Nat.add_right_comm, Nat.pow_add]
  exact ⟨Nat.mul_le_mul_right _ (Nat.log2_self_le (Nat.ne_of_gt hm)),
    Nat.mul_lt_mul_of_pos_right Nat.lt_log2_self (Nat.two_pow_pos n)⟩

/-- A mantissa that stands at the exponent aimed at stays as it is, however many zero bits follow. -/
theorem round_exact (s : Sign) {m : ℕ} {e : ℤ} (hm : 0 < m) (he : aim m e = e) (n : ℕ) :
    roundWithAccuracy Format.binary64 s (m * 2 ^ n) (e - n) .exact = .finite s m e hm := by
  have haim : aim (m * 2 ^ n) (e - n) = e := by
    rw [aim_eq] at he ⊢
    rw [log2_mul_two_pow hm]
    omega
  have hrounded : rounded (m * 2 ^ n) (e - n) .exact = m := by
    have hshift : (e - (e - n)).toNat = n := by omega
    rw [rounded, haim, hshift, exact_shiftRight]
    rfl
  have hlt : m < 2 ^ 53 := by
    have hbits : m.log2 < 53 := by
      rw [aim_eq] at he
      omega
    exact (Nat.log2_lt (Nat.ne_of_gt hm)).mp hbits
  have hrounds := rounds s (m * 2 ^ n) (e - n) .exact
  rw [haim, hrounded, max_eq_right (by omega)] at hrounds
  generalize roundWithAccuracy _ s (m * 2 ^ n) (e - n) .exact = u at hrounds ⊢
  cases hrounds with
  | zero => cases hm
  | fits => rfl
  | carries => exact absurd hlt (lt_irrefl _)

/-! ## Packing -/

theorem unpack_packComponents (s : Sign) (exponent : BitVec 11) (mantissa : BitVec 52) :
    unpack Format.binary64 (packComponents Format.binary64 s exponent mantissa) =
      if exponent = -1#11 then (if mantissa = 0#52 then .infinity s else .notANumber)
      else if exponent = 0#11 then
        if h : mantissa = 0#52 then .zero s
        else .finite s mantissa.toNat (-1074) (Nat.pos_of_ne_zero fun h0 => h (BitVec.eq_of_toNat_eq h0))
      else .finite s (2 ^ 52 + mantissa.toNat) (exponent.toNat - 1075) (by omega) := by
  have hlead : (1#1 ++ mantissa).toNat = 2 ^ 52 + mantissa.toNat := by
    rw [BitVec.toNat_append, ← Nat.shiftLeft_add_eq_or_of_lt mantissa.isLt]
    rfl
  unfold unpack
  simp only [unpackExponent_packComponents, unpackMantissa_packComponents, unpackSign_packComponents,
    Sign.ofBitVec_toBitVec]
  split
  · rfl
  · split
    · next hleast =>
      subst hleast
      rfl
    · congr 1

/-- An infinity, a zero or a regular number of sign `s`. -/
inductive Bears (s : Sign) : UnpackedFloat → Prop
  | infinity : Bears s (.infinity s)
  | zero : Bears s (.zero s)
  | finite (m : ℕ) (e : ℤ) (hm : 0 < m) : Bears s (.finite s m e hm)

theorem unpack_pack_zero (s : Sign) : (Float.Model.pack (.zero s)).unpack = .zero s :=
  unpack_packedZero

variable {s : Sign} {m : ℕ} {e : ℤ} {hm : 0 < m}

/-- A mantissa of 53 bits is packed without loss where its exponent is in range. -/
theorem unpack_pack (hlead : 2 ^ 52 ≤ m) (hbits : m < 2 ^ 53) (hlow : -1074 ≤ e) (hhigh : e ≤ 971) :
    (Float.Model.pack (.finite s m e hm)).unpack = .finite s m e hm := by
  have hlog : m.log2 + 1 = Format.binary64.mantissaBits := by
    rw [(Nat.log2_eq_iff (Nat.ne_of_gt hm)).mpr ⟨hlead, hbits⟩]
    rfl
  have hexponent : (BitVec.ofNat 11 (e + (1023 : ℕ) + (52 : ℕ)).toNat).toNat = (e + 1075).toNat := by
    rw [BitVec.toNat_ofNat]
    omega
  have htop : BitVec.ofNat 11 (e + (1023 : ℕ) + (52 : ℕ)).toNat ≠ -1#11 := by
    intro h
    have hnat := congrArg BitVec.toNat h
    rw [hexponent] at hnat
    simp at hnat
    omega
  have hleast : BitVec.ofNat 11 (e + (1023 : ℕ) + (52 : ℕ)).toNat ≠ 0#11 := by
    intro h
    have hnat := congrArg BitVec.toNat h
    rw [hexponent] at hnat
    simp at hnat
    omega
  show unpack Format.binary64 (pack Format.binary64 _) = _
  simp only [pack, FloatOrder.exponentBias_eq, if_pos hlog]
  rw [if_neg (by omega), unpack_packComponents, if_neg htop, if_neg hleast, hexponent]
  have hmantissa : 2 ^ 52 + (BitVec.ofNat 52 m).toNat = m := by
    rw [BitVec.toNat_ofNat]
    omega
  congr 1
  omega

theorem unpack_pack_of_overflow (h : 972 ≤ e) :
    (Float.Model.pack (.finite s m e hm)).unpack = .infinity s := by
  show unpack Format.binary64 (pack Format.binary64 _) = _
  simp only [pack, FloatOrder.exponentBias_eq]
  rw [if_pos (by omega), packedInfinity, unpack_packComponents]
  rfl

/-- Whatever is packed below the exponent that stands for overflow is finite, and of the sign it was
packed with. -/
theorem unpack_packComponents_of_ne (s : Sign) (mantissa : BitVec 52) {exponent : BitVec 11}
    (h : exponent ≠ -1#11) :
    Bears s (unpack Format.binary64 (packComponents Format.binary64 s exponent mantissa)) ∧
      (unpack Format.binary64 (packComponents Format.binary64 s exponent mantissa)).isFinite = true := by
  rw [unpack_packComponents, if_neg h]
  split
  · split
    · exact ⟨.zero, rfl⟩
    · exact ⟨.finite .., rfl⟩
  · exact ⟨.finite .., rfl⟩

theorem bears_pack : Bears s (Float.Model.pack (.finite s m e hm)).unpack ∧
    (e ≤ 971 → (Float.Model.pack (.finite s m e hm)).unpack.isFinite = true) := by
  rcases lt_or_ge 971 e with hover | hroom
  · rw [unpack_pack_of_overflow hover]
    exact ⟨.infinity, fun hle => absurd hover (Int.not_lt.mpr hle)⟩
  · have htop : BitVec.ofNat 11 (e + (1023 : ℕ) + (52 : ℕ)).toNat ≠ -1#11 :=
      FloatClass.ofNat_ne_neg_one (by omega)
    show Bears s (unpack Format.binary64 (pack Format.binary64 _)) ∧
      (_ → (unpack Format.binary64 (pack Format.binary64 _)).isFinite = true)
    simp only [pack, FloatOrder.exponentBias_eq]
    rw [if_neg (by omega)]
    split
    · obtain ⟨hbears, hfinite⟩ := unpack_packComponents_of_ne s (BitVec.ofNat 52 m) htop
      exact ⟨hbears, fun _ => hfinite⟩
    · have hleast : (0#11 : BitVec 11) ≠ -1#11 := by decide
      obtain ⟨hbears, hfinite⟩ := unpack_packComponents_of_ne s (BitVec.ofNat 52 m) hleast
      exact ⟨hbears, fun _ => hfinite⟩

/-! ## Numbers that are not negative -/

/-- What compares as at least zero: either zero, and anything of positive sign. -/
inductive NonNegative : UnpackedFloat → Prop
  | zero (s : Sign) : NonNegative (.zero s)
  | positive {u : UnpackedFloat} (h : Bears .positive u) : NonNegative u

theorem zero_le_iff {x : Float} : 0 ≤ x ↔ NonNegative x.toModel.unpack := by
  have hzero : FloatOrder.height? 0 = some (FloatOrder.height 0 0 0) := by rfl
  rw [FloatOrder.le_iff, hzero]
  simp only [FloatOrder.height?]
  constructor
  · rintro ⟨_, y, hx, hy, hle⟩
    cases hx
    rcases hu : x.toModel.unpack with s | _ | s | ⟨s, m, e, hm⟩ <;> rw [hu] at hy
    · cases s with
      | positive => exact .positive .infinity
      | negative =>
          cases hy
          exact absurd hle (not_le.mpr (FloatOrder.height_lt_height.mpr (Or.inl (by decide))))
    · cases hy
    · exact .zero s
    · cases s with
      | positive => exact .positive (.finite ..)
      | negative =>
          cases hy
          exact absurd hle (not_le.mpr (FloatOrder.height_lt_height.mpr (Or.inl (by decide))))
  · intro h
    generalize x.toModel.unpack = u at h
    rcases h with s | ⟨_ | _ | ⟨m, e, hm⟩⟩
    · exact ⟨_, _, rfl, rfl, le_refl _⟩
    · exact ⟨_, _, rfl, rfl, (FloatOrder.height_lt_top (by decide) 0 0).le⟩
    · exact ⟨_, _, rfl, rfl, le_refl _⟩
    · exact ⟨_, _, rfl, rfl, (FloatOrder.height_lt_height.mpr (Or.inl (by decide))).le⟩

theorem nonNegative_of_rounds {r : ℕ} {u : UnpackedFloat} (h : Rounds .positive e r u) :
    NonNegative u := by
  cases h with
  | zero => exact .zero _
  | fits => exact .positive (.finite ..)
  | carries => exact .positive (.finite ..)

theorem NonNegative.pack {u : UnpackedFloat} (h : NonNegative u) :
    NonNegative (Float.Model.pack u).unpack := by
  rcases h with s | ⟨_ | _ | ⟨m, e, hm⟩⟩
  · rw [unpack_pack_zero]
    exact .zero s
  · exact .positive .infinity
  · rw [unpack_pack_zero]
    exact .zero .positive
  · exact .positive bears_pack.1

/-- Of positive numbers the exact sum is positive, so rounding it starts from a positive mantissa. -/
theorem nonNegative_add_finite {m m' : ℕ} {e e' : ℤ} (hm : 0 < m) (hm' : 0 < m') :
    NonNegative (UnpackedFloat.add Format.binary64 (.finite .positive m e hm)
      (.finite .positive m' e' hm')) := by
  show NonNegative (UnpackedFloat.normalize Format.binary64
    ((m <<< (e - min e e').toNat : ℕ) + (m' <<< (e' - min e e').toNat : ℕ) : ℤ) (min e e') .positive)
  have hpos : 0 < m <<< (e - min e e').toNat := by
    rw [Nat.shiftLeft_eq]
    exact Nat.mul_pos hm (Nat.two_pow_pos _)
  generalize m <<< (e - min e e').toNat = a at hpos
  generalize m' <<< (e' - min e e').toNat = b
  rw [UnpackedFloat.normalize, compare_gt_iff_gt.mpr (by omega)]
  exact nonNegative_of_rounds (rounds .positive _ _ _)

theorem NonNegative.add {u v : UnpackedFloat} (hu : NonNegative u) (hv : NonNegative v) :
    NonNegative (UnpackedFloat.add Format.binary64 u v) := by
  have hzeros : ∀ s s', NonNegative (UnpackedFloat.add Format.binary64 (.zero s) (.zero s')) := by
    intro s s'
    unfold UnpackedFloat.add
    dsimp only
    split <;> exact .zero _
  rcases hu with s | ⟨_ | _ | ⟨m, e, hm⟩⟩ <;> rcases hv with s' | ⟨_ | _ | ⟨m', e', hm'⟩⟩ <;>
    first
    | exact hzeros _ _
    | exact .positive .infinity
    | exact .positive (.finite ..)
    | exact nonNegative_add_finite hm hm'

/-- A sum of numbers that are not negative is not negative. -/
theorem zero_le_add {x y : Float} (hx : 0 ≤ x) (hy : 0 ≤ y) : 0 ≤ x + y :=
  zero_le_iff.mpr ((zero_le_iff.mp hx).add (zero_le_iff.mp hy)).pack

theorem zero_le_foldl_add {xs : List Float} {start : Float} (hstart : 0 ≤ start)
    (h : ∀ x ∈ xs, 0 ≤ x) : 0 ≤ xs.foldl (· + ·) start := by
  induction xs generalizing start with
  | nil => exact hstart
  | cons x xs ih =>
      rw [List.forall_mem_cons] at h
      exact ih (zero_le_add hstart h.1) h.2

/-- Divided by a positive number, what is finite and not negative stays so. -/
theorem NonNegative.div {u v : UnpackedFloat} (hu : NonNegative u) (hfinite : u.isFinite = true)
    (hv : Bears .positive v) (hne : v ≠ .zero .positive) :
    NonNegative (UnpackedFloat.div Format.binary64 u v) := by
  rcases hv with _ | _ | ⟨m', e', hm'⟩
  · rcases hu with s | ⟨_ | _ | ⟨m, e, hm⟩⟩ <;> first | exact .zero _ | cases hfinite
  · exact absurd rfl hne
  · rcases hu with s | ⟨_ | _ | ⟨m, e, hm⟩⟩
    · exact .zero _
    · cases hfinite
    · exact .zero _
    · show NonNegative (roundWithAccuracy Format.binary64 .positive _ _ _)
      exact nonNegative_of_rounds (rounds .positive _ _ _)

end FloatRounding

end Placement
