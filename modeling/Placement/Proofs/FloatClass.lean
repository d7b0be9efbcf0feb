import Mathlib
import Placement.Proofs.FloatOrder

/-!
# The classes of floats

A float is not a number, infinite, zero, or regular, which means finite and not zero. Arithmetic works
on unpacked floats, whose results are packed again, and packing may overflow. So two things are shown:
what an operation makes of the classes of its operands, and what packing makes of the class of a
result. Packing can turn a regular float into an infinite one or into zero, and leaves the other
classes as they are.

Scaling by a regular number therefore hides nothing (`Scaled`). What is not a number stays so, and what
has overflowed is not brought back.
-/

namespace Placement

inductive FloatClass where
  | nan
  | infinite
  | zero
  | regular
deriving DecidableEq, Repr

namespace FloatClass

open Float.Model (UnpackedFloat Format)
open Float.Model.UnpackedFloat

def isFinite (c : FloatClass) : Bool :=
  c = zero ∨ c = regular

def ofUnpacked : UnpackedFloat → FloatClass
  | .notANumber => nan
  | .infinity _ => infinite
  | .zero _ => zero
  | .finite .. => regular

def of (x : Float) : FloatClass :=
  ofUnpacked x.toModel.unpack

theorem isNaN_iff {x : Float} : x.isNaN = true ↔ of x = nan := by
  show x.toModel.unpack.isNaN = true ↔ _
  unfold of
  cases x.toModel.unpack <;> simp [UnpackedFloat.isNaN, ofUnpacked]

theorem isFinite_of (x : Float) : (of x).isFinite = x.isFinite := by
  show _ = x.toModel.unpack.isFinite
  unfold of
  cases x.toModel.unpack <;> rfl

/-! ## Packing -/

theorem ofUnpacked_unpack {spec : Format} (b : BitVec spec.numBits) :
    ofUnpacked (unpack spec b) =
      if unpackExponent b = -1#_ then (if unpackMantissa b = 0#_ then infinite else nan)
      else if unpackExponent b = 0#_ ∧ unpackMantissa b = 0#_ then zero
      else regular := by
  unfold unpack
  dsimp only
  by_cases htop : unpackExponent b = -1#_
  · rw [if_pos htop, if_pos htop]
    split <;> rfl
  · rw [if_neg htop, if_neg htop]
    by_cases he : unpackExponent b = 0#_
    · by_cases hm : unpackMantissa b = 0#_
      · rw [if_pos he, dif_pos hm, if_pos ⟨he, hm⟩]
        rfl
      · rw [if_pos he, dif_neg hm, if_neg fun h => hm h.2]
        rfl
    · rw [if_neg he, if_neg fun h => he h.1]
      rfl

theorem ofUnpacked_packComponents {spec : Format} (s : Sign) (exponent : BitVec spec.exponentBits)
    (mantissa : BitVec spec.mantissaBitsWithoutImplicit) :
    ofUnpacked (unpack spec (packComponents spec s exponent mantissa)) =
      if exponent = -1#_ then (if mantissa = 0#_ then infinite else nan)
      else if exponent = 0#_ ∧ mantissa = 0#_ then zero
      else regular := by
  rw [ofUnpacked_unpack, unpackExponent_packComponents, unpackMantissa_packComponents]

/-- The class `d` can come of a number of the class `c` by scaling. -/
def Scaled (c d : FloatClass) : Prop :=
  (c.isFinite = false → d = c) ∧ (c.isFinite = true → d ≠ nan)

theorem Scaled.refl (c : FloatClass) : Scaled c c := by
  refine ⟨fun _ => rfl, fun h hnan => ?_⟩
  rw [hnan] at h
  cases h

theorem Scaled.of_isFinite {c d : FloatClass} (hc : c.isFinite = true) (hd : d.isFinite = true) :
    Scaled c d := by
  refine ⟨fun h => ?_, fun _ hnan => ?_⟩
  · rw [hc] at h
    cases h
  · rw [hnan] at hd
    cases hd

theorem Scaled.ne_nan {c d : FloatClass} (h : Scaled c d) (hc : c ≠ nan) : d ≠ nan := by
  cases hfinite : c.isFinite with
  | true => exact h.2 hfinite
  | false =>
      rw [h.1 hfinite]
      exact hc

theorem Scaled.trans {c d e : FloatClass} (h : Scaled c d) (h' : Scaled d e) : Scaled c e := by
  constructor
  · intro hc
    obtain rfl := h.1 hc
    exact h'.1 hc
  · intro hc
    exact h'.ne_nan (h.2 hc)

/-- What is finite after scaling was so before. -/
theorem Scaled.isFinite {c d : FloatClass} (h : Scaled c d) (hd : d.isFinite = true) :
    c.isFinite = true := by
  cases hc : c.isFinite with
  | true => rfl
  | false =>
      rw [h.1 hc, hc] at hd
      cases hd

/-- Short of the exponent that stands for overflow, no exponent is all ones. -/
theorem ofNat_ne_neg_one {k : ℕ} (hk : k + 1 < 2 ^ 11) : BitVec.ofNat 11 k ≠ -1#11 := by
  intro h
  have := congrArg BitVec.toNat h
  simp at this
  omega

theorem scaled_pack (u : UnpackedFloat) :
    Scaled (ofUnpacked u) (ofUnpacked (Float.Model.pack u).unpack) := by
  show Scaled _ (ofUnpacked (unpack Format.binary64 (pack Format.binary64 u)))
  rcases u with s | _ | s | ⟨s, m, e, hm⟩
  · simp only [pack, packedInfinity, ofUnpacked_packComponents]
    exact Scaled.refl _
  · simp only [pack, packedNaN, ofUnpacked_packComponents]
    exact Scaled.refl _
  · simp only [pack, packedZero, ofUnpacked_packComponents]
    exact Scaled.refl _
  · refine ⟨fun h => (by cases h), fun _ => ?_⟩
    simp only [pack]
    split
    · simp [packedInfinity, ofUnpacked_packComponents]
    · next hroom =>
      split
      -- with a leading bit, and without one
      · rw [ofUnpacked_packComponents, if_neg (ofNat_ne_neg_one (by omega))]
        split <;> decide
      · rw [ofUnpacked_packComponents, if_neg (by decide)]
        split <;> decide

/-! ## Operations -/

theorem isFinite_roundWithAccuracy (spec : Format) (s : Sign) (m : ℕ) (e : ℤ) (acc : Accuracy) :
    (ofUnpacked (roundWithAccuracy spec s m e acc)).isFinite = true := by
  unfold roundWithAccuracy
  dsimp only
  split <;> rfl

theorem isFinite_sub {spec : Format} {u v : UnpackedFloat}
    (hu : (ofUnpacked u).isFinite = true) (hv : (ofUnpacked v).isFinite = true) :
    (ofUnpacked (sub spec u v)).isFinite = true := by
  rcases u with s | _ | s | ⟨s, m, e, hm⟩ <;> rcases v with s' | _ | s' | ⟨s', m', e', hm'⟩ <;>
    (try cases hu) <;> (try cases hv)
  · unfold sub
    dsimp only
    split <;> rfl
  · rfl
  · rfl
  · simp only [sub, UnpackedFloat.normalize]
    split
    · exact isFinite_roundWithAccuracy ..
    · rfl
    · exact isFinite_roundWithAccuracy ..

theorem scaled_div_unpacked {spec : Format} (u : UnpackedFloat) {v : UnpackedFloat}
    (hv : ofUnpacked v = regular) : Scaled (ofUnpacked u) (ofUnpacked (div spec u v)) := by
  rcases v with s' | _ | s' | ⟨s', m', e', hm'⟩ <;> (try cases hv)
  rcases u with s | _ | s | ⟨s, m, e, hm⟩
  · exact Scaled.refl _
  · exact Scaled.refl _
  · exact Scaled.of_isFinite rfl rfl
  · exact Scaled.of_isFinite rfl (isFinite_roundWithAccuracy ..)

theorem scaled_mul_unpacked {spec : Format} (u : UnpackedFloat) {v : UnpackedFloat}
    (hv : ofUnpacked v = regular) : Scaled (ofUnpacked u) (ofUnpacked (mul spec u v)) := by
  rcases v with s' | _ | s' | ⟨s', m', e', hm'⟩ <;> (try cases hv)
  rcases u with s | _ | s | ⟨s, m, e, hm⟩
  · exact Scaled.refl _
  · exact Scaled.refl _
  · exact Scaled.of_isFinite rfl rfl
  · exact Scaled.of_isFinite rfl (isFinite_roundWithAccuracy ..)

variable {x y : Float}

theorem of_sub_ne_nan (hx : x.isFinite = true) (hy : y.isFinite = true) : of (x - y) ≠ nan := by
  rw [← isFinite_of] at hx hy
  exact (scaled_pack _).2 (isFinite_sub hx hy)

theorem scaled_div (x : Float) (hy : of y = regular) : Scaled (of x) (of (x / y)) :=
  (scaled_div_unpacked x.toModel.unpack hy).trans (scaled_pack _)

theorem scaled_mul (x : Float) (hy : of y = regular) : Scaled (of x) (of (x * y)) :=
  (scaled_mul_unpacked x.toModel.unpack hy).trans (scaled_pack _)

/-! ## Magnitudes -/

/-- Unpacking a regular float gives a mantissa and an exponent that packing has room for. -/
theorem bounds_of_unpack {b : BitVec Format.binary64.numBits} {s : Sign} {m : ℕ} {e : ℤ} {hm : 0 < m}
    (h : unpack Format.binary64 b = .finite s m e hm) :
    m < 2 ^ 53 ∧ -1074 ≤ e ∧ e ≤ 971 := by
  have hheight : FloatOrder.heightOf? (unpack Format.binary64 b) =
      some (FloatOrder.signed s 1 e m) := by
    rw [h, FloatOrder.heightOf?_finite]
  obtain ⟨g, e', m', hstands, hsame⟩ := FloatOrder.stands_of_unpack hheight
  generalize b.toNat % 2 ^ 63 = k at hstands
  generalize Sign.ofBitVec (@unpackSign Format.binary64 b) = s' at hsame
  -- of unlike signs the grades cannot agree
  cases s <;> cases s' <;> simp only [FloatOrder.signed, FloatOrder.height_inj] at hsame <;>
    cases hstands <;> omega

theorem regular_pack {s : Sign} {m : ℕ} {e : ℤ} {hm : 0 < m} (hmantissa : m < 2 ^ 53)
    (hlow : -1074 ≤ e) (hhigh : e ≤ 971) :
    ofUnpacked (Float.Model.pack (.finite s m e hm)).unpack = regular := by
  show ofUnpacked (unpack Format.binary64 (pack Format.binary64 _)) = regular
  simp only [pack, FloatOrder.exponentBias_eq]
  split
  · omega
  · split
    -- a leading bit shows in the exponent; without one the mantissa itself is kept
    · have hexponent : BitVec.ofNat 11 (e + (1023 : ℕ) + (52 : ℕ)).toNat ≠ 0#11 := by
        intro h
        have := congrArg BitVec.toNat h
        simp at this
        omega
      rw [ofUnpacked_packComponents, if_neg (ofNat_ne_neg_one (by omega)),
        if_neg fun h => hexponent h.1]
    · next hlog =>
      have hsmall : m < 2 ^ 52 := by
        by_contra hlarge
        exact hlog (by rw [(Nat.log2_eq_iff (by omega)).mpr ⟨by omega, hmantissa⟩]; rfl)
      have hlast : BitVec.ofNat 52 m ≠ 0#52 := by
        intro h
        have := congrArg BitVec.toNat h
        simp at this
        omega
      rw [ofUnpacked_packComponents, if_neg (by decide), if_neg fun h => hlast h.2]

theorem of_abs (hx : of x = regular) : of x.abs = regular := by
  unfold of at hx
  rcases hu : x.toModel.unpack with s | _ | s | ⟨s, m, e, hm⟩ <;> rw [hu] at hx <;> (try cases hx)
  obtain ⟨hmantissa, hlow, hhigh⟩ := bounds_of_unpack hu
  show ofUnpacked (Float.Model.pack x.toModel.unpack.abs).unpack = regular
  rw [hu]
  exact regular_pack hmantissa hlow hhigh

/-- What compares equal to zero are the two zeros. -/
theorem of_eq_zero_iff : of x = zero ↔ (x == 0) = true := by
  show ofUnpacked x.toModel.unpack = zero ↔ x.toModel.unpack.beq (.zero .positive) = true
  rcases x.toModel.unpack with s | _ | s | ⟨s, m, e, hm⟩ <;> (try cases s) <;>
    simp [ofUnpacked, UnpackedFloat.beq, UnpackedFloat.compare]

theorem of_eq_regular (hfinite : x.isFinite = true) (hne : (x != 0) = true) : of x = regular := by
  have hzero : of x ≠ zero := by
    rw [ne_eq, of_eq_zero_iff]
    simpa [bne] using hne
  rw [← isFinite_of] at hfinite
  cases hx : of x <;> simp_all [isFinite]

end FloatClass

end Placement
