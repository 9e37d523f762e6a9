import CrashSearch.Proofs.LawfulScale
import Mathlib

/-!
# Distances in binary floating point

Binary floating point is a lawful scale. Rounding may lose a number in a sum, but never all of the
sum, and the quotient of a positive number by one more than it does not underflow: for a number
below `2 ^ -53` the divisor rounds to the unit, for one above `2 ^ 54` it rounds to the number
itself, and in between the quotient is far from the ends of the range.

## Main statements

* `FloatScale.round_absorbs`: a sum with a number of less than half a unit in the last place.
* `FloatScale.add_pos`, `FloatScale.normalize_pos`: what does not vanish.
-/

namespace CrashSearch

namespace FloatScale

open Float.Model Float.Model.UnpackedFloat
open Float.Model.Format (binary64)

/-- The unpacked number is greater than nothing. -/
def Positive : UnpackedFloat → Prop
  | .infinity .positive => True
  | .finite .positive _ _ _ => True
  | _ => False

theorem zero_unpack : (Scale.zero : Float).toModel.unpack = .zero .positive := rfl

theorem one_unpack :
    (Scale.one : Float).toModel.unpack = .finite .positive (2 ^ 52) (-52) (by decide) := rfl

theorem zero_lt_iff {x : Float} : Scale.zero < x ↔ Positive x.toModel.unpack := by
  change decide ((Scale.zero : Float).toModel < x.toModel) = true ↔ _
  rw [decide_eq_true_iff]
  change ((Scale.zero : Float).toModel.unpack.compare x.toModel.unpack == some .lt) = true ↔ _
  rw [zero_unpack]
  rcases x.toModel.unpack with (_ | _) | _ | _ | ⟨_ | _, _, _, _⟩ <;>
    simp [UnpackedFloat.compare, Positive]

theorem beq_zero_iff {x : Float} :
    (x == Scale.zero) = true ↔ ∃ s, x.toModel.unpack = .zero s := by
  change (x.toModel.unpack.compare (Scale.zero : Float).toModel.unpack == some .eq) = true ↔ _
  rw [zero_unpack]
  rcases x.toModel.unpack with (_ | _) | _ | _ | ⟨_ | _, _, _, _⟩ <;>
    simp [UnpackedFloat.compare]

/-! ## Packed numbers -/

theorem finite_of_unpack {b : BitVec binary64.numBits} {s : Sign} {m : Nat} {e : Int} {h : 0 < m}
    (hb : UnpackedFloat.unpack binary64 b = .finite s m e h) :
    m < 2 ^ 53 ∧ -1074 ≤ e ∧ e ≤ 971 ∧ (2 ^ 52 ≤ m ∨ e = -1074) := by
  have hx : (unpackExponent b).toNat < 2 ^ 11 := (unpackExponent b).isLt
  have hm : (unpackMantissa b).toNat < 2 ^ 52 := (unpackMantissa b).isLt
  unfold UnpackedFloat.unpack at hb
  dsimp only at hb
  split at hb
  · split at hb <;> cases hb
  · rename_i hmax
    have hmax : (unpackExponent b).toNat ≠ 2047 := fun h => hmax (BitVec.eq_of_toNat_eq h)
    split at hb
    · split at hb
      · cases hb
      · rename_i hzero _
        cases hb
        simp only [hzero, BitVec.toNat_zero, Format.exponentBias]
        omega
    · rename_i hzero
      have hzero : (unpackExponent b).toNat ≠ 0 := fun h => hzero (BitVec.eq_of_toNat_eq h)
      cases hb
      have : (1#1 ++ unpackMantissa b).toNat = 2 ^ 52 + (unpackMantissa b).toNat := by
        rw [BitVec.toNat_append, ← Nat.shiftLeft_add_eq_or_of_lt (unpackMantissa b).isLt]
        rfl
      simp only [this, Format.exponentBias]
      omega

theorem unpackSign_packComponents {spec : Format} {s : Sign} {x : BitVec spec.exponentBits}
    {m : BitVec spec.mantissaBitsWithoutImplicit} :
    unpackSign (packComponents spec s x m) = s.toBitVec := by
  ext i hi
  obtain rfl : i = 0 := by omega
  simp [unpackSign, packComponents, BitVec.getLsbD_append, BitVec.getElem_append]

theorem unpack_pack_overflow {m : Nat} {e : Int} {h : 0 < m} (he : 972 ≤ e) :
    UnpackedFloat.unpack binary64 (UnpackedFloat.pack binary64 (.finite .positive m e h)) =
      .infinity .positive := by
  have hb : 2 ^ binary64.exponentBits ≤
      (e + binary64.exponentBias + binary64.mantissaBitsWithoutImplicit).toNat + 1 := by
    simp only [Format.exponentBias]
    omega
  unfold UnpackedFloat.pack
  simp only [hb, if_true]
  rfl

theorem log2_add_one_iff {m : Nat} (h : 0 < m) (hm : m < 2 ^ 53) :
    m.log2 + 1 = binary64.mantissaBits ↔ 2 ^ 52 ≤ m := by
  have hlo := Nat.le_log2 (n := m) (k := 52) (by omega)
  have hhi := Nat.log2_lt (n := m) (k := 53) (by omega)
  simp only [Format.mantissaBits]
  omega

theorem not_overflow {e : Int} (ho : e ≤ 971) : ¬ 2 ^ binary64.exponentBits ≤
    (e + binary64.exponentBias + binary64.mantissaBitsWithoutImplicit).toNat + 1 := by
  simp only [Format.exponentBias]
  omega

/-- A number with a full mantissa keeps its exponent. -/
theorem unpack_pack_normal {m : Nat} {e : Int} {h : 0 < m} (hlo : 2 ^ 52 ≤ m) (hhi : m < 2 ^ 53)
    (he : -1074 ≤ e) (ho : e ≤ 971) :
    UnpackedFloat.unpack binary64 (UnpackedFloat.pack binary64 (.finite .positive m e h)) =
      .finite .positive m e h := by
  let x := (e + binary64.exponentBias + binary64.mantissaBitsWithoutImplicit).toNat
  have hx : (x : Int) = e + 1075 := by
    simp only [x, Format.exponentBias]
    omega
  have hxt : (BitVec.ofNat 11 x).toNat = x := by
    rw [BitVec.toNat_ofNat]
    omega
  have hmax : BitVec.ofNat 11 x ≠ -1#11 := fun h => by
    have := congrArg BitVec.toNat h
    simp only [hxt, BitVec.toNat_neg, BitVec.toNat_ofNat] at this
    omega
  have hzero : BitVec.ofNat 11 x ≠ 0#11 := fun h => by
    have := congrArg BitVec.toNat h
    simp only [hxt, BitVec.toNat_ofNat] at this
    omega
  have hmant : (1#1 ++ BitVec.ofNat 52 m).toNat = m := by
    rw [BitVec.toNat_append, ← Nat.shiftLeft_add_eq_or_of_lt (BitVec.ofNat 52 m).isLt,
      BitVec.toNat_ofNat]
    change 2 ^ 52 + m % 2 ^ 52 = m
    omega
  have hexp : ((BitVec.ofNat 11 x).toNat : Int) -
      (binary64.exponentBias + binary64.mantissaBitsWithoutImplicit) = e := by
    rw [hxt, hx]
    simp only [Format.exponentBias]
    omega
  unfold UnpackedFloat.pack
  simp only [not_overflow ho, if_false, (log2_add_one_iff h hhi).2 hlo, if_true]
  unfold UnpackedFloat.unpack
  simp only [unpackMantissa_packComponents, unpackExponent_packComponents,
    unpackSign_packComponents]
  rw [if_neg hmax, if_neg hzero]
  congr 1

/-- A number without one is read with the smallest exponent. -/
theorem unpack_pack_subnormal {m : Nat} {e : Int} {h : 0 < m} (hm : m < 2 ^ 52) (ho : e ≤ 971) :
    UnpackedFloat.unpack binary64 (UnpackedFloat.pack binary64 (.finite .positive m e h)) =
      .finite .positive m (-1074) h := by
  have hlog := mt (log2_add_one_iff h (by omega)).1 (by omega)
  have hmt : (BitVec.ofNat 52 m).toNat = m := by
    rw [BitVec.toNat_ofNat]
    omega
  have hmz : BitVec.ofNat 52 m ≠ 0#52 := fun h => by
    have := congrArg BitVec.toNat h
    simp only [hmt, BitVec.toNat_ofNat] at this
    omega
  unfold UnpackedFloat.pack
  simp only [not_overflow ho, if_false, hlog]
  unfold UnpackedFloat.unpack
  simp only [unpackMantissa_packComponents, unpackExponent_packComponents,
    unpackSign_packComponents]
  rw [if_neg (by decide), if_true, dif_neg hmz]
  congr 1

theorem unpack_pack_finite {m : Nat} {e : Int} {h : 0 < m} (hm : m < 2 ^ 53) (he : -1074 ≤ e)
    (ho : e ≤ 971) : ∃ e' ≤ e,
      UnpackedFloat.unpack binary64 (UnpackedFloat.pack binary64 (.finite .positive m e h)) =
        .finite .positive m e' h := by
  by_cases hn : 2 ^ 52 ≤ m
  · exact ⟨e, Int.le_refl e, unpack_pack_normal hn hm he ho⟩
  · exact ⟨-1074, he, unpack_pack_subnormal (by omega) ho⟩

/-! ## Rounding -/

theorem mantissa_shiftRight (x : ExtendedMantissa) (n : Nat) :
    (x >>> n).mantissa = x.mantissa / 2 ^ n := by
  change (n.repeat ExtendedMantissa.shiftRightOne x).mantissa = _
  induction n with
  | zero => simp [Nat.repeat]
  | succ n ih =>
    rw [Nat.repeat, ExtendedMantissa.shiftRightOne, ih, Nat.div_div_eq_div_mul, Nat.pow_succ]

theorem mantissa_ofMantissaAndAccuracy (m : Nat) (a : Accuracy) :
    (ExtendedMantissa.ofMantissaAndAccuracy m a).mantissa = m := by
  rcases a with _ | (_ | _ | _) <;> rfl

theorem roundedMantissa_bounds (x : ExtendedMantissa) :
    x.mantissa ≤ x.roundedMantissa ∧ x.roundedMantissa ≤ x.mantissa + 1 := by
  rcases x with ⟨m, _ | _, _ | _⟩ <;>
    simp only [ExtendedMantissa.roundedMantissa, ExtendedMantissa.accuracy,
      Accuracy.roundToNearestEven] <;> omega

/-- As many bits are dropped as there are too many. -/
theorem shiftToTargetExponent_eq {m : Nat} {e : Int} {a : Accuracy} (he : -1074 ≤ e) :
    shiftToTargetExponent binary64 m e a =
      (ExtendedMantissa.ofMantissaAndAccuracy m a >>> (m.log2 - 52), e + (m.log2 - 52 : Nat)) := by
  have ht : (binary64.targetExponent (totalExponent m e) - e).toNat = m.log2 - 52 := by
    have : binary64.minExponent = -1074 := by decide
    simp only [Format.targetExponent, totalExponent, Format.mantissaBits, this]
    omega
  simp only [shiftToTargetExponent, shiftToExponent, ht]

/-- What is left of a mantissa without the bits that are too many. -/
theorem shifted_bounds {m : Nat} (hm : 0 < m) :
    0 < m / 2 ^ (m.log2 - 52) ∧ m / 2 ^ (m.log2 - 52) < 2 ^ 53 := by
  have hlo : 2 ^ m.log2 ≤ m := Nat.log2_self_le (by omega)
  have hhi : m < 2 ^ (m.log2 + 1) := Nat.lt_log2_self
  constructor
  · exact Nat.div_pos (Nat.le_trans (Nat.pow_le_pow_right (by omega) (by omega)) hlo)
      (Nat.two_pow_pos _)
  · rw [Nat.div_lt_iff_lt_mul (Nat.two_pow_pos _), ← Nat.pow_add]
    exact Nat.lt_of_lt_of_le hhi (Nat.pow_le_pow_right (by omega) (by omega))

/-- The rounded mantissa before it is made to fit once more. -/
def rounded (m : Nat) (a : Accuracy) : Nat :=
  (ExtendedMantissa.ofMantissaAndAccuracy m a >>> (m.log2 - 52)).roundedMantissa

theorem rounded_bounds (m : Nat) (a : Accuracy) :
    m / 2 ^ (m.log2 - 52) ≤ rounded m a ∧ rounded m a ≤ m / 2 ^ (m.log2 - 52) + 1 := by
  have h := roundedMantissa_bounds (ExtendedMantissa.ofMantissaAndAccuracy m a >>> (m.log2 - 52))
  rwa [mantissa_shiftRight, mantissa_ofMantissaAndAccuracy] at h

theorem roundWithAccuracy_eq {m : Nat} {e : Int} {a : Accuracy} (he : -1074 ≤ e)
    (h : 0 < rounded m a / 2 ^ ((rounded m a).log2 - 52)) :
    roundWithAccuracy binary64 .positive m e a =
      .finite .positive (rounded m a / 2 ^ ((rounded m a).log2 - 52))
        (e + (m.log2 - 52 : Nat) + ((rounded m a).log2 - 52 : Nat)) h := by
  have he' : -1074 ≤ e + (m.log2 - 52 : Nat) := by omega
  simp only [roundWithAccuracy, shiftToTargetExponent_eq he, shiftToTargetExponent_eq he',
    mantissa_shiftRight, mantissa_ofMantissaAndAccuracy]
  exact dif_neg (by simp only [rounded] at h; omega)

theorem log2_shiftLeft {m d : Nat} (hm : 0 < m) : (m <<< d).log2 = m.log2 + d := by
  have hlo : 2 ^ m.log2 ≤ m := Nat.log2_self_le (by omega)
  have hhi : m < 2 ^ (m.log2 + 1) := Nat.lt_log2_self
  rw [Nat.log2_eq_iff (Nat.ne_of_gt (Nat.shiftLeft_pos_iff.2 hm)), Nat.shiftLeft_eq, Nat.pow_add,
    Nat.add_right_comm, Nat.pow_add 2 (m.log2 + 1)]
  exact ⟨Nat.mul_le_mul_right _ hlo, Nat.mul_lt_mul_of_pos_right hhi (Nat.two_pow_pos d)⟩

theorem roundWithAccuracy_finite {m : Nat} {e : Int} {a : Accuracy} (hm : 0 < m)
    (he : -1074 ≤ e) : ∃ m' e' h, m' < 2 ^ 53 ∧ -1074 ≤ e' ∧ e' ≤ e + (m.log2 - 52 : Nat) + 1 ∧
      roundWithAccuracy binary64 .positive m e a = .finite .positive m' e' h := by
  have hr := rounded_bounds m a
  have hs := shifted_bounds hm
  have hlog : (rounded m a).log2 < 54 := (Nat.log2_lt (by omega)).2 (by omega)
  have hf := shifted_bounds (m := rounded m a) (by omega)
  exact ⟨_, _, hf.1, hf.2, by omega, by omega, roundWithAccuracy_eq he hf.1⟩

theorem round_finite {m : Nat} {e : Int} (hm : 0 < m) (he : -1074 ≤ e) :
    ∃ m' e' h, m' < 2 ^ 53 ∧ -1074 ≤ e' ∧ e' ≤ e + (m.log2 - 52 : Nat) + 1 ∧
      UnpackedFloat.round binary64 .positive m e = .finite .positive m' e' h := by
  have hmin : binary64.minExponent = -1074 := by decide
  let d := (e - binary64.targetExponent (totalExponent m e)).toNat
  have hd : d ≤ 52 - m.log2 ∧ -1074 ≤ e - d := by
    simp only [d, Format.targetExponent, totalExponent, Format.mantissaBits, hmin]
    omega
  have hlog := log2_shiftLeft (d := d) hm
  have hpos : 0 < m <<< d := Nat.shiftLeft_pos_iff.2 hm
  obtain ⟨m', e', h, hm', he', hu, hr⟩ := roundWithAccuracy_finite (a := .exact) hpos hd.2
  refine ⟨m', e', h, hm', he', by omega, hr⟩

theorem roundedMantissa_of_roundBit {x : ExtendedMantissa} (h : x.roundBit = false) :
    x.roundedMantissa = x.mantissa := by
  rcases x with ⟨m, _ | _, _ | _⟩ <;> first | rfl | cases h

theorem shiftRight_succ (x : ExtendedMantissa) (n : Nat) :
    x >>> (n + 1) = (x >>> n).shiftRightOne := rfl

/-- A number that is less than half of a unit in the last place is lost in a sum. -/
theorem round_absorbs {m k r : Nat} {e : Int} (hlo : 2 ^ 52 ≤ m) (hhi : m < 2 ^ 53)
    (hk : 53 ≤ k) (hr : r < 2 ^ 53) (he : -1074 ≤ e) :
    UnpackedFloat.round binary64 .positive (m * 2 ^ (k + 1) + r) e =
      .finite .positive m (e + (k + 1 : Nat)) (by omega) := by
  have hmin : binary64.minExponent = -1074 := by decide
  have hr : r < 2 ^ k := Nat.lt_of_lt_of_le hr (Nat.pow_le_pow_right (by omega) hk)
  have hpow : 2 ^ (k + 1) = 2 ^ k * 2 := Nat.pow_succ 2 k
  generalize hM : m * 2 ^ (k + 1) + r = M
  have hdiv : M / 2 ^ k = m * 2 := by
    rw [← hM, hpow, Nat.mul_comm (2 ^ k), ← Nat.mul_assoc, Nat.add_comm,
      Nat.add_mul_div_right _ _ (Nat.two_pow_pos k), Nat.div_eq_of_lt hr, Nat.zero_add]
  have hlog : M.log2 = 52 + (k + 1) := by
    have hl : 2 ^ 52 * 2 ^ (k + 1) ≤ m * 2 ^ (k + 1) := Nat.mul_le_mul_right _ hlo
    have hh : (m + 1) * 2 ^ (k + 1) ≤ 2 ^ 53 * 2 ^ (k + 1) := Nat.mul_le_mul_right _ hhi
    have hs : 2 ^ (52 + (k + 1) + 1) = 2 ^ 53 * 2 ^ (k + 1) := by
      rw [← Nat.pow_add]
      congr 1
      omega
    rw [Nat.add_mul] at hh
    rw [Nat.log2_eq_iff (by have := Nat.two_pow_pos (k + 1); omega), Nat.pow_add, hs]
    omega
  have hshift : M.log2 - 52 = k + 1 := by omega
  have hround : rounded M .exact = m := by
    rw [rounded, hshift, shiftRight_succ, roundedMantissa_of_roundBit,
      ExtendedMantissa.shiftRightOne, mantissa_shiftRight, mantissa_ofMantissaAndAccuracy, hdiv]
    · exact Nat.mul_div_cancel m (by omega)
    · simp [ExtendedMantissa.shiftRightOne, mantissa_shiftRight, mantissa_ofMantissaAndAccuracy,
        hdiv]
  have hm52 : m.log2 = 52 := (Nat.log2_eq_iff (by omega)).2 ⟨hlo, hhi⟩
  have hd : (e - binary64.targetExponent (totalExponent M e)).toNat = 0 := by
    simp only [Format.targetExponent, totalExponent, Format.mantissaBits, hmin]
    omega
  unfold UnpackedFloat.round decreaseExponent
  simp only [hd, Nat.shiftLeft_zero]
  rw [roundWithAccuracy_eq (by omega) (by rw [hround, hm52]; omega)]
  simp only [hround, hm52, hshift]
  simp

/-! ## Sums and quotients -/

/-- What is left of a number when it is stored. -/
def stored (u : UnpackedFloat) : UnpackedFloat :=
  UnpackedFloat.unpack binary64 (UnpackedFloat.pack binary64 u)

theorem add_unpack (x y : Float) : (x + y).toModel.unpack =
    stored (UnpackedFloat.add binary64 x.toModel.unpack y.toModel.unpack) := rfl

theorem div_unpack (x y : Float) : (x / y).toModel.unpack =
    stored (UnpackedFloat.div binary64 x.toModel.unpack y.toModel.unpack) := rfl

theorem stored_infinity_pos : Positive (stored (.infinity .positive)) := by
  change Positive (.infinity .positive)
  trivial

theorem stored_zero (s : Sign) : stored (.zero s) = .zero s := by cases s <;> rfl

theorem stored_pos {m : Nat} {e : Int} {h : 0 < m} (hm : m < 2 ^ 53) (he : -1074 ≤ e) :
    Positive (stored (.finite .positive m e h)) := by
  by_cases ho : e ≤ 971
  · obtain ⟨e', -, hu⟩ := unpack_pack_finite (h := h) hm he ho
    rw [stored, hu]
    trivial
  · rw [stored, unpack_pack_overflow (by omega)]
    trivial

/-- The sum of two numbers in units of the smaller exponent. -/
theorem add_finite {m n : Nat} {e f : Int} {hm : 0 < m} {hn : 0 < n} :
    UnpackedFloat.add binary64 (.finite .positive m e hm) (.finite .positive n f hn) =
      UnpackedFloat.round binary64 .positive
        (m * 2 ^ (e - min e f).toNat + n * 2 ^ (f - min e f).toNat) (min e f) := by
  have hpos : 0 < m * 2 ^ (e - min e f).toNat := Nat.mul_pos hm (Nat.two_pow_pos _)
  simp only [UnpackedFloat.add, decreaseExponent, Sign.apply, UnpackedFloat.normalize,
    Nat.shiftLeft_eq]
  rw [Int.compare_eq_gt.2 (by omega)]
  congr 1

theorem add_finite_pos {m n : Nat} {e f : Int} {hm : 0 < m} {hn : 0 < n} (he : -1074 ≤ e)
    (hf : -1074 ≤ f) :
    Positive (stored
      (UnpackedFloat.add binary64 (.finite .positive m e hm) (.finite .positive n f hn))) := by
  have hpos : 0 < m * 2 ^ (e - min e f).toNat := Nat.mul_pos hm (Nat.two_pow_pos _)
  rw [add_finite]
  obtain ⟨m', e', h, hm', he', -, hr⟩ := round_finite
    (m := m * 2 ^ (e - min e f).toNat + n * 2 ^ (f - min e f).toNat) (e := min e f)
    (by omega) (by omega)
  rw [hr]
  exact stored_pos hm' he'

theorem unpack_of_pos {x : Float} (hx : Scale.zero < x) :
    x.toModel.unpack = .infinity .positive ∨ ∃ m e h, x.toModel.unpack = .finite .positive m e h ∧
      m < 2 ^ 53 ∧ -1074 ≤ e ∧ e ≤ 971 ∧ (2 ^ 52 ≤ m ∨ e = -1074) := by
  rw [zero_lt_iff] at hx
  rcases hu : x.toModel.unpack with (_ | _) | _ | _ | ⟨_ | _, m, e, h⟩ <;> rw [hu] at hx <;>
    simp only [Positive] at hx
  · exact .inl rfl
  · exact .inr ⟨m, e, h, rfl, finite_of_unpack hu⟩

theorem add_pos {x y : Float} (hx : Scale.zero < x) (hy : Scale.Nonneg y) :
    Scale.zero < x + y := by
  rw [zero_lt_iff, add_unpack]
  rcases unpack_of_pos hx with hu | ⟨m, e, h, hu, hm, he, -, -⟩
  · rcases hy with hy | hy
    · obtain ⟨s, hs⟩ := beq_zero_iff.1 hy
      rw [hu, hs]
      exact stored_infinity_pos
    · rcases unpack_of_pos hy with hv | ⟨n, f, h', hv, -⟩ <;> rw [hu, hv]
      · exact stored_infinity_pos
      · exact stored_infinity_pos
  · rcases hy with hy | hy
    · obtain ⟨s, hs⟩ := beq_zero_iff.1 hy
      rw [hu, hs]
      exact stored_pos hm he
    · rcases unpack_of_pos hy with hv | ⟨n, f, h', hv, -, hf, -, -⟩ <;> rw [hu, hv]
      · exact stored_infinity_pos
      · exact add_finite_pos he hf

theorem zero_add {v : Float} (hv : Scale.Nonneg v) : Scale.Nonneg (Scale.zero + v) := by
  rcases hv with hv | hv
  · obtain ⟨s, hs⟩ := beq_zero_iff.1 hv
    left
    rw [beq_zero_iff, add_unpack, hs, zero_unpack]
    cases s
    · exact ⟨_, stored_zero _⟩
    · exact ⟨_, stored_zero _⟩
  · right
    rw [zero_lt_iff, add_unpack, zero_unpack]
    rcases unpack_of_pos hv with hu | ⟨m, e, h, hu, hm, he, -, -⟩ <;> rw [hu]
    · exact stored_infinity_pos
    · exact stored_pos hm he

theorem isInfinite_iff {v : Float} : Scale.isInfinite v = v.toModel.unpack.isInf := rfl

theorem normalize_zero {v : Float} (hv : (v == Scale.zero) = true) :
    (Scale.normalize v == Scale.zero) = true := by
  obtain ⟨s, hs⟩ := beq_zero_iff.1 hv
  have hi : Scale.isInfinite v = false := by
    rw [isInfinite_iff, hs]
    rfl
  have hsum : (v + Scale.one).toModel.unpack = .finite .positive (2 ^ 52) (-52) (by decide) := by
    rw [add_unpack, hs, one_unpack]
    cases s <;> rfl
  simp only [Scale.normalize, hi]
  refine beq_zero_iff.2 ⟨s, ?_⟩
  change (v / (v + Scale.one)).toModel.unpack = _
  rw [div_unpack, hs, hsum]
  cases s
  · exact stored_zero _
  · exact stored_zero _

/-- A quotient does not vanish if it has a bit above the smallest exponent. -/
theorem div_finite_pos {m n : Nat} {e f t : Int} {hm : 0 < m} {hn : 0 < n}
    (ht : t = min (e - f) (binary64.targetExponent (totalExponent m e - totalExponent n f)))
    (hmin : -1074 ≤ t) (hq : n ≤ m * 2 ^ (e - f - t).toNat) :
    Positive (stored
      (UnpackedFloat.div binary64 (.finite .positive m e hm) (.finite .positive n f hn))) := by
  have hpos : 0 < m * 2 ^ (e - f - t).toNat / n := Nat.div_pos hq hn
  simp only [UnpackedFloat.div, divCore, ← ht, Nat.shiftLeft_eq]
  obtain ⟨m', e', h, hm', he', -, hr⟩ := roundWithAccuracy_finite (e := t)
    (a := accuracyOfFraction (m * 2 ^ (e - f - t).toNat % n) n) hpos hmin
  have hs : (Sign.positive / Sign.positive) = Sign.positive := rfl
  rw [hs, hr]
  exact stored_pos hm' he'

/-! ## Squeezing -/

/-- One more than a number with mantissa `m` and exponent `e`. -/
def succ (m : Nat) (e : Int) (h : 0 < m) : UnpackedFloat :=
  stored (UnpackedFloat.add binary64 (.finite .positive m e h)
    (.finite .positive (2 ^ 52) (-52) (by decide)))

theorem succ_of_small {m : Nat} {e : Int} {h : 0 < m} (hm : m < 2 ^ 53) (he : -1074 ≤ e)
    (hs : e ≤ -106) : succ m e h = .finite .positive (2 ^ 52) (-52) (by decide) := by
  obtain ⟨k, hk⟩ : ∃ k : Nat, (-52 - e).toNat = k + 1 := ⟨(-53 - e).toNat, by omega⟩
  have hround := round_absorbs (m := 2 ^ 52) (k := k) (r := m) (e := e) (by omega) (by omega)
    (by omega) hm he
  have hexp : e + (k + 1 : Nat) = -52 := by omega
  have hmin : min e (-52) = e := by omega
  rw [succ, add_finite, hmin, hk, Int.sub_self, Int.toNat_zero, Nat.pow_zero, Nat.mul_one,
    Nat.add_comm, hround]
  simp only [hexp]
  exact unpack_pack_normal (by omega) (by omega) (by omega) (by omega)

theorem succ_of_large {m : Nat} {e : Int} {h : 0 < m} (hlo : 2 ^ 52 ≤ m) (hhi : m < 2 ^ 53)
    (ho : e ≤ 971) (hl : 2 ≤ e) : succ m e h = .finite .positive m e h := by
  obtain ⟨k, hk⟩ : ∃ k : Nat, (e - -52).toNat = k + 1 := ⟨(e + 51).toNat, by omega⟩
  have hround := round_absorbs (m := m) (k := k) (r := 2 ^ 52) (e := -52) hlo hhi (by omega)
    (by omega) (by omega)
  have hexp : -52 + ((k + 1 : Nat) : Int) = e := by omega
  have hmin : min e (-52) = -52 := by omega
  rw [succ, add_finite, hmin, hk, Int.sub_self, Int.toNat_zero, Nat.pow_zero, Nat.mul_one, hround]
  simp only [hexp]
  exact unpack_pack_normal hlo hhi (by omega) ho

theorem succ_of_medium {m : Nat} {e : Int} {h : 0 < m} (hm : m < 2 ^ 53) (hlo : -105 ≤ e)
    (hhi : e ≤ 1) : ∃ n f hn, succ m e h = .finite .positive n f hn ∧ n < 2 ^ 53 ∧ f ≤ 3 := by
  generalize hM : m * 2 ^ (e - min e (-52)).toNat + 2 ^ 52 * 2 ^ (-52 - min e (-52)).toNat = M
  have hpos : 0 < M := by
    have := Nat.mul_pos h (Nat.two_pow_pos (e - min e (-52)).toNat)
    omega
  have hlog : M.log2 < 107 := by
    have ha : m * 2 ^ (e - min e (-52)).toNat ≤ 2 ^ 53 * 2 ^ 53 :=
      Nat.mul_le_mul (by omega) (Nat.pow_le_pow_right (by omega) (by omega))
    have hb : 2 ^ 52 * 2 ^ (-52 - min e (-52)).toNat ≤ 2 ^ 52 * 2 ^ 53 :=
      Nat.mul_le_mul_left _ (Nat.pow_le_pow_right (by omega) (by omega))
    exact (Nat.log2_lt (by omega)).2 (by omega)
  obtain ⟨n, f, hn, hn53, hf, hfu, hr⟩ := round_finite (e := min e (-52)) hpos (by omega)
  obtain ⟨f', hf', hu⟩ := unpack_pack_finite (h := hn) hn53 hf (by omega)
  refine ⟨n, f', hn, ?_, hn53, by omega⟩
  rw [succ, add_finite, hM, hr]
  exact hu

theorem le_mul_two_pow {m n s : Nat} (hm : 0 < m) (hs : n.log2 + 1 ≤ m.log2 + s) :
    n ≤ m * 2 ^ s :=
  calc
    n ≤ 2 ^ (n.log2 + 1) := Nat.le_of_lt Nat.lt_log2_self
    _ ≤ 2 ^ (m.log2 + s) := Nat.pow_le_pow_right (by omega) hs
    _ = 2 ^ m.log2 * 2 ^ s := Nat.pow_add ..
    _ ≤ m * 2 ^ s := Nat.mul_le_mul_right _ (Nat.log2_self_le (by omega))

/-- The quotient of a number by one more does not vanish: a small number is divided by the unit,
a large one by itself, and one in between is far from both ends of the range. -/
theorem div_succ_pos {m : Nat} {e : Int} {h : 0 < m} (hm : m < 2 ^ 53) (he : -1074 ≤ e)
    (ho : e ≤ 971) (hn : 2 ^ 52 ≤ m ∨ e = -1074) :
    Positive (stored (UnpackedFloat.div binary64 (.finite .positive m e h) (succ m e h))) := by
  have hmin : binary64.minExponent = -1074 := by decide
  have hlog : m.log2 < 53 := (Nat.log2_lt (by omega)).2 hm
  by_cases hs : e ≤ -106
  · have hone : (2 ^ 52).log2 = 52 := Nat.log2_two_pow
    rw [succ_of_small hm he hs]
    refine div_finite_pos rfl ?_ (Nat.le_trans ?_ (Nat.le_mul_of_pos_left _ h)) <;>
      simp only [Format.targetExponent, totalExponent, Format.mantissaBits, hmin, hone]
    · omega
    · exact Nat.pow_le_pow_right (by omega) (by omega)
  · by_cases hl : 2 ≤ e
    · rw [succ_of_large (by omega) hm ho hl]
      refine div_finite_pos rfl ?_ (Nat.le_mul_of_pos_right m (Nat.two_pow_pos _))
      simp only [Format.targetExponent, totalExponent, Format.mantissaBits, hmin]
      omega
    · obtain ⟨n, f, hn', hsucc, hn53, hf⟩ :=
        succ_of_medium (e := e) (h := h) hm (by omega) (by omega)
      have hnlog : n.log2 < 53 := (Nat.log2_lt (by omega)).2 hn53
      rw [hsucc]
      refine div_finite_pos rfl ?_ (le_mul_two_pow h ?_) <;>
        simp only [Format.targetExponent, totalExponent, Format.mantissaBits, hmin] <;> omega

theorem normalize_pos {v : Float} (hv : Scale.zero < v) : Scale.zero < Scale.normalize v := by
  rcases unpack_of_pos hv with hu | ⟨m, e, h, hu, hm, he, ho, hn⟩
  · have hi : Scale.isInfinite v = true := by
      rw [isInfinite_iff, hu]
      rfl
    simp only [Scale.normalize, hi, if_true]
    exact zero_lt_iff.2 trivial
  · have hi : Scale.isInfinite v = false := by
      rw [isInfinite_iff, hu]
      rfl
    have hsum : (v + Scale.one).toModel.unpack = succ m e h := by
      rw [add_unpack, hu, one_unpack]
      rfl
    simp only [Scale.normalize, hi]
    rw [zero_lt_iff]
    change Positive (v / (v + Scale.one)).toModel.unpack
    rw [div_unpack, hu, hsum]
    exact div_succ_pos hm he ho hn

end FloatScale

open FloatScale in
instance : LawfulScale Float where
  zero_beq_zero := by decide
  not_beq_of_pos := by
    intro v hv
    rw [Bool.eq_false_iff]
    intro hz
    obtain ⟨s, hs⟩ := beq_zero_iff.1 hz
    rw [zero_lt_iff, hs] at hv
    exact hv
  one_pos := by decide
  two_pos := by decide
  greatest_pos := by decide
  add_pos := add_pos
  zero_add := zero_add
  normalize_zero := normalize_zero
  normalize_pos := normalize_pos

end CrashSearch
