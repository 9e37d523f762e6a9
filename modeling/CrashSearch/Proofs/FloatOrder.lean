import CrashSearch.Proofs.FloatScale

/-!
# The order of binary floating point

The numbers of binary floating point are linearly ordered if both zeros count as one. Each number
has a place in a linear order, and comparing numbers compares their places. The numbers up to the
greatest finite one are closed under the sum with the unit: where it would exceed the greatest
number it is rounded to it, and a negative number only comes closer to nothing.

## Main definitions

* `FloatOrder.place`, `FloatOrder.rank`: the place of a number.
* `FloatOrder.Bounded`: numbers below infinity.

## Main statements

* `FloatOrder.lt_iff`, `FloatOrder.beq_iff`, `FloatOrder.le_iff`: comparing compares places.
* `FloatOrder.foldl_least_le`: the smallest of some numbers is a lower bound of them.
* `FloatOrder.add_one_le_greatest`: one more than a number up to the greatest is one again.
-/

namespace CrashSearch

namespace FloatOrder

open Float.Model Float.Model.UnpackedFloat
open Float.Model.Format (binary64)
open FloatScale

/-! ## The order of the numbers -/

/-- The place of a number in the order: first its sign and whether it is finite, then the exponent
and the mantissa. Both zeros have the same place, and what is no number has none of its own. -/
def place : UnpackedFloat → ℤ ×ₗ ℤ ×ₗ ℤ
  | .infinity .negative => toLex (-2, toLex (0, 0))
  | .finite .negative m e _ => toLex (-1, toLex (-e, -m))
  | .finite .positive m e _ => toLex (1, toLex (e, m))
  | .infinity .positive => toLex (2, toLex (0, 0))
  | _ => toLex (0, toLex (0, 0))

theorem compare_eq_lt_iff {a b : UnpackedFloat} :
    a.compare b = some .lt ↔ a ≠ .notANumber ∧ b ≠ .notANumber ∧ place a < place b := by
  have hs : compare Sign.negative Sign.positive = .lt := rfl
  rcases a with (_ | _) | _ | _ | ⟨_ | _, m, e, hm⟩ <;>
    rcases b with (_ | _) | _ | _ | ⟨_ | _, n, f, hn⟩ <;>
    simp [UnpackedFloat.compare, place, Prod.Lex.toLex_lt_toLex, Ordering.then_eq_lt,
      Ordering.swap_eq_lt, Ordering.then_eq_gt, compare_lt_iff_lt, compare_gt_iff_gt, hs]

theorem compare_eq_eq_iff {a b : UnpackedFloat} :
    a.compare b = some .eq ↔ a ≠ .notANumber ∧ b ≠ .notANumber ∧ place a = place b := by
  have hs (s : Sign) : compare s s = .eq := by cases s <;> rfl
  rcases a with (_ | _) | _ | _ | ⟨_ | _, m, e, hm⟩ <;>
    rcases b with (_ | _) | _ | _ | ⟨_ | _, n, f, hn⟩ <;>
    simp [UnpackedFloat.compare, place, Ordering.then_eq_eq, hs]

variable {x y z : Float}

/-- The float is a number; it may be infinite. -/
def IsNumber (x : Float) : Prop := x.toModel.unpack ≠ .notANumber

/-- The place of a float. -/
def rank (x : Float) : ℤ ×ₗ ℤ ×ₗ ℤ := place x.toModel.unpack

theorem lt_iff : x < y ↔ IsNumber x ∧ IsNumber y ∧ rank x < rank y := by
  change decide ((x.toModel.unpack.compare y.toModel.unpack == some .lt) = true) = true ↔ _
  simp [compare_eq_lt_iff, IsNumber, rank]

theorem beq_iff : (x == y) = true ↔ IsNumber x ∧ IsNumber y ∧ rank x = rank y := by
  change (x.toModel.unpack.compare y.toModel.unpack == some .eq) = true ↔ _
  simp [compare_eq_eq_iff, IsNumber, rank]

theorem le_iff : x ≤ y ↔ IsNumber x ∧ IsNumber y ∧ rank x ≤ rank y := by
  have hle : x ≤ y ↔ x < y ∨ (x == y) = true := by
    change decide (Option.any (·.isLE) (x.toModel.unpack.compare y.toModel.unpack) = true) = true ↔
      decide ((x.toModel.unpack.compare y.toModel.unpack == some .lt) = true) = true ∨
        (x.toModel.unpack.compare y.toModel.unpack == some .eq) = true
    rcases x.toModel.unpack.compare y.toModel.unpack with _ | _ | _ | _ <;> simp
  rw [hle, lt_iff, beq_iff, le_iff_lt_or_eq]
  tauto

theorem le_refl (hx : IsNumber x) : x ≤ x := le_iff.2 ⟨hx, hx, le_rfl⟩

theorem le_trans (hxy : x ≤ y) (hyz : y ≤ z) : x ≤ z := by
  rw [le_iff] at *
  exact ⟨hxy.1, hyz.2.1, hxy.2.2.trans hyz.2.2⟩

theorem beq_of_le_of_le (hxy : x ≤ y) (hyx : y ≤ x) : (x == y) = true := by
  rw [le_iff] at hxy hyx
  exact beq_iff.2 ⟨hxy.1, hxy.2.1, hxy.2.2.antisymm hyx.2.2⟩

theorem le_of_beq (h : (x == y) = true) : x ≤ y ∧ y ≤ x := by
  obtain ⟨hx, hy, hr⟩ := beq_iff.1 h
  exact ⟨le_iff.2 ⟨hx, hy, hr.le⟩, le_iff.2 ⟨hy, hx, hr.ge⟩⟩

/-- The smaller of two numbers is a lower bound of them. -/
theorem least_le (hx : IsNumber x) (hy : IsNumber y) :
    Scale.least x y ≤ x ∧ Scale.least x y ≤ y := by
  unfold Scale.least
  split
  · rename_i hlt
    exact ⟨le_iff.2 ⟨hy, hx, (lt_iff.1 hlt).2.2.le⟩, le_refl hy⟩
  · rename_i hlt
    rw [lt_iff] at hlt
    exact ⟨le_refl hx, le_iff.2 ⟨hx, hy, by simpa [hx, hy] using hlt⟩⟩

/-- The smallest of some numbers is a lower bound of them. -/
theorem foldl_least_le (hx : IsNumber x) {values : List Float} (hv : ∀ v ∈ values, IsNumber v) :
    values.foldl Scale.least x ≤ x ∧ ∀ v ∈ values, values.foldl Scale.least x ≤ v := by
  induction values generalizing x with
  | nil => exact ⟨le_refl hx, by simp⟩
  | cons v values ih =>
    obtain ⟨hvn, hvs⟩ := List.forall_mem_cons.1 hv
    obtain ⟨hlx, hlv⟩ := least_le hx hvn
    obtain ⟨hle, hall⟩ := ih (le_iff.1 hlx).1 hvs
    exact ⟨le_trans hle hlx, List.forall_mem_cons.2 ⟨le_trans hle hlv, hall⟩⟩

/-! ## Numbers up to the greatest finite one -/

/-- The unpacked float is a number below infinity. -/
def Bounded : UnpackedFloat → Prop
  | .notANumber => False
  | .infinity .positive => False
  | _ => True

theorem greatest_unpack : (Scale.greatest : Float).toModel.unpack =
    .finite .positive (2 ^ 53 - 1) 971 (by decide) := rfl

theorem le_greatest_iff : x ≤ Scale.greatest ↔ Bounded x.toModel.unpack := by
  rw [le_iff, IsNumber, IsNumber, rank, rank, greatest_unpack]
  rcases hu : x.toModel.unpack with (_ | _) | _ | _ | ⟨_ | _, m, e, h⟩ <;>
    simp [Bounded, place, Prod.Lex.toLex_le_toLex]
  have := finite_of_unpack hu
  omega

theorem isNumber_of_le_greatest (h : x ≤ Scale.greatest) : IsNumber x := (le_iff.1 h).1

theorem greatest_isNumber : IsNumber (Scale.greatest : Float) := by
  rw [IsNumber, greatest_unpack]
  nofun

theorem le_greatest_of_isFinite (h : x.isFinite = true) : x ≤ Scale.greatest := by
  rw [le_greatest_iff]
  change x.toModel.unpack.isFinite = true at h
  rcases hu : x.toModel.unpack with (_ | _) | _ | _ | _ <;>
    simp_all [UnpackedFloat.isFinite, Bounded]

/-- An exponent that is not the one of infinities and of what is no number. -/
theorem bounded_unpack {b : BitVec binary64.numBits} (h : unpackExponent b ≠ -1#11) :
    Bounded (UnpackedFloat.unpack binary64 b) := by
  unfold UnpackedFloat.unpack
  dsimp only
  rw [if_neg h]
  split
  · split <;> trivial
  · trivial

/-- What is stored is below infinity, if it is negative or not too large. -/
theorem bounded_stored {s : Sign} {m : Nat} {e : Int} {h : 0 < m}
    (ho : s = .negative ∨ e ≤ 971) : Bounded (stored (.finite s m e h)) := by
  unfold stored UnpackedFloat.pack
  dsimp only
  split
  · rename_i hover
    rcases ho with rfl | ho
    · trivial
    · exact absurd hover (not_overflow ho)
  · rename_i hover
    split
    · apply bounded_unpack
      rw [unpackExponent_packComponents]
      intro hx
      have := congrArg BitVec.toNat hx
      simp only [BitVec.toNat_ofNat, BitVec.toNat_neg] at this
      omega
    · apply bounded_unpack
      rw [unpackExponent_packComponents]
      decide

theorem round_eq (s : Sign) (m : Nat) (e : Int) :
    UnpackedFloat.round binary64 s m e = .zero s ∨
      ∃ m' e' h, UnpackedFloat.round binary64 s m e = .finite s m' e' h := by
  unfold UnpackedFloat.round roundWithAccuracy
  dsimp only
  split
  · exact .inl rfl
  · exact .inr ⟨_, _, Nat.pos_of_ne_zero ‹_›, rfl⟩

theorem bounded_stored_round_negative (m : Nat) (e : Int) :
    Bounded (stored (UnpackedFloat.round binary64 .negative m e)) := by
  rcases round_eq .negative m e with h | ⟨m', e', h', h⟩
  · rw [h]
    trivial
  · rw [h]
    exact bounded_stored (.inl rfl)

theorem bounded_stored_round_positive {m : Nat} {e : Int} (hm : 0 < m) (he : -1074 ≤ e)
    (ho : e + (m.log2 - 52 : Nat) ≤ 970) :
    Bounded (stored (UnpackedFloat.round binary64 .positive m e)) := by
  obtain ⟨m', e', h', -, -, hu, hr⟩ := round_finite hm he
  rw [hr]
  exact bounded_stored (.inr (by omega))

/-- The sum of a negative number and the unit is below the unit. -/
theorem bounded_negative_add_one {m : Nat} {e : Int} {h : 0 < m} (he : -1074 ≤ e) :
    Bounded (stored (UnpackedFloat.add binary64 (.finite .negative m e h)
      (.finite .positive (2 ^ 52) (-52) (by decide)))) := by
  simp only [UnpackedFloat.add, decreaseExponent, Sign.apply, UnpackedFloat.normalize,
    Nat.shiftLeft_eq]
  generalize hs : (-52 - min e (-52)).toNat = s
  generalize m * 2 ^ (e - min e (-52)).toNat = k
  split
  · exact bounded_stored_round_negative _ _
  · trivial
  · rename_i hpos
    rw [Int.compare_eq_gt] at hpos
    have hlog : (-(k : Int) + (2 ^ 52 * 2 ^ s : Nat)).toNat.log2 < 53 + s := by
      rw [Nat.log2_lt (by omega), Nat.add_comm, Nat.pow_add]
      have := Nat.two_pow_pos s
      omega
    exact bounded_stored_round_positive (by omega) (by omega) (by omega)

theorem bounded_succ {m : Nat} {e : Int} {h : 0 < m} (hm : m < 2 ^ 53) (he : -1074 ≤ e)
    (ho : e ≤ 971) (hn : 2 ^ 52 ≤ m ∨ e = -1074) : Bounded (succ m e h) := by
  by_cases hsmall : e ≤ -106
  · rw [succ_of_small hm he hsmall]
    trivial
  · by_cases hlarge : 2 ≤ e
    · rw [succ_of_large (by omega) hm ho hlarge]
      trivial
    · obtain ⟨n, f, hn, hsucc, -⟩ := succ_of_medium (e := e) (h := h) hm (by omega) (by omega)
      rw [hsucc]
      trivial

/-- One more than a number up to the greatest is such a number again: the sum is rounded down where
a unit is too little to be seen. -/
theorem add_one_le_greatest (hx : x ≤ Scale.greatest) : x + Scale.one ≤ Scale.greatest := by
  rw [le_greatest_iff] at hx ⊢
  rw [add_unpack, one_unpack]
  rcases hu : x.toModel.unpack with (_ | _) | _ | s | ⟨_ | _, m, e, h⟩ <;> rw [hu] at hx
  · trivial
  · exact hx.elim
  · exact hx.elim
  · exact bounded_stored (.inr (by decide))
  · exact bounded_negative_add_one (finite_of_unpack hu).2.1
  · obtain ⟨hm, he, ho, hn⟩ := finite_of_unpack hu
    exact bounded_succ hm he ho hn

example : ((Scale.greatest + Scale.one : Float) == Scale.greatest) = true := by decide +kernel

theorem least_le_greatest (hx : x ≤ Scale.greatest) (y : Float) :
    Scale.least x y ≤ Scale.greatest := by
  unfold Scale.least
  split
  · rename_i hlt
    rw [lt_iff] at hlt
    rw [le_iff] at hx ⊢
    exact ⟨hlt.1, hx.2.1, hlt.2.2.le.trans hx.2.2⟩
  · exact hx

theorem foldl_least_le_greatest (hx : x ≤ Scale.greatest) (values : List Float) :
    values.foldl Scale.least x ≤ Scale.greatest := by
  induction values generalizing x with
  | nil => exact hx
  | cons v values ih => exact ih (least_le_greatest hx v)

end FloatOrder

end CrashSearch
