/-!
# Scales

The numbers in which distances are measured. Every measure of the library is written over an
arbitrary `Scale`, so the same definition runs on binary floating point and can be read over
exact numbers.

## Main definitions

* `Scale`: numbers with a sum, a quotient, an order and a greatest value.
* `Scale.normalize`: squeezes a distance into the unit interval.
* `Scale.least`: the smaller of two numbers.
-/

namespace CrashSearch

/-- Numbers in which distances are measured. -/
class Scale (R : Type) extends Add R, Div R, BEq R, LT R where
  /-- The whole number `n`. -/
  ofNat : Nat → R
  /-- The distance of what nothing can be measured towards. -/
  greatest : R
  /-- Whether a number is infinite, in either direction. -/
  isInfinite : R → Bool
  /-- The order is decidable. -/
  decLt : DecidableLT R

namespace Scale

variable {R : Type} [Scale R]

instance : DecidableLT R := Scale.decLt

/-- Nothing at all. -/
def zero : R := ofNat 0

/-- The unit of the scale. -/
def one : R := ofNat 1

/-- Maps a distance into the unit interval; an infinite one counts as a whole unit. -/
def normalize (value : R) : R :=
  if isInfinite value then one else value / (value + one)

/-- The smaller of two numbers; what cannot be compared is passed over. -/
def least (best value : R) : R := if value < best then value else best

end Scale

/-- Binary floating point, whose greatest number is the greatest finite one. -/
instance : Scale Float where
  ofNat := Float.ofNat
  greatest := Float.ofBits 0x7fefffffffffffff
  isInfinite := Float.isInf
  decLt := fun _ _ => inferInstance

end CrashSearch
