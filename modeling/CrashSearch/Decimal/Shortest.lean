import CrashSearch.Decimal.Binary64

/-!
# Shortest decimals

The decimal with the fewest digits that lies nearer to a floating-point number than to any other.
All comparisons are between natural numbers, so nothing is rounded on the way.

## Main definitions

* `Decimal`: a number `digits * 10 ^ power`.
* `Tie`: which of two decimals counts if both are equally near.
* `Decimal.shortest`: the shortest decimal of a positive floating-point number.
-/

namespace CrashSearch

/-- The number `digits * 10 ^ power`. -/
structure Decimal where
  digits : Nat
  power : Int

/-- Which of two neighbours counts if a number lies halfway between them. -/
inductive Tie where
  /-- The one whose last digit is even. -/
  | toEven
  /-- The greater one. -/
  | up
  deriving DecidableEq

/-- Whether the upper neighbour of `below` counts. -/
def Tie.takesAbove (tie : Tie) (below : Nat) : Bool :=
  match tie with
  | toEven => below % 2 = 1
  | up => true

namespace Decimal

/-- How many decimal digits a number has. -/
def length (n : Nat) : Nat := (Nat.toDigits 10 n).length

/-- The factors by which a multiple of `10 ^ power` and one of `2 ^ binary` become comparable. -/
def factors (power binary : Int) : Nat × Nat :=
  (Nat.pow 10 power.toNat * Nat.pow 2 (-binary).toNat,
    Nat.pow 10 (-power).toNat * Nat.pow 2 binary.toNat)

/-- The least `e` with `n * 2 ^ binary < 10 ^ e`, for a positive `n`. -/
def magnitude (n : Nat) (binary : Int) : Int :=
  let (denominator, numerator) := factors 0 binary
  let numerator := n * numerator
  if denominator ≤ numerator then length (numerator / denominator)
  else 1 - (length ((denominator + numerator - 1) / numerator - 1) : Int)

/-- The interval of numbers that round to `significand * 2 ^ power`, in quarters of its unit. The
gap below a power of two is half as wide as the one above it. -/
def bounds (significand : Nat) (power : Int) : Nat × Nat :=
  if significand = Binary64.hiddenBit ∧ Binary64.leastPower < power then
    (4 * significand - 1, 4 * significand + 2)
  else (4 * significand - 2, 4 * significand + 2)

/-- The multiple of `10 ^ power` that rounds to the number and is nearest to it, if there is one.
The ends of the interval round to the number if its significand is even. -/
def onGrid? (tie : Tie) (significand : Nat) (binary power : Int) : Option Decimal :=
  let (low, high) := bounds significand binary
  let (grid, quarter) := factors power (binary - 2)
  let value := 4 * significand * quarter
  let inside (d : Nat) : Bool :=
    if significand % 2 = 0 then low * quarter ≤ d * grid ∧ d * grid ≤ high * quarter
    else low * quarter < d * grid ∧ d * grid < high * quarter
  let below := value / grid
  let above := below + 1
  let aboveIsNearer : Bool :=
    if 2 * value = (below + above) * grid then tie.takesAbove below
    else (below + above) * grid < 2 * value
  if inside below ∧ inside above then some ⟨if aboveIsNearer then above else below, power⟩
  else if inside below ∧ below ≠ 0 then some ⟨below, power⟩
  else if inside above then some ⟨above, power⟩
  else none

/-- Moves the zeros at the end of the digits into the power. -/
def trim (d : Decimal) : Decimal :=
  let digits := (Nat.toDigits 10 d.digits).reverse
  let zeros := (digits.takeWhile (· = '0')).length
  ⟨d.digits / Nat.pow 10 zeros, d.power + zeros⟩

/-- The shortest decimal that rounds to `significand * 2 ^ power`; seventeen digits always do. -/
def shortest (tie : Tie) (significand : Nat) (power : Int) : Decimal :=
  if significand = 0 then ⟨0, 0⟩ else
    let top := magnitude significand power
    match (List.range 17).findSome? fun (n : Nat) =>
      onGrid? tie significand power (top - n - 1) with
    | some d => trim d
    | none => ⟨0, 0⟩

end Decimal

end CrashSearch
