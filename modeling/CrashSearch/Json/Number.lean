import CrashSearch.Json.Basic

/-!
# Number literals

What the spelling of a number means: a whole number, or a binary floating-point number.

## Main definitions

* `NumberLiteral`: the parts of a spelling.
* `NumberLiteral.int?`: the whole number it stands for, if it is written without fraction and
  exponent.
* `NumberLiteral.float?`: the floating-point number it stands for, if it is in range.
-/

namespace CrashSearch

/-- A number as it is written: sign, digits before and after the point, and exponent. -/
structure NumberLiteral where
  negative : Bool
  digits : List Char
  fraction : Option (List Char)
  exponent : Option (Bool × List Char)

namespace NumberLiteral

/-- The exponent with its sign (`true` for a negative one); `none` if there is no exponent but
something else. -/
def exponent? : List Char → Option (Option (Bool × List Char))
  | [] => some none
  | c :: rest =>
    if c = 'e' ∨ c = 'E' then
      let (negative, digits) := match rest with
        | '+' :: ds => (false, ds)
        | '-' :: ds => (true, ds)
        | ds => (false, ds)
      if digits ≠ [] ∧ digits.all Char.isDigit then some (some (negative, digits)) else none
    else none

/-- A number without its sign: no needless zero in front, and a digit on each side of a point. -/
def unsigned? (negative : Bool) (s : Spelling) : Option NumberLiteral :=
  let digits := s.takeWhile Char.isDigit
  if digits = [] ∨ (digits.head? = some '0' ∧ digits.length ≠ 1) then none else
    match s.dropWhile Char.isDigit with
    | '.' :: rest =>
      let fraction := rest.takeWhile Char.isDigit
      if fraction = [] then none else
        (exponent? (rest.dropWhile Char.isDigit)).map (⟨negative, digits, some fraction, ·⟩)
    | rest => (exponent? rest).map (⟨negative, digits, none, ·⟩)

/-- The parts of a spelling. -/
def ofSpelling? : Spelling → Option NumberLiteral
  | '-' :: rest => unsigned? true rest
  | s => unsigned? false s

/-- The whole number that the literal stands for. Minus zero is no whole number. -/
def int? (n : NumberLiteral) : Option Int :=
  match n.fraction, n.exponent with
  | none, none =>
    let magnitude := Nat.ofDigitChars 10 n.digits 0
    if n.negative then
      if magnitude = 0 then none else some (-(magnitude : Int))
    else some magnitude
  | _, _ => none

/-- A significand of one machine word, times a power of ten. -/
structure Scaled where
  significand : Nat
  power : Int
  /-- A digit had to be left out. -/
  full : Bool

namespace Scaled

/-- The digits before the point: one that no longer fits the word moves the power instead. -/
def addDigit (s : Scaled) (c : Char) : Scaled :=
  let next := s.significand * 10 + (c.toNat - '0'.toNat)
  if s.full ∨ next ≥ UInt64.size then { s with power := s.power + 1, full := true }
  else { s with significand := next }

/-- The digits behind the point: from the first that no longer fits the word they are dropped. -/
def addPlace (s : Scaled) (c : Char) : Scaled :=
  let next := s.significand * 10 + (c.toNat - '0'.toNat)
  if s.full ∨ next ≥ UInt64.size then { s with full := true }
  else { s with significand := next, power := s.power - 1 }

/-- The power of ten `10 ^ n` as a floating-point number. -/
def powerOfTen (n : Nat) : Float := Float.ofScientific 1 false n

/-- The floating-point value, `none` beyond the range. Up to `10 ^ 308` the scaling is one
multiplication or division; a smaller power is taken in steps of that size. -/
def toFloat? (fuel : Nat) (f : Float) (power : Int) : Option Float :=
  match fuel with
  | 0 => some f
  | fuel + 1 =>
    if power.natAbs ≤ 308 then
      if 0 ≤ power then
        let r := f * powerOfTen power.natAbs
        if r.isInf then none else some r
      else some (f / powerOfTen power.natAbs)
    else if f == 0 then some f
    else if 0 ≤ power then none
    else toFloat? fuel (f / powerOfTen 308) (power + 308)

end Scaled

/-- What an exponent has to stay below in order to count. -/
def exponentBound : Nat := 0x80000000

/-- The floating-point number that the literal stands for. An exponent that does not count is
beyond the range on one side and gives zero on the other. -/
def float? (n : NumberLiteral) : Option Float :=
  let whole := n.digits.foldl Scaled.addDigit ⟨0, 0, false⟩
  let placed := (n.fraction.getD []).foldl Scaled.addPlace { whole with full := false }
  let (negative, digits) := n.exponent.getD (false, ['0'])
  let exponent := Nat.ofDigitChars 10 digits 0
  let magnitude :=
    if exponentBound ≤ exponent then
      if placed.significand ≠ 0 ∧ negative = false then none else some 0.0
    else
      let power := if negative then placed.power - exponent else placed.power + exponent
      -- after three steps of 308 any significand of one word has become zero
      Scaled.toFloat? 4 (Float.ofNat placed.significand) power
  magnitude.map fun f => if n.negative then -f else f

end NumberLiteral

end CrashSearch
