/-!
# Binary floating point by its bits

## Main definitions

* `Binary64`: a floating-point number as sign, significand and power of two.
* `Binary64.ofFloat`: the parts of a number.
* `Binary64.hex`: the bits of a number in hexadecimal, `Binary64.ofHex?` reads them.
-/

namespace CrashSearch

/-- What the bits of a floating-point number stand for. -/
inductive Binary64 where
  | nan
  | infinite (negative : Bool)
  /-- The number `significand * 2 ^ power`. -/
  | finite (negative : Bool) (significand : Nat) (power : Int)

namespace Binary64

/-- One digit more than the fraction of a normal number has. -/
def hiddenBit : Nat := 0x10000000000000

/-- The power of two of the smallest numbers. -/
def leastPower : Int := -1074

/-- The parts of a number given by its bits: a sign, eleven bits of exponent, and a fraction. -/
def ofBits (bits : Nat) : Binary64 :=
  let negative := bits / 0x8000000000000000 % 2 = 1
  let exponent := bits / hiddenBit % 0x800
  let fraction := bits % hiddenBit
  if exponent = 0x7ff then if fraction = 0 then infinite negative else nan
  else if exponent = 0 then finite negative fraction leastPower
  else finite negative (hiddenBit + fraction) (leastPower + exponent - 1)

/-- The parts of a number. -/
def ofFloat (f : Float) : Binary64 := ofBits f.toBits.toNat

/-- The sixteen hexadecimal digits of a word. -/
def hexDigits (bits : Nat) : String :=
  let digits := Nat.toDigits 16 bits
  String.ofList (List.replicate (16 - digits.length) '0' ++ digits)

/-- The bits of a number in hexadecimal; all undefined numbers are alike. -/
def hex (f : Float) : String := if f.isNaN then "nan" else hexDigits f.toBits.toNat

/-- The number whose bits are given in hexadecimal. -/
def ofHex? (s : String) : Option Float :=
  if s = "nan" then some (0.0 / 0.0) else do
    let bits ← s.toList.foldlM (fun n c =>
      if '0' ≤ c ∧ c ≤ '9' then some (16 * n + (c.toNat - '0'.toNat))
      else if 'a' ≤ c ∧ c ≤ 'f' then some (16 * n + (c.toNat - 'a'.toNat + 10))
      else none) 0
    return Float.ofBits (UInt64.ofNat bits)

end Binary64

end CrashSearch
