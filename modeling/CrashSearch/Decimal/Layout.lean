import CrashSearch.Decimal.Shortest

/-!
# Writing floating-point numbers

## Main definitions

* `Layout`: the choices in writing a number; `Layout.plain` and `Layout.json` are the two in use.
* `Layout.render`: a floating-point number in a layout.
-/

namespace CrashSearch

/-- The choices in writing a number. -/
structure Layout where
  /-- Whether a point in front of so many digits, or so many places before them, is written
  without an exponent. -/
  positional : Int → Bool
  /-- What follows a whole number. -/
  wholeTail : String
  /-- The sign of an exponent that is not negative. -/
  plusSign : String
  nan : String
  infinity : String
  /-- Which of two equally near decimals is written. -/
  tie : Tie

namespace Layout

/-- Never an exponent, and nothing behind a whole number. Of two equally near decimals the one
with the greater digits is written. -/
def plain : Layout := ⟨fun _ => true, "", "", "NaN", "inf", .up⟩

/-- An exponent for numbers from `10 ^ 16` and below `10 ^ -5`, and a point in every number
without one. What is no number is `null`. Of two equally near decimals the one with the even last
digit is written. -/
def json : Layout := ⟨fun point => -5 < point ∧ point ≤ 16, ".0", "+", "null", "null", .toEven⟩

/-- So many zeros. -/
def zeros (n : Nat) : List Char := List.replicate n '0'

/-- A decimal with its point at its place. -/
def positionalText (l : Layout) (digits : List Char) (point : Int) : String :=
  if (digits.length : Int) ≤ point then
    String.ofList (digits ++ zeros (point.toNat - digits.length)) ++ l.wholeTail
  else if 0 < point then
    String.ofList (digits.take point.toNat ++ '.' :: digits.drop point.toNat)
  else String.ofList ('0' :: '.' :: zeros (-point).toNat ++ digits)

/-- A decimal with one digit in front of the point, and an exponent. -/
def exponentText (l : Layout) (digits : List Char) (point : Int) : String :=
  let fraction := digits.drop 1
  String.ofList (digits.take 1 ++ if fraction = [] then [] else '.' :: fraction) ++ "e" ++
    (if point < 1 then "-" else l.plusSign) ++ toString (point - 1).natAbs

/-- A decimal. -/
def decimalText (l : Layout) (d : Decimal) : String :=
  if d.digits = 0 then "0" ++ l.wholeTail else
    let digits := Nat.toDigits 10 d.digits
    let point := d.power + digits.length
    if l.positional point then l.positionalText digits point else l.exponentText digits point

/-- A floating-point number, by the shortest decimal that stands for it. -/
def render (l : Layout) (f : Float) : String :=
  match Binary64.ofFloat f with
  | .nan => l.nan
  | .infinite negative => if negative ∧ l.infinity ≠ "null" then "-" ++ l.infinity else l.infinity
  | .finite negative significand power =>
    (if negative then "-" else "") ++ l.decimalText (Decimal.shortest l.tie significand power)

end Layout

end CrashSearch
