import CrashSearch.Toml.Item
import CrashSearch.Toml.Text

/-!
# Numbers and moments in settings

## Main definitions

* `number`: an integer or a floating-point number.
* `moment`: a date, a time, or both.
-/

namespace CrashSearch.Toml

/-- A digit of a base up to sixteen. -/
def isDigitOf (base : Nat) (c : Char) : Bool :=
  match Quoted.hexValue? c with
  | some n => n < base
  | none => false

/-- Digits of a base; single underscores may stand between them. -/
def digitsRest (base : Nat) : List Char → Option (List Char × List Char)
  | '_' :: c :: rest =>
    if isDigitOf base c then (digitsRest base rest).map fun (ds, r) => (c :: ds, r) else none
  | '_' :: [] => none
  | c :: rest =>
    if isDigitOf base c then (digitsRest base rest).map fun (ds, r) => (c :: ds, r)
    else some ([], c :: rest)
  | [] => some ([], [])

/-- One digit or more. -/
def digits (base : Nat) : Parser (List Char) := fun cs =>
  match cs with
  | c :: rest =>
    if isDigitOf base c then (digitsRest base rest).map fun (ds, r) => (c :: ds, r) else none
  | [] => none

/-- Decimal digits before a point; a zero stands alone. -/
def wholeDigits : Parser (List Char) := do
  if ← accept ['0'] then return ['0'] else digits 10

/-- A sign, if there is one; `true` is minus. -/
def sign : Parser Bool := do
  if ← accept ['-'] then return true
  let _ ← accept ['+']
  return false

/-- The number that digits of a base stand for. -/
def valueOf (base : Nat) (ds : List Char) : Nat :=
  ds.foldl (fun n c => base * n + (Quoted.hexValue? c).getD 0) 0

/-- An integer has to fit 64 bits with a sign. -/
def integerItem (n : Int) : Parser Item :=
  if Int64.minValue.toInt ≤ n ∧ n ≤ Int64.maxValue.toInt then return .integer n else failure

/-- The floating-point number nearest to `significand * 10 ^ power`. -/
def nearest (significand : Nat) (power : Int) : Float :=
  let size := (Nat.toDigits 10 significand).length + power
  if significand = 0 ∨ size < -400 then 0.0
  else if 400 < size then 1.0 / 0.0
  else Float.ofScientific significand (power < 0) power.natAbs

/-- The exponent of a number, if it has one. -/
def exponent? : Parser (Option Int) := do
  if ← acceptOne fun c => c = 'e' ∨ c = 'E' then
    let negative ← sign
    let n := valueOf 10 (← digits 10)
    return some (if negative then -n else n)
  else return none

/-- A number with a sign in decimal digits. What is too great is refused; what is too small in
the negative is minus infinity. -/
def decimal (negative : Bool) : Parser Item := do
  let whole ← wholeDigits
  let fraction ← if ← accept ['.'] then some <$> digits 10 else pure none
  let exponent ← exponent?
  match fraction, exponent with
  | none, none =>
    let n : Int := valueOf 10 whole
    integerItem (if negative then -n else n)
  | _, _ =>
    let places := fraction.getD []
    let f := nearest (valueOf 10 (whole ++ places)) (exponent.getD 0 - places.length)
    if f.isInf ∧ negative = false then failure
    else return .float (if negative then -f else f)

/-- Infinity or what is no number. -/
def special? (negative : Bool) : Parser (Option Item) := do
  if ← accept ['i', 'n', 'f'] then
    return some (.float (if negative then -1.0 / 0.0 else 1.0 / 0.0))
  else if ← accept ['n', 'a', 'n'] then return some (.float (0.0 / 0.0))
  else return none

/-- An integer or a floating-point number. An integer may be written in another base, then without
a sign. -/
def number : Parser Item := do
  if ← accept ['0', 'x'] then integerItem (valueOf 16 (← digits 16))
  else if ← accept ['0', 'o'] then integerItem (valueOf 8 (← digits 8))
  else if ← accept ['0', 'b'] then integerItem (valueOf 2 (← digits 2))
  else
    let negative ← sign
    match ← special? negative with
    | some item => return item
    | none => decimal negative

/-- So many digits, as a number in a range. -/
def fixed (count low high : Nat) : Parser Nat := do
  let ds := (← get).take count
  if ds.length = count ∧ ds.all Char.isDigit then
    set ((← get).drop count)
    let n := Nat.ofDigitChars 10 ds 0
    if low ≤ n ∧ n ≤ high then return n else failure
  else failure

/-- How many days a month has. -/
def daysOf (year month : Nat) : Nat :=
  if month = 2 then
    if year % 4 = 0 ∧ (year % 100 ≠ 0 ∨ year % 400 = 0) then 29 else 28
  else if month ∈ [4, 6, 9, 11] then 30
  else 31

/-- A day. -/
def date : Parser Unit := do
  let year ← fixed 4 0 9999
  expect ['-']
  let month ← fixed 2 1 12
  expect ['-']
  let _ ← fixed 2 1 (daysOf year month)

/-- A time of the day; a minute may have a leap second. -/
def time : Parser Unit := do
  let _ ← fixed 2 0 23
  expect [':']
  let _ ← fixed 2 0 59
  expect [':']
  let _ ← fixed 2 0 60
  if ← accept ['.'] then
    let fraction ← takeWhile Char.isDigit
    if fraction = [] then failure

/-- The distance from universal time, if it is given. -/
def offset : Parser Unit := do
  if ← acceptOne fun c => c = 'Z' ∨ c = 'z' then return
  if ← acceptOne fun c => c = '+' ∨ c = '-' then
    let _ ← fixed 2 0 23
    expect [':']
    let _ ← fixed 2 0 59

/-- A time with its offset behind a day, if there is one. -/
def timeOfDay : Parser Unit := fun cs =>
  match cs with
  | c :: rest =>
    if c = 'T' ∨ c = 't' ∨ c = ' ' then
      match (do time; offset : Parser Unit) rest with
      | some r => some r
      | none => some ((), cs)
    else some ((), cs)
  | [] => some ((), [])

/-- A day, a day with a time, or a time. -/
def moment : Parser Item := (do date; timeOfDay; return .moment) <|> (do time; return .moment)

end CrashSearch.Toml
