import CrashSearch.Json.Basic

/-!
# Quoted text

Text inside quotes: the quote, the backslash and the control characters are escaped, everything
else stands for itself. An escape by number names a UTF-16 unit, so a character beyond the basic
plane takes two of them.

## Main definitions

* `Quoted.encode`: the spelling of a text.
* `Quoted.decode`: the text that a spelling stands for.

## Main statements

* `Quoted.decode_encode`: a text is read back from its spelling.
-/

namespace CrashSearch.Quoted

/-- The digit of a number below sixteen. -/
def hexDigit (n : Nat) : Char := Nat.digitChar n

/-- The number that a hexadecimal digit stands for, in either case. -/
def hexValue? (c : Char) : Option Nat :=
  if '0' ≤ c ∧ c ≤ '9' then some (c.toNat - '0'.toNat)
  else if 'a' ≤ c ∧ c ≤ 'f' then some (c.toNat - 'a'.toNat + 10)
  else if 'A' ≤ c ∧ c ≤ 'F' then some (c.toNat - 'A'.toNat + 10)
  else none

/-- How a character is spelled. -/
def escape (c : Char) : Spelling :=
  if c = '"' then ['\\', '"']
  else if c = '\\' then ['\\', '\\']
  else if c = '\x08' then ['\\', 'b']
  else if c = '\t' then ['\\', 't']
  else if c = '\n' then ['\\', 'n']
  else if c = '\x0c' then ['\\', 'f']
  else if c = '\r' then ['\\', 'r']
  else if c.toNat < 0x20 then
    ['\\', 'u', '0', '0', hexDigit (c.toNat / 16), hexDigit (c.toNat % 16)]
  else [c]

/-- The spelling of a text. -/
def encode (s : String) : Spelling := s.toList.flatMap escape

/-- One step of a spelling: a character, or a UTF-16 unit given by its number. -/
inductive Piece where
  | char (c : Char)
  | unit (value : Nat)

/-- The character of a one-letter escape. -/
def letter? : Char → Option Char
  | '"' => some '"'
  | '\\' => some '\\'
  | '/' => some '/'
  | 'b' => some '\x08'
  | 'f' => some '\x0c'
  | 'n' => some '\n'
  | 'r' => some '\r'
  | 't' => some '\t'
  | _ => none

/-- The number of four hexadecimal digits. -/
def unit? (a b c d : Char) : Option Nat := do
  return (((← hexValue? a) * 16 + (← hexValue? b)) * 16 + (← hexValue? c)) * 16 + (← hexValue? d)

/-- The steps of a spelling, after those that were already `read`, last one first. -/
def pieces (read : List Piece) : Spelling → Option (List Piece)
  | [] => some read.reverse
  | '\\' :: 'u' :: a :: b :: c :: d :: rest =>
    match unit? a b c d with
    | some n => pieces (.unit n :: read) rest
    | none => none
  | '\\' :: c :: rest =>
    match letter? c with
    | some l => pieces (.char l :: read) rest
    | none => none
  | c :: rest => pieces (.char c :: read) rest

/-- Pairs up the units: a high surrogate needs a low one behind it, and none stands alone. -/
def join (read : List Char) : List Piece → Option (List Char)
  | [] => some read.reverse
  | .char c :: rest => join (c :: read) rest
  | .unit high :: .unit low :: rest =>
    if 0xd800 ≤ high ∧ high < 0xdc00 then
      if 0xdc00 ≤ low ∧ low < 0xe000 then
        join (Char.ofNat (0x10000 + (high - 0xd800) * 0x400 + (low - 0xdc00)) :: read) rest
      else none
    else if 0xdc00 ≤ high ∧ high < 0xe000 then none
    else join (Char.ofNat high :: read) (.unit low :: rest)
  | .unit n :: rest =>
    if 0xd800 ≤ n ∧ n < 0xe000 then none else join (Char.ofNat n :: read) rest

/-- The text that a spelling stands for. -/
def decode (s : Spelling) : Option String := do
  return String.ofList (← join [] (← pieces [] s))

/-- How the spelling of a character is read: control characters that have no letter come as
units. -/
def piece (c : Char) : Piece :=
  if c.toNat < 0x20 ∧ c ∉ ['\x08', '\t', '\n', '\x0c', '\r'] then .unit c.toNat else .char c

theorem unit?_hexDigits {n : Nat} (h : n < 0x20) :
    unit? '0' '0' (hexDigit (n / 16)) (hexDigit (n % 16)) = some n := by
  have : ∀ n < 0x20, unit? '0' '0' (hexDigit (n / 16)) (hexDigit (n % 16)) = some n := by decide
  exact this n h

theorem pieces_letter {read : List Piece} {c l : Char} {rest : Spelling} (hu : c ≠ 'u')
    (hl : letter? c = some l) :
    pieces read ('\\' :: c :: rest) = pieces (.char l :: read) rest := by
  rw [pieces]
  · simp [hl]
  · exact fun a b d e r h => absurd h hu

theorem pieces_plain {read : List Piece} {c : Char} {rest : Spelling} (hc : c ≠ '\\') :
    pieces read (c :: rest) = pieces (.char c :: read) rest := by
  rw [pieces]
  · rintro a b d e r h
    exact absurd h hc
  · rintro a r h
    exact absurd h hc

theorem pieces_escape {read : List Piece} {c : Char} {rest : Spelling} :
    pieces read (escape c ++ rest) = pieces (piece c :: read) rest := by
  unfold escape
  split
  · rename_i h; subst h; exact pieces_letter (by decide) rfl
  split
  · rename_i h; subst h; exact pieces_letter (by decide) rfl
  split
  · rename_i h; subst h; exact pieces_letter (by decide) rfl
  split
  · rename_i h; subst h; exact pieces_letter (by decide) rfl
  split
  · rename_i h; subst h; exact pieces_letter (by decide) rfl
  split
  · rename_i h; subst h; exact pieces_letter (by decide) rfl
  split
  · rename_i h; subst h; exact pieces_letter (by decide) rfl
  split
  · rename_i h
    have hp : piece c = .unit c.toNat := by simp [piece, *]
    rw [hp]
    simp [pieces, unit?_hexDigits h]
  · rename_i hb _ _ _ _ _ h
    have hp : piece c = .char c := by simp [piece, h]
    rw [hp]
    exact pieces_plain hb

theorem pieces_encode {cs : List Char} {read : List Piece} :
    pieces read (cs.flatMap escape) = some (read.reverse ++ cs.map piece) := by
  induction cs generalizing read with
  | nil => simp [pieces]
  | cons c cs ih => simp [pieces_escape, ih]

theorem join_unit {n : Nat} {read : List Char} {rest : List Piece} (h : n < 0xd800) :
    join read (.unit n :: rest) = join (Char.ofNat n :: read) rest := by
  have : ¬ 0xd800 ≤ n := by omega
  have : ¬ 0xdc00 ≤ n := by omega
  cases rest with
  | nil => simp [join, *]
  | cons p rest => cases p <;> simp [join, *]

theorem join_pieces {cs read : List Char} :
    join read (cs.map piece) = some (read.reverse ++ cs) := by
  induction cs generalizing read with
  | nil => simp [join]
  | cons c cs ih =>
    have step : join read (piece c :: cs.map piece) = join (c :: read) (cs.map piece) := by
      unfold piece
      split
      · rename_i h
        rw [join_unit (by omega), Char.ofNat_toNat]
      · rfl
    simp [step, ih]

/-- A text is read back from its spelling. -/
theorem decode_encode (s : String) : decode (encode s) = some s := by
  simp [decode, encode, pieces_encode, join_pieces]

end CrashSearch.Quoted
