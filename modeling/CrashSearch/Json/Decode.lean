import CrashSearch.Error
import CrashSearch.Json.Number
import CrashSearch.Json.Printer

/-!
# Reading values from documents

Values are taken from a document in the order in which they are written, so of several faults
the first one is reported. A record is an object, or an array of its fields in order; members
with other names are passed over.

## Main definitions

* `Json.asText`, `Json.asWord`, `Json.asList`, …: values of the basic kinds.
* `Json.fields`: the members of a record; `Fields.required` and `Fields.optional` take one.
* `Json.readable`: every part of the document could be read.
-/

namespace CrashSearch.Json

/-- The result of reading a value. -/
abbrev Read (α : Type) := Except ReadError α

/-- A text. -/
def asText : Json → Read String
  | .string spelling =>
    match Quoted.decode spelling with
    | some s => .ok s
    | none => .error .form
  | _ => .error .form

def asBool : Json → Read Bool
  | .bool b => .ok b
  | _ => .error .form

/-- The whole number that a spelling stands for. -/
def wholeNumber? (spelling : Spelling) : Option Int :=
  NumberLiteral.ofSpelling? spelling >>= NumberLiteral.int?

/-- A whole number in a range. -/
def asInt (inRange : Int → Bool) : Json → Read Int
  | .number spelling =>
    match wholeNumber? spelling with
    | some n => if inRange n then .ok n else .error .form
    | none => .error .form
  | _ => .error .form

/-- A natural number below a bound. -/
def asNat (bound : Nat) (j : Json) : Read Nat :=
  Int.toNat <$> asInt (fun n => 0 ≤ n ∧ n < bound) j

/-- A natural number of 32 bits. -/
def asWord32 (j : Json) : Read UInt32 := UInt32.ofNat <$> asNat UInt32.size j

/-- A natural number of 64 bits. -/
def asWord64 (j : Json) : Read UInt64 := UInt64.ofNat <$> asNat UInt64.size j

/-- A signed number of 32 bits. -/
def asInt32 (j : Json) : Read Int32 :=
  Int32.ofInt <$> asInt (fun n => Int32.minValue.toInt ≤ n ∧ n ≤ Int32.maxValue.toInt) j

/-- A floating-point number. -/
def asFloat : Json → Read Float
  | .number spelling =>
    match NumberLiteral.ofSpelling? spelling >>= NumberLiteral.float? with
    | some f => .ok f
    | none => .error .form
  | _ => .error .form

/-- Reads the parts of a list one after the other. -/
def readAll {α β : Type} (read : α → Read β) : List α → Read (List β)
  | [] => .ok []
  | a :: rest => do
    let b ← read a
    let more ← readAll read rest
    return b :: more

/-- An array of values. -/
def asList {α : Type} (read : Json → Read α) : Json → Read (List α)
  | .array items => readAll read items
  | _ => .error .form

/-- An array of two values. -/
def asPair {α : Type} (read : Json → Read α) : Json → Read (α × α)
  | .array [a, b] => do
    let x ← read a
    let y ← read b
    return (x, y)
  | _ => .error .form

/-- A value or nothing. -/
def asOption {α : Type} (read : Json → Read α) : Json → Read (Option α)
  | .null => .ok none
  | j => some <$> read j

/-- An object whose names are natural numbers below a bound; all entries in order. -/
def asNumbered {α : Type} (bound : Nat) (read : Json → Read α) : Json → Read (List (Nat × α))
  | .object members =>
    readAll (fun (name, value) => do
      let key ← asNat bound (.number name)
      let x ← read value
      return (key, x)) members
  | _ => .error .form

/-- The members of an object that have one of the `names`, each of which may occur once. -/
def readMembers {α : Type} (names : List String) (read : String → Json → Read α)
    (seen : List String) : List (Spelling × Json) → Read (List (String × α))
  | [] => .ok []
  | (spelling, value) :: rest =>
    match Quoted.decode spelling with
    | none => .error .form
    | some name =>
      if name ∈ names then
        if name ∈ seen then .error .form
        else do
          let a ← read name value
          let more ← readMembers names read (name :: seen) rest
          return (name, a) :: more
      else if value.whole then readMembers names read seen rest
      else .error .form

/-- Reads the members of a record in the order they are written. -/
def readFields {α : Type} (names : List String) (read : String → Json → Read α) :
    Json → Read (List (String × α))
  | .object members => readMembers names read [] members
  | .array items => do
    let found ← readAll (fun (name, value) => return (name, ← read name value)) (names.zip items)
    if items.length ≤ names.length then return found else .error .form
  | _ => .error .form

/-- The named members of a record. -/
abbrev Fields := List (String × Json)

/-- The members of a record with the given `names`. -/
def fields (names : List String) (j : Json) : Read Fields :=
  readFields names (fun _ value => .ok value) j

/-- A member that must be there. -/
def Fields.required {α : Type} (fs : Fields) (name : String) (read : Json → Read α) : Read α :=
  match fs.lookup name with
  | some j => read j
  | none => .error .form

/-- A member that may be missing. -/
def Fields.optional {α : Type} (fs : Fields) (name : String) (read : Json → Read α)
    (absent : α) : Read α :=
  match fs.lookup name with
  | some j => read j
  | none => .ok absent

/-- Whether the number that a spelling stands for is in range. -/
def inRange (spelling : Spelling) : Bool :=
  (NumberLiteral.ofSpelling? spelling >>= NumberLiteral.float?).isSome

mutual

/-- Every part of the document could be read. -/
def readable : Json → Bool
  | .number spelling => inRange spelling
  | .string spelling => (Quoted.decode spelling).isSome
  | .array items => readableItems items
  | .object members => readableMembers members
  | .buried | .broken => false
  | .null | .bool _ => true

def readableItems : List Json → Bool
  | [] => true
  | j :: rest => readable j && readableItems rest

def readableMembers : List (Spelling × Json) → Bool
  | [] => true
  | (name, j) :: rest => (Quoted.decode name).isSome && readable j && readableMembers rest

end

end CrashSearch.Json
