import CrashSearch.Json.Number
import CrashSearch.Json.Quoted

/-!
# Tokens of a document

A text is cut into tokens by one pass over its characters. A text in quotes is checked for the
form of its escapes only; a token that can be nothing is a `fault`.

## Main definitions

* `Token`: brackets, separators and leaves.
* `Token.ofText`: the tokens of a text, in order.
-/

namespace CrashSearch

/-- What a document is written with. -/
inductive Token where
  | openArray
  | closeArray
  | openObject
  | closeObject
  | colon
  | comma
  | leaf (value : Json)
  /-- Here the text is no JSON. -/
  | fault

namespace Token

/-- A bare word: a number, or one of the three names. -/
def ofWord (word : List Char) : Token :=
  if word = ['n', 'u', 'l', 'l'] then .leaf .null
  else if word = ['t', 'r', 'u', 'e'] then .leaf (.bool true)
  else if word = ['f', 'a', 'l', 's', 'e'] then .leaf (.bool false)
  else if (NumberLiteral.ofSpelling? word).isSome then .leaf (.number word)
  else .fault

/-- Where in the text the pass is; what was read of an unfinished token, last character first. -/
inductive Place where
  | between
  | word (read : List Char)
  | quoted (read : List Char)
  /-- Behind the backslash of an escape. -/
  | escaped (read : List Char)
  /-- Inside an escape by number, with so many digits to come. -/
  | numbered (read : List Char) (left : Nat)

/-- The place of the pass, and the tokens found before it, last one first. -/
structure Pass where
  place : Place
  found : List Token

/-- The pass reads a character that stands outside of words and quotes. -/
def Pass.outside (found : List Token) (c : Char) : Pass :=
  match c with
  | '[' => ⟨.between, .openArray :: found⟩
  | ']' => ⟨.between, .closeArray :: found⟩
  | '\x7b' => ⟨.between, .openObject :: found⟩
  | '\x7d' => ⟨.between, .closeObject :: found⟩
  | ':' => ⟨.between, .colon :: found⟩
  | ',' => ⟨.between, .comma :: found⟩
  | '"' => ⟨.quoted [], found⟩
  | _ => if c = ' ' ∨ c = '\t' ∨ c = '\n' ∨ c = '\r' then ⟨.between, found⟩ else ⟨.word [c], found⟩

/-- Whether a character ends a bare word. -/
def isDelimiter (c : Char) : Bool := c ∈ " \t\n\r[]\x7b\x7d:,\"".toList

/-- The pass reads one character. -/
def Pass.step (s : Pass) (c : Char) : Pass :=
  match s.place with
  | .between => Pass.outside s.found c
  | .word read =>
    if isDelimiter c then Pass.outside (ofWord read.reverse :: s.found) c
    else { s with place := .word (c :: read) }
  | .quoted read =>
    if c = '"' then ⟨.between, .leaf (.string read.reverse) :: s.found⟩
    else if c = '\\' then { s with place := .escaped (c :: read) }
    else if c.toNat < 0x20 then ⟨.between, .fault :: s.found⟩
    else { s with place := .quoted (c :: read) }
  | .escaped read =>
    if c = 'u' then { s with place := .numbered (c :: read) 4 }
    else if (Quoted.letter? c).isSome then { s with place := .quoted (c :: read) }
    else ⟨.between, .fault :: s.found⟩
  | .numbered read left =>
    if (Quoted.hexValue? c).isSome then
      { s with place := if left ≤ 1 then .quoted (c :: read) else .numbered (c :: read) (left - 1) }
    else ⟨.between, .fault :: s.found⟩

/-- The tokens when the text ends here. -/
def Pass.finish (s : Pass) : List Token :=
  match s.place with
  | .between => s.found.reverse
  | .word read => (ofWord read.reverse :: s.found).reverse
  | _ => (.fault :: s.found).reverse

/-- The tokens of a text. -/
def ofText (text : String) : List Token :=
  (text.toList.foldl Pass.step ⟨.between, []⟩).finish

end Token

end CrashSearch
