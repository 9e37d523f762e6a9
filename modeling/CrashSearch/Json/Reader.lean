import CrashSearch.Json.Token

/-!
# Reading documents

A document is read from its tokens by a machine that keeps the brackets it is in. Where the text
is no JSON the machine closes all open brackets behind a `Json.broken` leaf, so what was read
before the fault can still be looked at in the order it was written.

## Main definitions

* `Json.ofTokens`: the document, and whether something follows it.
* `Json.ofText`: the document of a text.
-/

namespace CrashSearch.Json

/-- An open bracket with what was read inside it, last part first. -/
inductive Open where
  | array (items : List Json)
  | object (members : List (Spelling × Json)) (name : Spelling)

/-- What may come next. -/
inductive Expect where
  | value
  /-- The first item of an array or its end. -/
  | firstItem
  /-- The first name of an object or its end. -/
  | firstName
  | name
  | colon
  /-- A comma or the end of the innermost bracket. -/
  | next

/-- The state of the machine. -/
inductive Machine where
  | reading (expect : Expect) (stack : List Open)
  | done (document : Json) (followed : Bool)

namespace Machine

/-- How many brackets may lie inside one another. -/
def depthLimit : Nat := 127

/-- Puts a finished value into the innermost bracket. -/
def put (stack : List Open) (value : Json) : Machine :=
  match stack with
  | [] => .done value false
  | .array items :: rest => .reading .next (.array (value :: items) :: rest)
  | .object members name :: rest => .reading .next (.object ((name, value) :: members) [] :: rest)

/-- Puts a finished bracket into the one around it. -/
def close (rest : List Open) (value : Json) : Machine :=
  put rest (if (rest.drop (depthLimit - 1)).isEmpty then value else .buried)

/-- Closes all brackets around a value. -/
def closeAll : List Open → Json → Json
  | [], value => value
  | .array items :: rest, value => closeAll rest (.array (value :: items).reverse)
  | .object members name :: rest, value =>
    closeAll rest (.object ((name, value) :: members).reverse)

/-- The text is no JSON from here on. -/
def breakOff (stack : List Open) : Machine := .done (closeAll stack .broken) false

/-- A value begins. -/
def beginValue (stack : List Open) : Token → Machine
  | .openArray => .reading .firstItem (.array [] :: stack)
  | .openObject => .reading .firstName (.object [] [] :: stack)
  | .leaf value => put stack value
  | _ => breakOff stack

/-- The machine reads one token. -/
def step : Machine → Token → Machine
  | .done document _, _ => .done document true
  | .reading .value stack, t => beginValue stack t
  | .reading .firstItem (.array items :: rest), .closeArray => close rest (.array items.reverse)
  | .reading .firstItem stack, t => beginValue stack t
  | .reading .firstName (.object members _ :: rest), .closeObject =>
    close rest (.object members.reverse)
  | .reading .firstName (.object members _ :: rest), .leaf (.string name)
  | .reading .name (.object members _ :: rest), .leaf (.string name) =>
    .reading .colon (.object members name :: rest)
  | .reading .colon stack, .colon => .reading .value stack
  | .reading .next (.array items :: rest), .comma => .reading .value (.array items :: rest)
  | .reading .next (.array items :: rest), .closeArray => close rest (.array items.reverse)
  | .reading .next (.object members name :: rest), .comma =>
    .reading .name (.object members name :: rest)
  | .reading .next (.object members _ :: rest), .closeObject =>
    close rest (.object members.reverse)
  | .reading _ stack, _ => breakOff stack

/-- The document when the tokens end here, and whether something follows it. -/
def finish : Machine → Json × Bool
  | .done document followed => (document, followed)
  | .reading _ stack => (closeAll stack .broken, false)

end Machine

/-- The document that begins the tokens, and whether something follows it. -/
def ofTokens (tokens : List Token) : Json × Bool :=
  (tokens.foldl Machine.step (.reading .value [])).finish

/-- The document that begins a text, and whether something follows it. -/
def ofText (text : String) : Json × Bool := ofTokens (Token.ofText text)

end CrashSearch.Json
