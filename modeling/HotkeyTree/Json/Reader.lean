import HotkeyTree.Json.Token

/-!
# Reading JSON

A value is built from the tokens of a text in one pass, with a stack of the arrays and objects that
are still open; nesting is not limited. The text holds exactly one value. Of a text that does not,
the reader keeps what comes before the place where it goes wrong.
-/

namespace HotkeyTree.Json

/-- An array or object that is still open. -/
inductive Frame where
  /-- An array, with its items so far, the last one first. -/
  | items (done : List Json)
  /-- An object, with its members so far, the last one first, and the name of the member that is
  being read. -/
  | member (done : List (Literal × Json)) (name : Literal)

/-- What the reader waits for, inside the open arrays and objects, innermost first. -/
inductive Reader where
  /-- A value. -/
  | value (stack : List Frame)
  /-- The first item of an array, or its end. -/
  | itemOrEnd (stack : List Frame)
  /-- The first name of an object, or its end. -/
  | nameOrEnd (stack : List Frame)
  /-- A further name of an object that has these members, the last one first. -/
  | name (done : List (Literal × Json)) (stack : List Frame)
  /-- The colon after a name. -/
  | colon (done : List (Literal × Json)) (name : Literal) (stack : List Frame)
  /-- What follows a complete value. -/
  | after (v : Json) (stack : List Frame)

namespace Reader

/-- Begins a value. -/
def start (stack : List Frame) : Token → Option Reader
  | .null => some (.after .null stack)
  | .bool b => some (.after (.bool b) stack)
  | .number n => some (.after (.number n) stack)
  | .string s => some (.after (.string s) stack)
  | .openArray => some (.itemOrEnd stack)
  | .openObject => some (.nameOrEnd stack)
  | _ => none

/-- Takes in one token, or fails if it cannot stand here. -/
def step : Reader → Token → Option Reader
  | .value stack, t => start stack t
  | .itemOrEnd stack, .closeArray => some (.after (.array []) stack)
  | .itemOrEnd stack, t => start (.items [] :: stack) t
  | .nameOrEnd stack, .closeObject => some (.after (.object []) stack)
  | .nameOrEnd stack, .string k => some (.colon [] k stack)
  | .name done stack, .string k => some (.colon done k stack)
  | .colon done k stack, .colon => some (.value (.member done k :: stack))
  | .after v (.items done :: stack), .comma => some (.value (.items (v :: done) :: stack))
  | .after v (.items done :: stack), .closeArray =>
    some (.after (.array (v :: done).reverse) stack)
  | .after v (.member done k :: stack), .comma => some (.name ((k, v) :: done) stack)
  | .after v (.member done k :: stack), .closeObject =>
    some (.after (.object ((k, v) :: done).reverse) stack)
  | _, _ => none

/-- Takes in tokens up to the first that cannot stand where it does. Tells too whether there is none
such. -/
def run : Reader → List Token → Reader × Bool
  | r, [] => (r, true)
  | r, t :: ts =>
    match step r t with
    | some r => run r ts
    | none => (r, false)

/-- The value read, if it is complete and nothing is open. -/
def finish : Reader → Option Json
  | .after v [] => some v
  | _ => none

/-- A value in the arrays and objects that are open around it, all of them closed after it. -/
def close : Json → List Frame → Json
  | v, [] => v
  | v, .items done :: stack => close (.array (v :: done).reverse) stack
  | v, .member done k :: stack => close (.object ((k, v) :: done).reverse) stack

/-- What stands for the part of a value that was not read: a string without text. -/
def gap : Json := .string none

/-- The value as far as it was read, with a gap after that unless it is complete. -/
def cutShort : Reader → Json
  | .value stack => close gap stack
  | .itemOrEnd stack => close (.array [gap]) stack
  | .nameOrEnd stack => close (.object [(none, gap)]) stack
  | .name done stack => close (.object ((none, gap) :: done).reverse) stack
  | .colon done k stack => close (.object ((k, gap) :: done).reverse) stack
  | .after v [] => v
  | .after v (.items done :: stack) => close (.array (gap :: v :: done).reverse) stack
  | .after v (.member done k :: stack) =>
    close (.object ((none, gap) :: (k, v) :: done).reverse) stack

end Reader

/-- The value that a text writes. Of a text that writes none, the error is the value that can be
read of it. -/
def parse (text : String) : Except Json Json :=
  let (ts, ended) := tokens text.toList
  let (r, taken) := Reader.run (.value []) ts
  match r.finish, ended && taken with
  | some v, true => .ok v
  | _, _ => .error r.cutShort

/-- The value that a text writes. -/
def parse? (text : String) : Option Json := (parse text).toOption

end HotkeyTree.Json
