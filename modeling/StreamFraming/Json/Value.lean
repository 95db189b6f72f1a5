import StreamFraming.Json.Token

/-!
# JSON values

What a JSON text denotes, as a tree. The module `StreamFraming.Json.Layout` says which texts denote
which value.
-/

namespace StreamFraming.Json

/-- A JSON value. Numbers and strings are what their tokens keep of them; the members of an
object keep their order and may repeat a key. -/
inductive Value where
  | null
  | bool (b : Bool)
  | number (value : Option Nat)
  | string (text : Option String)
  | array (items : List Value)
  | object (members : List (Option String × Value))
deriving Inhabited

end StreamFraming.Json
