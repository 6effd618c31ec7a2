/-!
JSON values, as far as the readers of this library tell them apart.
-/

namespace TileWalk.Json

/-- A value. A text is missing where a string escapes half of a surrogate pair. -/
inductive Value
  | null
  | boolean (b : Bool)
  /-- An integer without sign, fraction and exponent. -/
  | natural (n : Nat)
  /-- Any other number. -/
  | number
  | string (text : Option String)
  | array (items : List Value)
  | object (members : List (Option String × Value))
deriving Inhabited

end TileWalk.Json
