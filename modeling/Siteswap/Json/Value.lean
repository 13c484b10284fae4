/-
JSON documents. Whole numbers are exact and apart from floats; the
fields of an object keep their order, and no name occurs twice in an
object that was read.
-/
import Siteswap.Entries
import Siteswap.Json.Points

namespace Siteswap.Json

/-- A JSON document. -/
inductive Value where
  | null
  | bool (b : Bool)
  | int (n : Int)
  | float (x : Float)
  | text (s : Points)
  | array (items : List Value)
  | object (fields : List (Points × Value))
  deriving BEq, Inhabited

namespace Value

/-- The field `name` of an object. -/
def field? (name : String) : Value → Option Value
  | object fields => Entries.get? (.ofString name) fields
  | _ => none

end Value

end Siteswap.Json
