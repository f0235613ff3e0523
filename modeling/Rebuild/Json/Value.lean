import Rebuild.Decimal.Shortest

/-!
# JSON values

Values of the JSON data model as they are written: numbers are whole numbers or finite floating
point numbers, and the members of an object stand in the order in which they are written.
-/
namespace Rebuild

/-- A JSON value. -/
inductive Json where
  | null
  | bool (b : Bool)
  | integer (n : Int)
  | float (x : FiniteFloat)
  | string (s : String)
  | array (items : List Json)
  | object (members : List (String × Json))
  deriving Repr

namespace Json

/-- A list of texts. -/
def strings (l : List String) : Json := .array (l.map .string)

end Json

end Rebuild
