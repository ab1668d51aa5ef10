import PatchLedger.Ascending
import PatchLedger.Bytes

/-!
JSON values. An object keeps its members as they are written; `Json.members`
is how it is looked at: each name once, with its last value, in ascending order
of the names.
-/

namespace PatchLedger

inductive Json where
  | null
  | bool (b : Bool)
  | int (n : Int)
  | double (f : Float)
  | text (s : String)
  | array (items : List Json)
  | object (members : List (String × Json))

namespace Json

instance : Inhabited Json := ⟨.null⟩

/-- Each member name once, with its last value, in ascending order. -/
def members (written : List (String × Json)) : List (String × Json) := Ascending.ofList written

def ordered (written : List (String × Json)) : Json := .object (members written)

end Json

end PatchLedger
