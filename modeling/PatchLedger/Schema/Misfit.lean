import PatchLedger.Json
import PatchLedger.Json.Double
import PatchLedger.Json.Document
import PatchLedger.Text.Quoted

/-!
Why a JSON value does not fit a type. Each misfit that is the value's own has a
message; one of the text that holds it has none.
-/

namespace PatchLedger.Schema

inductive Found where
  | null
  | bool (b : Bool)
  | int (n : Int)
  | double (f : Float)
  | text (s : String)
  | sequence
  | map

def Found.describe : Found → String
  | null => "null"
  | bool b => "boolean `" ++ (if b then "true" else "false") ++ "`"
  | int n => "integer `" ++ String.ofList (Decimal.intChars n) ++ "`"
  | double f => "floating point `" ++ Json.Double.toText f ++ "`"
  | text s => "string " ++ Text.quoted s
  | sequence => "sequence"
  | map => "map"

inductive Misfit where
  | missingField (name : String)
  | duplicateField (name : String)
  | unknownVariant (name : String) (variants : List String)
  | wrongType (found : Found) (expected : String)
  | outOfRange (n : Int) (expected : String)
  | notOneMember
  | wrongLength (length : Nat) (expected : String)
  | malformed
  | badDate
  | unknownField
  | overlong

namespace Misfit

def inMarks (name : String) : String := "`" ++ name ++ "`"

def choices : List String → String
  | [] => "no variants"
  | [one] => inMarks one
  | [one, other] => inMarks one ++ " or " ++ inMarks other
  | names => "one of " ++ ", ".intercalate (names.map inMarks)

/-- The message of a misfit. Faults of the syntax, of a date, of a closed record's names and of a
duration's size have no message of their own. -/
def message? : Misfit → Option String
  | missingField name => some ("missing field " ++ inMarks name)
  | duplicateField name => some ("duplicate field " ++ inMarks name)
  | unknownVariant name variants =>
      some ("unknown variant " ++ inMarks name ++ ", expected " ++ choices variants)
  | wrongType found expected =>
      some ("invalid type: " ++ found.describe ++ ", expected " ++ expected)
  | outOfRange n expected =>
      some ("invalid value: integer " ++ inMarks (String.ofList (Decimal.intChars n)) ++
        ", expected " ++ expected)
  | notOneMember => some "invalid value: map, expected map with a single key"
  | wrongLength length expected =>
      some ("invalid length " ++ String.ofList (Decimal.chars (Decimal.digits length)) ++
        ", expected " ++ expected)
  | malformed | badDate | unknownField | overlong => none

end Misfit

end PatchLedger.Schema
