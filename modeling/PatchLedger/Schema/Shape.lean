import PatchLedger.Instant.Reader
import PatchLedger.Json.Reader
import PatchLedger.Schema.Misfit

/-!
Shapes: how a type is read from JSON, once from a finished value and once from
the syntax tree of a text, where the order of the text decides which fault is
found. Scalars, optional values and choices among names; records are built on
them in `Schema.Record`.
-/

namespace PatchLedger

def Json.found : Json → Schema.Found
  | null => .null
  | bool b => .bool b
  | int n => .int n
  | double f => .double f
  | text s => .text s
  | array _ => .sequence
  | object _ => .map

def Json.Number.found : Json.Number → Schema.Found
  | int n => .int n
  | double f => .double f

def Json.Document.text : Json.Document → Except Schema.Misfit String
  | string pieces =>
      match StringBody.text? pieces with
      | some s => .ok s
      | none => .error .malformed
  | _ => .error .malformed

/-- What kind of value the tree begins with, without a look into arrays and objects. -/
def Json.Document.found : Json.Document → Except Schema.Misfit Schema.Found
  | null => .ok .null
  | bool b => .ok (.bool b)
  | number n =>
      match n.number? with
      | some result => .ok result.found
      | none => .error .malformed
  | string pieces => (text (string pieces)).map .text
  | array _ _ => .ok .sequence
  | object _ _ => .ok .map
  | broken => .error .malformed

namespace Schema

structure Shape (α : Type) where
  ofJson : Json → Except Misfit α
  ofDocument : Json.Document → Except Misfit α

namespace Shape

variable {α : Type}

/-- Reads a text from its syntax tree; only white space may follow the value. -/
def ofText (shape : Shape α) (s : Bytes) : Except Misfit α := do
  let (document, rest) := Json.Document.read s
  let a ← shape.ofDocument document
  if rest.all Json.Document.isBlank then .ok a else .error .malformed

def ofTextValue (shape : Shape α) (s : Bytes) : Except Misfit α :=
  match Json.parse? s with
  | some json => shape.ofJson json
  | none => .error .malformed

def scalar (read : Found → Except Misfit α) : Shape α where
  ofJson json := read json.found
  ofDocument document := document.found >>= read

def text : Shape String := scalar fun
  | .text s => .ok s
  | found => .error (.wrongType found "a string")

def boolean : Shape Bool := scalar fun
  | .bool b => .ok b
  | found => .error (.wrongType found "a boolean")

def integer (title : String) (low high : Int) (ofInt : Int → α) : Shape α := scalar fun
  | .int n => if low ≤ n ∧ n ≤ high then .ok (ofInt n) else .error (.outOfRange n title)
  | found => .error (.wrongType found title)

def int64 : Shape Int64 := integer "i64" Int64.minValue.toInt Int64.maxValue.toInt Int64.ofInt

def uint64 (title : String) : Shape UInt64 :=
  integer title 0 (UInt64.size - 1) fun n => UInt64.ofNat n.toNat

def uint32 : Shape UInt32 := integer "u32" 0 (UInt32.size - 1) fun n => UInt32.ofNat n.toNat

def instant : Shape Instant := scalar fun
  | .text s =>
      match Instant.ofText? s with
      | some t => .ok t
      | none => .error .badDate
  | found => .error (.wrongType found "an RFC 3339 formatted date and time string")

def any : Shape Json where
  ofJson json := .ok json
  ofDocument document :=
    match Json.ofDocument? Json.nestLimit document with
    | some json => .ok json
    | none => .error .malformed

/-- Null is no value. -/
def optional (shape : Shape α) : Shape (Option α) where
  ofJson
    | .null => .ok none
    | json => (shape.ofJson json).map some
  ofDocument
    | .null => .ok none
    | document => (shape.ofDocument document).map some

def variant (variants : List (String × α)) (name : String) : Except Misfit α :=
  match variants.lookup name with
  | some a => .ok a
  | none => .error (.unknownVariant name (variants.map (·.1)))

def unit : Shape Unit := scalar fun
  | .null => .ok ()
  | found => .error (.wrongType found "unit")

/-- A choice among names: a name as a string, or as the only member of an object, with null. -/
def choice (variants : List (String × α)) : Shape α where
  ofJson
    | .text name => variant variants name
    | .object written =>
        match Json.members written with
        | [(name, content)] => do
            let a ← variant variants name
            unit.ofJson content
            .ok a
        | _ => .error .notOneMember
    | json => .error (.wrongType json.found "string or map")
  ofDocument
    | .object ((name, content) :: others) closed => do
        let a ← variant variants (← name.text)
        unit.ofDocument content
        if closed ∧ others.isEmpty then .ok a else .error .malformed
    | document => do variant variants (← document.text)

end Shape

end Schema

end PatchLedger
