import PatchLedger.Json
import PatchLedger.Json.Document

/-!
Reading a whole text into a value. At most 127 brackets may be open at once, the
numbers must be in range and the strings must spell texts.
-/

namespace PatchLedger.Json

def nestLimit : Nat := 127

def Number.toJson : Number → Json
  | .int n => .int n
  | .double f => .double f

mutual

/-- The value of a tree in which at most `room` brackets are open at once. -/
def ofDocument? (room : Nat) : Document → Option Json
  | .null => some .null
  | .bool b => some (.bool b)
  | .number n => n.number?.map Number.toJson
  | .string pieces => (StringBody.text? pieces).map .text
  | .array items closed =>
      match room, closed with
      | room + 1, true => (itemsOf? room items).map .array
      | _, _ => none
  | .object members closed =>
      match room, closed with
      | room + 1, true => (membersOf? room members).map .object
      | _, _ => none
  | .broken => none

def itemsOf? (room : Nat) : List Document → Option (List Json)
  | [] => some []
  | item :: rest => do
      let item ← ofDocument? room item
      let rest ← itemsOf? room rest
      some (item :: rest)

def membersOf? (room : Nat) : List (Document × Document) → Option (List (String × Json))
  | [] => some []
  | (.string pieces, value) :: rest => do
      let name ← StringBody.text? pieces
      let value ← ofDocument? room value
      let rest ← membersOf? room rest
      some ((name, value) :: rest)
  | _ :: _ => none

end

/-- The value of a text; only white space may follow it. -/
def parse? (s : Bytes) : Option Json :=
  let (document, rest) := Document.read s
  if rest.all Document.isBlank then ofDocument? nestLimit document else none

end PatchLedger.Json
