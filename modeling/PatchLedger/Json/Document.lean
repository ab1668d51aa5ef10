import PatchLedger.Json.Numeral
import PatchLedger.Json.StringBody

/-!
The syntax of a JSON text, as far as the text is well formed: a tree that ends
in `broken` or in an unclosed bracket where the syntax fails. Reading a type out
of the tree in the order of the text meets each fault where it stands, so the
first fault of the text decides.
-/

namespace PatchLedger.Json

/-- A syntax tree. The name of a member is any tree, as only a look at it tells that it is a string;
a member without a colon has a broken value. -/
inductive Document where
  | null
  | bool (b : Bool)
  | number (n : Numeral)
  | string (pieces : List Piece)
  | array (items : List Document) (closed : Bool)
  | object (members : List (Document × Document)) (closed : Bool)
  | broken

namespace Document

instance : Inhabited Document := ⟨.broken⟩

def isBlank (b : UInt8) : Bool := b = 0x20 || b = 0x09 || b = 0x0A || b = 0x0D

def skipBlank (s : Bytes) : Bytes := s.dropWhile isBlank

def isString : Document → Bool
  | .string _ => true
  | _ => false

def literal (rest expected : Bytes) (found : Document) : Document × Bytes :=
  if expected.isPrefixOf rest then (found, rest.drop expected.length) else (.broken, [])

mutual

/-- The value that the bytes begin with, after white space, and the rest after it. Nothing is left
after a fault. The fuel bounds the steps: two for each byte are enough. -/
def value : (fuel : Nat) → Bytes → Document × Bytes
  | 0, _ => (.broken, [])
  | fuel + 1, s =>
      match skipBlank s with
      | [] => (.broken, [])
      | b :: rest =>
          if b = 0x22 then
            match StringBody.read? rest with
            | some (pieces, rest) => (.string pieces, rest)
            | none => (.broken, [])
          else if b = 0x5B then
            match skipBlank rest with
            | 0x5D :: rest => (.array [] true, rest)
            | rest =>
                let (items, closed, rest) := items fuel rest
                (.array items closed, rest)
          else if b = 0x7B then
            match skipBlank rest with
            | 0x7D :: rest => (.object [] true, rest)
            | rest =>
                let (members, closed, rest) := members fuel rest
                (.object members closed, rest)
          else if b = 0x6E then literal rest [0x75, 0x6C, 0x6C] .null
          else if b = 0x74 then literal rest [0x72, 0x75, 0x65] (.bool true)
          else if b = 0x66 then literal rest [0x61, 0x6C, 0x73, 0x65] (.bool false)
          else
            match Numeral.read? (b :: rest) with
            | some (n, rest) => (.number n, rest)
            | none => (.broken, [])

def items : (fuel : Nat) → Bytes → List Document × Bool × Bytes
  | 0, _ => ([], false, [])
  | fuel + 1, s =>
      let (item, s) := value fuel s
      match skipBlank s with
      | 0x5D :: rest => ([item], true, rest)
      | 0x2C :: rest =>
          let (items, closed, rest) := items fuel rest
          (item :: items, closed, rest)
      | _ => ([item], false, [])

def members : (fuel : Nat) → Bytes → List (Document × Document) × Bool × Bytes
  | 0, _ => ([], false, [])
  | fuel + 1, s =>
      let (name, s) := value fuel s
      match name.isString, skipBlank s with
      | true, 0x3A :: rest =>
          let (value, s) := value fuel rest
          match skipBlank s with
          | 0x7D :: rest => ([(name, value)], true, rest)
          | 0x2C :: rest =>
              let (members, closed, rest) := members fuel rest
              ((name, value) :: members, closed, rest)
          | _ => ([(name, value)], false, [])
      | _, _ => ([(name, .broken)], false, [])

end

def read (s : Bytes) : Document × Bytes := value (2 * s.length + 1) s

mutual

def isWhole : Document → Bool
  | .array items closed => closed && allWhole items
  | .object members closed => closed && allMembersWhole members
  | .broken => false
  | _ => true

def allWhole : List Document → Bool
  | [] => true
  | item :: rest => item.isWhole && allWhole rest

def allMembersWhole : List (Document × Document) → Bool
  | [] => true
  | (name, value) :: rest => name.isString && value.isWhole && allMembersWhole rest

end

end Document

end PatchLedger.Json
