import PatchLedger.Json
import PatchLedger.Json.Double

/-!
The compact text of a value. In strings only quotation marks, backslashes and
control bytes are escaped, the latter by a letter where JSON has one.
-/

namespace PatchLedger.Json

namespace Writer

def hexByte (d : UInt8) : UInt8 := if d < 10 then 0x30 + d else 0x57 + d

def escaped (b : UInt8) : Bytes :=
  if b = 0x22 ∨ b = 0x5C then [0x5C, b]
  else if 0x20 ≤ b then [b]
  else if b = 0x08 then [0x5C, 0x62]
  else if b = 0x09 then [0x5C, 0x74]
  else if b = 0x0A then [0x5C, 0x6E]
  else if b = 0x0C then [0x5C, 0x66]
  else if b = 0x0D then [0x5C, 0x72]
  else [0x5C, 0x75, 0x30, 0x30, hexByte (b / 16), hexByte (b % 16)]

def string (s : String) : Bytes := 0x22 :: (Bytes.ofText s).flatMap escaped ++ [0x22]

def digits (n : Nat) : Bytes := (Decimal.digits n).map fun d => 0x30 + UInt8.ofNat d

def int (n : Int) : Bytes := if n < 0 then 0x2D :: digits n.natAbs else digits n.natAbs

end Writer

mutual

/-- The text of a value in front of `rest`. -/
def writeOnto : Json → (rest : Bytes) → Bytes
  | .null, rest => 0x6E :: 0x75 :: 0x6C :: 0x6C :: rest
  | .bool true, rest => 0x74 :: 0x72 :: 0x75 :: 0x65 :: rest
  | .bool false, rest => 0x66 :: 0x61 :: 0x6C :: 0x73 :: 0x65 :: rest
  | .int n, rest => Writer.int n ++ rest
  | .double f, rest => Bytes.ofText (Double.toText f) ++ rest
  | .text s, rest => Writer.string s ++ rest
  | .array items, rest => 0x5B :: writeItemsOnto items (0x5D :: rest)
  | .object members, rest => 0x7B :: writeMembersOnto members (0x7D :: rest)

def writeItemsOnto : List Json → (rest : Bytes) → Bytes
  | [], rest => rest
  | [item], rest => writeOnto item rest
  | item :: others, rest => writeOnto item (0x2C :: writeItemsOnto others rest)

def writeMembersOnto : List (String × Json) → (rest : Bytes) → Bytes
  | [], rest => rest
  | [(name, value)], rest => Writer.string name ++ 0x3A :: writeOnto value rest
  | (name, value) :: others, rest =>
      Writer.string name ++ 0x3A :: writeOnto value (0x2C :: writeMembersOnto others rest)

end

def write (json : Json) : Bytes := json.writeOnto []

mutual

theorem writeOnto_append : (json : Json) → (rest more : Bytes) →
    json.writeOnto rest ++ more = json.writeOnto (rest ++ more)
  | .null, _, _ => by simp [writeOnto]
  | .bool true, _, _ => by simp [writeOnto]
  | .bool false, _, _ => by simp [writeOnto]
  | .int _, _, _ => by simp [writeOnto]
  | .double _, _, _ => by simp [writeOnto]
  | .text _, _, _ => by simp [writeOnto]
  | .array items, rest, more => by simp [writeOnto, writeItemsOnto_append items]
  | .object members, rest, more => by simp [writeOnto, writeMembersOnto_append members]

theorem writeItemsOnto_append : (items : List Json) → (rest more : Bytes) →
    writeItemsOnto items rest ++ more = writeItemsOnto items (rest ++ more)
  | [], _, _ => rfl
  | [item], rest, more => by simp [writeItemsOnto, writeOnto_append item]
  | item :: other :: others, rest, more => by
      simp [writeItemsOnto, writeOnto_append item, writeItemsOnto_append (other :: others)]

theorem writeMembersOnto_append : (members : List (String × Json)) → (rest more : Bytes) →
    writeMembersOnto members rest ++ more = writeMembersOnto members (rest ++ more)
  | [], _, _ => rfl
  | [(name, value)], rest, more => by simp [writeMembersOnto, writeOnto_append value]
  | (name, value) :: other :: others, rest, more => by
      simp [writeMembersOnto, writeOnto_append value, writeMembersOnto_append (other :: others)]

end

theorem writeOnto_eq (json : Json) (rest : Bytes) : json.writeOnto rest = json.write ++ rest := by
  simp [write, writeOnto_append]

end PatchLedger.Json
