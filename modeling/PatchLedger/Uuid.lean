import PatchLedger.Text.Quoted

/-!
Random identifiers: sixteen random bytes with the marks of version 4, written in
hexadecimal in five groups.
-/

namespace PatchLedger.Uuid

/-- The bytes with the version in the seventh and the variant in the ninth. -/
def marked (random : Vector UInt8 16) : Vector UInt8 16 :=
  (random.set 6 (random[6] &&& 0x0F ||| 0x40)).set 8 (random[8] &&& 0x3F ||| 0x80)

def hexPair (b : UInt8) : List Char :=
  [Text.hexDigit (b.toNat / 16), Text.hexDigit (b.toNat % 16)]

def ofRandom (random : Vector UInt8 16) : String :=
  let pairs := (marked random).toList.map hexPair
  let group := fun first count => ((pairs.drop first).take count).flatten
  String.ofList <|
    group 0 4 ++ '-' :: group 4 2 ++ '-' :: group 6 2 ++ '-' :: group 8 2 ++ '-' :: group 10 6

end PatchLedger.Uuid
