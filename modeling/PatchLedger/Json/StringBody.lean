import PatchLedger.Bytes

/-!
The inside of a JSON string: bytes that stand for themselves and escapes. The
body is first taken apart as far as its closing quotation mark; what text it
spells is a second question, as surrogates must pair up and the bytes must be
UTF-8.
-/

namespace PatchLedger.Json

/-- A byte of the text, or a UTF-16 unit given by its number. -/
inductive Piece where
  | byte (b : UInt8)
  | unit (u : Nat)
deriving DecidableEq, Repr

namespace StringBody

def hexDigit? (b : UInt8) : Option Nat :=
  if 0x30 ≤ b ∧ b ≤ 0x39 then some (b.toNat - 0x30)
  else if 0x61 ≤ b ∧ b ≤ 0x66 then some (b.toNat - 0x57)
  else if 0x41 ≤ b ∧ b ≤ 0x46 then some (b.toNat - 0x37)
  else none

def escape? (b : UInt8) : Option UInt8 :=
  if b = 0x22 ∨ b = 0x5C ∨ b = 0x2F then some b
  else if b = 0x62 then some 0x08
  else if b = 0x66 then some 0x0C
  else if b = 0x6E then some 0x0A
  else if b = 0x72 then some 0x0D
  else if b = 0x74 then some 0x09
  else none

def read? : Bytes → Option (List Piece × Bytes)
  | [] => none
  | 0x22 :: rest => some ([], rest)
  | 0x5C :: 0x75 :: a :: b :: c :: d :: rest => do
      let high := 16 * (← hexDigit? a) + (← hexDigit? b)
      let low := 16 * (← hexDigit? c) + (← hexDigit? d)
      let (pieces, rest) ← read? rest
      some (.unit (256 * high + low) :: pieces, rest)
  | 0x5C :: b :: rest => do
      let escaped ← escape? b
      let (pieces, rest) ← read? rest
      some (.byte escaped :: pieces, rest)
  | b :: rest =>
      if b < 0x20 ∨ b = 0x5C then none
      else do
        let (pieces, rest) ← read? rest
        some (.byte b :: pieces, rest)

def isHighSurrogate (u : Nat) : Bool := 0xD800 ≤ u && u < 0xDC00

def isLowSurrogate (u : Nat) : Bool := 0xDC00 ≤ u && u < 0xE000

def charBytes (code : Nat) : Bytes := String.utf8EncodeChar (Char.ofNat code)

/-- The bytes that the pieces spell; a surrogate must be high and have its low one behind it. -/
def bytes? : List Piece → Option Bytes
  | [] => some []
  | .byte b :: rest => (bytes? rest).map (b :: ·)
  | .unit high :: .unit low :: rest =>
      if isLowSurrogate high then none
      else if isHighSurrogate high then
        if isLowSurrogate low then
          (bytes? rest).map (charBytes (0x10000 + 1024 * (high - 0xD800) + (low - 0xDC00)) ++ ·)
        else none
      else (bytes? (.unit low :: rest)).map (charBytes high ++ ·)
  | .unit u :: rest =>
      if isLowSurrogate u || isHighSurrogate u then none
      else (bytes? rest).map (charBytes u ++ ·)

def text? (pieces : List Piece) : Option String := (bytes? pieces).bind Bytes.text?

end StringBody

end PatchLedger.Json
