import PatchLedger.Decimal
import PatchLedger.Decimal.Shortest

/-!
The text of a double: its shortest decimal, positional for highest places from
10^-5 to 10^15 and with a signed exponent beyond, always with a point or an
exponent.
-/

namespace PatchLedger.Json.Double

open Decimal

/-- A finite double is `(-1)^negative * significand * 2^exponent`. -/
structure Parts where
  negative : Bool
  significand : Nat
  exponent : Int

def parts (f : Float) : Parts :=
  let bits := f.toBits.toNat
  let fraction := bits % 0x10000000000000
  let biased : Nat := bits / 0x10000000000000 % 0x800
  let negative := bits / 0x8000000000000000 = 1
  if biased = 0 then ⟨negative, fraction, -1074⟩
  else ⟨negative, 0x10000000000000 + fraction, (biased : Int) - 1075⟩

def significant (c : Nat) : List Nat :=
  ((digits c).reverse.dropWhile (· = 0)).reverse

/-- The digits of a number whose highest place is `10^place`, with a point. -/
def positional (ds : List Nat) : (place : Int) → List Char
  | .ofNat place =>
      let whole := ds.take (place + 1) ++ List.replicate (place + 1 - ds.length) 0
      let fraction := ds.drop (place + 1)
      chars whole ++ '.' :: chars (if fraction = [] then [0] else fraction)
  | .negSucc zeros => '0' :: '.' :: chars (List.replicate zeros 0 ++ ds)

def exponential (ds : List Nat) (place : Int) : List Char :=
  chars (ds.take 1) ++ (if ds.length ≤ 1 then [] else '.' :: chars (ds.drop 1)) ++
    'e' :: (if place < 0 then '-' else '+') :: chars (digits place.natAbs)

def magnitudeChars (significand : Nat) (exponent : Int) : List Char :=
  if significand = 0 then ['0', '.', '0']
  else
    let (c, least) := shortest 53 (-1074) significand exponent
    let place := least + ((digits c).length : Int) - 1
    if -5 ≤ place ∧ place ≤ 15 then positional (significant c) place
    else exponential (significant c) place

def toText (f : Float) : String :=
  let p := parts f
  String.ofList ((if p.negative then ['-'] else []) ++ magnitudeChars p.significand p.exponent)

end PatchLedger.Json.Double
