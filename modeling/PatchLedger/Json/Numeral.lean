import PatchLedger.Bytes
import PatchLedger.Decimal

/-!
Numerals of JSON: how they are written, and the number that one stands for. A
plain integer from -2^63 to 2^64 - 1, other than minus zero, is an integer; any
other numeral is a double. Of a long numeral the digits count that keep the
significand below 2^64: further whole digits only raise the exponent, and the
fraction ends where it would overflow.
-/

namespace PatchLedger.Json

/-- The parts of a numeral. The exponent has its sign, `true` for minus. -/
structure Numeral where
  negative : Bool
  whole : List Nat
  fraction : Option (List Nat)
  exponent : Option (Bool × List Nat)
deriving DecidableEq, Repr

inductive Number where
  | int (n : Int)
  | double (f : Float)

namespace Numeral

def digit? (b : UInt8) : Option Nat :=
  if 0x30 ≤ b ∧ b ≤ 0x39 then some (b.toNat - 0x30) else none

def digits : Bytes → List Nat × Bytes
  | [] => ([], [])
  | b :: rest =>
      match digit? b with
      | some d => let (ds, rest) := digits rest; (d :: ds, rest)
      | none => ([], b :: rest)

def someDigits? (s : Bytes) : Option (List Nat × Bytes) :=
  match digits s with
  | ([], _) => none
  | found => some found

/-- Whole digits; a zero stands alone. -/
def whole? (s : Bytes) : Option (List Nat × Bytes) :=
  match digits s with
  | ([], _) => none
  | (0 :: _ :: _, _) => none
  | found => some found

def fraction? : Bytes → Option (Option (List Nat) × Bytes)
  | 0x2E :: rest => (someDigits? rest).map fun (ds, rest) => (some ds, rest)
  | s => some (none, s)

def signed : Bytes → Bool × Bytes
  | 0x2D :: rest => (true, rest)
  | 0x2B :: rest => (false, rest)
  | s => (false, s)

def exponent? : Bytes → Option (Option (Bool × List Nat) × Bytes)
  | [] => some (none, [])
  | b :: rest =>
      if b = 0x65 ∨ b = 0x45 then
        let (negative, rest) := signed rest
        (someDigits? rest).map fun (ds, rest) => (some (negative, ds), rest)
      else some (none, b :: rest)

def read? (s : Bytes) : Option (Numeral × Bytes) := do
  let (negative, s) := match s with
    | 0x2D :: rest => (true, rest)
    | s => (false, s)
  let (whole, s) ← whole? s
  let (fraction, s) ← fraction? s
  let (exponent, s) ← exponent? s
  some (⟨negative, whole, fraction, exponent⟩, s)

/-- Takes digits while the number stays below 2^64. -/
def accumulate : (n : Nat) → List Nat → Nat × List Nat
  | n, [] => (n, [])
  | n, d :: rest => if 10 * n + d < UInt64.size then accumulate (10 * n + d) rest else (n, d :: rest)

def tenTo (n : Nat) : Float := Float.ofScientific 1 false n

/-- The double times a power of ten up to 10^308 in one step, rounded, and divided in several
steps where the power is lower. Nothing if it overflows. -/
def scale? (f : Float) (exponent : Int) : Option Float :=
  if 308 < exponent then (if f == 0 then some f else none)
  else if 0 ≤ exponent then
    let scaled := f * tenTo exponent.toNat
    if scaled.isInf then none else some scaled
  else if -308 ≤ exponent then some (f / tenTo exponent.natAbs)
  else if f == 0 then some f
  else scale? (f / tenTo 308) (exponent + 308)
  termination_by (-exponent).toNat

/-- The double of a significand and a power of ten. An exponent of 2^31 and above is beyond all
doubles, whatever the significand's own places. -/
def double? (significand : Nat) (places : Int) (exponent : Option (Bool × List Nat)) :
    Option Float :=
  let f := significand.toUInt64.toFloat
  match exponent with
  | none => scale? f places
  | some (negative, ds) =>
      let size := Decimal.value ds
      if 0x80000000 ≤ size then (if negative ∨ significand = 0 then some 0 else none)
      else scale? f (if negative then places - size else places + size)

def number? (n : Numeral) : Option Number :=
  let (significand, left) := accumulate 0 n.whole
  let plain := n.fraction = none ∧ n.exponent = none ∧ left = []
  if plain ∧ ¬ n.negative then some (.int significand)
  else if plain ∧ 0 < significand ∧ significand ≤ 0x8000000000000000 then some (.int (-significand))
  else
    let fraction := n.fraction.getD []
    let (significand, dropped) := accumulate significand fraction
    let places : Int := (left.length : Int) - ((fraction.length - dropped.length : Nat) : Int)
    (double? significand places n.exponent).map fun f => .double (if n.negative then -f else f)

end Numeral

end PatchLedger.Json
