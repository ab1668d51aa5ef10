/-!
The fewest decimal digits that still name a binary number `m * 2^q` of `bits`
significant bits: the shortest decimal in the interval of reals that round to
the number, and of those the nearest to it. All comparisons are exact.
-/

namespace PatchLedger.Decimal

structure Ratio where
  num : Nat
  den : Nat

namespace Ratio

def shift (r : Ratio) : Int → Ratio
  | .ofNat n => ⟨r.num * Nat.pow 2 n, r.den⟩
  | .negSucc n => ⟨r.num, r.den * Nat.pow 2 (n + 1)⟩

def per (r : Ratio) : Int → Ratio
  | .ofNat n => ⟨r.num, r.den * Nat.pow 10 n⟩
  | .negSucc n => ⟨r.num * Nat.pow 10 (n + 1), r.den⟩

def lt (r s : Ratio) : Bool := r.num * s.den < s.num * r.den

def le (r s : Ratio) : Bool := r.num * s.den ≤ s.num * r.den

/-- The least `j` from `start` on for which `r * 10^j` is at least one, tried `fuel` times. -/
def raise (r : Ratio) : (fuel start : Nat) → Nat
  | 0, start => start
  | fuel + 1, start => if r.num * Nat.pow 10 start < r.den then raise r fuel (start + 1) else start

/-- The largest `j` up to `fuel` for which `r` is at least `10^j`. -/
def lower (r : Ratio) : (fuel : Nat) → Nat
  | 0 => 0
  | fuel + 1 => if r.den * Nat.pow 10 (fuel + 1) ≤ r.num then fuel + 1 else lower r fuel

/-- The exponent of the highest decimal place of a positive ratio between 10^-400 and 10^400. -/
def highestPlace (r : Ratio) : Int :=
  if r.den ≤ r.num then (r.lower 400 : Int) else -(r.raise 400 1 : Int)

end Ratio

/-- The reals that round to a number; both ends belong to it or neither. -/
structure Interval where
  low : Ratio
  high : Ratio
  closed : Bool

def Interval.contains (i : Interval) (r : Ratio) : Bool :=
  if i.closed then i.low.le r && r.le i.high else i.low.lt r && r.lt i.high

/-- The reals that round to `m * 2^q` among the numbers of `bits` bits. Below a power of two the
numbers lie twice as close, except at the least exponent. -/
def roundingInterval (bits : Nat) (least : Int) (m : Nat) (q : Int) : Interval :=
  let below := if m = Nat.pow 2 (bits - 1) ∧ least < q then 1 else 2
  ⟨Ratio.shift ⟨4 * m - below, 4⟩ q, Ratio.shift ⟨4 * m + 2, 4⟩ q, m % 2 = 0⟩

/-- The multiple of `10^place` in the interval that is nearest to `r`; of two equally near ones the
even one. Only the two around `r` are tried: if any lies in the interval, one of them does. -/
def onGrid? (i : Interval) (r : Ratio) (place : Int) : Option Nat :=
  let scaled := r.per place
  let down := scaled.num / scaled.den
  let up := down + 1
  let fits := fun c => i.contains (Ratio.per ⟨c, 1⟩ (-place))
  match fits down, fits up with
  | true, true =>
      let excess := 2 * (scaled.num % scaled.den)
      some (if excess < scaled.den ∨ (excess = scaled.den ∧ down % 2 = 0) then down else up)
  | true, false => some down
  | false, true => some up
  | false, false => none

def firstGrid (i : Interval) (r : Ratio) : (fuel : Nat) → (place : Int) → Nat × Int
  | 0, place => ((r.per place).num / (r.per place).den, place)
  | fuel + 1, place =>
      match onGrid? i r place with
      | some c => (c, place)
      | none => firstGrid i r fuel (place - 1)

/-- The shortest decimal `c * 10^place` for a positive number `m * 2^q`. -/
def shortest (bits : Nat) (least : Int) (m : Nat) (q : Int) : Nat × Int :=
  let r := Ratio.shift ⟨m, 1⟩ q
  firstGrid (roundingInterval bits least m q) r 17 r.highestPlace

end PatchLedger.Decimal
