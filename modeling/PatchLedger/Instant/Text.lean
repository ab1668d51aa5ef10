import PatchLedger.Decimal
import PatchLedger.Instant
import PatchLedger.Instant.Calendar

/-!
The written form of an instant: `2024-05-01T10:00:00Z`, with a fraction of 3, 6
or 9 digits, the fewest that lose nothing, and none where it is zero. A leap
second has the second 60. Years outside 0 to 9999 carry a sign.
-/

namespace PatchLedger.Instant

open Decimal

def date (t : Instant) : Date := Date.ofDays (t.seconds / 86400)

def secondOfDay (t : Instant) : Nat := (t.seconds % 86400).toNat

/-- At least four digits, with a sign where four do not hold the year. -/
def yearChars (year : Int) : List Char :=
  if year < 0 then '-' :: chars (padded 4 year.natAbs)
  else if 9999 < year then '+' :: chars (padded 4 year.natAbs)
  else chars (padded 4 year.natAbs)

def fractionChars (nanos : Nat) : List Char :=
  if nanos = 0 then []
  else if nanos % 1000000 = 0 then '.' :: chars (lastDigits 3 (nanos / 1000000))
  else if nanos % 1000 = 0 then '.' :: chars (lastDigits 6 (nanos / 1000))
  else '.' :: chars (lastDigits 9 nanos)

def toChars (t : Instant) : List Char :=
  let two := fun n => chars (lastDigits 2 n)
  yearChars t.date.year ++ '-' :: two t.date.month ++ '-' :: two t.date.day ++
    'T' :: two (t.secondOfDay / 3600) ++ ':' :: two (t.secondOfDay / 60 % 60) ++
    ':' :: two (t.secondOfDay % 60 + t.nanos / 1000000000) ++
    fractionChars (t.nanos % 1000000000) ++ ['Z']

def toText (t : Instant) : String := String.ofList t.toChars

end PatchLedger.Instant
