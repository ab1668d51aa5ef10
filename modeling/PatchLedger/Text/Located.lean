import PatchLedger.Decimal

/-!
Messages that end in a location, ` at line L column C`. Only the last ` at line `
of a text can begin its location, which must close the text, with both numbers
below 2^64; a text without one is all message. Line 0 is no location and is not
written.
-/

namespace PatchLedger.Text

structure Located where
  message : List Char
  line : Nat
  column : Nat
deriving DecidableEq, Repr

namespace Located

def lineMark : List Char := " at line ".toList

def columnMark : List Char := " column ".toList

def splitLast? (mark : List Char) : List Char → Option (List Char × List Char)
  | [] => none
  | c :: cs =>
      match splitLast? mark cs with
      | some (before, after) => some (c :: before, after)
      | none => if mark.isPrefixOf (c :: cs) then some ([], (c :: cs).drop mark.length) else none

def number? (cs : List Char) : Option Nat := do
  let ds ← cs.mapM Decimal.digit?
  if ds ≠ [] ∧ Decimal.value ds < UInt64.size then some (Decimal.value ds) else none

def ofChars? (cs : List Char) : Option Located := do
  let (message, place) ← splitLast? lineMark cs
  let isDigit := fun c => (Decimal.digit? c).isSome
  let rest := place.dropWhile isDigit
  if columnMark.isPrefixOf rest then
    let line ← number? (place.takeWhile isDigit)
    let column ← number? (rest.drop columnMark.length)
    some ⟨message, line, column⟩
  else none

def ofText (s : String) : Located := (ofChars? s.toList).getD ⟨s.toList, 0, 0⟩

def toChars (l : Located) : List Char :=
  if l.line = 0 then l.message
  else l.message ++ lineMark ++ Decimal.chars (Decimal.digits l.line) ++
    columnMark ++ Decimal.chars (Decimal.digits l.column)

def toText (l : Located) : String := String.ofList l.toChars

end Located

end PatchLedger.Text
