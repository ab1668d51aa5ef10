import PatchLedger.Decimal
import PatchLedger.Instant
import PatchLedger.Instant.Calendar
import PatchLedger.Text.Blank

/-!
Reading dates: year, month, day, hour, minute and second with an offset from
universal time, white space allowed around each part. The day and the moment
must exist, the day must lie in the range of instants, and so must the instant.
-/

namespace PatchLedger.Instant

namespace Reader

def skipBlank (cs : List Char) : List Char := cs.dropWhile Text.isBlank

def oneOf? (cs : List Char) (kind : Char → Bool) : Option (List Char) :=
  match cs with
  | [] => none
  | c :: rest => if kind c then some rest else none

def digits : (most : Nat) → List Char → List Nat × List Char
  | 0, cs => ([], cs)
  | _ + 1, [] => ([], [])
  | most + 1, c :: rest =>
      match Decimal.digit? c with
      | some d => let (ds, rest) := digits most rest; (d :: ds, rest)
      | none => ([], c :: rest)

def number? (most : Nat) (cs : List Char) : Option (Nat × List Char) :=
  match digits most cs with
  | ([], _) => none
  | (ds, rest) => some (Decimal.value ds, rest)

def twoDigits? (cs : List Char) : Option (Nat × List Char) :=
  match digits 2 cs with
  | ([high, low], rest) => some (10 * high + low, rest)
  | _ => none

/-- One to four digits, or a sign and any number of digits. -/
def year? (cs : List Char) : Option (Int × List Char) :=
  match cs with
  | '-' :: rest => (number? rest.length rest).map fun (n, rest) => (-(n : Int), rest)
  | '+' :: rest => (number? rest.length rest).map fun (n, rest) => ((n : Int), rest)
  | _ => (number? 4 cs).map fun (n, rest) => ((n : Int), rest)

/-- Nine places of a fraction after its point, further digits dropped; no point is no fraction. -/
def fraction? (cs : List Char) : Option (Nat × List Char) :=
  match cs with
  | '.' :: rest =>
      match digits rest.length rest with
      | ([], _) => none
      | (ds, rest) =>
          let places := ds.take 9
          some (Decimal.value (places ++ List.replicate (9 - places.length) 0), rest)
  | _ => some (0, cs)

def hoursMinutes? (cs : List Char) : Option (Nat × List Char) := do
  let (hours, cs) ← twoDigits? cs
  let (minutes, cs) ← twoDigits? (cs.dropWhile fun c => c = ':' || Text.isBlank c)
  if minutes < 60 ∧ hours < 24 then some (3600 * hours + 60 * minutes, cs) else none

def offset? (cs : List Char) : Option (Int × List Char) :=
  match cs with
  | [] => none
  | c :: rest =>
      if c = 'Z' ∨ c = 'z' then some (0, rest)
      else if c = 'U' ∨ c = 'u' then do
        let rest ← oneOf? rest (fun c => c = 'T' || c = 't')
        let rest ← oneOf? rest (fun c => c = 'C' || c = 'c')
        some (0, rest)
      else if c = '+' then (hoursMinutes? rest).map fun (n, rest) => ((n : Int), rest)
      else if c = '-' ∨ c = '\u2212' then
        (hoursMinutes? rest).map fun (n, rest) => (-(n : Int), rest)
      else none

structure Parts where
  date : Date
  hour : Nat
  minute : Nat
  second : Nat
  nanos : Nat
  offset : Int

def parts? (cs : List Char) : Option Parts := do
  let (year, cs) ← year? (skipBlank cs)
  let cs ← oneOf? (skipBlank cs) (· = '-')
  let (month, cs) ← number? 2 (skipBlank cs)
  let cs ← oneOf? (skipBlank cs) (· = '-')
  let (day, cs) ← number? 2 (skipBlank cs)
  let cs ← oneOf? cs (fun c => c = 'T' || c = 't' || c = ' ')
  let (hour, cs) ← number? 2 (skipBlank cs)
  let cs ← oneOf? (skipBlank cs) (· = ':')
  let (minute, cs) ← number? 2 (skipBlank cs)
  let cs ← oneOf? (skipBlank cs) (· = ':')
  let (second, cs) ← number? 2 (skipBlank cs)
  let (nanos, cs) ← fraction? cs
  let (offset, cs) ← offset? (skipBlank cs)
  if skipBlank cs = [] then some ⟨⟨year, month, day⟩, hour, minute, second, nanos, offset⟩ else none

/-- The instant of the parts. The second 60 is the leap second of its minute. -/
def Parts.instant? (p : Parts) : Option Instant :=
  if p.date.Exists ∧ -262143 ≤ p.date.year ∧ p.date.year ≤ 262142 ∧
      p.hour < 24 ∧ p.minute < 60 ∧ p.second ≤ 60 then
    let leap := p.second / 60
    let localSeconds := p.date.toDays * 86400 + (3600 * p.hour + 60 * p.minute + (p.second - leap) : Nat)
    ofParts? (localSeconds - p.offset) (p.nanos + 1000000000 * leap)
  else none

end Reader

def ofChars? (cs : List Char) : Option Instant := (Reader.parts? cs).bind Reader.Parts.instant?

def ofText? (s : String) : Option Instant := ofChars? s.toList

end PatchLedger.Instant
