import PatchLedger.Json.Writer
import PatchLedger.Schema.Record

/-!
The settings of a ledger: how many patches a load keeps, how long opening waits
for the lock, and the name of the store in its directory.
-/

namespace PatchLedger

structure Duration where
  seconds : UInt64
  nanos : UInt32
  nanos_lt : nanos.toNat < 1000000000
deriving DecidableEq, Repr

namespace Duration

/-- Whole seconds among the nanoseconds are carried, if the seconds hold them. -/
def ofParts? (seconds : UInt64) (nanos : UInt32) : Option Duration :=
  let carried := seconds.toNat + nanos.toNat / 1000000000
  if carried < UInt64.size then
    some ⟨UInt64.ofNat carried, UInt32.ofNat (nanos.toNat % 1000000000), by
      have small : nanos.toNat % 1000000000 < 1000000000 := Nat.mod_lt _ (by decide)
      rw [UInt32.toNat_ofNat_of_lt' (Nat.lt_trans small (by decide))]
      exact small⟩
  else none

def ofMillis (millis : UInt64) : Duration where
  seconds := millis / 1000
  nanos := UInt32.ofNat (millis.toNat % 1000 * 1000000)
  nanos_lt := by
    have small : millis.toNat % 1000 < 1000 := Nat.mod_lt _ (by decide)
    rw [UInt32.toNat_ofNat_of_lt' (by change _ < 4294967296; omega)]
    omega

def toJson (d : Duration) : Json :=
  .object [("secs", .int d.seconds.toNat), ("nanos", .int d.nanos.toNat)]

open Schema

def record : Record Duration where
  title := "Duration"
  lengthText := "struct Duration"
  tolerant := false
  columns :=
    .cons ⟨"secs", Shape.uint64 "u64", none⟩ <|
    .cons ⟨"nanos", Shape.uint32, none⟩ .nil
  build := fun (seconds, nanos, _) =>
    match ofParts? seconds nanos with
    | some d => .ok d
    | none => .error .overlong

def shape : Shape Duration := record.shape

end Duration

structure Config where
  retention : UInt64 := 100
  openTimeout : Duration := ⟨5, 0, by decide⟩
  fileName : String := "patches"
deriving DecidableEq, Repr

namespace Config

instance : Inhabited Config := ⟨{}⟩

def isDefault (c : Config) : Bool := c = {}

def toJson (c : Config) : Json :=
  .object
    [("retention", .int c.retention.toNat), ("open_timeout", c.openTimeout.toJson),
      ("file_name", .text c.fileName)]

open Schema

def record : Record Config where
  title := "PatchStoreConfig"
  lengthText := "struct PatchStoreConfig with 3 elements"
  tolerant := true
  columns :=
    .cons ⟨"retention", Shape.uint64 "usize", none⟩ <|
    .cons ⟨"open_timeout", Duration.shape, none⟩ <|
    .cons ⟨"file_name", Shape.text, none⟩ .nil
  build := fun (retention, openTimeout, fileName, _) => .ok { retention, openTimeout, fileName }

def shape : Shape Config := record.shape

end Config

end PatchLedger
