import PatchLedger.Bytes.Lossy
import PatchLedger.Config
import PatchLedger.Instant.Stored
import PatchLedger.Operation.Record
import PatchLedger.Patch
import PatchLedger.Tree.Sheet

/-!
The history that a tree holds, the latest patch first. Each patch is restored
from its sheet alone. It keeps the direction in which it was written: where its
source is not the one the ledger was opened with, source and target change
places, if the endpoints can.
-/

namespace PatchLedger

structure Setup where
  source : Endpoint
  target : Endpoint
  config : Config := {}

structure Direction where
  source : Endpoint
  target : Endpoint
deriving DecidableEq

namespace Setup

def inverted? (s : Setup) : Option Direction := do
  let source ← s.target.asSource?
  let target ← s.source.asTarget?
  some ⟨source, target⟩

def direction (s : Setup) (recorded : Option Bytes) : Direction :=
  let forward : Direction := ⟨s.source, s.target⟩
  match recorded with
  | none => forward
  | some uri => if uri = Bytes.ofText s.source.uri then forward else s.inverted?.getD forward

end Setup

structure Loaded where
  patch : Patch
  seen : Option Bytes
deriving DecidableEq

namespace Sheet

def stamp? (sheet : Sheet) : Option Instant := sheet.stamp.bind Instant.ofStored?

/-- The patch of a sheet. Operations that cannot be read are left out, and a patch without a
readable stamp has the present one. -/
def patch (sheet : Sheet) (setup : Setup) (now : Instant) : Patch :=
  let direction := setup.direction sheet.source
  { uuid := sheet.uuid
    source := direction.source
    target := direction.target
    stamp := sheet.stamp?.getD now
    operations := sheet.operations.filterMap fun operation =>
      (Operation.decode operation.2).toOption
    error := sheet.error.map Bytes.lossyText }

def loaded (sheet : Sheet) (setup : Setup) (now : Instant) : Loaded :=
  ⟨sheet.patch setup now, sheet.stamp⟩

end Sheet

def Loaded.isClocked (l : Loaded) : Bool := (l.seen.bind Instant.ofStored?).isNone

/-- The patches of a tree, the latest stamp first, equal stamps in the order of the uuids. The
clock is asked once for each patch, in the order of the uuids. -/
def Tree.history (t : Tree) (setup : Setup) (clock : Nat → Instant) : List Loaded :=
  (t.sheets.mapIdx fun i sheet => sheet.loaded setup (clock i)).mergeSort
    fun a b => decide (b.patch.stamp ≤ a.patch.stamp)

end PatchLedger
