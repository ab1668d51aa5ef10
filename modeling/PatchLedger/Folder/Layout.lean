import PatchLedger.Decimal
import PatchLedger.Tree

/-!
What a ledger keeps in its own directory: its settings, its log, a directory for
what is too large for the log, and snapshots, each named for the end that the
log had. Anything that has such a name is taken for one of them.
-/

namespace PatchLedger.Layout

def log : String := "db"

def files : List String := ["conf", log]

def inner : String := "blobs"

def snapshotStart : String := "snap."

def isSnapshot (name : String) : Bool :=
  name.startsWith snapshotStart && !name.endsWith ".in___motion"

/-- The name of the snapshot of a log that ends at a position, in sixteen hexadecimal digits. -/
def snapshotName (position : Nat) : String :=
  snapshotStart ++ String.ofList (((Nat.toDigits 16 position).map Char.toUpper).leftpad 16 '0')

/-- About where the log of a tree ends: behind what every log begins with, and a header, a key and
a value for each entry. -/
def logEnd (tree : Tree) : Nat :=
  tree.toList.foldl (fun position entry => position + 16 + entry.1.length + entry.2.length) 256

def positionLimit : Nat := 0x8000000000000000

/-- The position in a log for which a name in the inner directory stands. Other names stand for
nothing. -/
def position? (name : String) : Option Nat :=
  let written := match name.toList with
    | '+' :: rest => rest
    | all => all
  match written.mapM Decimal.digit? with
  | none | some [] => none
  | some digits => if Decimal.value digits < positionLimit then some (Decimal.value digits) else none

end PatchLedger.Layout
