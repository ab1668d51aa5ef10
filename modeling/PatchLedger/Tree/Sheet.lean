import PatchLedger.Key
import PatchLedger.Tree

/-!
What a tree holds of each patch, gathered in one pass over its entries, and the
number of patches, which is the number of their source records.
-/

namespace PatchLedger

structure Sheet where
  uuid : String
  stamp : Option Bytes
  error : Option Bytes
  source : Option Bytes
  operations : List (UInt64 × Bytes)
deriving DecidableEq

namespace Sheet

def blank (uuid : String) : Sheet := ⟨uuid, none, none, none, []⟩

/-- The sheet with one more record; a record of unknown name leaves it. -/
def add (sheet : Sheet) (value : Bytes) : Option Entry → Sheet
  | some .stamp => { sheet with stamp := some value }
  | some .error => { sheet with error := some value }
  | some .source => { sheet with source := some value }
  | some (.operation seq) => { sheet with operations := sheet.operations ++ [(seq, value)] }
  | none => sheet

end Sheet

/-- The sheets of the entries that follow those gathered on `current`. -/
def Sheet.gather : (current : Option Sheet) → List (Bytes × Bytes) → List Sheet
  | current, [] => current.toList
  | current, (key, value) :: rest =>
      match Key.parse? key, current with
      | none, _ => gather current rest
      | some (uuid, entry), some sheet =>
          if sheet.uuid = uuid then gather (some (sheet.add value entry)) rest
          else sheet :: gather (some ((blank uuid).add value entry)) rest
      | some (uuid, entry), none => gather (some ((blank uuid).add value entry)) rest

namespace Tree

def sheets (t : Tree) : List Sheet := Sheet.gather none t.toList

/-- The number of patches: the keys that name a source. -/
def patchCount (t : Tree) : Nat :=
  t.toList.countP fun entry =>
    match Key.parse? entry.1 with
    | some (_, some .source) => true
    | _ => false

end Tree

end PatchLedger
