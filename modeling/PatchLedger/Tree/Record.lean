import PatchLedger.Key
import PatchLedger.Tree

/-!
Writing and removing whole patches. A record replaces all that the tree held of
its uuid, known or not; pruning removes all of it, but only while the stamp is
the one that was seen.
-/

namespace PatchLedger

structure Record where
  uuid : String
  stamp : Bytes
  error : Option String
  source : String
  operations : List Bytes
deriving DecidableEq

structure BadUuid where
  uuid : String
deriving DecidableEq, Repr

namespace Record

def numbered (uuid : String) : (seq : UInt64) → List Bytes → List (Bytes × Bytes)
  | _, [] => []
  | seq, operation :: rest => (Key.ofOperation uuid seq, operation) :: numbered uuid (seq + 1) rest

def entries (record : Record) : List (Bytes × Bytes) :=
  (Key.ofEntry record.uuid .stamp, record.stamp) ::
    (record.error.map fun text => (Key.ofEntry record.uuid .error, Bytes.ofText text)).toList ++
    (Key.ofEntry record.uuid .source, Bytes.ofText record.source) ::
    numbered record.uuid 1 record.operations

end Record

namespace Tree

def replace (t : Tree) (record : Record) : Except BadUuid Tree :=
  if Key.validUuid record.uuid then
    .ok ((t.eraseUnder (Key.start record.uuid)).insertAll record.entries)
  else .error ⟨record.uuid⟩

def prune? (t : Tree) (uuid : String) (seen : Option Bytes) : Option Tree :=
  if t.get? (Key.ofEntry uuid .stamp) = seen then some (t.eraseUnder (Key.start uuid)) else none

end Tree

end PatchLedger
