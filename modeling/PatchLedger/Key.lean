import PatchLedger.Bytes

/-!
The keys of a patch's records. All keys of a patch begin with its uuid and a NUL
byte; the name of the record follows, and for an operation another NUL and the
eight big-endian bytes of its sequence number. So the records of a patch lie
together in the tree, its operations in the order of their numbers.
-/

namespace PatchLedger

inductive Entry where
  | stamp
  | error
  | source
  | operation (seq : UInt64)
deriving DecidableEq, Repr

namespace Key

def separator : UInt8 := 0

def operations : Bytes := Bytes.ofText "operations"

def start (uuid : String) : Bytes := Bytes.ofText uuid ++ [separator]

def named (uuid : String) (name : Bytes) : Bytes := start uuid ++ name

end Key

namespace Entry

def name : Entry → Bytes
  | stamp => Bytes.ofText "stamp"
  | error => Bytes.ofText "patchError"
  | source => Bytes.ofText "source"
  | operation seq => Key.operations ++ Key.separator :: Bytes.ofWord seq

def ofName? (name : Bytes) : Option Entry :=
  if name = stamp.name then some .stamp
  else if name = error.name then some .error
  else if name = source.name then some .source
  else if (Key.operations ++ [Key.separator]).isPrefixOf name then
    (Bytes.word? (name.drop (Key.operations.length + 1))).map .operation
  else none

end Entry

namespace Key

def ofEntry (uuid : String) (entry : Entry) : Bytes := named uuid entry.name

def ofOperation (uuid : String) (seq : UInt64) : Bytes := ofEntry uuid (.operation seq)

/-- The uuid and the record that a key names. A key without a separator, or whose uuid is not
UTF-8, is no key of a patch; one whose name is unknown belongs to a patch but is no record of it. -/
def parse? (key : Bytes) : Option (String × Option Entry) :=
  match key.dropWhile (· ≠ separator) with
  | [] => none
  | _ :: name =>
      (Bytes.text? (key.takeWhile (· ≠ separator))).map fun uuid => (uuid, Entry.ofName? name)

def validUuid (uuid : String) : Bool :=
  uuid ≠ "" && !(Bytes.ofText uuid).contains separator

end Key

end PatchLedger
