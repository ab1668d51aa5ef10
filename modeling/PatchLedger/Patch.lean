import PatchLedger.Endpoint
import PatchLedger.Instant.Text
import PatchLedger.Operation
import PatchLedger.Text.Quoted
import PatchLedger.Uuid

/-!
Patches: the operations of one synchronisation in their order, from a source to
a target, with the error that ended it if there was one.
-/

namespace PatchLedger

structure Patch where
  uuid : String
  source : Endpoint
  target : Endpoint
  stamp : Instant
  operations : List Operation := []
  error : Option String := none
deriving DecidableEq

namespace Patch

def fresh (random : Vector UInt8 16) (now : Instant) (source target : Endpoint) : Patch where
  uuid := Uuid.ofRandom random
  source := source
  target := target
  stamp := now

def hasErrors (p : Patch) : Bool := p.error.isSome

def size (p : Patch) : Nat := p.operations.length

def isEmpty (p : Patch) : Bool := p.operations.isEmpty

def enqueue (p : Patch) (op : Operation) : Patch := { p with operations := p.operations ++ [op] }

/-- The operations of the given types in their order; no types mean all. -/
def walk (p : Patch) (types : List OperationType) : List Operation :=
  p.operations.filter fun op => types.isEmpty || types.contains op.type

def summary (p : Patch) : String :=
  let error := match p.error with
    | none => "None"
    | some text => "Some(PatchError \x7b message: " ++ Text.quoted text ++ " \x7d)"
  "Patch \x7b uuid: " ++ Text.quoted p.uuid ++ ", source: " ++ Text.quoted p.source.uri ++
    ", target: " ++ Text.quoted p.target.uri ++ ", stamp: " ++ p.stamp.toText ++
    ", operations: " ++ String.ofList (Decimal.chars (Decimal.digits p.size)) ++
    ", error: " ++ error ++ " \x7d"

end Patch

end PatchLedger
