import PatchLedger.Instant
import PatchLedger.Node

/-!
Operations: a change of a node, or a conflict of two operations on it. Conflicts
nest; `Operation.depth` counts how deep.
-/

namespace PatchLedger

inductive ChangeKind where
  | create
  | update
  | delete
  | move
deriving DecidableEq, Repr

inductive OperationType where
  | create
  | update
  | delete
  | move
  | conflict
deriving DecidableEq, Repr

inductive ConflictType where
  | folderUuid
  | fileContent
  | moveSameSource
  | moveSameTarget
  | nodeType
  | pathOperation
deriving DecidableEq, Repr

inductive Operation where
  | change (kind : ChangeKind) (node : Node) (moveTo : Option String) (stamp : Instant)
  | conflict (type : ConflictType) (node : Node) (left right : Operation) (stamp : Instant)
deriving DecidableEq, Repr

namespace ChangeKind

def type : ChangeKind → OperationType
  | create => .create
  | update => .update
  | delete => .delete
  | move => .move

end ChangeKind

namespace OperationType

def name : OperationType → String
  | create => "create"
  | update => "update"
  | delete => "delete"
  | move => "move"
  | conflict => "conflict"

def all : List OperationType := [create, update, delete, move, conflict]

def change? : OperationType → Option ChangeKind
  | create => some .create
  | update => some .update
  | delete => some .delete
  | move => some .move
  | conflict => none

def shape : Schema.Shape OperationType := Schema.Shape.choice (all.map fun type => (type.name, type))

def toJson (type : OperationType) : Json := .text type.name

@[simp] theorem change?_type (kind : ChangeKind) : kind.type.change? = some kind := by
  cases kind <;> rfl

end OperationType

namespace ConflictType

def name : ConflictType → String
  | folderUuid => "folder_uuid"
  | fileContent => "file_content"
  | moveSameSource => "move_same_source"
  | moveSameTarget => "move_same_target"
  | nodeType => "node_type"
  | pathOperation => "path_operation"

def all : List ConflictType :=
  [folderUuid, fileContent, moveSameSource, moveSameTarget, nodeType, pathOperation]

def shape : Schema.Shape ConflictType := Schema.Shape.choice (all.map fun type => (type.name, type))

def toJson (type : ConflictType) : Json := .text type.name

end ConflictType

namespace Operation

def type : Operation → OperationType
  | change kind .. => kind.type
  | conflict .. => .conflict

def node : Operation → Node
  | change _ node _ _ => node
  | conflict _ node _ _ _ => node

def stamp : Operation → Instant
  | change _ _ _ stamp => stamp
  | conflict _ _ _ _ stamp => stamp

def isConflict (op : Operation) : Bool := op.type = .conflict

/-- How deep conflicts nest: none in a change, one more than the deeper side in a conflict. -/
def depth : Operation → Nat
  | change .. => 0
  | conflict _ _ left right _ => max left.depth right.depth + 1

end Operation

end PatchLedger
