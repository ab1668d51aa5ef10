import PatchLedger.Instant.Text
import PatchLedger.Operation

/-!
The stored form of an operation: a JSON object with the type, the node and the
stamp, for a change where it moves to, for a conflict its type and both sides as
records of their own. Members stand in ascending order. A conflict without one
of its three members is refused by the name of the first that is missing.
-/

namespace PatchLedger

inductive DecodeError where
  | misfit (cause : Schema.Misfit)
  | incompleteConflict (member : String)

namespace Operation

def toJson : Operation → Json
  | change kind node moveTo stamp =>
      Json.ordered <|
        [("type", kind.type.toJson), ("node", Json.ordered node.members),
          ("stamp", .text stamp.toText)] ++
        Json.optionalMember "move_to" (moveTo.map .text)
  | conflict type node left right stamp =>
      Json.ordered
        [("type", OperationType.conflict.toJson), ("node", Json.ordered node.members),
          ("stamp", .text stamp.toText), ("conflict_type", type.toJson),
          ("left_op", left.toJson), ("right_op", right.toJson)]

def encode (op : Operation) : Bytes := op.toJson.write

/-- The members of a stored operation, before the sides of a conflict are read. -/
structure Fields where
  type : OperationType
  node : Node
  stamp : Instant
  moveTo : Option String
  conflictType : Option ConflictType
  left : Option Json
  right : Option Json

open Schema in
def Fields.record : Record Fields where
  title := "OperationRecord"
  lengthText := "struct OperationRecord with 7 elements"
  tolerant := true
  columns :=
    .cons ⟨"type", OperationType.shape, none⟩ <|
    .cons ⟨"node", Node.shape, none⟩ <|
    .cons ⟨"stamp", Shape.instant, none⟩ <|
    .cons ⟨"move_to", Shape.text.optional, some none⟩ <|
    .cons ⟨"conflict_type", ConflictType.shape.optional, some none⟩ <|
    .cons ⟨"left_op", Shape.any.optional, some none⟩ <|
    .cons ⟨"right_op", Shape.any.optional, some none⟩ .nil
  build := fun (type, node, stamp, moveTo, conflictType, left, right, _) =>
    .ok { type, node, stamp, moveTo, conflictType, left, right }

def required {α : Type} (member : String) : Option α → Except DecodeError α
  | some a => .ok a
  | none => .error (.incompleteConflict member)

/-- Reads a record whose sides nest at most `room` deep, the outermost included. -/
def ofJson : (room : Nat) → Json → Except DecodeError Operation
  | 0, _ => .error (.misfit .malformed)
  | room + 1, json => do
      let fields ← (Fields.record.shape.ofJson json).mapError .misfit
      match fields.type.change? with
      | some kind => .ok (.change kind fields.node fields.moveTo fields.stamp)
      | none =>
          let type ← required "conflict_type" fields.conflictType
          let left ← required "left_op" fields.left
          let right ← required "right_op" fields.right
          let left ← ofJson room left
          let right ← ofJson room right
          .ok (.conflict type fields.node left right fields.stamp)

/-- Reads stored bytes. Each record takes at least one of the brackets that may be open at once. -/
def decode (data : Bytes) : Except DecodeError Operation :=
  match Json.parse? data with
  | some json => ofJson Json.nestLimit json
  | none => .error (.misfit .malformed)

end Operation

end PatchLedger
