import PatchLedger.Error
import PatchLedger.Operation.Record
import PatchLedger.Proofs.Node

/-!
Operations are read back from what is stored of them, as deep as the reader's
brackets go: a node takes one bracket inside its operation's, and each conflict
one around its sides, so 127 brackets hold a nesting of 125
(`decode_encode_eq_ok_iff`). Writing knows no such limit.
-/

namespace PatchLedger

open Schema

theorem OperationType.ofJson_toJson (type : OperationType) :
    OperationType.shape.ofJson type.toJson = .ok type := by
  cases type <;> rfl

theorem ConflictType.ofJson_toJson (type : ConflictType) :
    ConflictType.shape.ofJson type.toJson = .ok type := by
  cases type <;> rfl

namespace Operation

def written : Operation → List (String × Json)
  | change kind node moveTo stamp =>
      [("type", kind.type.toJson), ("node", Json.ordered node.members), ("stamp", .text stamp.toText)] ++
        Json.optionalMember "move_to" (moveTo.map .text)
  | conflict type node left right stamp =>
      [("type", OperationType.conflict.toJson), ("node", Json.ordered node.members),
        ("stamp", .text stamp.toText), ("conflict_type", type.toJson), ("left_op", left.toJson),
        ("right_op", right.toJson)]

theorem toJson_eq (op : Operation) : op.toJson = Json.ordered op.written := by
  cases op <;> rfl

theorem nodup_written (op : Operation) : (op.written.map Prod.fst).Nodup := by
  cases op with
  | change kind node moveTo stamp => cases moveTo <;> simp [written, Json.optionalMember]
  | conflict type node left right stamp => simp [written]

def fields : Operation → Fields
  | change kind node moveTo stamp => ⟨kind.type, node, stamp, moveTo, none, none, none⟩
  | conflict type node left right stamp =>
      ⟨.conflict, node, stamp, none, some type, some left.toJson, some right.toJson⟩

theorem ofJson_side (op : Operation) : Shape.any.optional.ofJson op.toJson = .ok (some op.toJson) := by
  cases op <;> rfl

theorem ofJson_someConflict (type : ConflictType) :
    ConflictType.shape.optional.ofJson type.toJson = .ok (some type) := by
  cases type <;> rfl

theorem columns_written (op : Operation) :
    ∀ member ∈ op.written, member.1 ∈ Fields.record.columns.names := by
  cases op with
  | change kind node moveTo stamp =>
    cases moveTo <;> simp [written, Json.optionalMember, Fields.record, Columns.names]
  | conflict type node left right stamp => simp [written, Fields.record, Columns.names]

theorem readNamed_written (op : Operation) : Fields.record.readNamed Record.fromJson op.written =
    .ok (op.fields.type, op.fields.node, op.fields.stamp, op.fields.moveTo, op.fields.conflictType,
      op.fields.left, op.fields.right, ()) := by
  cases op with
  | change kind node moveTo stamp =>
    cases moveTo <;>
      simp [written, fields, Json.optionalMember, Fields.record, Record.readNamed, Columns.read,
        Record.fromJson, Ascending.value?, OperationType.ofJson_toJson, Node.ofJson_members,
        Shape.ofJson_instant, Shape.optional, Shape.ofJson_text, Except.map, bind, Except.bind]
  | conflict type node left right stamp =>
    simp [written, fields, Fields.record, Record.readNamed, Columns.read, Record.fromJson,
      Ascending.value?, OperationType.ofJson_toJson, Node.ofJson_members, Shape.ofJson_instant,
      ofJson_side, ofJson_someConflict, bind, Except.bind]

theorem ofJson_fields (op : Operation) : Fields.record.shape.ofJson op.toJson = .ok op.fields := by
  rw [toJson_eq]
  exact Fields.record.ofJson_ordered op.nodup_written op.columns_written op.readNamed_written

theorem ofJson_toJson (op : Operation) {room : Nat} (h : op.depth < room) :
    ofJson room op.toJson = .ok op := by
  induction op generalizing room with
  | change kind node moveTo stamp =>
    obtain ⟨room, rfl⟩ : ∃ n, room = n + 1 := ⟨room - 1, by omega⟩
    rw [ofJson, ofJson_fields]
    simp [fields, Except.mapError, bind, Except.bind]
  | conflict type node left right stamp ihLeft ihRight =>
    obtain ⟨room, rfl⟩ : ∃ n, room = n + 1 := ⟨room - 1, by omega⟩
    rw [depth] at h
    have readLeft : ofJson room left.toJson = .ok left := ihLeft (by omega)
    have readRight : ofJson room right.toJson = .ok right := ihRight (by omega)
    rw [ofJson, ofJson_fields]
    simp [fields, Except.mapError, bind, Except.bind, OperationType.change?, required, readLeft,
      readRight]

theorem plain_toJson (op : Operation) : op.toJson.Plain := by
  induction op with
  | change kind node moveTo stamp =>
    have plainNode := Json.plain_ordered node.nodup_members node.plain_members
    rw [toJson_eq]
    refine Json.plain_ordered (nodup_written _) ?_
    cases moveTo <;> simp [written, Json.optionalMember, OperationType.toJson, Json.Plain, plainNode]
  | conflict type node left right stamp ihLeft ihRight =>
    have plainNode := Json.plain_ordered node.nodup_members node.plain_members
    rw [toJson_eq]
    refine Json.plain_ordered (nodup_written _) ?_
    simp [written, OperationType.toJson, ConflictType.toJson, Json.Plain, plainNode, ihLeft, ihRight]

theorem brackets_toJson_le_iff (op : Operation) (n : Nat) :
    op.toJson.brackets ≤ n ↔ op.depth + 2 ≤ n := by
  induction op generalizing n with
  | change kind node moveTo stamp =>
    cases n with
    | zero => simp [toJson_eq, Json.ordered, Json.brackets]
    | succ n =>
      rw [toJson_eq, Json.brackets_ordered_le_iff (nodup_written _)]
      cases moveTo <;>
        simp [written, Json.optionalMember, OperationType.toJson, Json.brackets,
          Node.brackets_ordered_le_iff, depth]
  | conflict type node left right stamp ihLeft ihRight =>
    cases n with
    | zero => simp [toJson_eq, Json.ordered, Json.brackets]
    | succ n =>
      rw [toJson_eq, Json.brackets_ordered_le_iff (nodup_written _)]
      simp [written, OperationType.toJson, ConflictType.toJson, Json.brackets,
        Node.brackets_ordered_le_iff, depth, ihLeft, ihRight]
      omega

theorem decode_encode (op : Operation) :
    decode op.encode = if op.depth ≤ 125 then .ok op else .error (.misfit .malformed) := by
  have fits : op.toJson.brackets ≤ Json.nestLimit ↔ op.depth ≤ 125 := by
    rw [brackets_toJson_le_iff, Json.nestLimit]
    omega
  have parsed := Json.parse?_write op.toJson op.plain_toJson
  by_cases shallow : op.depth ≤ 125
  · have read : ofJson Json.nestLimit op.toJson = .ok op :=
      ofJson_toJson op (by rw [Json.nestLimit]; omega)
    rw [if_pos (fits.2 shallow)] at parsed
    rw [if_pos shallow, decode, encode, parsed]
    exact read
  · rw [if_neg fun h => shallow (fits.1 h)] at parsed
    rw [if_neg shallow, decode, encode, parsed]

/-- An operation is read back from its stored form exactly where its conflicts nest at most 125
deep. The stored form of any other is a whole JSON text too, but reading refuses it. -/
theorem decode_encode_eq_ok_iff (op : Operation) :
    (decode op.encode = .ok op ↔ op.depth ≤ 125) ∧
      ((∃ e, decode op.encode = .error e ∧ e.error.kind = .serialization) ↔ 125 < op.depth) ∧
      Json.Document.read op.encode = (op.toJson.document, []) ∧
      Json.ofDocument? (op.depth + 2) op.toJson.document = some op.toJson := by
  have whole : Json.Document.read op.encode = (op.toJson.document, []) :=
    Json.read_write op.toJson op.plain_toJson
  have fits : op.toJson.brackets ≤ op.depth + 2 := (brackets_toJson_le_iff op _).2 (Nat.le_refl _)
  have value : Json.ofDocument? (op.depth + 2) op.toJson.document = some op.toJson := by
    rw [Json.ofDocument?_document op.toJson op.plain_toJson, if_pos fits]
  rw [decode_encode]
  refine ⟨?_, ?_, whole, value⟩
  · by_cases shallow : op.depth ≤ 125 <;> simp [shallow]
  · by_cases shallow : op.depth ≤ 125
    · simp only [if_pos shallow, reduceCtorEq, false_and, exists_false, false_iff]
      omega
    · have refused : (DecodeError.misfit .malformed).error.kind = .serialization := rfl
      simp only [if_neg shallow, Except.error.injEq, exists_eq_left', refused, true_iff]
      omega

end Operation

end PatchLedger
