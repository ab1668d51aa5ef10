import PatchLedger.Proofs.Json.Brackets
import PatchLedger.Proofs.Operation.RoundTrip

/-!
How deep an operation nests that was read from some text. Its records and their
nodes are parts of the value in the text, each with a bracket of its own, in
whatever form they are written; so the brackets that a reader allows bound the
nesting (`depth_le_of_decode`), and by what can be read back the operation can be
stored again without loss.
-/

namespace PatchLedger

namespace Schema

namespace Record

variable {α : Type} (r : Record α)

theorem exists_read_of_ofJson {json : Json} {a : α} (h : r.shape.ofJson json = .ok a) :
    ∃ (row : r.Row) (at? : Nat → String → Option Json) (absent : Nat → String → Misfit),
      r.columns.read fromJson at? absent 0 = .ok row ∧ r.build row = .ok a ∧
        ∀ position name part, at? position name = some part → part ∈ json.parts := by
  cases json with
  | array items =>
    obtain ⟨row, read, h⟩ := bind_eq_ok.1 h
    obtain ⟨built, made, h⟩ := bind_eq_ok.1 h
    split at h
    · cases h
      exact ⟨row, _, _, read, made, fun position name part found => List.mem_of_getElem? found⟩
    · cases h
  | object written =>
    obtain ⟨-, -, h⟩ := bind_eq_ok.1 h
    obtain ⟨row, read, made⟩ := bind_eq_ok.1 h
    refine ⟨row, _, _, read, made, fun position name part found => ?_⟩
    rw [Json.members, Ascending.value?_ofList] at found
    have member := List.mem_reverse.1 (Ascending.mem_of_value? found)
    exact List.mem_map.2 ⟨_, member, rfl⟩
  | _ => cases h

theorem brackets_pos {json : Json} {a : α} (h : r.shape.ofJson json = .ok a) : 0 < json.brackets := by
  cases json with
  | array items => exact Nat.succ_pos _
  | object written => exact Nat.succ_pos _
  | _ => cases h

end Record

theorem Shape.ofJson_optional_any {json side : Json}
    (h : Shape.any.optional.ofJson json = .ok (some side)) : json = side := by
  cases json <;> cases h <;> rfl

end Schema

namespace Operation

open Schema

theorem Fields.mem_parts {json : Json} {fields : Fields}
    (h : Fields.record.shape.ofJson json = .ok fields) :
    (∃ part ∈ json.parts, Node.shape.ofJson part = .ok fields.node) ∧
      (∀ side, fields.left = some side → side ∈ json.parts) ∧
      ∀ side, fields.right = some side → side ∈ json.parts := by
  obtain ⟨⟨type, node, stamp, moveTo, conflictType, left, right, _⟩, at?, absent, read, built, part⟩ :=
    Fields.record.exists_read_of_ofJson h
  cases built
  obtain ⟨-, read⟩ := Columns.read_cons_eq_ok_iff.1 read
  obtain ⟨nodeRead, read⟩ := Columns.read_cons_eq_ok_iff.1 read
  obtain ⟨-, read⟩ := Columns.read_cons_eq_ok_iff.1 read
  obtain ⟨-, read⟩ := Columns.read_cons_eq_ok_iff.1 read
  obtain ⟨-, read⟩ := Columns.read_cons_eq_ok_iff.1 read
  obtain ⟨leftRead, read⟩ := Columns.read_cons_eq_ok_iff.1 read
  obtain ⟨rightRead, -⟩ := Columns.read_cons_eq_ok_iff.1 read
  have side {position : Nat} {name : String} {found : Option Json}
      (read : (∃ value, at? position name = some value ∧
        Shape.any.optional.ofJson value = .ok found) ∨
        at? position name = none ∧ some none = some found)
      (json' : Json) (same : found = some json') : json' ∈ json.parts := by
    subst same
    rcases read with ⟨value, place, read⟩ | ⟨-, absent⟩
    · exact Shape.ofJson_optional_any read ▸ part _ _ value place
    · cases absent
  refine ⟨?_, side leftRead, side rightRead⟩
  rcases nodeRead with ⟨value, place, read⟩ | ⟨-, absent⟩
  · exact ⟨value, part _ _ value place, read⟩
  · cases absent

theorem required_eq_ok {α : Type} {member : String} {found : Option α} {a : α} :
    required member found = .ok a ↔ found = some a := by
  cases found <;> simp [required]

theorem depth_le_of_ofJson {room : Nat} {json : Json} {op : Operation} (h : ofJson room json = .ok op) :
    op.depth + 2 ≤ json.brackets := by
  induction room generalizing json op with
  | zero => cases h
  | succ room ih =>
    obtain ⟨fields, read, h⟩ := bind_eq_ok.1 h
    obtain ⟨⟨part, inside, node⟩, left, right⟩ := Fields.mem_parts (mapError_eq_ok.1 read)
    split at h
    · cases h
      have outer := Json.brackets_lt_of_mem_parts inside
      have inner : 0 < part.brackets := Node.record.brackets_pos node
      rw [depth]
      omega
    · obtain ⟨type, -, h⟩ := bind_eq_ok.1 h
      obtain ⟨one, hasLeft, h⟩ := bind_eq_ok.1 h
      obtain ⟨other, hasRight, h⟩ := bind_eq_ok.1 h
      obtain ⟨first, readLeft, h⟩ := bind_eq_ok.1 h
      obtain ⟨second, readRight, h⟩ := bind_eq_ok.1 h
      cases h
      have inLeft := Json.brackets_lt_of_mem_parts (left one (required_eq_ok.1 hasLeft))
      have inRight := Json.brackets_lt_of_mem_parts (right other (required_eq_ok.1 hasRight))
      have firstDepth := ih readLeft
      have secondDepth := ih readRight
      rw [depth]
      omega

theorem depth_le_of_decode {data : Bytes} {op : Operation} (h : decode data = .ok op) :
    op.depth ≤ 125 := by
  rw [decode] at h
  split at h
  · next json parsed =>
    have brackets := Json.brackets_le_of_parse? parsed
    have nested := depth_le_of_ofJson h
    rw [Json.nestLimit] at brackets
    omega
  · cases h

/-- Whatever text an operation was read from, its stored form is read as the same operation, and
storing that again gives the same bytes. -/
theorem decode_encode_of_decode {data : Bytes} {op : Operation} (h : decode data = .ok op) :
    decode op.encode = .ok op ∧ (decode op.encode).map encode = .ok op.encode := by
  have again : decode op.encode = .ok op := by
    rw [decode_encode, if_pos (depth_le_of_decode h)]
  exact ⟨again, by rw [again]; rfl⟩

/-- Records in array form, one of them with its type as an object, an escaped letter, a leap second
between blanks, with ten places and an offset, and a year of five digits. -/
theorem decode_encode_of_decode_loose :
    let data := Bytes.ofText <|
      "[\"conflict\",[\"n\",null,null,\"folder\"],\"2024-05-01t12:00:00z\",null,\"node_type\"," ++
      "[\x7b\"move\":null\x7d,[\"\\u0070\",null,null,\"file\",-1]," ++
      "\"-2024-5-1T 23 :59:60.1234567891 +00:30\",\"q\"]," ++
      "[\"delete\",[\"p\",null,null,\"file\"],\"+12024-05-01 00:00:00Z\"]]"
    ∃ op, decode data = .ok op ∧ op.depth = 1 ∧ decode op.encode = .ok op ∧
      (decode op.encode).map encode = .ok op.encode := by
  intro data
  have nested : (decode data).toOption.map depth = some 1 := by decide +kernel
  obtain ⟨op, read, depth⟩ := Option.map_eq_some_iff.1 nested
  have read : decode data = .ok op := toOption_eq_some.1 read
  exact ⟨op, read, depth, decode_encode_of_decode read⟩

end Operation

end PatchLedger
