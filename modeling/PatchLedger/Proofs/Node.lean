import PatchLedger.Node
import PatchLedger.Proofs.Json.RoundTrip
import PatchLedger.Proofs.Schema.Record

/-!
A node is read back from its members (`Node.ofJson_members`), which are plain
values without brackets of their own.
-/

namespace PatchLedger

open Schema

theorem NodeKind.ofJson_toJson (kind : NodeKind) : NodeKind.shape.ofJson kind.toJson = .ok kind := by
  cases kind <;> rfl

namespace Node

theorem nodup_members (node : Node) : (node.members.map Prod.fst).Nodup := by
  cases h : node.uuid <;> cases k : node.etag <;> simp [members, Json.optionalMember, h, k]

theorem columns_members (node : Node) : ∀ member ∈ node.members, member.1 ∈ record.columns.names := by
  cases h : node.uuid <;> cases k : node.etag <;>
    simp [members, Json.optionalMember, h, k, record, Columns.names]

theorem readNamed_members (node : Node) : record.readNamed Record.fromJson node.members =
    .ok (node.path, node.uuid, node.etag, node.kind, node.size, node.mtime, ()) := by
  cases h : node.uuid <;> cases k : node.etag <;>
    simp [members, Json.optionalMember, h, k, record, Record.readNamed, Columns.read,
      Record.fromJson, Ascending.value?, Shape.optional, Shape.ofJson_text, Shape.ofJson_int64,
      NodeKind.ofJson_toJson, Except.map, bind, Except.bind]

theorem ofJson_members (node : Node) : shape.ofJson (Json.ordered node.members) = .ok node :=
  record.ofJson_ordered node.nodup_members node.columns_members node.readNamed_members

theorem plain_members (node : Node) : ∀ member ∈ node.members, member.2.Plain := by
  have low (n : Int64) : -0x8000000000000000 ≤ n.toInt := n.le_toInt
  have high (n : Int64) : n.toInt < 0x10000000000000000 := Int.lt_trans n.toInt_lt (by decide)
  cases h : node.uuid <;> cases k : node.etag <;>
    simp [members, Json.optionalMember, h, k, Json.Plain, low, high, NodeKind.toJson]

theorem brackets_members (node : Node) : ∀ member ∈ node.members, member.2.brackets = 0 := by
  cases h : node.uuid <;> cases k : node.etag <;>
    simp [members, Json.optionalMember, h, k, Json.brackets, NodeKind.toJson]

theorem brackets_ordered_le_iff (node : Node) (n : Nat) :
    (Json.ordered node.members).brackets ≤ n ↔ 1 ≤ n := by
  cases n with
  | zero => simp [Json.ordered, Json.brackets]
  | succ n =>
    rw [Json.brackets_ordered_le_iff node.nodup_members]
    have flat := node.brackets_members
    simp only [Nat.le_add_left, iff_true]
    exact fun member h => by rw [flat member h]; exact Nat.zero_le n

end Node

end PatchLedger
