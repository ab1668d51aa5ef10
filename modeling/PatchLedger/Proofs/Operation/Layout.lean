import PatchLedger.Proofs.Json.Grammar
import PatchLedger.Proofs.Operation.Nesting
import PatchLedger.Proofs.Schema.Rewriting

/-!
What the layout of a text may change: where white space stands and how strings
are spelled, the order of members, and members that a record or a node does not
know. None of it is seen by the reader of operations (`Operation.decode_relaid`).
A value without its layout is its `content`; records are read from the content
as they are from the value, and a change of layout leaves the content.
-/

namespace PatchLedger

open Schema

namespace Operation

inductive Role where
  | record
  | node
  | other

namespace Role

def columns? : Role → Option (List String)
  | record => some Fields.record.columns.names
  | node => some Node.record.columns.names
  | other => none

def counts (role : Role) (name : String) : Bool := role.columns?.all (·.contains name)

def member : Role → String → Role
  | record, "node" => node
  | record, "left_op" => record
  | record, "right_op" => record
  | _, _ => other

def item (role : Role) (i : Nat) : Role := ((role.columns?.getD [])[i]?).elim other role.member

mutual

/-- A value without its layout: the members that count, sorted. -/
def content : Role → Json → Json
  | role, .array items => .array (contentItems role 0 items)
  | role, .object members => Json.ordered (contentMembers role members)
  | _, json => json

def contentItems (role : Role) : (position : Nat) → List Json → List Json
  | _, [] => []
  | position, item :: others =>
      content (role.item position) item :: contentItems role (position + 1) others

def contentMembers (role : Role) : List (String × Json) → List (String × Json)
  | [] => []
  | (name, value) :: others =>
      if role.counts name then (name, content (role.member name) value) :: contentMembers role others
      else contentMembers role others

end

theorem contentMembers_eq (role : Role) (members : List (String × Json)) :
    contentMembers role members = (members.filter fun member => role.counts member.1).map
      fun member => (member.1, content (role.member member.1) member.2) := by
  induction members with
  | nil => rfl
  | cons member others ih =>
    rw [contentMembers, List.filter_cons, ih]
    split <;> rfl

theorem length_contentItems (role : Role) (position : Nat) (items : List Json) :
    (contentItems role position items).length = items.length := by
  induction items generalizing position with
  | nil => rfl
  | cons item others ih => rw [contentItems, List.length_cons, List.length_cons, ih]

theorem contentItems_append (role : Role) (position : Nat) (xs ys : List Json) :
    contentItems role position (xs ++ ys) =
      contentItems role position xs ++ contentItems role (position + xs.length) ys := by
  induction xs generalizing position with
  | nil => rfl
  | cons x xs ih =>
    rw [List.cons_append, contentItems, contentItems, ih, List.length_cons, Nat.add_right_comm]
    rfl

theorem getElem?_contentItems (role : Role) (position : Nat) (items : List Json) (i : Nat) :
    (contentItems role position items)[i]? =
      (items[i]?).map (content (role.item (position + i))) := by
  induction items generalizing position i with
  | nil => rfl
  | cons item others ih =>
    cases i with
    | zero => rfl
    | succ i => rw [contentItems, List.getElem?_cons_succ, List.getElem?_cons_succ, ih, Nat.add_right_comm]; rfl

theorem found_content (role : Role) (json : Json) : (role.content json).found = json.found := by
  cases json <;> simp [content, Json.found, Json.ordered]

theorem content_eq_null_iff {role : Role} {json : Json} : role.content json = .null ↔ json = .null := by
  cases json <;> simp [content, Json.ordered]

theorem members_members (written : List (String × Json)) :
    Json.members (Json.members written) = Json.members written :=
  Ascending.ofList_of_ascends (Ascending.ascends_ofList written)

theorem members_content (role : Role) (members : List (String × Json)) :
    Json.members (contentMembers role members) =
      ((Json.members members).filter fun member => role.counts member.1).map
        fun member => (member.1, content (role.member member.1) member.2) := by
  rw [contentMembers_eq, Json.members, Ascending.ofList_map fun name => content (role.member name),
    Ascending.ofList_filter, Json.members]

theorem follows_text (role : Role) : Shape.text.Follows role.content id :=
  Shape.follows_scalar role.found_content _

theorem follows_integer {α : Type} (title : String) (low high : Int) (ofInt : Int → α) (role : Role) :
    (Shape.integer title low high ofInt).Follows role.content id :=
  Shape.follows_scalar role.found_content _

theorem follows_instant (role : Role) : Shape.instant.Follows role.content id :=
  Shape.follows_scalar role.found_content _

theorem follows_optional {α : Type} {shape : Shape α} {role : Role}
    (h : shape.Follows role.content id) : shape.optional.Follows role.content id := by
  have optional := Shape.follows_optional (fun _ => content_eq_null_iff) h
  rwa [Option.map_id] at optional

theorem follows_choice {α : Type} (variants : List (String × α)) :
    (Shape.choice variants).Follows other.content id := by
  refine Shape.follows_id fun json => ?_
  cases json with
  | object written =>
    have sorted : Json.members (Json.members (contentMembers other written)) =
        (Json.members written).map fun member => (member.1, content other member.2) := by
      rw [members_members, members_content]
      simp [counts, columns?, member]
    simp only [Shape.choice, content, Json.ordered, sorted]
    generalize Json.members written = members
    cases members with
    | nil => rfl
    | cons member others =>
      cases others with
      | nil =>
        have unit : Shape.unit.ofJson (other.content member.2) = Shape.unit.ofJson member.2 :=
          Shape.ofJson_scalar_congr _ (found_content other member.2)
        simp only [List.map_cons, List.map_nil, unit]
      | cons => rfl
  | _ => rfl

end Role

theorem ofJson_content {α : Type} (r : Schema.Record α) (role : Role)
    (columns : role.columns? = some r.columns.names) (tolerant : r.tolerant = true)
    {g : r.Row → r.Row} (follows : r.columns.Follows (fun name => (role.member name).content) g)
    {h : α → α} (build : ∀ row, r.build (g row) = (r.build row).map h) :
    r.shape.Follows role.content h := by
  intro json
  cases json with
  | object written =>
    have keepsColumns : ∀ name ∈ r.columns.names, role.counts name = true := fun name column => by
      simpa [Role.counts, columns] using column
    exact r.ofJson_object_follows follows build tolerant keepsColumns
      ((Role.members_members _).trans (role.members_content written))
  | array items =>
    refine r.ofJson_array_follows follows build (role.length_contentItems 0 items) fun i name column => ?_
    have place : role.item (0 + i) = role.member name := by
      simp [Role.item, columns, column]
    rw [role.getElem?_contentItems, place]
  | null | bool b | int n | double f | text s => rfl

theorem Node.columns_follow :
    Node.record.columns.All fun shape => shape.Follows Role.other.content id :=
  ⟨Role.follows_text _, Role.follows_optional (Role.follows_text _),
    Role.follows_optional (Role.follows_text _), Role.follows_choice _, Role.follows_integer _ _ _ _ _,
    Role.follows_integer _ _ _ _ _, trivial⟩

theorem Node.follows_content : Node.shape.Follows Role.node.content id :=
  ofJson_content Node.record .node rfl rfl (Columns.follows_of_all Node.columns_follow) fun _ => rfl

theorem Fields.columns_follow :
    Fields.record.columns.Follows (fun name => (Role.record.member name).content)
      (Prod.map id <| Prod.map id <| Prod.map id <| Prod.map id <| Prod.map id <|
        Prod.map (Option.map Role.record.content) <| Prod.map (Option.map Role.record.content) id) :=
  .cons (Role.follows_choice _) rfl <| .cons Node.follows_content rfl <|
    .cons (Role.follows_instant _) rfl <| .cons (Role.follows_optional (Role.follows_text _)) rfl <|
    .cons (Role.follows_optional (Role.follows_choice _)) rfl <|
    .cons (Shape.follows_optional (fun _ => Role.content_eq_null_iff) Shape.follows_any) rfl <|
    .cons (Shape.follows_optional (fun _ => Role.content_eq_null_iff) Shape.follows_any) rfl .nil

/-- The sides of a conflict are read as they stand, so what is read of them is content. -/
def Fields.content (fields : Fields) : Fields :=
  { fields with left := fields.left.map Role.record.content
                right := fields.right.map Role.record.content }

theorem Fields.follows_content : Fields.record.shape.Follows Role.record.content Fields.content :=
  ofJson_content Fields.record .record rfl rfl Fields.columns_follow fun _ => rfl

theorem ofJson_record_content (room : Nat) (json : Json) :
    ofJson room (Role.record.content json) = ofJson room json := by
  induction room generalizing json with
  | zero => rfl
  | succ room ih =>
    rw [ofJson, ofJson, Fields.follows_content json]
    cases Fields.record.shape.ofJson json with
    | error misfit => rfl
    | ok fields =>
      obtain ⟨type, node, stamp, moveTo, conflictType, left, right⟩ := fields
      simp only [Except.map, Except.mapError, Fields.content, bind, Except.bind]
      cases type.change? with
      | some kind => rfl
      | none =>
        cases conflictType <;> cases left <;> cases right <;> simp [required, ih]

/-- Two values of one role differ in layout only: members that come once each stand in another order,
members that do not count are put in or left out, and so in what stands inside. -/
inductive Relaid : Role → Json → Json → Prop where
  | refl (role : Role) (json : Json) : Relaid role json json
  | symm {role : Role} {x y : Json} : Relaid role x y → Relaid role y x
  | trans {role : Role} {x y z : Json} : Relaid role x y → Relaid role y z → Relaid role x z
  | reorder {role : Role} {members members' : List (String × Json)}
      (distinct : (members.map Prod.fst).Nodup) (same : members.Perm members') :
      Relaid role (.object members) (.object members')
  | extra {role : Role} {name : String} (value : Json) (before after : List (String × Json))
      (unknown : role.counts name = false) :
      Relaid role (.object (before ++ after)) (.object (before ++ (name, value) :: after))
  | member {role : Role} {name : String} {x y : Json} (before after : List (String × Json)) :
      Relaid (role.member name) x y →
        Relaid role (.object (before ++ (name, x) :: after)) (.object (before ++ (name, y) :: after))
  | item {role : Role} {x y : Json} (before after : List Json) :
      Relaid (role.item before.length) x y →
        Relaid role (.array (before ++ x :: after)) (.array (before ++ y :: after))

theorem Relaid.content_eq {role : Role} {x y : Json} (h : Relaid role x y) :
    role.content x = role.content y := by
  induction h with
  | refl role json => rfl
  | symm _ ih => exact ih.symm
  | trans _ _ first second => exact first.trans second
  | @reorder role members members' distinct same =>
    have names : ((role.contentMembers members).map Prod.fst).Nodup := by
      rw [Role.contentMembers_eq, List.map_map]
      exact (List.filter_sublist.map Prod.fst).nodup distinct
    have sorted : (role.contentMembers members).Perm (role.contentMembers members') := by
      rw [Role.contentMembers_eq, Role.contentMembers_eq]
      exact (same.filter _).map _
    exact congrArg Json.object (Ascending.ofList_perm names sorted)
  | @extra role name value before after unknown =>
    have left : role.contentMembers (before ++ (name, value) :: after) =
        role.contentMembers (before ++ after) := by
      simp [Role.contentMembers_eq, unknown]
    rw [Role.content, Role.content, left]
  | @member role name x y before after _ ih =>
    have same : role.contentMembers (before ++ (name, x) :: after) =
        role.contentMembers (before ++ (name, y) :: after) := by
      cases counts : role.counts name <;> simp [Role.contentMembers_eq, counts, ih]
    rw [Role.content, Role.content, same]
  | @item role x y before after _ ih =>
    rw [Role.content, Role.content, Role.contentItems_append, Role.contentItems_append, Nat.zero_add,
      Role.contentItems, Role.contentItems, ih]

/-- A text is readable exactly if it is a text of some value with at most 127 brackets open at once;
and of two readable texts whose values differ in layout only, wherever white space stands and however
strings are spelled, the same operation is read, or the same error. -/
theorem decode_relaid :
    (∀ s json, Json.parse? s = some json ↔ json.brackets ≤ Json.nestLimit ∧ json.Spelling s) ∧
      ∀ {a b : Bytes} {x y : Json}, x.Spelling a → y.Spelling b → x.brackets ≤ Json.nestLimit →
        y.brackets ≤ Json.nestLimit → Relaid .record x y → decode a = decode b := by
  refine ⟨fun s json => Json.parse?_eq_some_iff, fun {a b x y} first second fits fits' same => ?_⟩
  have parsed : Json.parse? a = some x := Json.parse?_eq_some_iff.2 ⟨fits, first⟩
  have parsed' : Json.parse? b = some y := Json.parse?_eq_some_iff.2 ⟨fits', second⟩
  rw [decode, decode, parsed, parsed']
  calc ofJson Json.nestLimit x = ofJson Json.nestLimit (Role.record.content x) :=
        (ofJson_record_content _ x).symm
    _ = ofJson Json.nestLimit (Role.record.content y) := by rw [same.content_eq]
    _ = ofJson Json.nestLimit y := ofJson_record_content _ y

set_option maxRecDepth 100000 in
theorem decode_relaid_reversed :
    let a := Bytes.ofText <|
      "\x7b\"type\":\"conflict\",\"conflict_type\":\"node_type\"," ++
      "\"node\":\x7b\"path\":\"😀\",\"kind\":\"file\"\x7d,\"stamp\":\"2024-05-01T10:00:00Z\"," ++
      "\"left_op\":\x7b\"type\":\"delete\",\"node\":\x7b\"path\":\"p\",\"kind\":\"file\"\x7d," ++
      "\"stamp\":\"2024-05-01T10:00:00Z\"\x7d," ++
      "\"right_op\":[\"create\",[\"p\",null,null,\"file\"],\"2024-05-01T10:00:00Z\"]\x7d"
    let b := Bytes.ofText <|
      " \x7b\"right_op\" : [\"create\",[\"\\u0070\",null,null,\"file\"],\"2024-05-01T10:00:00Z\"],\n" ++
      "\"left_op\" : \x7b\"type\":\"delete\",\"node\":\x7b\"path\":\"p\",\"kind\":\"file\",\"by\":[null]\x7d," ++
      "\"st\\u0061mp\":\"2024-05-01T10:00:00Z\"\x7d,\"stamp\":\"2024-05-01T10:00:00Z\"," ++
      "\"node\":\x7b\"path\":\"\\ud83d\\uDE00\",\"kind\":\"file\"\x7d," ++
      "\"conflict_type\":\"node_type\",\"type\":\"conflict\"\x7d\t"
    decode a = decode b ∧ (decode a).toOption.map depth = some 1 := by
  intro a b
  let stamp : Json := .text "2024-05-01T10:00:00Z"
  let known : List (String × Json) := [("path", .text "p"), ("kind", .text "file")]
  let side (others : List (String × Json)) : Json :=
    .object [("type", .text "delete"), ("node", .object (known ++ others)), ("stamp", stamp)]
  let members (left : Json) : List (String × Json) :=
    [("type", .text "conflict"), ("conflict_type", .text "node_type"),
      ("node", .object [("path", .text "😀"), ("kind", .text "file")]), ("stamp", stamp),
      ("left_op", left),
      ("right_op", .array [.text "create", .array [.text "p", .null, .null, .text "file"], stamp])]
  have parsed : Json.parse? a = some (.object (members (side []))) := by rfl
  have parsed' : Json.parse? b = some (.object (members (side [("by", .array [.null])])).reverse) := by
    rfl
  have inner : Relaid .record (side []) (side [("by", .array [.null])]) :=
    .member [("type", .text "delete")] [("stamp", stamp)] (.extra (.array [.null]) known [] rfl)
  have same : Relaid .record (.object (members (side [])))
      (.object (members (side [("by", .array [.null])])).reverse) :=
    .trans (.member (members stamp |>.take 4) (members stamp |>.drop 5) inner)
      (.reorder (by simp [members]) (List.reverse_perm _).symm)
  obtain ⟨fits, spelling⟩ := (decode_relaid.1 _ _).1 parsed
  obtain ⟨fits', spelling'⟩ := (decode_relaid.1 _ _).1 parsed'
  exact ⟨decode_relaid.2 spelling spelling' fits fits' same, by decide +kernel⟩

end Operation

end PatchLedger
