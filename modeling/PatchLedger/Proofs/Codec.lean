import PatchLedger.Config
import PatchLedger.Endpoint
import PatchLedger.Proofs.Node
import PatchLedger.Proofs.Schema.Agreement

/-!
The values that have a text of their own: nodes, endpoints and settings. What is
written is read back, directly from the text and without a limit on brackets, and
a text that both readers accept has one value (`Schema.Shape.Codec`).
-/

namespace PatchLedger

namespace Schema.Shape

variable {α : Type}

/-- A shape reads what is written, and reads a text as one value whether directly or through a value
of JSON. -/
structure Codec (shape : Shape α) (toJson : α → Json) : Prop where
  reads (a : α) : shape.ofText (toJson a).write = .ok a
  agrees {s : Bytes} {a b : α} : shape.ofText s = .ok a → shape.ofTextValue s = .ok b → a = b

theorem ofText_eq_ok_iff {shape : Shape α} {s : Bytes} {a : α} :
    shape.ofText s = .ok a ↔ shape.ofDocument (Json.Document.read s).1 = .ok a ∧
      (Json.Document.read s).2.all Json.Document.isBlank = true := by
  change (shape.ofDocument (Json.Document.read s).1 >>= fun a =>
    if (Json.Document.read s).2.all Json.Document.isBlank then .ok a else .error .malformed) = .ok a ↔ _
  rw [bind_eq_ok]
  split <;> simp_all

theorem ofTextValue_eq_ok_iff {shape : Shape α} {s : Bytes} {a : α} :
    shape.ofTextValue s = .ok a ↔ ∃ json, Json.parse? s = some json ∧ shape.ofJson json = .ok a := by
  rw [ofTextValue]
  cases Json.parse? s <;> simp

theorem Agrees.ofText_write {shape : Shape α} (agrees : shape.Agrees) {json : Json} {a : α}
    (plain : json.Plain) (distinct : json.Distinct) (h : shape.ofJson json = .ok a) :
    shape.ofText json.write = .ok a := by
  have whole : Json.ofDocument? json.brackets json.document = some json := by
    rw [Json.ofDocument?_document json plain, if_pos (Nat.le_refl _)]
  rw [ofText_eq_ok_iff, Json.read_write json plain]
  exact ⟨agrees.ofDocument whole distinct h, rfl⟩

theorem Agrees.eq_of_ofText {shape : Shape α} (agrees : shape.Agrees) {s : Bytes} {a b : α}
    (direct : shape.ofText s = .ok a) (through : shape.ofTextValue s = .ok b) : a = b := by
  obtain ⟨json, parsed, through⟩ := ofTextValue_eq_ok_iff.1 through
  obtain ⟨-, read⟩ := Option.ite_none_right_eq_some.1 parsed
  have same := agrees.ofJson read (ofText_eq_ok_iff.1 direct).1
  rw [through] at same
  exact (Except.ok.inj same).symm

theorem Agrees.codec {shape : Shape α} (agrees : shape.Agrees) {toJson : α → Json}
    (plain : ∀ a, (toJson a).Plain) (distinct : ∀ a, (toJson a).Distinct)
    (read : ∀ a, shape.ofJson (toJson a) = .ok a) : shape.Codec toJson where
  reads a := agrees.ofText_write (plain a) (distinct a) (read a)
  agrees := agrees.eq_of_ofText

theorem ofJson_integer_natCast {title : String} {size n : Nat} {ofInt : Int → α} {a : α}
    (small : n < size) (back : ofInt n = a) :
    (integer title 0 (size - 1) ofInt).ofJson (.int n) = .ok a := by
  have high : (n : Int) ≤ size - 1 := Int.le_sub_one_of_lt (Int.ofNat_lt.2 small)
  simp only [integer, scalar, Json.found]
  rw [if_pos ⟨Int.natCast_nonneg n, high⟩, back]

theorem ofJson_uint64 (title : String) (n : UInt64) :
    (uint64 title).ofJson (.int n.toNat) = .ok n :=
  ofJson_integer_natCast n.toNat_lt n.ofNat_toNat

theorem ofJson_uint32 (n : UInt32) : uint32.ofJson (.int n.toNat) = .ok n :=
  ofJson_integer_natCast n.toNat_lt n.ofNat_toNat

end Schema.Shape

open Schema

theorem Node.agrees_shape : Node.shape.Agrees :=
  Node.record.agrees ⟨Shape.agrees_text, Shape.agrees_optional Shape.agrees_text,
    Shape.agrees_optional Shape.agrees_text, Shape.agrees_choice _, Shape.agrees_integer _ _ _ _,
    Shape.agrees_integer _ _ _ _, trivial⟩

theorem Node.codec : Node.shape.Codec Node.toJson :=
  Node.agrees_shape.codec (fun node => Json.allMembersPlain_iff.2 node.plain_members)
    (fun node => ⟨node.nodup_members, Json.allMembersDistinct_iff.2 fun member inside =>
      Json.distinct_of_brackets_eq_zero (node.brackets_members member inside)⟩)
    fun node => Node.record.ofJson_object node.nodup_members node.columns_members node.readNamed_members

theorem EndpointInfo.agrees_shape : EndpointInfo.shape.Agrees :=
  EndpointInfo.record.agrees ⟨Shape.agrees_text, Shape.agrees_boolean, Shape.agrees_boolean,
    Shape.agrees_boolean, trivial⟩

theorem EndpointInfo.ofJson_toJson (info : EndpointInfo) : shape.ofJson info.toJson = .ok info := by
  have read : record.readNamed Record.fromJson
      [("uri", .text info.uri), ("requires_normalization", .bool info.requiresNormalization),
        ("requires_folders_rescan", .bool info.requiresFoldersRescan),
        ("is_asynchronous", .bool info.isAsynchronous)] =
      .ok (info.uri, info.requiresNormalization, info.requiresFoldersRescan, info.isAsynchronous, ()) :=
    rfl
  exact record.ofJson_object (by simp) (by simp [record, Columns.names]) read

theorem EndpointInfo.codec : EndpointInfo.shape.Codec EndpointInfo.toJson :=
  EndpointInfo.agrees_shape.codec (fun info => by simp [toJson, Json.Plain, Json.AllMembersPlain])
    (fun info => by simp [toJson, Json.Distinct, Json.AllMembersDistinct]) EndpointInfo.ofJson_toJson

namespace Duration

theorem agrees_shape : shape.Agrees :=
  record.agrees ⟨Shape.agrees_integer _ _ _ _, Shape.agrees_integer _ _ _ _, trivial⟩

theorem ofParts?_parts (d : Duration) : ofParts? d.seconds d.nanos = some d := by
  have none : d.nanos.toNat / 1000000000 = 0 := Nat.div_eq_of_lt d.nanos_lt
  have seconds : d.seconds.toNat < UInt64.size := d.seconds.toNat_lt
  unfold ofParts?
  simp only [none, Nat.add_zero, if_pos seconds, Nat.mod_eq_of_lt d.nanos_lt, UInt64.ofNat_toNat,
    UInt32.ofNat_toNat]

theorem ofJson_toJson (d : Duration) : shape.ofJson d.toJson = .ok d := by
  have read : record.readNamed Record.fromJson
      [("secs", .int d.seconds.toNat), ("nanos", .int d.nanos.toNat)] =
      .ok (d.seconds, d.nanos, ()) :=
    Columns.read_cons_eq_ok_iff.2 ⟨Or.inl ⟨_, rfl, Shape.ofJson_uint64 "u64" d.seconds⟩,
      Columns.read_cons_eq_ok_iff.2 ⟨Or.inl ⟨_, rfl, Shape.ofJson_uint32 d.nanos⟩, rfl⟩⟩
  have built : record.build (d.seconds, d.nanos, ()) = .ok d := by
    simp [record, ofParts?_parts]
  exact (record.ofJson_object (by simp) (by simp [record, Columns.names]) read).trans built

theorem plain_toJson (d : Duration) : d.toJson.Plain := by
  have seconds : (d.seconds.toNat : Int) < UInt64.size := Int.ofNat_lt.2 d.seconds.toNat_lt
  have nanos : (d.nanos.toNat : Int) < UInt64.size :=
    Int.ofNat_lt.2 (Nat.lt_trans d.nanos_lt (by decide))
  refine ⟨⟨?_, seconds⟩, ⟨?_, nanos⟩, trivial⟩ <;> omega

end Duration

namespace Config

theorem agrees_shape : shape.Agrees :=
  record.agrees ⟨Shape.agrees_integer _ _ _ _, Duration.agrees_shape, Shape.agrees_text, trivial⟩

theorem ofJson_toJson (c : Config) : shape.ofJson c.toJson = .ok c := by
  have read : record.readNamed Record.fromJson
      [("retention", .int c.retention.toNat), ("open_timeout", c.openTimeout.toJson),
        ("file_name", .text c.fileName)] = .ok (c.retention, c.openTimeout, c.fileName, ()) :=
    Columns.read_cons_eq_ok_iff.2 ⟨Or.inl ⟨_, rfl, Shape.ofJson_uint64 "usize" c.retention⟩,
      Columns.read_cons_eq_ok_iff.2 ⟨Or.inl ⟨_, rfl, c.openTimeout.ofJson_toJson⟩,
        Columns.read_cons_eq_ok_iff.2 ⟨Or.inl ⟨_, rfl, rfl⟩, rfl⟩⟩⟩
  exact record.ofJson_object (by simp) (by simp [record, Columns.names]) read

theorem plain_toJson (c : Config) : c.toJson.Plain := by
  have retention : (c.retention.toNat : Int) < UInt64.size := Int.ofNat_lt.2 c.retention.toNat_lt
  refine ⟨⟨?_, retention⟩, c.openTimeout.plain_toJson, trivial, trivial⟩
  omega

theorem distinct_toJson (c : Config) : c.toJson.Distinct := by
  simp [toJson, Duration.toJson, Json.Distinct, Json.AllMembersDistinct]

theorem codec : shape.Codec toJson :=
  agrees_shape.codec plain_toJson distinct_toJson ofJson_toJson

end Config

/-- Every node, endpoint and setting is read back from its own text, and a text that both readers
accept as one of them has one value. -/
theorem codecs : Node.shape.Codec Node.toJson ∧ EndpointInfo.shape.Codec EndpointInfo.toJson ∧
    Config.shape.Codec Config.toJson :=
  ⟨Node.codec, EndpointInfo.codec, Config.codec⟩

theorem codecs_reordered :
    let s := Bytes.ofText <|
      "\x7b\"x\":1,\"size\":-3,\"kind\":\x7b\"folder\":null\x7d,\"x\":[\x7b\x7d],\"path\":\"\\u0070\"\x7d"
    ∃ node, Node.shape.ofText s = .ok node ∧ Node.shape.ofTextValue s = .ok node ∧
      node.kind = .folder ∧ Node.shape.ofText node.toJson.write = .ok node := by
  intro s
  have direct : (Node.shape.ofText s).toOption.map Node.kind = some .folder := by decide +kernel
  have through : (Node.shape.ofTextValue s).toOption.isSome = true := by decide +kernel
  obtain ⟨node, read, kind⟩ := Option.map_eq_some_iff.1 direct
  obtain ⟨other, readValue⟩ := Option.isSome_iff_exists.1 through
  have read := toOption_eq_some.1 read
  have readValue := toOption_eq_some.1 readValue
  have same : node = other := codecs.1.agrees read readValue
  exact ⟨node, read, same ▸ readValue, kind, codecs.1.reads node⟩

end PatchLedger
