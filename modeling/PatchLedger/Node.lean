import PatchLedger.Json.Writer
import PatchLedger.Schema.Record

/-!
The nodes of a synchronised tree, as operations name them: a path, the identity
of the node where it is known, and its size and modification time in seconds.
-/

namespace PatchLedger

inductive NodeKind where
  | file
  | folder
deriving DecidableEq, Repr

structure Node where
  path : String
  uuid : Option String := none
  etag : Option String := none
  kind : NodeKind := .file
  size : Int64 := 0
  mtime : Int64 := 0
deriving DecidableEq, Repr

namespace NodeKind

def name : NodeKind → String
  | file => "file"
  | folder => "folder"

def all : List NodeKind := [file, folder]

def shape : Schema.Shape NodeKind := Schema.Shape.choice (all.map fun kind => (kind.name, kind))

def toJson (kind : NodeKind) : Json := .text kind.name

end NodeKind

def Json.optionalMember (name : String) (value : Option Json) : List (String × Json) :=
  (value.map fun value => (name, value)).toList

namespace Node

def members (node : Node) : List (String × Json) :=
  ("path", Json.text node.path) ::
    Json.optionalMember "uuid" (node.uuid.map .text) ++
    Json.optionalMember "etag" (node.etag.map .text) ++
    [("kind", node.kind.toJson), ("size", .int node.size.toInt), ("mtime", .int node.mtime.toInt)]

def toJson (node : Node) : Json := .object node.members

open Schema

def record : Record Node where
  title := "Node"
  lengthText := "struct Node with 6 elements"
  tolerant := true
  columns :=
    .cons ⟨"path", Shape.text, none⟩ <|
    .cons ⟨"uuid", Shape.text.optional, some none⟩ <|
    .cons ⟨"etag", Shape.text.optional, some none⟩ <|
    .cons ⟨"kind", NodeKind.shape, none⟩ <|
    .cons ⟨"size", Shape.int64, some 0⟩ <|
    .cons ⟨"mtime", Shape.int64, some 0⟩ .nil
  build := fun (path, uuid, etag, kind, size, mtime, _) => .ok { path, uuid, etag, kind, size, mtime }

def shape : Shape Node := record.shape

end Node

end PatchLedger
