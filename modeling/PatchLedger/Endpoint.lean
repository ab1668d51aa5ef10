import PatchLedger.Json.Writer
import PatchLedger.Schema.Record

/-!
Endpoints of a synchronisation. An endpoint is known by its URI, and may be able
to be a source, a target, both or neither.
-/

namespace PatchLedger

structure EndpointInfo where
  uri : String
  requiresNormalization : Bool := false
  requiresFoldersRescan : Bool := false
  isAsynchronous : Bool := false
deriving DecidableEq, Repr

structure Endpoint where
  info : EndpointInfo
  canBeSource : Bool := true
  canBeTarget : Bool := true
deriving DecidableEq, Repr

namespace EndpointInfo

def toJson (info : EndpointInfo) : Json :=
  .object
    [("uri", .text info.uri), ("requires_normalization", .bool info.requiresNormalization),
      ("requires_folders_rescan", .bool info.requiresFoldersRescan),
      ("is_asynchronous", .bool info.isAsynchronous)]

open Schema

def record : Record EndpointInfo where
  title := "EndpointInfo"
  lengthText := "struct EndpointInfo with 4 elements"
  tolerant := true
  columns :=
    .cons ⟨"uri", Shape.text, none⟩ <|
    .cons ⟨"requires_normalization", Shape.boolean, none⟩ <|
    .cons ⟨"requires_folders_rescan", Shape.boolean, none⟩ <|
    .cons ⟨"is_asynchronous", Shape.boolean, none⟩ .nil
  build := fun (uri, requiresNormalization, requiresFoldersRescan, isAsynchronous, _) =>
    .ok { uri, requiresNormalization, requiresFoldersRescan, isAsynchronous }

def shape : Shape EndpointInfo := record.shape

end EndpointInfo

namespace Endpoint

def ofUri (uri : String) : Endpoint := { info := { uri } }

def uri (e : Endpoint) : String := e.info.uri

def asSource? (e : Endpoint) : Option Endpoint := if e.canBeSource then some e else none

def asTarget? (e : Endpoint) : Option Endpoint := if e.canBeTarget then some e else none

end Endpoint

end PatchLedger
