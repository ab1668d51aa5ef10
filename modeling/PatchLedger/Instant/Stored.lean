import PatchLedger.Instant.Text
import PatchLedger.Json.Writer
import PatchLedger.Schema.Shape

/-!
The stored form of an instant: its text as a JSON string.
-/

namespace PatchLedger.Instant

def stored (t : Instant) : Bytes := (Json.text t.toText).write

def ofStored? (b : Bytes) : Option Instant := (Schema.Shape.instant.ofText b).toOption

end PatchLedger.Instant
