import PatchLedger.Instant.Stored
import PatchLedger.Proofs.Instant.RoundTrip
import PatchLedger.Proofs.Json.RoundTrip

/-!
The stored form of an instant is read back, so that no two instants share one.
-/

namespace PatchLedger.Instant

theorem ofStored?_stored (t : Instant) : ofStored? t.stored = some t := by
  have read : Json.Document.read t.stored = (.string (Json.StringBody.pieces t.toText), []) :=
    Json.read_write (.text t.toText) trivial
  have found : (Json.Document.string (Json.StringBody.pieces t.toText)).found =
      .ok (.text t.toText) := by
    simp [Json.Document.found, Json.Document.text, Except.map]
  have shape : Schema.Shape.instant.ofDocument (.string (Json.StringBody.pieces t.toText)) =
      .ok t := by
    simp [Schema.Shape.instant, Schema.Shape.scalar, found, bind, Except.bind, ofText?_toText]
  rw [ofStored?, Schema.Shape.ofText, read]
  simp [shape, bind, Except.bind, Except.toOption]

theorem stored_injective {t u : Instant} (h : t.stored = u.stored) : t = u := by
  have read := ofStored?_stored t
  rw [h, ofStored?_stored] at read
  exact (Option.some.inj read).symm

end PatchLedger.Instant
