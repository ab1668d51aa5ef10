/-!
Instants of universal time: Unix seconds and nanoseconds, from the year -262143
to the year 262142. A leap second is the second before the minute with a
nanosecond count of 10^9 and above, so it lies after all other moments of that
second and before the next minute. Instants are ordered by seconds, then
nanoseconds.
-/

namespace PatchLedger

structure Instant where
  seconds : Int
  nanos : Nat
  first_le : -8334601228800 ≤ seconds
  le_last : seconds ≤ 8210266876799
  nanos_lt : nanos < 2000000000
  leap : 1000000000 ≤ nanos → seconds % 60 = 59
deriving DecidableEq, Repr

namespace Instant

def ofParts? (seconds : Int) (nanos : Nat) : Option Instant :=
  if h : (-8334601228800 ≤ seconds ∧ seconds ≤ 8210266876799) ∧ nanos < 2000000000 ∧
      (1000000000 ≤ nanos → seconds % 60 = 59) then
    some ⟨seconds, nanos, h.1.1, h.1.2, h.2.1, h.2.2⟩
  else none

@[simp] theorem ofParts?_parts (t : Instant) : ofParts? t.seconds t.nanos = some t :=
  dif_pos ⟨⟨t.first_le, t.le_last⟩, t.nanos_lt, t.leap⟩

theorem ext_parts {t u : Instant} (seconds : t.seconds = u.seconds) (nanos : t.nanos = u.nanos) :
    t = u := by
  cases t
  cases u
  cases seconds
  cases nanos
  rfl

def epoch : Instant := ⟨0, 0, by decide, by decide, by decide, by decide⟩

instance : Inhabited Instant := ⟨epoch⟩

instance : LE Instant where
  le t u := t.seconds < u.seconds ∨ t.seconds = u.seconds ∧ t.nanos ≤ u.nanos

instance : LT Instant where
  lt t u := t.seconds < u.seconds ∨ t.seconds = u.seconds ∧ t.nanos < u.nanos

theorem le_def {t u : Instant} :
    t ≤ u ↔ t.seconds < u.seconds ∨ t.seconds = u.seconds ∧ t.nanos ≤ u.nanos := Iff.rfl

theorem lt_def {t u : Instant} :
    t < u ↔ t.seconds < u.seconds ∨ t.seconds = u.seconds ∧ t.nanos < u.nanos := Iff.rfl

instance : DecidableLE Instant := fun t u =>
  inferInstanceAs (Decidable (t.seconds < u.seconds ∨ t.seconds = u.seconds ∧ t.nanos ≤ u.nanos))

instance : DecidableLT Instant := fun t u =>
  inferInstanceAs (Decidable (t.seconds < u.seconds ∨ t.seconds = u.seconds ∧ t.nanos < u.nanos))

instance : Std.IsLinearOrder Instant where
  le_refl t := by simp [le_def]
  le_trans t u v := by simp only [le_def]; omega
  le_antisymm t u := by
    simp only [le_def]
    exact fun h k => ext_parts (by omega) (by omega)
  le_total t u := by simp only [le_def]; omega

instance : Std.LawfulOrderLT Instant where
  lt_iff t u := by simp only [lt_def, le_def]; omega

end Instant

end PatchLedger
