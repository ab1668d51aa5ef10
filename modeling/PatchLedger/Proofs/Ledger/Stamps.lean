import PatchLedger.Proofs.Ledger.History
import PatchLedger.Proofs.Ledger.Run

/-!
Stamps through the tree. A patch keeps its stamp from writing to loading: the bytes
under the stamp's key are read back (`Tree.stamp_of_mem_history`), and as no two
instants share their bytes, a pruner that compares bytes compares instants
(`Tree.prune?_stored`).
-/

namespace PatchLedger

namespace Tree

variable {t : Tree} {uuid : String} {stamp : Instant}

theorem stamp_of_mem_history (held : t.get? (Key.ofEntry uuid .stamp) = some stamp.stored)
    {setup : Setup} {clock : Nat → Instant} {loaded : Loaded}
    (member : loaded ∈ t.history setup clock) (same : loaded.patch.uuid = uuid) :
    loaded.patch.stamp = stamp ∧ loaded.isClocked = false := by
  obtain ⟨named, now, form⟩ := loaded_of_mem_history member
  rw [same] at named form
  have sheet : (t.sheet uuid).stamp = some stamp.stored :=
    (t.value?_sheet named.separable .stamp).trans held
  rw [form]
  simp [Loaded.isClocked, Sheet.loaded, Sheet.patch, Sheet.stamp?, sheet, Instant.ofStored?_stored]

theorem prune?_stored (held : t.get? (Key.ofEntry uuid .stamp) = some stamp.stored)
    (seen : Option Instant) : t.prune? uuid (seen.map Instant.stored) =
      if seen = some stamp then some (t.eraseUnder (Key.start uuid)) else none := by
  have same : some stamp.stored = seen.map Instant.stored ↔ seen = some stamp := by
    constructor
    · intro alike
      obtain ⟨other, rfl, stored⟩ := Option.map_eq_some_iff.1 alike.symm
      rw [Instant.stored_injective stored]
    · rintro rfl
      rfl
  rw [prune?, held]
  simp only [same]

end Tree

namespace Ledger

/-- There is an instant for every moment of the years from -262143 to 262142, leap seconds included,
and no two are stored alike. A patch that is written is loaded with its own stamp, never with one
from the clock, and it is pruned if that stamp was seen and not if another one was. -/
theorem stamp_restored :
    (∀ (date : Date) (second nanos : Nat), date.Exists → -262143 ≤ date.year → date.year ≤ 262142 →
      second < 86400 → (nanos < 1000000000 ∨ second % 60 = 59 ∧ nanos < 2000000000) →
      ∃ t : Instant, t.date = date ∧ t.secondOfDay = second ∧ t.nanos = nanos) ∧
      (∀ t : Instant, Instant.ofStored? t.stored = some t) ∧
      (∀ t u : Instant, t ≠ u → t.stored ≠ u.stored) ∧
      ∀ (l : Ledger) (p : Patch), l.isRelevant p → Key.validUuid p.uuid →
        let after := (l.submit p).2.tree
        (l.submit p).1 = .written ∧
          after.get? (Key.ofEntry p.uuid .stamp) = some p.stamp.stored ∧
          (∀ setup clock, (∃ loaded ∈ after.history setup clock, loaded.patch.uuid = p.uuid) ∧
            ∀ loaded ∈ after.history setup clock, loaded.patch.uuid = p.uuid →
              loaded.patch.stamp = p.stamp ∧ loaded.isClocked = false) ∧
          ∀ seen : Option Instant, after.prune? p.uuid (seen.map Instant.stored) =
            if seen = some p.stamp then some (after.eraseUnder (Key.start p.uuid)) else none := by
  refine ⟨fun date second nanos found first last inDay small =>
      Instant.exists_of_date found first last inDay small, Instant.ofStored?_stored,
    fun t u differ same => differ (Instant.stored_injective same), fun l p relevant valid => ?_⟩
  have wrote : (l.submit p).1 = .written := submit_eq_written_iff.2 ⟨relevant, valid⟩
  have held : (l.submit p).2.tree.get? (Key.ofEntry p.uuid .stamp) = some p.stamp.stored :=
    (holds_of_written wrote).1.stamp
  have named : (l.submit p).2.tree.Names p.uuid := ⟨_, _, held,
    Key.uuid?_eq_some_iff.2 ⟨Key.separable_of_validUuid valid, Key.start_prefix_ofEntry _ _⟩⟩
  exact ⟨wrote, held, fun setup clock =>
    ⟨Tree.exists_mem_history_iff.2 named, fun loaded member same =>
      Tree.stamp_of_mem_history held member same⟩, Tree.prune?_stored held⟩

theorem stamp_restored_last_second :
    let stamp : Instant := ⟨8210266876799, 1999999999, by decide, by decide, by decide, by decide⟩
    let setup : Setup := ⟨.ofUri "a", .ofUri "b", {}⟩
    let p : Patch := ⟨"u", .ofUri "a", .ofUri "b", stamp, [], some "interrupted"⟩
    let after := ((⟨setup, .empty, false, [], []⟩ : Ledger).submit p).2.tree
    (∃ t : Instant, t.date = ⟨-262140, 2, 29⟩ ∧ t.secondOfDay = 86399 ∧ t.nanos = 1000000000) ∧
      Instant.ofStored? stamp.stored = some stamp ∧ stamp.stored ≠ Instant.epoch.stored ∧
      (∃ loaded ∈ after.history setup fun _ => .epoch, loaded.patch.stamp = stamp) ∧
      after.prune? "u" (some Instant.epoch.stored) = none := by
  intro stamp setup p after
  obtain ⟨moments, read, apart, written⟩ := stamp_restored
  obtain ⟨-, -, shown, pruned⟩ := written ⟨setup, .empty, false, [], []⟩ p (by decide) (by decide)
  obtain ⟨⟨loaded, member, same⟩, all⟩ := shown setup fun _ => .epoch
  have differ : stamp ≠ .epoch := by decide
  refine ⟨moments ⟨-262140, 2, 29⟩ 86399 1000000000 (by decide) (by decide) (by decide) (by decide)
      (Or.inr (by decide)), read stamp, apart stamp .epoch differ,
    ⟨loaded, member, (all loaded member same).1⟩, ?_⟩
  exact (pruned (some .epoch)).trans (if_neg fun seen => differ (Option.some.inj seen).symm)

end Ledger

end PatchLedger
