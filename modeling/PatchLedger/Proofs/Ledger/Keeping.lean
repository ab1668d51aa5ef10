import PatchLedger.Ledger
import PatchLedger.Proofs.Tree.Sheets

/-!
Trees that keep the records of given patches, whole, and nothing else. Writing a
patch puts it in the place of the one of its uuid, and a pruner's step removes the
patch that it names while its stamp is the one that was seen.
-/

namespace PatchLedger

/-- What is kept when patches are written one after another. -/
def Patch.latest (kept patches : List Patch) : List Patch :=
  patches.foldl (fun kept p => p :: kept.filter fun q => q.uuid ≠ p.uuid) kept

theorem Patch.length_operations_toRecord (p : Patch) :
    p.toRecord.operations.length = p.operations.length :=
  List.length_map _

namespace Tree

/-- The tree has the records of the patches, whole, and nothing else. -/
structure Keeps (t : Tree) (patches : List Patch) : Prop where
  valid : ∀ p ∈ patches, Key.validUuid p.uuid
  distinct : (patches.map Patch.uuid).Nodup
  holds : ∀ p ∈ patches, t.Holds p.toRecord
  others : ∀ key value, t.get? key = some value → ∃ p ∈ patches, Key.start p.uuid <+: key

theorem keeps_empty : empty.Keeps [] where
  valid := by simp
  distinct := by simp
  holds := by simp
  others := by simp

namespace Keeps

variable {t : Tree} {patches : List Patch}

theorem separable (h : t.Keeps patches) {p : Patch} (member : p ∈ patches) : Key.Separable p.uuid :=
  Key.separable_of_validUuid (h.valid p member)

theorem eq_of_uuid (h : t.Keeps patches) {p q : Patch} (hp : p ∈ patches) (hq : q ∈ patches)
    (same : p.uuid = q.uuid) : p = q :=
  List.inj_on_of_nodup_map h.distinct hp hq same

theorem congr (h : t.Keeps patches) {others : List Patch} (distinct : (others.map Patch.uuid).Nodup)
    (same : ∀ p, p ∈ others ↔ p ∈ patches) : t.Keeps others where
  valid p member := h.valid p ((same p).1 member)
  distinct := distinct
  holds p member := h.holds p ((same p).1 member)
  others key value found := by
    obtain ⟨p, member, first⟩ := h.others key value found
    exact ⟨p, (same p).2 member, first⟩

theorem names_iff (h : t.Keeps patches) {uuid : String} :
    t.Names uuid ↔ uuid ∈ patches.map Patch.uuid := by
  constructor
  · intro ⟨key, value, found, named⟩
    obtain ⟨separable, first⟩ := Key.uuid?_eq_some_iff.1 named
    obtain ⟨p, member, first'⟩ := h.others key value found
    exact List.mem_map.2 ⟨p, member, Key.eq_of_start_prefix (h.separable member) separable first' first⟩
  · intro member
    obtain ⟨p, held, rfl⟩ := List.mem_map.1 member
    exact ⟨_, _, (h.holds p held).stamp,
      Key.uuid?_eq_some_iff.2 ⟨h.separable held, Key.start_prefix_ofEntry _ _⟩⟩

theorem uuids_sheets (h : t.Keeps patches) :
    (t.sheets.map Sheet.uuid).Perm (patches.map Patch.uuid) := by
  refine (List.perm_ext_iff_of_nodup t.nodup_uuids_sheets h.distinct).2 fun uuid => ?_
  rw [mem_uuids_sheets, h.names_iff]

theorem value?_sheet (h : t.Keeps patches) {p : Patch} (member : p ∈ patches) (e : Entry)
    (bounded : ∀ seq, e = .operation seq → p.toRecord.operations.length < UInt64.size) :
    (t.sheet p.uuid).value? e = p.toRecord.content e :=
  (t.value?_sheet (h.separable member) e).trans ((h.holds p member).get?_ofEntry e bounded)

theorem source_sheet (h : t.Keeps patches) {p : Patch} (member : p ∈ patches) :
    (t.sheet p.uuid).source = some (Bytes.ofText p.source.uri) :=
  h.value?_sheet member .source nofun

theorem patchCount (h : t.Keeps patches) : t.patchCount = patches.length := by
  have all : (t.sheets.filter fun sheet => sheet.source.isSome) = t.sheets := by
    refine List.filter_eq_self.2 fun sheet found => ?_
    obtain ⟨named, form⟩ := mem_sheets.1 found
    obtain ⟨p, held, same⟩ := List.mem_map.1 (h.names_iff.1 named)
    have source := h.source_sheet held
    rw [same, ← form] at source
    rw [source, Option.isSome_some]
  rw [t.patchCount_eq, all]
  simpa using h.uuids_sheets.length_eq

theorem of_agreeBut (h : t.Keeps patches) {uuid : String} (separable : Key.Separable uuid) {t' : Tree}
    (agree : AgreeBut uuid t' t) :
    (∀ q ∈ patches.filter fun q => q.uuid ≠ uuid,
      Key.validUuid q.uuid ∧ q.uuid ≠ uuid ∧ t'.Holds q.toRecord) ∧
      ∀ key value, t'.get? key = some value → ¬ Key.start uuid <+: key →
        ∃ q ∈ patches.filter fun q => q.uuid ≠ uuid, Key.start q.uuid <+: key := by
  constructor
  · intro q member
    obtain ⟨held, differ⟩ := List.mem_filter.1 member
    have differ : q.uuid ≠ uuid := of_decide_eq_true differ
    exact ⟨h.valid q held, differ,
      (h.holds q held).of_agreeBut agree separable (h.separable held) differ⟩
  · intro key value found other
    rw [agree key other] at found
    obtain ⟨q, held, first⟩ := h.others key value found
    have differ : q.uuid ≠ uuid := fun same => other (same ▸ first)
    exact ⟨q, List.mem_filter.2 ⟨held, decide_eq_true differ⟩, first⟩

theorem replace (h : t.Keeps patches) {p : Patch} {t' : Tree}
    (written : t.replace p.toRecord = .ok t') :
    t'.Keeps (p :: patches.filter fun q => q.uuid ≠ p.uuid) := by
  obtain ⟨valid, holds, agree⟩ := replace_eq_ok_iff.1 written
  obtain ⟨stay, others⟩ := h.of_agreeBut (Key.separable_of_validUuid valid) agree
  constructor
  · exact List.forall_mem_cons.2 ⟨valid, fun q member => (stay q member).1⟩
  · refine List.nodup_cons.2 ⟨fun member => ?_, h.distinct.sublist (List.filter_sublist.map _)⟩
    obtain ⟨q, member, same⟩ := List.mem_map.1 member
    exact (stay q member).2.1 same
  · exact List.forall_mem_cons.2 ⟨holds, fun q member => (stay q member).2.2⟩
  · intro key value found
    by_cases first : Key.start p.uuid <+: key
    · exact ⟨p, List.mem_cons_self, first⟩
    · obtain ⟨q, member, first⟩ := others key value found first
      exact ⟨q, List.mem_cons_of_mem p member, first⟩

theorem eraseUnder (h : t.Keeps patches) {uuid : String} (separable : Key.Separable uuid) :
    (t.eraseUnder (Key.start uuid)).Keeps (patches.filter fun q => q.uuid ≠ uuid) := by
  obtain ⟨stay, others⟩ := h.of_agreeBut separable (t.agreeBut_eraseUnder uuid)
  constructor
  · exact fun q member => (stay q member).1
  · exact h.distinct.sublist (List.filter_sublist.map _)
  · exact fun q member => (stay q member).2.2
  · intro key value found
    refine others key value found fun first => ?_
    rw [t.lacks_eraseUnder uuid key first] at found
    cases found

theorem pruneOne (h : t.Keeps patches) {uuid : String} (separable : Key.Separable uuid)
    (seen : Option Bytes) : (Ledger.pruneOne t (uuid, seen)).Keeps
      (patches.filter fun q => ¬ (q.uuid = uuid ∧ some q.stamp.stored = seen)) := by
  have stamp (q : Patch) (held : q ∈ patches) (same : q.uuid = uuid) :
      t.get? (Key.ofEntry uuid .stamp) = some q.stamp.stored := same ▸ (h.holds q held).stamp
  by_cases current : t.get? (Key.ofEntry uuid .stamp) = seen
  · rw [Ledger.pruneOne_of_eq current]
    have alike : (patches.filter fun q => ¬ (q.uuid = uuid ∧ some q.stamp.stored = seen)) =
        patches.filter fun q => q.uuid ≠ uuid := by
      refine List.filter_congr fun q held => decide_eq_decide.2 (not_congr ⟨And.left, fun same => ?_⟩)
      exact ⟨same, (stamp q held same).symm.trans current⟩
    rw [alike]
    exact h.eraseUnder separable
  · rw [Ledger.pruneOne_of_ne current, List.filter_eq_self.2]
    · exact h
    · intro q held
      refine decide_eq_true fun same => current ?_
      rw [stamp q held same.1, same.2]

end Keeps

end Tree

end PatchLedger
