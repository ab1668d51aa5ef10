import PatchLedger.Proofs.Instant.Stored
import PatchLedger.Proofs.Ledger.Keeping
import PatchLedger.Proofs.Ranking
import PatchLedger.Proofs.Tree.Lookup

/-!
The history of a tree. Whatever the tree holds, its patches come in the order of
their places (`Tree.pairwise_history`), since sorting keeps equal stamps in the
order of the uuids. Of a tree that keeps the records of given patches and nothing
else the history is known: one patch for each, with its stamp as it was stored.
-/

namespace PatchLedger

section Stable

variable {α : Type} {le : α → α → Bool} (trans : ∀ a b c, le a b → le b c → le a c)
  (total : ∀ a b, le a b || le b a)

include trans total

theorem filter_mergeSort (l : List α) (a : α) :
    (l.mergeSort le).filter (fun b => le a b && le b a) = l.filter fun b => le a b && le b a := by
  have alike : (l.filter fun b => le a b && le b a).Pairwise fun b c => le b c := by
    refine List.pairwise_of_forall_mem_list fun b member c member' => ?_
    have below := (Bool.and_eq_true_iff.1 (List.mem_filter.1 member).2).2
    have above := (Bool.and_eq_true_iff.1 (List.mem_filter.1 member').2).1
    exact trans b a c below above
  have kept := (List.sublist_mergeSort trans total alike List.filter_sublist).filter
    fun b => le a b && le b a
  rw [List.filter_filter, List.filter_congr (fun b _ => Bool.and_self _)] at kept
  exact (kept.eq_of_length ((List.mergeSort_perm l le).filter _).length_eq.symm).symm

theorem pairwise_mergeSort_of_pairwise {before : α → α → Prop} {l : List α}
    (ordered : l.Pairwise before) :
    (l.mergeSort le).Pairwise fun a b => le a b ∧ (le b a → before a b) := by
  have sorted := List.pairwise_mergeSort trans total l
  refine List.pairwise_of_forall_sublist fun {a b} pair => ?_
  have first : le a b := sorted.forall_sublist pair
  refine ⟨first, fun back => ?_⟩
  have alone : le a a := by simpa using total a a
  have alike := pair.filter fun b => le a b && le b a
  rw [filter_mergeSort trans total, List.filter_cons_of_pos (by simp [alone]),
    List.filter_cons_of_pos (by simp [first, back]), List.filter_nil] at alike
  exact ordered.forall_sublist (alike.trans List.filter_sublist)

end Stable

namespace Tree

def rows (t : Tree) (setup : Setup) (clock : Nat → Instant) : List Loaded :=
  t.sheets.mapIdx fun i sheet => sheet.loaded setup (clock i)

theorem rows_eq_mapIdx (t : Tree) (setup : Setup) (clock : Nat → Instant) :
    t.rows setup clock = t.uuids.mapIdx fun i uuid => (t.sheet uuid).loaded setup (clock i) := by
  apply List.ext_getElem
  · simp [rows, t.sheets_eq_map]
  · intro i bound bound'
    simp [rows, t.sheets_eq_map]

theorem history_perm (t : Tree) (setup : Setup) (clock : Nat → Instant) :
    (t.history setup clock).Perm (t.rows setup clock) :=
  List.mergeSort_perm _ _

theorem map_uuid_rows (t : Tree) (setup : Setup) (clock : Nat → Instant) :
    (t.rows setup clock).map (fun loaded => loaded.patch.uuid) = t.sheets.map Sheet.uuid := by
  apply List.ext_getElem
  · simp [rows]
  · intro i bound bound'
    simp [rows, Sheet.loaded, Sheet.patch]

theorem pairwise_rows (t : Tree) (setup : Setup) (clock : Nat → Instant) :
    (t.rows setup clock).Pairwise fun a b =>
      Bytes.ofText a.patch.uuid < Bytes.ofText b.patch.uuid := by
  have ordered : (t.sheets.map Sheet.uuid).Pairwise fun u v => Bytes.ofText u < Bytes.ofText v :=
    List.pairwise_map.2 t.pairwise_sheets
  rw [← t.map_uuid_rows setup clock, List.pairwise_map] at ordered
  exact ordered

theorem pairwise_history (t : Tree) (setup : Setup) (clock : Nat → Instant) :
    ((t.history setup clock).map Loaded.patch).Pairwise Patch.Precedes := by
  have sorted := pairwise_mergeSort_of_pairwise
    (fun a b c (h : decide (b.patch.stamp ≤ a.patch.stamp) = true)
        (k : decide (c.patch.stamp ≤ b.patch.stamp) = true) =>
      decide_eq_true (Std.le_trans (of_decide_eq_true k) (of_decide_eq_true h)))
    (fun a b => by simpa using Std.le_total) (t.pairwise_rows setup clock)
  refine List.pairwise_map.2 (sorted.imp ?_)
  intro a b ⟨first, ties⟩
  have first := of_decide_eq_true first
  by_cases same : a.patch.stamp = b.patch.stamp
  · exact Or.inr ⟨same, ties (decide_eq_true (same ▸ Std.le_refl _))⟩
  · exact Or.inl (Std.lt_of_le_of_ne first (Ne.symm same))

theorem map_uuid_history (t : Tree) (setup : Setup) (clock : Nat → Instant) :
    ((t.history setup clock).map fun loaded => loaded.patch.uuid).Perm (t.sheets.map Sheet.uuid) := by
  rw [← t.map_uuid_rows setup clock]
  exact (t.history_perm setup clock).map _

theorem uuids_history (t : Tree) (setup : Setup) (clock : Nat → Instant) :
    ((t.history setup clock).map fun loaded => loaded.patch.uuid).Perm t.uuids :=
  t.map_uuid_sheets ▸ t.map_uuid_history setup clock

theorem exists_mem_history_iff {t : Tree} {setup : Setup} {clock : Nat → Instant} {uuid : String} :
    (∃ loaded ∈ t.history setup clock, loaded.patch.uuid = uuid) ↔ t.Names uuid := by
  rw [← mem_uuids, ← (t.uuids_history setup clock).mem_iff, List.mem_map]

theorem length_history (t : Tree) (setup : Setup) (clock : Nat → Instant) :
    (t.history setup clock).length = t.sheets.length := by
  rw [(t.history_perm setup clock).length_eq, rows, List.length_mapIdx]

theorem nodup_uuids_history (t : Tree) (setup : Setup) (clock : Nat → Instant) :
    ((t.history setup clock).map fun loaded => loaded.patch.uuid).Nodup :=
  (t.map_uuid_history setup clock).nodup_iff.2 t.nodup_uuids_sheets

theorem loaded_of_mem_history {t : Tree} {setup : Setup} {clock : Nat → Instant} {loaded : Loaded}
    (h : loaded ∈ t.history setup clock) : t.Names loaded.patch.uuid ∧
      ∃ now, loaded = (t.sheet loaded.patch.uuid).loaded setup now := by
  obtain ⟨i, bound, rfl⟩ := List.mem_mapIdx.1 ((t.history_perm setup clock).mem_iff.1 h)
  obtain ⟨named, form⟩ := mem_sheets.1 (List.getElem_mem bound)
  exact ⟨named, clock i, congrArg (fun sheet => sheet.loaded setup (clock i)) form⟩

def Dated (t : Tree) : Prop := ∀ uuid, t.Names uuid →
  ((t.get? (Key.ofEntry uuid .stamp)).bind Instant.ofStored?).isSome

namespace Dated

variable {t : Tree} (h : t.Dated)

include h

theorem exists_stamp? {sheet : Sheet} (found : sheet ∈ t.sheets) :
    ∃ stamp, sheet.stamp? = some stamp := by
  obtain ⟨named, form⟩ := mem_sheets.1 found
  have read := h _ named
  rw [← t.value?_sheet named.separable, ← form] at read
  exact Option.isSome_iff_exists.1 read

theorem history_eq (setup : Setup) (clock clock' : Nat → Instant) :
    t.history setup clock = t.history setup clock' := by
  have rows_eq : t.rows setup clock = t.rows setup clock' := by
    apply List.ext_getElem
    · simp [rows]
    · intro i bound bound'
      have place : i < t.sheets.length := by simpa [rows] using bound
      obtain ⟨stamp, read⟩ := h.exists_stamp? (List.getElem_mem place)
      simp [rows, Sheet.loaded, Sheet.patch, read]
  exact congrArg (List.mergeSort · _) rows_eq

end Dated

namespace Keeps

variable {t : Tree} {patches : List Patch}

theorem stamp_sheet (h : t.Keeps patches) {p : Patch} (member : p ∈ patches) :
    (t.sheet p.uuid).stamp = some p.stamp.stored :=
  h.value?_sheet member .stamp nofun

theorem dated (h : t.Keeps patches) : t.Dated := by
  intro uuid named
  obtain ⟨p, held, rfl⟩ := List.mem_map.1 (h.names_iff.1 named)
  rw [show t.get? (Key.ofEntry p.uuid .stamp) = some p.stamp.stored from (h.holds p held).stamp,
    Option.bind_some, Instant.ofStored?_stored, Option.isSome_some]

theorem of_mem_history (h : t.Keeps patches) {setup : Setup} {clock : Nat → Instant}
    {loaded : Loaded} (member : loaded ∈ t.history setup clock) :
    ∃ p ∈ patches, loaded.patch.uuid = p.uuid ∧ loaded.patch.stamp = p.stamp ∧
      loaded.seen = some p.stamp.stored := by
  obtain ⟨named, now, form⟩ := loaded_of_mem_history member
  obtain ⟨p, held, same⟩ := List.mem_map.1 (h.names_iff.1 named)
  have stamp := h.stamp_sheet held
  rw [same] at stamp
  refine ⟨p, held, same.symm, ?_, ?_⟩
  · rw [form]
    simp [Sheet.loaded, Sheet.patch, Sheet.stamp?, stamp, Instant.ofStored?_stored]
  · rw [form]
    exact stamp

theorem uuids_history (h : t.Keeps patches) (setup : Setup) (clock : Nat → Instant) :
    ((t.history setup clock).map fun loaded => loaded.patch.uuid).Perm (patches.map Patch.uuid) :=
  (t.map_uuid_history setup clock).trans h.uuids_sheets

theorem length_history (h : t.Keeps patches) (setup : Setup) (clock : Nat → Instant) :
    (t.history setup clock).length = patches.length := by
  simpa using (h.uuids_history setup clock).length_eq

theorem exists_mem_history (h : t.Keeps patches) (setup : Setup) (clock : Nat → Instant) {p : Patch}
    (held : p ∈ patches) : ∃ loaded ∈ t.history setup clock, loaded.patch.uuid = p.uuid ∧
      loaded.patch.stamp = p.stamp ∧ loaded.seen = some p.stamp.stored := by
  have member := (h.uuids_history setup clock).mem_iff.2 (List.mem_map.2 ⟨p, held, rfl⟩)
  obtain ⟨loaded, found, same⟩ := List.mem_map.1 member
  obtain ⟨q, held', uuid, stamp, seen⟩ := h.of_mem_history found
  rw [h.eq_of_uuid held' held (uuid.symm.trans same)] at stamp seen
  exact ⟨loaded, found, same, stamp, seen⟩

theorem places_history (h : t.Keeps patches) (setup : Setup) (clock : Nat → Instant) :
    (((t.history setup clock).map Loaded.patch).map Patch.place).Perm (patches.map Patch.place) := by
  have distinct : (((t.history setup clock).map Loaded.patch).map Patch.uuid).Nodup := by
    rw [List.map_map]
    exact (h.uuids_history setup clock).nodup_iff.2 h.distinct
  refine (List.perm_ext_iff_of_nodup (Patch.nodup_places distinct) (Patch.nodup_places h.distinct)).2
    fun place => ?_
  simp only [List.mem_map]
  constructor
  · rintro ⟨-, ⟨loaded, found, rfl⟩, rfl⟩
    obtain ⟨p, held, uuid, stamp, -⟩ := h.of_mem_history found
    exact ⟨p, held, by rw [Patch.place, Patch.place, uuid, stamp]⟩
  · rintro ⟨p, held, rfl⟩
    obtain ⟨loaded, found, uuid, stamp, -⟩ := h.exists_mem_history setup clock held
    exact ⟨loaded.patch, ⟨loaded, found, rfl⟩, by rw [Patch.place, Patch.place, uuid, stamp]⟩

theorem length_stale (h : t.Keeps patches) (setup : Setup) (clock : Nat → Instant) :
    (Ledger.stale setup (t.history setup clock)).length =
      patches.length - setup.config.retention.toNat := by
  rw [Ledger.stale, List.length_map, List.length_drop, h.length_history]

theorem mem_stale (h : t.Keeps patches) (setup : Setup) (clock : Nat → Instant)
    {entry : String × Option Bytes} : entry ∈ Ledger.stale setup (t.history setup clock) ↔
      ∃ p ∈ patches, entry = (p.uuid, some p.stamp.stored) ∧
        setup.config.retention.toNat ≤ p.rank patches := by
  have ordered := t.pairwise_history setup clock
  have dropped (loaded : Loaded) (found : loaded ∈ t.history setup clock) (p : Patch)
      (same : loaded.patch.place = p.place) :
      loaded.patch ∈ ((t.history setup clock).map Loaded.patch).drop setup.config.retention.toNat ↔
        setup.config.retention.toNat ≤ p.rank patches := by
    rw [Patch.mem_drop_iff ordered (List.mem_map.2 ⟨loaded, found, rfl⟩),
      Patch.rank_eq_of_perm same (h.places_history setup clock)]
  rw [Ledger.stale, List.mem_map]
  constructor
  · rintro ⟨loaded, member, rfl⟩
    have found := List.mem_of_mem_drop member
    obtain ⟨p, held, uuid, stamp, seen⟩ := h.of_mem_history found
    refine ⟨p, held, by rw [uuid, seen], ?_⟩
    rw [← dropped loaded found p (by rw [Patch.place, Patch.place, uuid, stamp]), ← List.map_drop]
    exact List.mem_map.2 ⟨loaded, member, rfl⟩
  · rintro ⟨p, held, rfl, high⟩
    obtain ⟨loaded, found, uuid, stamp, -⟩ := h.exists_mem_history setup clock held
    rw [← dropped loaded found p (by rw [Patch.place, Patch.place, uuid, stamp]), ← List.map_drop] at high
    obtain ⟨other, member, same⟩ := List.mem_map.1 high
    obtain ⟨q, held', uuid', -, seen⟩ := h.of_mem_history (List.mem_of_mem_drop member)
    rw [same, uuid] at uuid'
    rw [← h.eq_of_uuid held held' uuid'] at seen
    exact ⟨other, member, by rw [same, uuid, seen]⟩

theorem stale_pair {p q : Patch} (h : t.Keeps [p, q]) (order : q.Precedes p) {setup : Setup}
    (one : setup.config.retention = 1) (clock : Nat → Instant) :
    Ledger.stale setup (t.history setup clock) = [(p.uuid, some p.stamp.stored)] := by
  have length := h.length_stale setup clock
  rw [one] at length
  obtain ⟨entry, form⟩ := List.length_eq_one_iff.1 length
  have high : setup.config.retention.toNat ≤ p.rank [p, q] := by
    rw [one, Patch.rank, List.countP_cons, List.countP_cons, if_pos (decide_eq_true order)]
    exact Nat.le_add_right 1 _
  have member := (h.mem_stale setup clock).2 ⟨p, List.mem_cons_self, rfl, high⟩
  rw [form, List.mem_singleton] at member
  rw [form, member]

end Keeps

end Tree

end PatchLedger
