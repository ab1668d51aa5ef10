import Mathlib.Data.List.Dedup
import Mathlib.Data.List.TakeWhile
import PatchLedger.Proofs.Tree.Sheets

/-!
Sheets as look-ups. A tree has one sheet for each of its uuids
(`Tree.sheets_eq_map`), and what stands on the sheet of a uuid depends on nothing
but the keys under that uuid (`Tree.AgreeAt.sheet_eq`). Keys under no uuid, wherever
they lie between the others, make no difference to the sheets (`Tree.sheets_congr`).
-/

namespace PatchLedger

namespace Key

/-- The key begins with no uuid: it has no separator, or what stands before the first one is no text. -/
def Foreign (key : Bytes) : Prop :=
  separator ∉ key ∨ Bytes.text? (key.takeWhile (· ≠ separator)) = none

theorem uuid?_eq_none_iff {key : Bytes} : uuid? key = none ↔ Foreign key := by
  have whole : key.dropWhile (· ≠ separator) = [] ↔ separator ∉ key := by
    rw [List.dropWhile_eq_nil_iff]
    exact ⟨fun all member => of_decide_eq_true (all _ member) rfl,
      fun free b member => decide_eq_true fun same => free (same ▸ member)⟩
  rw [uuid?, Option.map_eq_none_iff, parse?, Foreign, ← whole]
  split
  · next none => simp only [none, true_or]
  · next first name some =>
    rw [some, Option.map_eq_none_iff]
    simp

end Key

namespace Tree

/-- The uuids that the keys of a tree begin with, each once, in their order. -/
def uuids (t : Tree) : List String := (t.toList.filterMap fun entry => Key.uuid? entry.1).dedup

theorem mem_uuids {t : Tree} {uuid : String} : uuid ∈ t.uuids ↔ t.Names uuid := by
  rw [uuids, List.mem_dedup, List.mem_filterMap, names_iff]

theorem nodup_uuids (t : Tree) : t.uuids.Nodup := List.nodup_dedup _

theorem pairwise_uuids (t : Tree) :
    t.uuids.Pairwise fun u v => Bytes.ofText u < Bytes.ofText v := by
  have grouped : (t.toList.filterMap fun entry => Key.uuid? entry.1).Pairwise
      fun u v => ¬ Bytes.ofText v < Bytes.ofText u := by
    refine List.Pairwise.filterMap _ ?_ t.grouped_toList
    intro a b order u here v there
    exact order u v here there
  refine ((grouped.sublist (List.dedup_sublist _)).and t.nodup_uuids).imp ?_
  intro u v ⟨order, differ⟩
  exact Std.lt_of_le_of_ne (List.not_lt.1 order) fun same => differ (Bytes.ofText_injective same)

theorem eq_of_pairwise_uuids {us vs : List String}
    (first : us.Pairwise fun u v => Bytes.ofText u < Bytes.ofText v)
    (second : vs.Pairwise fun u v => Bytes.ofText u < Bytes.ofText v)
    (same : ∀ uuid, uuid ∈ us ↔ uuid ∈ vs) : us = vs := by
  have nodup {ws : List String} (order : ws.Pairwise fun u v => Bytes.ofText u < Bytes.ofText v) :
      ws.Nodup := by
    refine order.imp ?_
    intro u v less alike
    exact List.lt_irrefl _ (alike ▸ less)
  refine List.Perm.eq_of_pairwise (fun u v _ _ less more => ?_) first second
    ((List.perm_ext_iff_of_nodup (nodup first) (nodup second)).2 same)
  exact absurd more (List.lt_asymm less)

theorem map_uuid_sheets (t : Tree) : t.sheets.map Sheet.uuid = t.uuids := by
  refine eq_of_pairwise_uuids (List.pairwise_map.2 t.pairwise_sheets) t.pairwise_uuids fun uuid => ?_
  rw [mem_uuids, mem_uuids_sheets]

theorem sheets_eq_map (t : Tree) : t.sheets = t.uuids.map t.sheet := by
  rw [← t.map_uuid_sheets, List.map_map]
  exact (List.map_id'' (fun sheet => rfl) _).symm.trans
    (List.map_congr_left fun sheet found => (mem_sheets.1 found).2)

theorem uuids_congr {t u : Tree} (h : ∀ uuid, t.Names uuid ↔ u.Names uuid) : t.uuids = u.uuids :=
  eq_of_pairwise_uuids t.pairwise_uuids u.pairwise_uuids fun uuid => by
    rw [mem_uuids, mem_uuids, h]

theorem mem_operations {t : Tree} {uuid : String} (separable : Key.Separable uuid) {seq : UInt64}
    {value : Bytes} : (seq, value) ∈ (t.sheet uuid).operations ↔
      t.get? (Key.ofOperation uuid seq) = some value := by
  have distinct := (t.ascends_operations uuid).nodup
  have read := t.value?_sheet separable (.operation seq)
  rw [Sheet.value?, Ascending.value?_reverse distinct] at read
  rw [← Ascending.value?_eq_some_iff distinct, read, Key.ofOperation]

def AgreeAt (uuid : String) (t u : Tree) : Prop :=
  ∀ key, Key.start uuid <+: key → t.get? key = u.get? key

namespace AgreeAt

variable {uuid : String} {t u : Tree} (h : AgreeAt uuid t u)

include h

theorem symm : AgreeAt uuid u t := fun key first => (h key first).symm

theorem names : t.Names uuid → u.Names uuid := by
  intro ⟨key, value, found, named⟩
  exact ⟨key, value, h key (Key.uuid?_eq_some_iff.1 named).2 ▸ found, named⟩

theorem names_iff : t.Names uuid ↔ u.Names uuid := ⟨h.names, h.symm.names⟩

theorem sheet_eq (separable : Key.Separable uuid) : t.sheet uuid = u.sheet uuid := by
  refine Sheet.ext_value? (by simp) (t.ascends_operations uuid) (u.ascends_operations uuid) fun e => ?_
  rw [t.value?_sheet separable, u.value?_sheet separable, h _ (Key.start_prefix_ofEntry uuid e)]

end AgreeAt

def valuesOf (t : Tree) (uuid : String) (e : Entry) : List Bytes :=
  (t.toList.filter fun entry => Key.parse? entry.1 = some (uuid, some e)).map Prod.snd

theorem valuesOf_eq (t : Tree) {uuid : String} (separable : Key.Separable uuid) (e : Entry) :
    t.valuesOf uuid e = (t.get? (Key.ofEntry uuid e)).toList := by
  have read (entry : Bytes × Bytes) :
      Key.parse? entry.1 = some (uuid, some e) ↔ entry.1 = Key.ofEntry uuid e := by
    rw [Key.parse?_eq_some_iff]
    exact and_iff_right separable
  rw [valuesOf, get?, ← Ascending.map_snd_filter t.ascends.nodup]
  congr 2
  funext entry
  exact decide_eq_decide.2 (read entry)

theorem names_iff_exists {t : Tree} {uuid : String} : t.Names uuid ↔
    Key.Separable uuid ∧ ∃ key ∈ t.toList.map Prod.fst, Key.start uuid <+: key := by
  rw [names_iff]
  simp only [Key.uuid?_eq_some_iff, List.mem_map]
  constructor
  · intro ⟨entry, member, separable, first⟩
    exact ⟨separable, entry.1, ⟨entry, member, rfl⟩, first⟩
  · rintro ⟨separable, -, ⟨entry, member, rfl⟩, first⟩
    exact ⟨entry, member, separable, first⟩

theorem sheets_congr {t u : Tree} (same : ∀ key, ¬ Key.Foreign key → u.get? key = t.get? key) :
    u.sheets = t.sheets := by
  have own (uuid : String) (separable : Key.Separable uuid) : AgreeAt uuid u t := by
    intro key first
    refine same key fun foreign => ?_
    rw [← Key.uuid?_eq_none_iff, Key.uuid?_eq_some_iff.2 ⟨separable, first⟩] at foreign
    cases foreign
  have names (uuid : String) : u.Names uuid ↔ t.Names uuid :=
    ⟨fun named => (own uuid named.separable).names named,
      fun named => (own uuid named.separable).symm.names named⟩
  rw [sheets_eq_map, sheets_eq_map, uuids_congr names]
  refine List.map_congr_left fun uuid listed => ?_
  have separable := (mem_uuids.1 listed).separable
  exact (own uuid separable).sheet_eq separable

/-- One pass over a tree has one sheet for each text without separators that begins a key in front of
a separator, and it has what the tree has under the keys of that text. Keys that begin with no such
text have no part in it. -/
theorem sheets_exact (t : Tree) :
    (t.sheets.Pairwise fun a b => Bytes.ofText a.uuid < Bytes.ofText b.uuid) ∧
      (∀ uuid, (∃ sheet ∈ t.sheets, sheet.uuid = uuid) ↔
        Key.separator ∉ Bytes.ofText uuid ∧
          ∃ key ∈ t.toList.map Prod.fst, Bytes.ofText uuid ++ [Key.separator] <+: key) ∧
      (∀ sheet ∈ t.sheets,
        sheet.stamp = t.get? (Key.named sheet.uuid (Bytes.ofText "stamp")) ∧
          sheet.error = t.get? (Key.named sheet.uuid (Bytes.ofText "patchError")) ∧
          sheet.source = t.get? (Key.named sheet.uuid (Bytes.ofText "source")) ∧
          sheet.operations.Pairwise (fun a b => a.1 < b.1) ∧
          ∀ seq value, (seq, value) ∈ sheet.operations ↔
            t.get? (Key.ofOperation sheet.uuid seq) = some value) ∧
      ∀ u : Tree, (∀ key, ¬ Key.Foreign key → u.get? key = t.get? key) → u.sheets = t.sheets := by
  refine ⟨t.pairwise_sheets, fun uuid => ?_, fun sheet member => ?_, fun u => sheets_congr⟩
  · calc (∃ sheet ∈ t.sheets, sheet.uuid = uuid)
        ↔ t.Names uuid := by rw [← mem_uuids_sheets, List.mem_map]
      _ ↔ _ := names_iff_exists
  · obtain ⟨named, form⟩ := mem_sheets.1 member
    have read := t.value?_sheet named.separable
    have found (seq : UInt64) (value : Bytes) : (seq, value) ∈ (t.sheet sheet.uuid).operations ↔
      t.get? (Key.ofOperation sheet.uuid seq) = some value := mem_operations named.separable
    rw [← form] at read found
    have ascends : Ascending.Ascends sheet.operations := form ▸ t.ascends_operations sheet.uuid
    exact ⟨read .stamp, read .error, read .source, ascends, found⟩

theorem sheets_exact_neighbours :
    let t := ((Tree.empty.insert (Key.ofOperation "u" 256) [2]).insert
      (Key.ofOperation "u" 1) [1]).insert (Key.ofEntry "uv" .stamp) [3]
    let u := (t.insert (Bytes.ofText "uu") [4]).insert [0xFF, 0] [5]
    (∃ sheet ∈ t.sheets, sheet.uuid = "u" ∧ sheet.stamp = none ∧ (1, [1]) ∈ sheet.operations ∧
      (256, [2]) ∈ sheet.operations) ∧ u.sheets = t.sheets := by
  intro t u
  obtain ⟨-, listed, read, foreign⟩ := sheets_exact t
  obtain ⟨sheet, member, uuid⟩ :=
    (listed "u").2 ⟨by decide, Key.ofOperation "u" 1, by decide, by decide⟩
  obtain ⟨stamp, -, -, -, operations⟩ := read sheet member
  rw [uuid] at stamp operations
  refine ⟨⟨sheet, member, uuid, stamp.trans (by decide), (operations 1 [1]).2 (by decide),
    (operations 256 [2]).2 (by decide)⟩, foreign u fun key own => ?_⟩
  have first : key ≠ Bytes.ofText "uu" := fun same => own (Or.inl (same ▸ by decide))
  have second : key ≠ [0xFF, 0] := fun same => own (Or.inr (same ▸ by decide))
  rw [get?_insert, get?_insert, if_neg second, if_neg first]

end Tree

end PatchLedger
