import PatchLedger.Proofs.Key.Range
import PatchLedger.Proofs.Tree.Holding
import PatchLedger.Tree.Sheet

/-!
The sheets of a tree, whatever keys it has. They stand in the order of their
uuids, each uuid that a key names has one, and that one has all that the tree
holds of the uuid: the entries of a uuid lie together, so one pass gathers them.
-/

namespace PatchLedger

namespace Sheet

def take (sheet : Sheet) (entry : Bytes × Bytes) : Sheet :=
  match Key.parse? entry.1 with
  | some (uuid, name) => if uuid = sheet.uuid then sheet.add entry.2 name else sheet
  | none => sheet

def value? (sheet : Sheet) : Entry → Option Bytes
  | .stamp => sheet.stamp
  | .error => sheet.error
  | .source => sheet.source
  | .operation seq => Ascending.value? seq sheet.operations.reverse

@[simp] theorem uuid_blank (uuid : String) : (blank uuid).uuid = uuid := rfl

@[simp] theorem uuid_add (sheet : Sheet) (value : Bytes) (name : Option Entry) :
    (sheet.add value name).uuid = sheet.uuid := by
  rcases name with _ | _ | _ | _ | _ <;> rfl

@[simp] theorem uuid_take (sheet : Sheet) (entry : Bytes × Bytes) :
    (sheet.take entry).uuid = sheet.uuid := by
  unfold take
  split
  · split
    · exact uuid_add _ _ _
    · rfl
  · rfl

@[simp] theorem uuid_foldl_take (sheet : Sheet) (entries : List (Bytes × Bytes)) :
    (entries.foldl take sheet).uuid = sheet.uuid := by
  induction entries generalizing sheet with
  | nil => rfl
  | cons entry rest ih => rw [List.foldl_cons, ih, uuid_take]

theorem take_of_ne {sheet : Sheet} {entry : Bytes × Bytes}
    (h : Key.uuid? entry.1 ≠ some sheet.uuid) : sheet.take entry = sheet := by
  unfold take
  split
  · next uuid name parsed =>
    rw [Key.uuid?, parsed] at h
    exact if_neg fun same => h (congrArg some same)
  · rfl

theorem foldl_take_of_ne {sheet : Sheet} {entries : List (Bytes × Bytes)}
    (h : ∀ entry ∈ entries, Key.uuid? entry.1 ≠ some sheet.uuid) :
    entries.foldl take sheet = sheet := by
  induction entries with
  | nil => rfl
  | cons entry rest ih =>
    rw [List.foldl_cons, take_of_ne (h entry List.mem_cons_self)]
    exact ih fun other member => h other (List.mem_cons_of_mem _ member)

theorem foldl_take_filter {sheet : Sheet} {uuid : String} (h : sheet.uuid ≠ uuid)
    (entries : List (Bytes × Bytes)) :
    (entries.filter fun entry => Key.uuid? entry.1 ≠ some uuid).foldl take sheet =
      entries.foldl take sheet := by
  induction entries generalizing sheet with
  | nil => rfl
  | cons entry rest ih =>
    by_cases dropped : Key.uuid? entry.1 = some uuid
    · have left : sheet.take entry = sheet :=
        take_of_ne fun same => h (Option.some.inj (same.symm.trans dropped))
      rw [List.filter_cons_of_neg (by simp [dropped]), ih h, List.foldl_cons, left]
    · have kept : (sheet.take entry).uuid ≠ uuid := by rwa [uuid_take]
      rw [List.filter_cons_of_pos (by simp [dropped]), List.foldl_cons, ih kept, List.foldl_cons]

theorem take_named {sheet : Sheet} {entry : Bytes × Bytes} {name : Option Entry}
    (h : Key.parse? entry.1 = some (sheet.uuid, name)) :
    sheet.take entry = sheet.add entry.2 name := by
  rw [take, h]
  exact if_pos rfl

theorem value?_add (sheet : Sheet) (value : Bytes) (name : Option Entry) (e : Entry) :
    (sheet.add value name).value? e = if name = some e then some value else sheet.value? e := by
  rcases name with _ | _ | _ | _ | seq <;> cases e <;>
    simp [add, value?, Ascending.value?, eq_comm]

theorem value?_foldl_take (sheet : Sheet) (separable : Key.Separable sheet.uuid) (e : Entry)
    (entries : List (Bytes × Bytes)) : (entries.foldl take sheet).value? e =
      (Ascending.value? (Key.ofEntry sheet.uuid e) entries.reverse).or (sheet.value? e) := by
  induction entries generalizing sheet with
  | nil => rfl
  | cons entry rest ih =>
    have step : (sheet.take entry).value? e =
        if Key.ofEntry sheet.uuid e = entry.1 then some entry.2 else sheet.value? e := by
      by_cases same : Key.ofEntry sheet.uuid e = entry.1
      · have parsed := Key.parse?_ofEntry separable e
        rw [same] at parsed
        rw [take_named parsed, value?_add, if_pos rfl, if_pos same]
      · rw [if_neg same]
        unfold take
        split
        · next uuid name parsed =>
          split
          · next here =>
            rw [value?_add, if_neg]
            intro named
            rw [named, here] at parsed
            exact same (Key.parse?_eq_some_iff.1 parsed).2.symm
          · rfl
        · rfl
    have same : (sheet.take entry).uuid = sheet.uuid := uuid_take sheet entry
    rw [List.foldl_cons, ih _ (same.symm ▸ separable), same, step, List.reverse_cons,
      Ascending.value?_append, Option.or_assoc, Ascending.value?, Ascending.value?]
    split <;> rfl

def operation? (uuid : String) (entry : Bytes × Bytes) : Option (UInt64 × Bytes) :=
  match Key.parse? entry.1 with
  | some (named, some (.operation seq)) => if named = uuid then some (seq, entry.2) else none
  | _ => none

theorem operations_foldl_take (sheet : Sheet) (entries : List (Bytes × Bytes)) :
    (entries.foldl take sheet).operations =
      sheet.operations ++ entries.filterMap (operation? sheet.uuid) := by
  induction entries generalizing sheet with
  | nil => simp
  | cons entry rest ih =>
    have step : (sheet.take entry).operations =
        sheet.operations ++ (operation? sheet.uuid entry).toList := by
      unfold take operation?
      cases Key.parse? entry.1 with
      | none => simp
      | some found =>
        by_cases same : found.1 = sheet.uuid
        · rcases found with ⟨uuid, _ | _ | _ | _ | seq⟩ <;> simp_all [add]
        · rcases found with ⟨uuid, _ | _ | _ | _ | seq⟩ <;> simp_all
    rw [List.foldl_cons, ih, step, uuid_take, List.filterMap_cons, List.append_assoc]
    cases operation? sheet.uuid entry <;> rfl

theorem operation?_eq_some {uuid : String} {entry : Bytes × Bytes} {found : UInt64 × Bytes}
    (h : operation? uuid entry = some found) : entry.1 = Key.ofOperation uuid found.1 := by
  unfold operation? at h
  split at h
  · next named seq parsed =>
    split at h
    · next same =>
      cases h
      rw [(Key.parse?_eq_some_iff.1 parsed).2, same, Key.ofOperation]
    · cases h
  · cases h

/-- Entries whose uuids do not descend. -/
def Grouped (entries : List (Bytes × Bytes)) : Prop :=
  entries.Pairwise fun a b => ∀ u v, Key.uuid? a.1 = some u → Key.uuid? b.1 = some v →
    ¬ Bytes.ofText v < Bytes.ofText u

theorem gather_of_none {current : Option Sheet} {entry : Bytes × Bytes}
    (h : Key.uuid? entry.1 = none) (rest : List (Bytes × Bytes)) :
    gather current (entry :: rest) = gather current rest := by
  rw [Key.uuid?, Option.map_eq_none_iff] at h
  simp only [gather, h]

theorem gather_none_cons {entry : Bytes × Bytes} {uuid : String}
    (h : Key.uuid? entry.1 = some uuid) (rest : List (Bytes × Bytes)) :
    gather none (entry :: rest) = gather (some ((blank uuid).take entry)) rest := by
  obtain ⟨⟨u, name⟩, parsed, rfl⟩ := Option.map_eq_some_iff.1 h
  have taken : (blank u).take entry = (blank u).add entry.2 name := take_named parsed
  simp only [gather, parsed, taken]

theorem gather_some_cons {sheet : Sheet} {entry : Bytes × Bytes} {uuid : String}
    (h : Key.uuid? entry.1 = some uuid) (rest : List (Bytes × Bytes)) :
    gather (some sheet) (entry :: rest) =
      if sheet.uuid = uuid then gather (some (sheet.take entry)) rest
      else sheet :: gather none (entry :: rest) := by
  rw [gather_none_cons h]
  obtain ⟨⟨u, name⟩, parsed, rfl⟩ := Option.map_eq_some_iff.1 h
  have taken : (blank u).take entry = (blank u).add entry.2 name := take_named parsed
  by_cases same : sheet.uuid = u
  · subst same
    simp only [gather, parsed, if_true, take_named parsed]
  · simp only [gather, parsed, if_neg same, taken]

theorem gather_some (sheet : Sheet) {entries : List (Bytes × Bytes)} (grouped : Grouped entries)
    (above : ∀ entry ∈ entries, ∀ u, Key.uuid? entry.1 = some u →
      ¬ Bytes.ofText u < Bytes.ofText sheet.uuid) :
    gather (some sheet) entries = entries.foldl take sheet ::
      gather none (entries.filter fun entry => Key.uuid? entry.1 ≠ some sheet.uuid) := by
  induction entries generalizing sheet with
  | nil => rfl
  | cons entry rest ih =>
    obtain ⟨first, grouped⟩ := List.pairwise_cons.1 grouped
    have aboveRest := fun other member => above other (List.mem_cons_of_mem entry member)
    cases named : Key.uuid? entry.1 with
    | none =>
      have other : Key.uuid? entry.1 ≠ some sheet.uuid := by simp [named]
      rw [gather_of_none named, ih sheet grouped aboveRest, List.foldl_cons, take_of_ne other,
        List.filter_cons_of_pos (by simp [named]), gather_of_none named]
    | some uuid =>
      rw [gather_some_cons named]
      split
      · next same =>
        have uuid_same : (sheet.take entry).uuid = sheet.uuid := uuid_take sheet entry
        rw [ih (sheet.take entry) grouped (by rwa [uuid_same]), uuid_same, List.foldl_cons,
          List.filter_cons_of_neg (by simp [named, same])]
      · next differ =>
        have others : ∀ other ∈ entry :: rest, Key.uuid? other.1 ≠ some sheet.uuid := by
          intro other member same
          rcases List.mem_cons.1 member with rfl | member
          · rw [named] at same
            exact differ (Option.some.inj same).symm
          · have low := first other member uuid sheet.uuid named same
            have high := above entry List.mem_cons_self uuid named
            exact differ (Bytes.ofText_injective (List.le_antisymm
              (List.not_lt.1 high) (List.not_lt.1 low)))
        rw [foldl_take_of_ne others,
          List.filter_eq_self.2 fun other member => decide_eq_true (others other member)]

theorem named_filter {entries : List (Bytes × Bytes)} {uuid u : String} :
    (∃ entry ∈ entries.filter fun entry => Key.uuid? entry.1 ≠ some uuid,
      Key.uuid? entry.1 = some u) ↔
      u ≠ uuid ∧ ∃ entry ∈ entries, Key.uuid? entry.1 = some u := by
  constructor
  · intro ⟨entry, member, named⟩
    obtain ⟨member, differ⟩ := List.mem_filter.1 member
    rw [named] at differ
    exact ⟨by simpa using differ, entry, member, named⟩
  · intro ⟨differ, entry, member, named⟩
    exact ⟨entry, List.mem_filter.2 ⟨member, by simp [named, differ]⟩, named⟩

/-- Each uuid that an entry names has one sheet, with all entries of the uuid on it. -/
theorem gather_spec {entries : List (Bytes × Bytes)} (grouped : Grouped entries) :
    ((gather none entries).Pairwise fun a b => Bytes.ofText a.uuid < Bytes.ofText b.uuid) ∧
      ∀ sheet, sheet ∈ gather none entries ↔
        (∃ entry ∈ entries, Key.uuid? entry.1 = some sheet.uuid) ∧
          sheet = entries.foldl take (blank sheet.uuid) := by
  induction length : entries.length using Nat.strongRecOn generalizing entries with
  | ind n ih =>
    cases entries with
    | nil => simp [gather]
    | cons entry rest =>
      obtain ⟨first, groupedRest⟩ := List.pairwise_cons.1 grouped
      cases named : Key.uuid? entry.1 with
      | none =>
        obtain ⟨ordered, members⟩ := ih rest.length (by simp [← length]) groupedRest rfl
        rw [gather_of_none named]
        refine ⟨ordered, fun sheet => ?_⟩
        have left : (blank sheet.uuid).take entry = blank sheet.uuid := take_of_ne (by simp [named])
        rw [members, List.foldl_cons, left, List.exists_mem_cons_iff, named]
        simp
      | some uuid =>
        have above : ∀ other ∈ rest, ∀ u, Key.uuid? other.1 = some u →
            ¬ Bytes.ofText u < Bytes.ofText ((blank uuid).take entry).uuid := by
          intro other member u there
          rw [uuid_take]
          exact first other member uuid u named there
        have shorter : (rest.filter fun other => Key.uuid? other.1 ≠ some uuid).length < n := by
          rw [← length]
          exact Nat.lt_succ_of_le (List.length_filter_le _ _)
        obtain ⟨ordered, members⟩ := ih _ shorter (groupedRest.filter _) rfl
        have form := gather_some ((blank uuid).take entry) groupedRest above
        rw [uuid_take, uuid_blank] at form
        rw [gather_none_cons named, form]
        constructor
        · refine List.pairwise_cons.2 ⟨fun sheet member => ?_, ordered⟩
          obtain ⟨differ, other, member, there⟩ := named_filter.1 ((members sheet).1 member).1
          rw [uuid_foldl_take, uuid_take]
          exact Std.lt_of_le_of_ne (List.not_lt.1 (first other member uuid sheet.uuid named there))
            fun same => differ (Bytes.ofText_injective same).symm
        · intro sheet
          rw [List.mem_cons, members, named_filter, List.foldl_cons, List.exists_mem_cons_iff]
          by_cases here : sheet.uuid = uuid
          · rw [here, named]
            simp
          · have left : (blank sheet.uuid).take entry = blank sheet.uuid :=
              take_of_ne (by rw [named]; exact fun same => here (Option.some.inj same).symm)
            have other : sheet ≠ rest.foldl take ((blank uuid).take entry) := by
              intro same
              apply here
              rw [same, uuid_foldl_take, uuid_take, uuid_blank]
            have dropped := foldl_take_filter (show (blank sheet.uuid).uuid ≠ uuid from here) rest
            rw [dropped, left, named]
            simp [here, other, Ne.symm here]

theorem ext_value? {a b : Sheet} (uuid : a.uuid = b.uuid) (orderA : Ascending.Ascends a.operations)
    (orderB : Ascending.Ascends b.operations) (h : ∀ e, a.value? e = b.value? e) : a = b := by
  have stamp : a.stamp = b.stamp := h .stamp
  have error : a.error = b.error := h .error
  have source : a.source = b.source := h .source
  have operations : a.operations = b.operations := by
    refine Ascending.ext orderA orderB fun seq => ?_
    rw [← Ascending.value?_reverse orderA.nodup, ← Ascending.value?_reverse orderB.nodup]
    exact h (.operation seq)
  cases a
  cases b
  simp_all

end Sheet

namespace Tree

def sheet (t : Tree) (uuid : String) : Sheet := t.toList.foldl Sheet.take (Sheet.blank uuid)

/-- Some key of the tree is one of the patch. -/
def Names (t : Tree) (uuid : String) : Prop :=
  ∃ key value, t.get? key = some value ∧ Key.uuid? key = some uuid

theorem Names.separable {t : Tree} {uuid : String} (h : t.Names uuid) : Key.Separable uuid := by
  obtain ⟨key, value, -, named⟩ := h
  exact (Key.uuid?_eq_some_iff.1 named).1

@[simp] theorem uuid_sheet (t : Tree) (uuid : String) : (t.sheet uuid).uuid = uuid :=
  Sheet.uuid_foldl_take _ _

theorem names_iff {t : Tree} {uuid : String} :
    t.Names uuid ↔ ∃ entry ∈ t.toList, Key.uuid? entry.1 = some uuid := by
  constructor
  · intro ⟨key, value, found, named⟩
    exact ⟨(key, value), get?_eq_some_iff.1 found, named⟩
  · intro ⟨entry, member, named⟩
    exact ⟨entry.1, entry.2, get?_eq_some_iff.2 member, named⟩

theorem grouped_toList (t : Tree) : Sheet.Grouped t.toList :=
  t.ascends.imp fun less _ _ => Key.uuid?_le_uuid? less

theorem pairwise_sheets (t : Tree) :
    t.sheets.Pairwise fun a b => Bytes.ofText a.uuid < Bytes.ofText b.uuid :=
  (Sheet.gather_spec t.grouped_toList).1

theorem nodup_uuids_sheets (t : Tree) : (t.sheets.map Sheet.uuid).Nodup := by
  refine List.pairwise_map.2 (t.pairwise_sheets.imp ?_)
  intro a b less same
  exact List.lt_irrefl _ (same ▸ less)

theorem mem_sheets {t : Tree} {sheet : Sheet} :
    sheet ∈ t.sheets ↔ t.Names sheet.uuid ∧ sheet = t.sheet sheet.uuid := by
  rw [names_iff]
  exact (Sheet.gather_spec t.grouped_toList).2 sheet

theorem mem_uuids_sheets {t : Tree} {uuid : String} :
    uuid ∈ t.sheets.map Sheet.uuid ↔ t.Names uuid := by
  constructor
  · intro member
    obtain ⟨sheet, found, rfl⟩ := List.mem_map.1 member
    exact (mem_sheets.1 found).1
  · intro named
    exact List.mem_map.2 ⟨t.sheet uuid, mem_sheets.2 (by simp [named]), t.uuid_sheet uuid⟩

theorem value?_sheet (t : Tree) {uuid : String} (separable : Key.Separable uuid) (e : Entry) :
    (t.sheet uuid).value? e = t.get? (Key.ofEntry uuid e) := by
  have blank : (Sheet.blank uuid).value? e = none := by cases e <;> rfl
  have read := Sheet.value?_foldl_take (Sheet.blank uuid) separable e t.toList
  rw [blank, Option.or_none] at read
  rw [sheet, read]
  exact Ascending.value?_reverse t.ascends.nodup

theorem ascends_operations (t : Tree) (uuid : String) :
    Ascending.Ascends (t.sheet uuid).operations := by
  rw [sheet, Sheet.operations_foldl_take]
  refine List.Pairwise.filterMap _ ?_ t.ascends
  intro a b less x found y found'
  rw [Sheet.operation?_eq_some found, Sheet.operation?_eq_some found'] at less
  exact (Key.ofOperation_lt_ofOperation uuid).1 less

def source? (entry : Bytes × Bytes) : Option String :=
  (Key.parse? entry.1).bind fun named => if named.2 = some .source then some named.1 else none

theorem source?_eq_some_iff {entry : Bytes × Bytes} {uuid : String} :
    source? entry = some uuid ↔ Key.Separable uuid ∧ entry.1 = Key.ofEntry uuid .source := by
  constructor
  · intro h
    obtain ⟨⟨u, name⟩, parsed, same⟩ := Option.bind_eq_some_iff.1 h
    obtain ⟨rfl, named⟩ := Option.ite_none_right_eq_some.1 same
    cases named
    exact Key.parse?_eq_some_iff.1 parsed
  · rintro ⟨separable, form⟩
    rw [source?, form, Key.parse?_ofEntry separable]
    rfl

theorem patchCount_eq (t : Tree) :
    t.patchCount = (t.sheets.filter fun sheet => sheet.source.isSome).length := by
  have counted : t.patchCount = (t.toList.filterMap source?).length := by
    rw [List.length_filterMap_eq_countP, patchCount]
    congr 1
    funext entry
    rw [source?]
    rcases Key.parse? entry.1 with _ | ⟨uuid, _ | _ | _ | _ | seq⟩ <;> rfl
  have distinct : (t.toList.filterMap source?).Nodup := by
    refine List.Pairwise.filterMap _ ?_ t.ascends
    intro a b less u found v found' same
    rw [(source?_eq_some_iff.1 found).2, (source?_eq_some_iff.1 found').2, same] at less
    exact List.lt_irrefl _ less
  have distinct' : ((t.sheets.filter fun sheet => sheet.source.isSome).map Sheet.uuid).Nodup :=
    t.nodup_uuids_sheets.sublist (List.filter_sublist.map _)
  have same : (t.toList.filterMap source?).Perm
      ((t.sheets.filter fun sheet => sheet.source.isSome).map Sheet.uuid) := by
    refine (List.perm_ext_iff_of_nodup distinct distinct').2 fun uuid => ?_
    simp only [List.mem_filterMap, List.mem_map, List.mem_filter, mem_sheets]
    constructor
    · intro ⟨entry, member, found⟩
      obtain ⟨separable, form⟩ := source?_eq_some_iff.1 found
      have value : t.get? (Key.ofEntry uuid .source) = some entry.2 :=
        get?_eq_some_iff.2 (form ▸ member)
      have named : t.Names uuid :=
        ⟨_, _, value, Key.uuid?_eq_some_iff.2 ⟨separable, Key.start_prefix_ofEntry _ _⟩⟩
      have source : (t.sheet uuid).source = some entry.2 := (t.value?_sheet separable .source).trans value
      exact ⟨t.sheet uuid, by simp [named, source], t.uuid_sheet uuid⟩
    · intro ⟨sheet, ⟨⟨named, form⟩, some_source⟩, same⟩
      subst same
      have separable := named.separable
      obtain ⟨source, found⟩ := Option.isSome_iff_exists.1 some_source
      rw [form] at found
      have value := (t.value?_sheet separable .source).symm.trans found
      exact ⟨(_, source), get?_eq_some_iff.1 value, source?_eq_some_iff.2 ⟨separable, rfl⟩⟩
  rw [counted, same.length_eq, List.length_map]

end Tree

namespace Record

def sheet (record : Record) : Sheet where
  uuid := record.uuid
  stamp := some record.stamp
  error := record.error.map Bytes.ofText
  source := some (Bytes.ofText record.source)
  operations := sequence 1 record.operations

end Record

theorem Tree.Holds.sheet_eq {t : Tree} {record : Record} (h : t.Holds record)
    (separable : Key.Separable record.uuid) (room : record.operations.length < UInt64.size) :
    t.sheet record.uuid = record.sheet := by
  have first : (1 : UInt64).toNat = 1 := rfl
  have ordered : Ascending.Ascends record.sheet.operations :=
    (Record.ascends_sequence (by omega)).2
  refine Sheet.ext_value? (t.uuid_sheet _) (t.ascends_operations _) ordered fun e => ?_
  rw [t.value?_sheet separable, h _ (Key.start_prefix_ofEntry _ _)]
  cases e with
  | operation seq => exact record.value?_operation seq
  | _ => exact record.value?_ofEntry _ nofun

end PatchLedger
