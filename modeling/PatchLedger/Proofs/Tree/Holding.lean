import PatchLedger.Ledger
import PatchLedger.Proofs.Ascending
import PatchLedger.Proofs.Key

/-!
What a tree has under one uuid. A record has its content under the names of its
entries (`Record.value?_named`). Writing a patch leaves its record there and
nothing else, and no key of another uuid is touched (`Tree.replace_eq_ok_iff`); a
pruner's step either removes all of it or leaves the tree.
-/

namespace PatchLedger

namespace Record

def value? (record : Record) (key : Bytes) : Option Bytes :=
  Ascending.value? key record.entries.reverse

theorem mem_numbered {uuid : String} {seq : UInt64} {operations : List Bytes}
    {entry : Bytes × Bytes} (h : entry ∈ numbered uuid seq operations) :
    ∃ s, entry.1 = Key.ofOperation uuid s := by
  induction operations generalizing seq with
  | nil => cases h
  | cons operation rest ih =>
    rcases List.mem_cons.1 h with rfl | h
    · exact ⟨seq, rfl⟩
    · exact ih h

theorem mem_entries {record : Record} {entry : Bytes × Bytes} (h : entry ∈ record.entries) :
    ∃ e, entry.1 = Key.ofEntry record.uuid e := by
  simp only [entries, List.cons_append, List.mem_cons, List.mem_append, Option.mem_toList,
    Option.map_eq_some_iff] at h
  rcases h with rfl | ⟨text, -, rfl⟩ | rfl | h
  · exact ⟨.stamp, rfl⟩
  · exact ⟨.error, rfl⟩
  · exact ⟨.source, rfl⟩
  · obtain ⟨seq, same⟩ := mem_numbered h
    exact ⟨.operation seq, same⟩

theorem value?_of_not_prefix {record : Record} {key : Bytes}
    (h : ¬ Key.start record.uuid <+: key) : record.value? key = none := by
  refine Ascending.value?_eq_none_of_forall_ne fun entry member same => h ?_
  obtain ⟨e, found⟩ := mem_entries (List.mem_reverse.1 member)
  rw [← same, found]
  exact Key.start_prefix_named _ _

theorem ofEntry_inj {uuid : String} {a b : Entry} :
    Key.ofEntry uuid a = Key.ofEntry uuid b ↔ a = b :=
  ⟨fun h => Entry.name_injective (List.append_cancel_left h), fun h => h ▸ rfl⟩

theorem value?_numbered_reverse (uuid : String) (entry : Entry) (h : ∀ seq, entry ≠ .operation seq)
    (seq : UInt64) (operations : List Bytes) :
    Ascending.value? (Key.ofEntry uuid entry) (numbered uuid seq operations).reverse = none := by
  refine Ascending.value?_eq_none_of_forall_ne fun found member same => ?_
  obtain ⟨s, form⟩ := mem_numbered (List.mem_reverse.1 member)
  rw [form] at same
  exact h s (ofEntry_inj.1 same).symm

def sequence : (seq : UInt64) → List Bytes → List (UInt64 × Bytes)
  | _, [] => []
  | seq, operation :: rest => (seq, operation) :: sequence (seq + 1) rest

theorem numbered_eq_map (uuid : String) (seq : UInt64) (operations : List Bytes) :
    numbered uuid seq operations =
      (sequence seq operations).map fun entry => (Key.ofOperation uuid entry.1, entry.2) := by
  induction operations generalizing seq with
  | nil => rfl
  | cons operation rest ih => rw [numbered, sequence, List.map_cons, ih]

theorem value?_map_ofOperation (uuid : String) (seq : UInt64) (entries : List (UInt64 × Bytes)) :
    Ascending.value? (Key.ofOperation uuid seq)
        (entries.map fun entry => (Key.ofOperation uuid entry.1, entry.2)) =
      Ascending.value? seq entries := by
  induction entries with
  | nil => rfl
  | cons entry rest ih =>
    have same : Key.ofOperation uuid seq = Key.ofOperation uuid entry.1 ↔ seq = entry.1 := by
      rw [Key.ofOperation, Key.ofOperation, ofEntry_inj]
      simp
    simp only [List.map_cons, Ascending.value?, ih, same]

theorem value?_operation (record : Record) (seq : UInt64) :
    record.value? (Key.ofOperation record.uuid seq) =
      Ascending.value? seq (sequence 1 record.operations).reverse := by
  have numbered : Ascending.value? (Key.ofOperation record.uuid seq)
      (numbered record.uuid 1 record.operations).reverse =
      Ascending.value? seq (sequence 1 record.operations).reverse := by
    rw [numbered_eq_map, ← List.map_reverse, value?_map_ofOperation]
  rw [Key.ofOperation] at numbered ⊢
  cases h : record.error <;>
    simp [value?, entries, h, Ascending.value?_append, Ascending.value?, numbered, ofEntry_inj]

theorem toNat_add_one {seq : UInt64} (room : seq.toNat + 1 < UInt64.size) :
    (seq + 1).toNat = seq.toNat + 1 := by
  rw [UInt64.toNat_add]
  exact Nat.mod_eq_of_lt room

theorem ascends_sequence {seq : UInt64} {operations : List Bytes}
    (room : seq.toNat + operations.length ≤ UInt64.size) :
    (∀ entry ∈ sequence seq operations, seq.toNat ≤ entry.1.toNat) ∧
      Ascending.Ascends (sequence seq operations) := by
  induction operations generalizing seq with
  | nil => exact ⟨by simp [sequence], List.Pairwise.nil⟩
  | cons operation rest ih =>
    cases rest with
    | nil => exact ⟨by simp [sequence], List.pairwise_singleton _ _⟩
    | cons other rest =>
      simp only [List.length_cons] at room
      have next : (seq + 1).toNat = seq.toNat + 1 := toNat_add_one (by omega)
      obtain ⟨above, ordered⟩ := @ih (seq + 1) (by
        rw [next, List.length_cons]
        omega)
      rw [next] at above
      constructor
      · intro entry member
        rcases List.mem_cons.1 member with rfl | member
        · exact Nat.le_refl _
        · exact Nat.le_of_succ_le (above entry member)
      · exact List.pairwise_cons.2
          ⟨fun entry member => UInt64.lt_iff_toNat_lt.2 (above entry member), ordered⟩

theorem value?_sequence {seq : UInt64} {operations : List Bytes}
    (room : seq.toNat + operations.length ≤ UInt64.size) (s : UInt64) :
    Ascending.value? s (sequence seq operations) =
      if seq.toNat ≤ s.toNat then operations[s.toNat - seq.toNat]? else none := by
  induction operations generalizing seq with
  | nil => simp [sequence, Ascending.value?]
  | cons operation rest ih =>
    rw [sequence, Ascending.value?]
    split
    · next same => simp [same]
    · next differ =>
      have apart : s.toNat ≠ seq.toNat := fun same => differ (UInt64.toNat_inj.1 same)
      cases rest with
      | nil =>
        rw [sequence, Ascending.value?]
        split
        · rw [List.getElem?_eq_none]
          rw [List.length_singleton]
          omega
        · rfl
      | cons other rest =>
        simp only [List.length_cons] at room
        have next : (seq + 1).toNat = seq.toNat + 1 := toNat_add_one (by omega)
        rw [ih (by rw [next, List.length_cons]; omega), next]
        by_cases later : seq.toNat ≤ s.toNat
        · obtain ⟨i, place⟩ : ∃ i, s.toNat - seq.toNat = i + 1 := ⟨s.toNat - seq.toNat - 1, by omega⟩
          rw [if_pos (by omega), if_pos later, place, List.getElem?_cons_succ]
          congr 1
          omega
        · rw [if_neg (by omega), if_neg later]

/-- What a record says under each name. Its operations are numbered from one on. -/
def content (record : Record) : Entry → Option Bytes
  | .stamp => some record.stamp
  | .error => record.error.map Bytes.ofText
  | .source => some (Bytes.ofText record.source)
  | .operation seq => if 1 ≤ seq.toNat then record.operations[seq.toNat - 1]? else none

/-- A record has its content, as long as the operations do not run over their numbers. -/
theorem value?_ofEntry (record : Record) (entry : Entry)
    (bounded : ∀ seq, entry = .operation seq → record.operations.length < UInt64.size) :
    record.value? (Key.ofEntry record.uuid entry) = record.content entry := by
  cases entry with
  | operation seq =>
    have first : (1 : UInt64).toNat = 1 := rfl
    have room : (1 : UInt64).toNat + record.operations.length ≤ UInt64.size := by
      have bounded := bounded seq rfl
      omega
    have ordered : Ascending.Ascends (sequence 1 record.operations) := (ascends_sequence room).2
    rw [← Key.ofOperation, value?_operation, Ascending.value?_reverse ordered.nodup,
      value?_sequence room, first, content]
  | _ =>
    cases failed : record.error <;>
      simp [value?, entries, failed, Ascending.value?_append, Ascending.value?, ofEntry_inj,
        value?_numbered_reverse, content]

theorem value?_named_of_ofName? (record : Record) {name : Bytes} (h : Entry.ofName? name = none) :
    record.value? (Key.named record.uuid name) = none := by
  refine Ascending.value?_eq_none_of_forall_ne fun entry member same => ?_
  obtain ⟨e, form⟩ := mem_entries (List.mem_reverse.1 member)
  have alike : name = e.name := List.append_cancel_left (same.symm.trans form)
  rw [alike, Entry.ofName?_name] at h
  cases h

theorem value?_named (record : Record) (bounded : record.operations.length < UInt64.size)
    (name : Bytes) : record.value? (Key.named record.uuid name) =
      (Entry.ofName? name).bind record.content := by
  cases known : Entry.ofName? name with
  | none => exact record.value?_named_of_ofName? known
  | some e =>
    rw [Entry.eq_name_of_ofName? known, Option.bind_some]
    exact record.value?_ofEntry e fun _ _ => bounded

end Record

namespace Tree

theorem get?_insertAll (t : Tree) (entries : List (Bytes × Bytes)) (key : Bytes) :
    (t.insertAll entries).get? key = (Ascending.value? key entries.reverse).or (t.get? key) := by
  induction entries generalizing t with
  | nil => rfl
  | cons entry rest ih =>
    have step : t.insertAll (entry :: rest) = (t.insert entry.1 entry.2).insertAll rest := rfl
    rw [step, ih, get?_insert, List.reverse_cons, Ascending.value?_append, Option.or_assoc]
    congr 1
    rw [Ascending.value?, Ascending.value?]
    split <;> rfl

/-- Under its uuid the tree has the record and nothing else. -/
def Holds (t : Tree) (record : Record) : Prop :=
  ∀ key, Key.start record.uuid <+: key → t.get? key = record.value? key

def Lacks (t : Tree) (uuid : String) : Prop :=
  ∀ key, Key.start uuid <+: key → t.get? key = none

/-- The trees have the same under all uuids but one. -/
def AgreeBut (uuid : String) (t u : Tree) : Prop :=
  ∀ key, ¬ Key.start uuid <+: key → t.get? key = u.get? key

theorem agreeBut_refl (uuid : String) (t : Tree) : AgreeBut uuid t t := fun _ _ => rfl

theorem get?_replaced (t : Tree) (record : Record) (key : Bytes) :
    ((t.eraseUnder (Key.start record.uuid)).insertAll record.entries).get? key =
      (record.value? key).or
        (if (Key.start record.uuid).isPrefixOf key then none else t.get? key) := by
  rw [get?_insertAll, get?_eraseUnder]
  rfl

theorem replace_eq_ok_iff {t t' : Tree} {record : Record} : t.replace record = .ok t' ↔
    Key.validUuid record.uuid ∧ t'.Holds record ∧ AgreeBut record.uuid t' t := by
  have holds : ((t.eraseUnder (Key.start record.uuid)).insertAll record.entries).Holds record := by
    intro key first
    rw [get?_replaced, if_pos (List.isPrefixOf_iff_prefix.2 first), Option.or_none]
  have agree : AgreeBut record.uuid
      ((t.eraseUnder (Key.start record.uuid)).insertAll record.entries) t := by
    intro key other
    rw [get?_replaced, Record.value?_of_not_prefix other, Option.none_or,
      if_neg fun first => other (List.isPrefixOf_iff_prefix.1 first)]
  unfold replace
  split
  · next valid =>
    constructor
    · intro same
      cases same
      exact ⟨valid, holds, agree⟩
    · rintro ⟨-, holds', agree'⟩
      refine congrArg Except.ok (ext_get? fun key => ?_)
      by_cases first : Key.start record.uuid <+: key
      · rw [holds key first, holds' key first]
      · rw [agree key first, agree' key first]
  · next invalid => simp [invalid]

theorem Holds.of_agreeBut {t t' : Tree} {record : Record} {uuid : String} (h : t.Holds record)
    (agree : AgreeBut uuid t' t) (one : Key.Separable uuid) (other : Key.Separable record.uuid)
    (differ : record.uuid ≠ uuid) : t'.Holds record := by
  intro key first
  rw [agree key fun second => differ (Key.eq_of_start_prefix other one first second), h key first]

theorem Lacks.of_agreeBut {t t' : Tree} {uuid uuid' : String} (h : t.Lacks uuid')
    (agree : AgreeBut uuid t' t) (one : Key.Separable uuid) (other : Key.Separable uuid')
    (differ : uuid' ≠ uuid) : t'.Lacks uuid' := by
  intro key first
  rw [agree key fun second => differ (Key.eq_of_start_prefix other one first second), h key first]

theorem Holds.get?_ofEntry {t : Tree} {record : Record} (h : t.Holds record) (entry : Entry)
    (bounded : ∀ seq, entry = .operation seq → record.operations.length < UInt64.size) :
    t.get? (Key.ofEntry record.uuid entry) = record.content entry := by
  rw [h _ (Key.start_prefix_ofEntry _ _), record.value?_ofEntry entry bounded]

theorem Holds.stamp {t : Tree} {record : Record} (h : t.Holds record) :
    t.get? (Key.ofEntry record.uuid .stamp) = some record.stamp :=
  h.get?_ofEntry .stamp nofun

theorem Lacks.stamp {t : Tree} {uuid : String} (h : t.Lacks uuid) :
    t.get? (Key.ofEntry uuid .stamp) = none :=
  h _ (Key.start_prefix_ofEntry _ _)

theorem Holds.not_lacks {t : Tree} {record : Record} (h : t.Holds record) : ¬ t.Lacks record.uuid := by
  intro lacks
  have stamp := lacks.stamp
  rw [h.stamp] at stamp
  cases stamp

theorem lacks_eraseUnder (t : Tree) (uuid : String) : (t.eraseUnder (Key.start uuid)).Lacks uuid := by
  intro key first
  rw [get?_eraseUnder, if_pos (List.isPrefixOf_iff_prefix.2 first)]

theorem agreeBut_eraseUnder (t : Tree) (uuid : String) :
    AgreeBut uuid (t.eraseUnder (Key.start uuid)) t := by
  intro key other
  rw [get?_eraseUnder, if_neg fun first => other (List.isPrefixOf_iff_prefix.1 first)]

end Tree

namespace Ledger

theorem pruneOne_of_ne {t : Tree} {uuid : String} {seen : Option Bytes}
    (h : t.get? (Key.ofEntry uuid .stamp) ≠ seen) : pruneOne t (uuid, seen) = t := by
  simp [pruneOne, Tree.prune?, h]

theorem pruneOne_of_eq {t : Tree} {uuid : String} {seen : Option Bytes}
    (h : t.get? (Key.ofEntry uuid .stamp) = seen) :
    pruneOne t (uuid, seen) = t.eraseUnder (Key.start uuid) := by
  simp [pruneOne, Tree.prune?, h]

theorem agreeBut_pruneOne (t : Tree) (entry : String × Option Bytes) :
    Tree.AgreeBut entry.1 (pruneOne t entry) t := by
  by_cases h : t.get? (Key.ofEntry entry.1 .stamp) = entry.2
  · rw [pruneOne_of_eq h]
    exact t.agreeBut_eraseUnder entry.1
  · rw [pruneOne_of_ne h]
    exact Tree.agreeBut_refl entry.1 t

end Ledger

end PatchLedger
