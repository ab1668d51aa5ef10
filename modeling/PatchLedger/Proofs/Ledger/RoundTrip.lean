import Mathlib.Data.List.Dedup
import PatchLedger.Proofs.Ledger.History
import PatchLedger.Proofs.Ledger.Run
import PatchLedger.Proofs.Operation.RoundTrip

/-!
What is written to a ledger is loaded from it. The tree keeps the last patch
written under each uuid (`Ledger.keeps_submitAll`), a sheet gives back the patch it
was made of (`Patch.matches_sheet`), and a load returns them all, in order, as
long as the retention has room for them.
-/

namespace PatchLedger

theorem concat_eq_append_cons_iff {α : Type} {xs ys zs : List α} {a b : α} :
    xs ++ [a] = ys ++ b :: zs ↔
      ys = xs ∧ b = a ∧ zs = [] ∨ ∃ rest, xs = ys ++ b :: rest ∧ zs = rest ++ [a] := by
  constructor
  · intro form
    rcases List.eq_nil_or_concat' zs with rfl | ⟨rest, c, rfl⟩
    · obtain ⟨rfl, same⟩ := List.append_inj' form rfl
      exact Or.inl ⟨rfl, (List.singleton_inj.1 same).symm, rfl⟩
    · rw [← List.cons_append, ← List.append_assoc] at form
      obtain ⟨rfl, same⟩ := List.append_inj' form rfl
      exact Or.inr ⟨rest, rfl, by rw [same]⟩
  · rintro (⟨rfl, rfl, rfl⟩ | ⟨rest, rfl, rfl⟩)
    · rfl
    · simp

namespace Patch

def LastOf (p : Patch) (patches : List Patch) : Prop :=
  ∃ before after, patches = before ++ p :: after ∧ ∀ q ∈ after, q.uuid ≠ p.uuid

theorem lastOf_cons {p first : Patch} {rest : List Patch} : p.LastOf (first :: rest) ↔
    p.LastOf rest ∨ p = first ∧ ∀ q ∈ rest, q.uuid ≠ p.uuid := by
  constructor
  · intro ⟨before, after, form, others⟩
    cases before with
    | nil =>
      obtain ⟨rfl, rfl⟩ := List.cons.inj form
      exact Or.inr ⟨rfl, others⟩
    | cons b before => exact Or.inl ⟨before, after, (List.cons.inj form).2, others⟩
  · rintro (⟨before, after, rfl, others⟩ | ⟨rfl, others⟩)
    · exact ⟨first :: before, after, rfl, others⟩
    · exact ⟨[], rest, rfl, others⟩

theorem lastOf_concat_iff {p q : Patch} {patches : List Patch} :
    p.LastOf (patches ++ [q]) ↔ p = q ∨ p.LastOf patches ∧ q.uuid ≠ p.uuid := by
  constructor
  · rintro ⟨before, after, form, others⟩
    rcases concat_eq_append_cons_iff.1 form with ⟨-, same, -⟩ | ⟨rest, rfl, rfl⟩
    · exact Or.inl same
    · obtain ⟨others, differ⟩ := List.forall_mem_append.1 others
      exact Or.inr ⟨⟨before, rest, rfl, others⟩, differ q (List.mem_singleton_self q)⟩
  · rintro (rfl | ⟨⟨before, after, rfl, others⟩, differ⟩)
    · exact ⟨patches, [], rfl, by simp⟩
    · refine ⟨before, after ++ [q], by simp, List.forall_mem_append.2 ⟨others, ?_⟩⟩
      exact List.forall_mem_singleton.2 differ

theorem not_lastOf_nil (p : Patch) : ¬ p.LastOf [] := by
  intro ⟨before, after, form, _⟩
  simp at form

theorem mem_latest {p : Patch} {kept patches : List Patch} : p ∈ latest kept patches ↔
    p.LastOf patches ∨ p ∈ kept ∧ ∀ q ∈ patches, q.uuid ≠ p.uuid := by
  induction patches generalizing kept with
  | nil => simp [latest, not_lastOf_nil]
  | cons first rest ih =>
    rw [latest, List.foldl_cons, ← latest, ih, lastOf_cons, List.mem_cons, List.mem_filter,
      List.forall_mem_cons]
    by_cases differ : p.uuid = first.uuid <;> by_cases same : p = first <;> simp_all [eq_comm]

theorem exists_lastOf {patches : List Patch} {q : Patch} (h : q ∈ patches) :
    ∃ p : Patch, p.LastOf patches ∧ p.uuid = q.uuid := by
  induction patches generalizing q with
  | nil => cases h
  | cons first rest ih =>
    by_cases later : ∃ r ∈ rest, r.uuid = q.uuid
    · obtain ⟨r, member, same⟩ := later
      obtain ⟨p, last, same'⟩ := ih member
      exact ⟨p, lastOf_cons.2 (Or.inl last), same'.trans same⟩
    · rcases List.mem_cons.1 h with rfl | member
      · exact ⟨q, lastOf_cons.2 (Or.inr ⟨rfl, fun r found same => later ⟨r, found, same⟩⟩), rfl⟩
      · exact absurd ⟨q, member, rfl⟩ later

theorem LastOf.mem {p : Patch} {patches : List Patch} (h : p.LastOf patches) : p ∈ patches := by
  obtain ⟨before, after, rfl, -⟩ := h
  simp

/-- The patches are the same in all that is stored of them. -/
structure Matches (p q : Patch) : Prop where
  uuid : p.uuid = q.uuid
  stamp : p.stamp = q.stamp
  error : p.error = q.error
  source : p.source.uri = q.source.uri
  target : p.target.uri = q.target.uri
  operations : p.operations = q.operations

end Patch

structure Setup.Invertible (s : Setup) : Prop where
  source : s.source.canBeSource ∧ s.source.canBeTarget
  target : s.target.canBeSource ∧ s.target.canBeTarget

def Setup.Directs (s : Setup) (p : Patch) : Prop :=
  p.source.uri = s.source.uri ∧ p.target.uri = s.target.uri ∨
    p.source.uri = s.target.uri ∧ p.target.uri = s.source.uri

/-- A source is recorded, and it is one of the endpoints. -/
def Setup.Recognises (s : Setup) (recorded : Option Bytes) : Prop :=
  recorded = some (Bytes.ofText s.source.uri) ∨ recorded = some (Bytes.ofText s.target.uri)

theorem Setup.Directs.recognises {s : Setup} {p : Patch} (h : s.Directs p) :
    s.Recognises (some (Bytes.ofText p.source.uri)) :=
  h.imp (fun way => by rw [way.1]) fun way => by rw [way.1]

namespace Setup.Invertible

variable {s : Setup} (h : s.Invertible)

include h

theorem direction_of_recognised {recorded : Option Bytes} (known : s.Recognises recorded) :
    recorded = some (Bytes.ofText (s.direction recorded).source.uri) ∧
      ((s.direction recorded).source.uri = s.source.uri ∧
          (s.direction recorded).target.uri = s.target.uri ∨
        (s.direction recorded).source.uri = s.target.uri ∧
          (s.direction recorded).target.uri = s.source.uri) := by
  have form (uri : Bytes) : s.direction (some uri) = if uri = Bytes.ofText s.source.uri
      then ⟨s.source, s.target⟩ else s.inverted?.getD ⟨s.source, s.target⟩ := rfl
  have inverted : s.inverted? = some ⟨s.target, s.source⟩ := by
    simp [inverted?, Endpoint.asSource?, Endpoint.asTarget?, h.source.2, h.target.1]
  rcases known with rfl | rfl
  · rw [form, if_pos rfl]
    exact ⟨rfl, Or.inl ⟨rfl, rfl⟩⟩
  · by_cases forward : Bytes.ofText s.target.uri = Bytes.ofText s.source.uri
    · rw [form, if_pos forward]
      exact ⟨congrArg some forward, Or.inl ⟨rfl, rfl⟩⟩
    · rw [form, if_neg forward, inverted, Option.getD_some]
      exact ⟨rfl, Or.inr ⟨rfl, rfl⟩⟩

theorem direction {p : Patch} (directs : s.Directs p) :
    (s.direction (some (Bytes.ofText p.source.uri))).source.uri = p.source.uri ∧
      (s.direction (some (Bytes.ofText p.source.uri))).target.uri = p.target.uri := by
  obtain ⟨recorded, ways⟩ := h.direction_of_recognised directs.recognises
  have same := (Bytes.ofText_injective (Option.some.inj recorded)).symm
  refine ⟨same, ?_⟩
  rw [same] at ways
  unfold Directs at directs
  -- where both endpoints have one URI, either way is the other
  grind

end Setup.Invertible

namespace Patch

theorem restored_sequence (operations : List Operation) (seq : UInt64) :
    (Record.sequence seq (operations.map Operation.encode)).filterMap
      (fun operation => (Operation.decode operation.2).toOption) =
        operations.filter fun op => op.depth ≤ 125 := by
  induction operations generalizing seq with
  | nil => rfl
  | cons op rest ih =>
    have read : (Operation.decode op.encode).toOption = if op.depth ≤ 125 then some op else none := by
      rw [Operation.decode_encode]
      split <;> rfl
    rw [List.map_cons, Record.sequence, List.filterMap_cons, read, ih, List.filter_cons]
    by_cases shallow : op.depth ≤ 125 <;> simp [shallow]

theorem operations_sheet {operations : List Operation} (shallow : ∀ op ∈ operations, op.depth ≤ 125)
    (seq : UInt64) :
    (Record.sequence seq (operations.map Operation.encode)).filterMap
      (fun operation => (Operation.decode operation.2).toOption) = operations := by
  rw [restored_sequence, List.filter_eq_self.2]
  exact fun op member => decide_eq_true (shallow op member)

theorem error_sheet (p : Patch) (setup : Setup) (now : Instant) :
    (p.toRecord.sheet.patch setup now).error = p.error := by
  cases form : p.error <;> simp [Sheet.patch, Record.sheet, toRecord, form]

theorem matches_sheet {setup : Setup} (invertible : setup.Invertible) {p : Patch}
    (directs : setup.Directs p) (shallow : ∀ op ∈ p.operations, op.depth ≤ 125) (now : Instant) :
    (p.toRecord.sheet.patch setup now).Matches p := by
  obtain ⟨source, target⟩ := invertible.direction directs
  constructor
  · rfl
  · simp [Sheet.patch, Sheet.stamp?, Record.sheet, toRecord, Instant.ofStored?_stored]
  · exact p.error_sheet setup now
  · exact source
  · exact target
  · exact operations_sheet shallow 1

end Patch

namespace Tree.Keeps

variable {t : Tree} {patches : List Patch} {setup : Setup} {clock : Nat → Instant} {loaded : Loaded}

theorem sheet_of_mem_history (h : t.Keeps patches)
    (bounded : ∀ p ∈ patches, p.operations.length < UInt64.size)
    (member : loaded ∈ t.history setup clock) :
    ∃ p ∈ patches, ∃ now, loaded = p.toRecord.sheet.loaded setup now := by
  obtain ⟨named, now, form⟩ := loaded_of_mem_history member
  obtain ⟨p, held, same⟩ := List.mem_map.1 (h.names_iff.1 named)
  have short : p.toRecord.operations.length < UInt64.size := by
    rw [p.length_operations_toRecord]
    exact bounded p held
  have sheet := (h.holds p held).sheet_eq (h.separable held) short
  rw [← same, show p.uuid = p.toRecord.uuid from rfl, sheet] at form
  exact ⟨p, held, now, form⟩

theorem matches_history (h : t.Keeps patches) (invertible : setup.Invertible)
    (directed : ∀ p ∈ patches, setup.Directs p)
    (shallow : ∀ p ∈ patches, ∀ op ∈ p.operations, op.depth ≤ 125)
    (bounded : ∀ p ∈ patches, p.operations.length < UInt64.size)
    (member : loaded ∈ t.history setup clock) : ∃ p ∈ patches, loaded.patch.Matches p := by
  obtain ⟨p, held, now, rfl⟩ := h.sheet_of_mem_history bounded member
  exact ⟨p, held, Patch.matches_sheet invertible (directed p held) (shallow p held) now⟩

end Tree.Keeps

namespace Ledger

theorem start_empty (setup : Setup) (clock : Nat → Instant) :
    start setup clock .empty = ⟨setup, .empty, false, [], []⟩ := by
  have none : Tree.history .empty setup clock = [] := List.mergeSort_nil
  simp [start, load, history, none, stale]

theorem mem_of_mem_written {l : Ledger} {patches : List Patch} {p : Patch}
    (h : p ∈ l.written (patches.map .submit)) : p ∈ patches := by
  obtain ⟨q, member, same⟩ := List.mem_map.1 (submit_mem_of_mem_written h)
  exact Move.submit.inj same ▸ member

theorem mem_history_of_mem_load {l : Ledger} {clock : Nat → Instant} {offset limit : Nat}
    {loaded : Loaded} (member : loaded ∈ (l.load clock offset limit).1) :
    loaded ∈ l.history clock :=
  List.mem_of_mem_drop (List.mem_of_mem_take member)

theorem stale_of_fits {setup : Setup} {history : List Loaded}
    (fits : history.length ≤ setup.config.retention.toNat) : stale setup history = [] := by
  rw [stale, List.drop_eq_nil_of_le fits, List.map_nil]

theorem load_of_fits {l : Ledger} {clock : Nat → Instant}
    (fits : (l.history clock).length ≤ l.setup.config.retention.toNat) :
    l.load clock 0 (UInt64.size - 1) = (l.history clock, l) := by
  have small : l.setup.config.retention.toNat < UInt64.size := l.setup.config.retention.toNat_lt
  rw [load, stale_of_fits fits, List.drop_zero, List.take_of_length_le (by omega)]
  rfl

/-- A load returns the last patch written under each uuid, whole, and these in order. The bound on
the operations is that of the numbers they are stored under. -/
theorem load_submitAll {setup : Setup} (invertible : setup.Invertible) (clock clock' : Nat → Instant)
    (patches : List Patch) (directed : ∀ p ∈ patches, setup.Directs p)
    (shallow : ∀ p ∈ patches, ∀ op ∈ p.operations, op.depth ≤ 125)
    (bounded : ∀ p ∈ patches, p.operations.length < UInt64.size)
    (room : (patches.map Patch.uuid).dedup.length ≤ setup.config.retention.toNat) :
    let first := start setup clock .empty
    let written := first.written (patches.map .submit)
    let l := first.submitAll patches
    ∃ page, l.load clock' 0 (UInt64.size - 1) = (page, l) ∧
      (page.map fun loaded => loaded.patch.uuid).Nodup ∧
      (∀ uuid, uuid ∈ page.map (fun loaded => loaded.patch.uuid) ↔ uuid ∈ written.map Patch.uuid) ∧
      (∀ loaded ∈ page, ∃ p : Patch, p.LastOf written ∧ loaded.patch.Matches p) ∧
      (page.map Loaded.patch).Pairwise Patch.Precedes ∧
      l.count = page.length := by
  intro first written l
  have first_eq : first = ⟨setup, .empty, false, [], []⟩ := start_empty setup clock
  have setup_eq : l.setup = setup := by
    have same : l.setup = first.setup := by
      rw [show l = first.run (patches.map .submit) from submitAll_eq_run first patches, setup_run]
    rw [same, first_eq]
  have keeps : l.tree.Keeps (Patch.latest [] written) :=
    keeps_submitAll (by rw [first_eq]; exact Tree.keeps_empty) patches
  have latest (p : Patch) : p ∈ Patch.latest [] written ↔ p.LastOf written := by
    simp [Patch.mem_latest]
  have submitted (p : Patch) (h : p ∈ Patch.latest [] written) : p ∈ patches :=
    mem_of_mem_written ((latest p).1 h).mem
  have uuids := keeps.uuids_history l.setup clock'
  have fits : (l.history clock').length ≤ l.setup.config.retention.toNat := by
    have few : ((Patch.latest [] written).map Patch.uuid).Subperm (patches.map Patch.uuid).dedup := by
      refine List.subperm_of_subset keeps.distinct fun uuid member => ?_
      obtain ⟨p, held, same⟩ := List.mem_map.1 member
      exact List.mem_dedup.2 (List.mem_map.2 ⟨p, submitted p held, same⟩)
    have length := few.length_le
    rw [List.length_map] at length
    rw [history, keeps.length_history, setup_eq]
    exact Nat.le_trans length room
  refine ⟨l.history clock', load_of_fits fits, uuids.nodup_iff.2 keeps.distinct, ?_, ?_,
    l.tree.pairwise_history l.setup clock', ?_⟩
  · intro uuid
    rw [history, uuids.mem_iff]
    constructor
    · intro member
      obtain ⟨p, held, same⟩ := List.mem_map.1 member
      exact List.mem_map.2 ⟨p, ((latest p).1 held).mem, same⟩
    · intro member
      obtain ⟨q, found, same⟩ := List.mem_map.1 member
      obtain ⟨p, last, same'⟩ := Patch.exists_lastOf found
      exact List.mem_map.2 ⟨p, (latest p).2 last, same'.trans same⟩
  · intro loaded member
    obtain ⟨p, held, matched⟩ := keeps.matches_history (setup_eq.symm ▸ invertible)
      (fun p held => setup_eq.symm ▸ directed p (submitted p held))
      (fun p held => shallow p (submitted p held)) (fun p held => bounded p (submitted p held)) member
    exact ⟨p, (latest p).1 held, matched⟩
  · rw [count, keeps.patchCount, history, keeps.length_history]

theorem load_submitAll_rewritten :
    let setup : Setup := { source := .ofUri "a", target := .ofUri "b" }
    let old : Patch := ⟨"u", .ofUri "a", .ofUri "b", .epoch, [], some "interrupted"⟩
    let new : Patch := ⟨"u", .ofUri "b", .ofUri "a", .epoch,
      [.change .create { path := "f" } none .epoch], none⟩
    let l := (start setup (fun _ => .epoch) .empty).submitAll [old, new]
    ∃ page, l.load (fun _ => .epoch) 0 (UInt64.size - 1) = (page, l) ∧ page.length = 1 ∧
      ∀ loaded ∈ page, loaded.patch.Matches new := by
  intro setup old new l
  have invertible : setup.Invertible := ⟨⟨rfl, rfl⟩, ⟨rfl, rfl⟩⟩
  have forward : setup.Directs old := Or.inl ⟨rfl, rfl⟩
  have backward : setup.Directs new := Or.inr ⟨rfl, rfl⟩
  have shallow : ∀ p ∈ [old, new], ∀ op ∈ p.operations, op.depth ≤ 125 := by
    simp [old, new, Operation.depth]
  obtain ⟨page, load, distinct, uuids, last, -, -⟩ := load_submitAll invertible (fun _ => .epoch)
    (fun _ => .epoch) [old, new] (by simp [forward, backward]) shallow
    (by simp [old, new, UInt64.size]) (by decide)
  have written : (start setup (fun _ => .epoch) .empty).written ([old, new].map .submit) =
      [old, new] := written_submits (by decide) (by decide)
  rw [written] at uuids last
  refine ⟨page, load, ?_, ?_⟩
  · have one : (page.map fun loaded => loaded.patch.uuid).Perm ["u"] := by
      refine (List.perm_ext_iff_of_nodup distinct (by decide)).2 fun uuid => ?_
      rw [uuids]
      simp [old, new]
    simpa using one.length_eq
  · intro loaded member
    obtain ⟨p, latest, matched⟩ := last loaded member
    rw [Patch.lastOf_cons, Patch.lastOf_cons] at latest
    rcases latest with (nothing | ⟨same, -⟩) | ⟨same, others⟩
    · exact absurd nothing p.not_lastOf_nil
    · exact same ▸ matched
    · exact absurd (by rw [same]) (others new (by simp))

end Ledger

end PatchLedger
