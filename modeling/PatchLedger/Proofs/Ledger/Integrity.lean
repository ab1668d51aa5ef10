import PatchLedger.Proofs.Ledger.Latest

/-!
What a ledger leaves in its tree is in order, however writes, loads and pruners
follow one another (`Ledger.intact_run`). Each key belongs to a patch, and each
patch has one record of everything it needs (`Tree.Intact`). So the patches can
be counted by their sources, by their sheets or by a load, and what is loaded
owes nothing to the clock and lacks no operation.
-/

namespace PatchLedger

namespace Tree

/-- Each key names a record of a valid uuid, and each uuid has the records of one patch: a stamp that
can be read, a source, at most one error, and operations that can be read, numbered from one on. -/
structure Intact (t : Tree) : Prop where
  known : ∀ entry ∈ t.toList,
    ∃ uuid e, Key.parse? entry.1 = some (uuid, some e) ∧ Key.validUuid uuid
  stamp : ∀ uuid, t.Names uuid →
    ∃ b stamp, t.valuesOf uuid .stamp = [b] ∧ Instant.ofStored? b = some stamp
  source : ∀ uuid, t.Names uuid → ∃ b, t.valuesOf uuid .source = [b]
  error : ∀ uuid, t.Names uuid →
    ∃ text : Option String, t.valuesOf uuid .error = (text.map Bytes.ofText).toList
  operations : ∀ uuid, t.Names uuid → ∃ n < UInt64.size, ∀ seq : UInt64,
    (t.valuesOf uuid (.operation seq)).length = (if 1 ≤ seq.toNat ∧ seq.toNat ≤ n then 1 else 0) ∧
      ∀ b ∈ t.valuesOf uuid (.operation seq), ∃ op, Operation.decode b = .ok op

namespace Keeps

variable {t : Tree} {patches : List Patch} (h : t.Keeps patches)

include h

theorem valuesOf {p : Patch} (member : p ∈ patches) (e : Entry)
    (bounded : ∀ seq, e = .operation seq → p.toRecord.operations.length < UInt64.size) :
    t.valuesOf p.uuid e = (p.toRecord.content e).toList :=
  (t.valuesOf_eq (h.separable member) e).trans
    (congrArg Option.toList ((h.holds p member).get?_ofEntry e bounded))

theorem valuesOf_operation {p : Patch} (member : p ∈ patches)
    (bounded : p.operations.length < UInt64.size) (seq : UInt64) :
    t.valuesOf p.uuid (.operation seq) =
      (if 1 ≤ seq.toNat then (p.operations.map Operation.encode)[seq.toNat - 1]? else none).toList :=
  h.valuesOf member (.operation seq) fun _ _ => by rwa [p.length_operations_toRecord]

theorem intact (shallow : ∀ p ∈ patches, ∀ op ∈ p.operations, op.depth ≤ 125)
    (bounded : ∀ p ∈ patches, p.operations.length < UInt64.size) : t.Intact := by
  have kept (uuid : String) (named : t.Names uuid) : ∃ p ∈ patches, p.uuid = uuid :=
    List.mem_map.1 (h.names_iff.1 named)
  constructor
  · intro entry found
    have value := get?_eq_some_iff.2 found
    obtain ⟨p, held, first⟩ := h.others _ _ value
    rw [h.holds p held _ first] at value
    obtain ⟨e, form⟩ := Record.mem_entries (List.mem_reverse.1 (Ascending.mem_of_value? value))
    exact ⟨p.uuid, e, Key.parse?_eq_some_iff.2 ⟨h.separable held, form⟩, h.valid p held⟩
  · intro uuid named
    obtain ⟨p, held, rfl⟩ := kept uuid named
    exact ⟨p.stamp.stored, p.stamp, h.valuesOf held .stamp nofun, Instant.ofStored?_stored p.stamp⟩
  · intro uuid named
    obtain ⟨p, held, rfl⟩ := kept uuid named
    exact ⟨Bytes.ofText p.source.uri, h.valuesOf held .source nofun⟩
  · intro uuid named
    obtain ⟨p, held, rfl⟩ := kept uuid named
    exact ⟨p.error, h.valuesOf held .error nofun⟩
  · intro uuid named
    obtain ⟨p, held, rfl⟩ := kept uuid named
    refine ⟨p.operations.length, bounded p held, fun seq => ?_⟩
    rw [h.valuesOf_operation held (bounded p held)]
    constructor
    · by_cases counted : 1 ≤ seq.toNat ∧ seq.toNat ≤ p.operations.length
      · have place : seq.toNat - 1 < p.operations.length := by omega
        rw [if_pos counted.1, if_pos counted]
        simp [place]
      · rw [if_neg counted]
        split
        · have beyond : p.operations.length ≤ seq.toNat - 1 := by omega
          simp [beyond]
        · rfl
    · intro b member
      obtain ⟨-, found⟩ := Option.ite_none_right_eq_some.1 (Option.mem_toList.1 member)
      obtain ⟨op, listed, rfl⟩ := List.mem_map.1 (List.mem_of_getElem? found)
      refine ⟨op, ?_⟩
      rw [Operation.decode_encode, if_pos (shallow p held op listed)]

end Keeps

theorem value?_sheet_eq_head? (t : Tree) {uuid : String} (separable : Key.Separable uuid) (e : Entry) :
    (t.sheet uuid).value? e = (t.valuesOf uuid e).head? := by
  rw [t.value?_sheet separable, t.valuesOf_eq separable, Option.head?_toList]

namespace Intact

variable {t : Tree} (h : t.Intact) {sheet : Sheet} (found : sheet ∈ t.sheets)

include h

theorem patchCount : t.patchCount = t.sheets.length := by
  rw [t.patchCount_eq, List.filter_eq_self.2]
  intro sheet found
  obtain ⟨named, form⟩ := mem_sheets.1 found
  obtain ⟨b, one⟩ := h.source _ named
  have source := t.value?_sheet_eq_head? named.separable .source
  rw [← form, one] at source
  exact Option.isSome_iff_exists.2 ⟨b, source⟩

theorem dated : t.Dated := by
  intro uuid named
  obtain ⟨b, stamp, one, read⟩ := h.stamp _ named
  rw [← t.value?_sheet named.separable, t.value?_sheet_eq_head? named.separable, one, List.head?_cons,
    Option.bind_some, read, Option.isSome_some]

include found

theorem exists_decode {entry : UInt64 × Bytes} (member : entry ∈ sheet.operations) :
    ∃ op, Operation.decode entry.2 = .ok op := by
  obtain ⟨named, form⟩ := mem_sheets.1 found
  obtain ⟨n, -, all⟩ := h.operations _ named
  have distinct : (sheet.operations.map Prod.fst).Nodup := by
    rw [form]
    exact (t.ascends_operations _).nodup
  have value := t.value?_sheet_eq_head? named.separable (.operation entry.1)
  rw [← form, Sheet.value?, Ascending.value?_reverse distinct,
    (Ascending.value?_eq_some_iff distinct).2 member] at value
  exact (all entry.1).2 entry.2 (List.mem_of_head? value.symm)

end Intact

end Tree

namespace Ledger

/-- Whatever happens to a ledger that began empty, its tree is in order; its patches are as many as
are counted and as a load finds, and all that is stored of them is loaded. The bound on the operations
is that of the numbers they are stored under. -/
theorem intact_run (setup : Setup) (opening : Nat → Instant) (moves : List Move)
    (shallow : ∀ p, .submit p ∈ moves → ∀ op ∈ p.operations, op.depth ≤ 125)
    (bounded : ∀ p, .submit p ∈ moves → p.operations.length < UInt64.size) :
    let l := (start setup opening .empty).run moves
    l.tree.Intact ∧
      l.count = l.tree.sheets.length ∧
      (∀ clock limit, l.count ≤ limit → (l.load clock 0 limit).1.length = l.count) ∧
      (∀ sheet ∈ l.tree.sheets, (∃ stamp, sheet.stamp? = some stamp) ∧
        ∀ entry ∈ sheet.operations, ∃ op, Operation.decode entry.2 = .ok op) ∧
      ∀ clock clock', l.history clock = l.history clock' := by
  intro l
  have begins : KeepsLatest (start setup opening .empty).tree (start setup opening .empty).pruners
      [] [] := KeepsLatest.empty.start setup opening
  obtain ⟨kept, ended⟩ := begins.run moves
  have submitted (p : Patch) (held : p ∈ kept) : .submit p ∈ moves :=
    submit_mem_of_mem_written (ended.latest p held).mem
  have intact : l.tree.Intact := ended.keeps.intact (fun p held => shallow p (submitted p held))
    fun p held => bounded p (submitted p held)
  refine ⟨intact, intact.patchCount, fun clock limit room => ?_, fun sheet found => ?_,
    intact.dated.history_eq l.setup⟩
  · have length : (l.history clock).length = l.count :=
      (l.tree.length_history l.setup clock).trans intact.patchCount.symm
    rw [load, List.drop_zero, List.length_take, length, Nat.min_eq_right room]
  · exact ⟨intact.dated.exists_stamp? found, fun entry member => intact.exists_decode found member⟩

theorem intact_run_rewritten :
    let setup : Setup := ⟨.ofUri "a", .ofUri "b", { retention := 1 }⟩
    let node : Operation := .change .create { path := "f" } none .epoch
    let first : Patch := ⟨"u", .ofUri "a", .ofUri "b", .epoch, [node, node], some "interrupted"⟩
    let again : Patch := { first with operations := [node], error := none }
    let other : Patch := { first with uuid := "uv" }
    let l := (start setup (fun _ => .epoch) .empty).run
      [.submit first, .submit other, .load (fun _ => .epoch) 0 1, .submit again, .prune 0]
    l.tree.Intact ∧ l.count = l.tree.sheets.length := by
  intro setup node first again other l
  have intact := intact_run setup (fun _ => .epoch)
    [.submit first, .submit other, .load (fun _ => .epoch) 0 1, .submit again, .prune 0]
    (by simp [first, again, other, node, Operation.depth])
    (by simp [first, again, other, UInt64.size])
  exact ⟨intact.1, intact.2.1⟩

end Ledger

end PatchLedger
