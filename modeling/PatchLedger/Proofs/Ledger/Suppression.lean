import PatchLedger.Proofs.Ledger.Run

/-!
Which submitted patches are written. The error flag of a ledger follows the last
patch with a valid uuid, written or not: one that is suppressed would have left
the flag as it is (`Ledger.lastHasErrors_submitAll`). Patches that are suppressed
or rejected could as well not have been submitted
(`Ledger.submitAll_written_eq`), and of quiet patches in a row the first is
written, if an error came before (`Ledger.written_quiet`).
-/

namespace PatchLedger.Ledger

theorem isRelevant_iff {l : Ledger} {p : Patch} :
    l.isRelevant p ↔ p.operations ≠ [] ∨ p.error ≠ none ∨ l.lastHasErrors := by
  simp [isRelevant, Patch.isEmpty, Patch.hasErrors, Option.isSome_iff_ne_none, or_assoc]

theorem submit_of_not_relevant {l : Ledger} {p : Patch} (h : ¬ l.isRelevant p) :
    l.submit p = (.suppressed, l) := by
  rw [submit, if_neg h]

theorem submit_of_not_valid {l : Ledger} {p : Patch} (relevant : l.isRelevant p)
    (invalid : ¬ Key.validUuid p.uuid) :
    l.submit p = (.rejected (BadUuid.error ⟨p.uuid⟩), l.report ⟨p.uuid, BadUuid.error ⟨p.uuid⟩⟩) := by
  have refused : l.tree.replace p.toRecord = .error ⟨p.uuid⟩ := if_neg invalid
  rw [submit, if_pos relevant, refused]

theorem outcome_submit (l : Ledger) (p : Patch) : (l.submit p).1 =
    if l.isRelevant p then
      if Key.validUuid p.uuid then .written else .rejected (BadUuid.error ⟨p.uuid⟩)
    else .suppressed := by
  by_cases relevant : l.isRelevant p
  · by_cases valid : Key.validUuid p.uuid
    · rw [if_pos relevant, if_pos valid]
      exact submit_eq_written_iff.2 ⟨relevant, valid⟩
    · rw [if_pos relevant, if_neg valid, submit_of_not_valid relevant valid]
  · rw [if_neg relevant, submit_of_not_relevant relevant]

@[simp] theorem lastHasErrors_report (l : Ledger) (failure : Failure) :
    (l.report failure).lastHasErrors = l.lastHasErrors := by
  unfold report
  split <;> rfl

theorem lastHasErrors_submit (l : Ledger) (p : Patch) : (l.submit p).2.lastHasErrors =
    if Key.validUuid p.uuid then p.hasErrors else l.lastHasErrors := by
  by_cases relevant : l.isRelevant p
  · by_cases valid : Key.validUuid p.uuid
    · obtain ⟨t, -, form⟩ := submit_of_written (submit_eq_written_iff.2 ⟨relevant, valid⟩)
      rw [form, if_pos valid]
    · rw [submit_of_not_valid relevant valid, if_neg valid, lastHasErrors_report]
  · -- A suppressed patch has no error, and it finds the flag unset.
    have quiet : p.hasErrors = l.lastHasErrors := by
      simp only [isRelevant, Bool.or_eq_true, not_or, Bool.not_eq_true] at relevant
      rw [relevant.1.2, relevant.2]
    rw [submit_of_not_relevant relevant, quiet, ite_self]

theorem lastHasErrors_submitAll (l : Ledger) (patches : List Patch) :
    (l.submitAll patches).lastHasErrors =
      (patches.filter fun p => Key.validUuid p.uuid).getLast?.elim l.lastHasErrors Patch.hasErrors := by
  induction patches generalizing l with
  | nil => rfl
  | cons p rest ih =>
    have step : l.submitAll (p :: rest) = (l.submit p).2.submitAll rest := rfl
    rw [step, ih, lastHasErrors_submit]
    by_cases valid : Key.validUuid p.uuid
    · rw [if_pos valid, List.filter_cons, if_pos valid, List.getLast?_cons]
      cases (rest.filter fun p => Key.validUuid p.uuid).getLast? <;> rfl
    · rw [if_neg valid, List.filter_cons, if_neg valid]

structure Alike (l l' : Ledger) : Prop where
  tree : l.tree = l'.tree
  lastHasErrors : l.lastHasErrors = l'.lastHasErrors

theorem Alike.refl (l : Ledger) : Alike l l := ⟨rfl, rfl⟩

theorem Alike.trans {l l' l'' : Ledger} (h : Alike l l') (k : Alike l' l'') : Alike l l'' :=
  ⟨h.tree.trans k.tree, h.lastHasErrors.trans k.lastHasErrors⟩

theorem alike_submit {l : Ledger} {p : Patch} (other : (l.submit p).1 ≠ .written) :
    Alike (l.submit p).2 l := by
  by_cases relevant : l.isRelevant p
  · have invalid : ¬ Key.validUuid p.uuid := fun valid =>
      other (submit_eq_written_iff.2 ⟨relevant, valid⟩)
    rw [submit_of_not_valid relevant invalid]
    exact ⟨(l.report_eq _).2.1, l.lastHasErrors_report _⟩
  · rw [submit_of_not_relevant relevant]
    exact Alike.refl l

theorem Alike.submit {l l' : Ledger} (h : Alike l l') (p : Patch) :
    (l.submit p).1 = (l'.submit p).1 ∧ Alike (l.submit p).2 (l'.submit p).2 := by
  have same : l.isRelevant p = l'.isRelevant p := by rw [isRelevant, h.lastHasErrors, isRelevant]
  have outcome : (l.submit p).1 = (l'.submit p).1 := by rw [outcome_submit, same, outcome_submit]
  refine ⟨outcome, ?_⟩
  by_cases written : (l.submit p).1 = .written
  · obtain ⟨t, replaced, form⟩ := submit_of_written written
    have relevant : l'.isRelevant p := same ▸ (submit_eq_written_iff.1 written).1
    rw [form, submit_of_ok relevant (h.tree ▸ replaced)]
    exact ⟨rfl, rfl⟩
  · have back := (alike_submit (outcome ▸ written))
    exact (alike_submit written).trans (h.trans ⟨back.tree.symm, back.lastHasErrors.symm⟩)

theorem submitAll_written_eq {l l' : Ledger} (h : Alike l l') (patches : List Patch) :
    Alike (l.submitAll patches) (l'.submitAll (l.written (patches.map .submit))) ∧
      l'.written ((l.written (patches.map .submit)).map .submit) =
        l.written (patches.map .submit) := by
  induction patches generalizing l l' with
  | nil => exact ⟨h, rfl⟩
  | cons p rest ih =>
    have step : l.submitAll (p :: rest) = (l.submit p).2.submitAll rest := rfl
    rw [step, List.map_cons, Ledger.written, writtenBy, move]
    by_cases written : (l.submit p).1 = .written
    · obtain ⟨outcome, alike⟩ := h.submit p
      obtain ⟨last, again⟩ := ih alike
      rw [if_pos written, Option.toList_some, List.singleton_append, List.map_cons, Ledger.written,
        writtenBy, if_pos (outcome.symm.trans written), move, again]
      exact ⟨last, rfl⟩
    · rw [if_neg written, Option.toList_none, List.nil_append]
      exact ih ((alike_submit written).trans h)

theorem written_quiet_of_unset {l : Ledger} (unset : ¬ l.lastHasErrors) {block : List Patch}
    (quiet : ∀ p ∈ block, p.operations = [] ∧ p.error = none) :
    l.written (block.map .submit) = [] := by
  induction block with
  | nil => rfl
  | cons p rest ih =>
    obtain ⟨⟨empty, fine⟩, quiet⟩ := List.forall_mem_cons.1 quiet
    have suppressed : l.submit p = (.suppressed, l) :=
      submit_of_not_relevant (by simp [isRelevant_iff, empty, fine, unset])
    rw [List.map_cons, written, writtenBy, move, suppressed, if_neg Outcome.noConfusion]
    exact ih quiet

theorem written_quiet {l : Ledger} {block : List Patch}
    (quiet : ∀ p ∈ block, p.operations = [] ∧ p.error = none)
    (valid : ∀ p ∈ block, Key.validUuid p.uuid) :
    l.written (block.map .submit) = if l.lastHasErrors then block.take 1 else [] := by
  by_cases set : l.lastHasErrors
  · rw [if_pos set]
    cases block with
    | nil => rfl
    | cons p rest =>
      obtain ⟨⟨-, fine⟩, quiet⟩ := List.forall_mem_cons.1 quiet
      obtain ⟨here, valid⟩ := List.forall_mem_cons.1 valid
      have first : (l.submit p).1 = .written :=
        submit_eq_written_iff.2 ⟨isRelevant_iff.2 (Or.inr (Or.inr set)), here⟩
      have unset : ¬ (l.submit p).2.lastHasErrors := by
        rw [lastHasErrors_submit, if_pos here, Patch.hasErrors, fine]
        exact Bool.noConfusion
      rw [List.map_cons, written, writtenBy, if_pos first, move, written_quiet_of_unset unset quiet]
      rfl
  · rw [if_neg set]
    exact written_quiet_of_unset set quiet

/-- After any submissions the flag is that of the last patch with a valid uuid; it decides, with the
patch itself, what becomes of the next one. A patch that is written has its stamp, its error, its
source and its numbered operations under its uuid, and nothing else; those that were not written have
left no trace; and of quiet patches that follow only the first is written, if the flag is set. The
bound on the operations is that of the numbers they are stored under. -/
theorem suppression_policy (l : Ledger) (patches : List Patch) :
    let here := l.submitAll patches
    let written := l.written (patches.map .submit)
    here.lastHasErrors =
        (patches.filter fun p => Key.validUuid p.uuid).getLast?.elim l.lastHasErrors Patch.hasErrors ∧
      (∀ p : Patch,
        (here.submit p).1 =
          (if p.operations ≠ [] ∨ p.error ≠ none ∨ here.lastHasErrors then
            if Key.validUuid p.uuid then .written
            else .rejected
              ⟨.invalidArgument, "patch uuid 不能为空或包含 NUL: " ++ Text.quoted p.uuid⟩
          else .suppressed) ∧
        ((here.submit p).1 = .written →
          let after := (here.submit p).2.tree
          after.get? (Key.ofEntry p.uuid .stamp) = some p.stamp.stored ∧
          after.get? (Key.ofEntry p.uuid .error) = p.error.map Bytes.ofText ∧
          after.get? (Key.ofEntry p.uuid .source) = some (Bytes.ofText p.source.uri) ∧
          (p.operations.length < UInt64.size → ∀ seq,
            after.get? (Key.ofOperation p.uuid seq) =
              if 1 ≤ seq.toNat then (p.operations.map Operation.encode)[seq.toNat - 1]? else none) ∧
          (∀ name, Entry.ofName? name = none → after.get? (Key.named p.uuid name) = none) ∧
          Tree.AgreeBut p.uuid after here.tree) ∧
        ((here.submit p).1 ≠ .written → Alike (here.submit p).2 here)) ∧
      (Alike here (l.submitAll written) ∧ l.written (written.map .submit) = written) ∧
      ∀ block : List Patch, (∀ p ∈ block, p.operations = [] ∧ p.error = none) →
        (∀ p ∈ block, Key.validUuid p.uuid) →
        here.written (block.map .submit) = if here.lastHasErrors then block.take 1 else [] := by
  intro here written
  refine ⟨l.lastHasErrors_submitAll patches, fun p => ⟨?_, fun wrote => ?_, alike_submit⟩,
    submitAll_written_eq (Alike.refl l) patches, fun block => written_quiet⟩
  · rw [outcome_submit]
    exact if_congr isRelevant_iff rfl rfl
  · obtain ⟨holds, agree⟩ := holds_of_written wrote
    refine ⟨holds.get?_ofEntry .stamp nofun, holds.get?_ofEntry .error nofun,
      holds.get?_ofEntry .source nofun, fun few seq => ?_, fun name unknown => ?_, agree⟩
    · exact holds.get?_ofEntry (.operation seq) fun _ _ => by rwa [p.length_operations_toRecord]
    · rw [holds _ (Key.start_prefix_named p.uuid name)]
      exact p.toRecord.value?_named_of_ofName? unknown

theorem suppression_policy_recovered :
    let setup : Setup := ⟨.ofUri "a", .ofUri "b", {}⟩
    let stamp := Bytes.ofText "\"1970-01-01T00:00:00Z\""
    let delete := Bytes.ofText <| "\x7b\"node\":\x7b\"kind\":\"file\",\"mtime\":0,\"path\":\"n\"," ++
      "\"size\":0\x7d,\"stamp\":\"1970-01-01T00:00:00Z\",\"type\":\"delete\"\x7d"
    let failed : Patch := ⟨"u", .ofUri "a", .ofUri "b", .epoch,
      [.change .delete ⟨"n", none, none, .file, 0, 0⟩ none .epoch], some "interrupted"⟩
    let first : Patch := ⟨"v", .ofUri "a", .ofUri "b", .epoch, [], none⟩
    let second : Patch := { first with uuid := "w" }
    let here := submitAll ⟨setup, .empty, false, [], []⟩ [failed]
    let after := (here.submit first).2.tree
    (here.tree.get? (Key.ofEntry "u" .stamp) = some stamp ∧
      here.tree.get? (Key.ofEntry "u" .error) = some (Bytes.ofText "interrupted") ∧
      here.tree.get? (Key.ofEntry "u" .source) = some (Bytes.ofText "a") ∧
      here.tree.get? (Key.ofOperation "u" 1) = some delete ∧
      here.tree.get? (Key.ofOperation "u" 2) = none) ∧
      (after.get? (Key.ofEntry "v" .stamp) = some stamp ∧
        after.get? (Key.ofEntry "v" .error) = none ∧
        after.get? (Key.ofOperation "v" 1) = none ∧
        after.get? (Key.ofOperation "u" 1) = some delete) ∧
      here.written ([first, second].map .submit) = [first] := by
  intro setup stamp delete failed first second here after
  obtain ⟨-, begin, -⟩ := suppression_policy ⟨setup, .empty, false, [], []⟩ []
  obtain ⟨flag, next, -, block⟩ := suppression_policy ⟨setup, .empty, false, [], []⟩ [failed]
  have epoch : Instant.epoch.stored = stamp := by decide +kernel
  have encoded : failed.operations.map Operation.encode = [delete] := by decide +kernel
  have set : here.lastHasErrors = true := flag.trans (by decide)
  obtain ⟨outcome, stored, -⟩ := begin failed
  obtain ⟨stampU, errorU, sourceU, operationsU, -⟩ :=
    stored (outcome.trans (by rw [if_pos (Or.inl (by decide)), if_pos (by decide)]))
  obtain ⟨outcome, stored, -⟩ := next first
  obtain ⟨stampV, errorV, -, operationsV, -, agree⟩ :=
    stored (outcome.trans (by rw [if_pos (Or.inr (Or.inr set)), if_pos (by decide)]))
  have delete_first : here.tree.get? (Key.ofOperation "u" 1) = some delete :=
    (operationsU (by decide) 1).trans (by rw [encoded]; rfl)
  have written := block [first, second] (by simp [first, second]) (by decide)
  rw [if_pos set] at written
  exact ⟨⟨stampU.trans (congrArg some epoch), errorU, sourceU, delete_first,
      (operationsU (by decide) 2).trans (by rw [encoded]; rfl)⟩,
    ⟨stampV.trans (congrArg some epoch), errorV, operationsV (by decide) 1,
      (agree _ (by decide)).trans delete_first⟩, written⟩

end PatchLedger.Ledger
