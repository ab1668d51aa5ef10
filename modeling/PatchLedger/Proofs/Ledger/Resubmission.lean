import Mathlib.Logic.Function.Iterate
import PatchLedger.Proofs.Ledger.RoundTrip
import PatchLedger.Proofs.Ledger.Suppression

/-!
Patches that are submitted again under their uuid. A load shows what was submitted
last, of all that passed: a patch without operations and error passes only if it
comes right after an error (`Patch.Passes`), and where it does not, what was there
before is still loaded (`Ledger.stale_though_resubmitted`).
-/

namespace PatchLedger

namespace Patch

/-- The patch, submitted after the others, is not suppressed. -/
def Passes (before : List Patch) (p : Patch) : Prop :=
  p.operations ≠ [] ∨ p.error ≠ none ∨ ∃ q, before.getLast? = some q ∧ q.error ≠ none

/-- Of the submissions with its uuid the patch is the last one that passed. -/
def LastPassed (p : Patch) (patches : List Patch) : Prop :=
  ∃ before after, patches = before ++ p :: after ∧ p.Passes before ∧
    ∀ middle q rest, after = middle ++ q :: rest → q.uuid = p.uuid →
      ¬ q.Passes (before ++ p :: middle)

theorem lastPassed_concat {p q : Patch} {patches : List Patch} : p.LastPassed (patches ++ [q]) ↔
    p = q ∧ q.Passes patches ∨ p.LastPassed patches ∧ (q.uuid = p.uuid → ¬ q.Passes patches) := by
  constructor
  · rintro ⟨before, after, form, passed, later⟩
    rcases concat_eq_append_cons_iff.1 form with ⟨rfl, rfl, rfl⟩ | ⟨rest, rfl, rfl⟩
    · exact Or.inl ⟨rfl, passed⟩
    · refine Or.inr ⟨⟨before, rest, rfl, passed, fun middle r tail split => ?_⟩, later rest q [] rfl⟩
      exact later middle r (tail ++ [q]) (by simp [split])
  · rintro (⟨rfl, passed⟩ | ⟨⟨before, after, rfl, passed, later⟩, last⟩)
    · exact ⟨patches, [], rfl, passed, by simp⟩
    · refine ⟨before, after ++ [q], by simp, passed, fun middle r rest split => ?_⟩
      rcases concat_eq_append_cons_iff.1 split with ⟨rfl, rfl, -⟩ | ⟨tail, split, -⟩
      · exact last
      · exact later middle r tail split

theorem not_lastPassed_nil (p : Patch) : ¬ p.LastPassed [] := by
  rintro ⟨before, after, form, -⟩
  simp at form

end Patch

theorem Tree.Keeps.content_of_mem_history {t : Tree} {patches : List Patch} (h : t.Keeps patches)
    (bounded : ∀ p ∈ patches, p.operations.length < UInt64.size) {setup : Setup}
    {clock : Nat → Instant} {loaded : Loaded} (member : loaded ∈ t.history setup clock) :
    ∃ p ∈ patches, loaded.patch.uuid = p.uuid ∧ loaded.patch.error = p.error ∧
      loaded.patch.operations = p.operations.filter fun op => op.depth ≤ 125 := by
  obtain ⟨p, held, now, rfl⟩ := h.sheet_of_mem_history bounded member
  exact ⟨p, held, rfl, p.error_sheet setup now, Patch.restored_sequence p.operations 1⟩

namespace Ledger

theorem load_one {l : Ledger} {p : Patch} (keeps : l.tree.Keeps [p])
    (bounded : p.operations.length < UInt64.size) (clock : Nat → Instant) :
    ∃ loaded, (l.load clock 0 1).1 = [loaded] ∧ loaded.patch.uuid = p.uuid ∧
      loaded.patch.error = p.error ∧
      loaded.patch.operations = p.operations.filter fun op => op.depth ≤ 125 := by
  obtain ⟨loaded, form⟩ := List.length_eq_one_iff.1 (keeps.length_history l.setup clock)
  obtain ⟨q, held, content⟩ := keeps.content_of_mem_history (List.forall_mem_singleton.2 bounded)
    (form ▸ List.mem_singleton_self loaded)
  refine ⟨loaded, ?_, List.mem_singleton.1 held ▸ content⟩
  rw [load, history, form]
  rfl

section Submissions

variable {l : Ledger} (unset : ¬ l.lastHasErrors) {patches : List Patch}
  (valid : ∀ p ∈ patches, Key.validUuid p.uuid)

include unset valid

theorem isRelevant_submitAll_iff (p : Patch) :
    (l.submitAll patches).isRelevant p ↔ p.Passes patches := by
  rw [isRelevant_iff, lastHasErrors_submitAll, List.filter_eq_self.2 valid, Patch.Passes]
  refine or_congr_right (or_congr_right ?_)
  cases patches.getLast? with
  | none => simpa using unset
  | some q => simp [Patch.hasErrors, Option.isSome_iff_ne_none]

theorem lastOf_written_iff (p : Patch) :
    p.LastOf (l.written (patches.map .submit)) ↔ p.LastPassed patches := by
  induction patches using List.reverseRecOn with
  | nil => simp [written, Patch.not_lastOf_nil, Patch.not_lastPassed_nil]
  | append_singleton patches q ih =>
    obtain ⟨valid, last⟩ := List.forall_mem_append.1 valid
    have passes := isRelevant_submitAll_iff unset valid q
    rw [List.map_append, written_append, ← submitAll_eq_run, Patch.lastPassed_concat, ← ih valid]
    by_cases passed : q.Passes patches
    · have wrote : ((l.submitAll patches).submit q).1 = .written :=
        submit_eq_written_iff.2 ⟨passes.2 passed, last q (List.mem_singleton_self q)⟩
      have added : (l.submitAll patches).written [.submit q] = [q] := by
        rw [written, writtenBy, if_pos wrote]
        rfl
      rw [List.map_singleton, added, Patch.lastOf_concat_iff]
      simp [passed]
    · have suppressed : (l.submitAll patches).submit q = (.suppressed, l.submitAll patches) :=
        submit_of_not_relevant (mt passes.1 passed)
      have nothing : (l.submitAll patches).written [.submit q] = [] := by
        rw [written, writtenBy, suppressed]
        rfl
      rw [List.map_singleton, nothing, List.append_nil]
      simp [passed]

end Submissions

/-- Of patches submitted to an empty ledger with valid uuids a load shows, under each uuid, the last
one that passed. The bound on the operations is that of the numbers they are stored under. -/
theorem load_shows_last_passed (setup : Setup) (opening : Nat → Instant) (patches : List Patch)
    (valid : ∀ p ∈ patches, Key.validUuid p.uuid)
    (bounded : ∀ p ∈ patches, p.operations.length < UInt64.size) :
    let l := (start setup opening .empty).submitAll patches
    (∀ clock uuid, (∃ loaded ∈ l.history clock, loaded.patch.uuid = uuid) ↔
      ∃ p : Patch, p.LastPassed patches ∧ p.uuid = uuid) ∧
    ∀ clock offset limit, ∀ loaded ∈ (l.load clock offset limit).1,
      ∃ p : Patch, p.LastPassed patches ∧ loaded.patch.uuid = p.uuid ∧
        loaded.patch.error = p.error ∧
        loaded.patch.operations = p.operations.filter fun op => op.depth ≤ 125 := by
  intro l
  have first : start setup opening .empty = ⟨setup, .empty, false, [], []⟩ := start_empty setup opening
  have unset : ¬ (start setup opening .empty).lastHasErrors := by simp [first]
  let kept := Patch.latest [] ((start setup opening .empty).written (patches.map .submit))
  have keeps : l.tree.Keeps kept := keeps_submitAll (first ▸ Tree.keeps_empty) patches
  have latest (p : Patch) : p ∈ kept ↔ p.LastPassed patches := by
    rw [← lastOf_written_iff unset valid, Patch.mem_latest]
    simp
  have submitted (p : Patch) (held : p ∈ kept) : p ∈ patches := by
    obtain ⟨before, after, form, -⟩ := (latest p).1 held
    simp [form]
  refine ⟨fun clock uuid => ?_, fun clock offset limit loaded member => ?_⟩
  · have names : (∃ loaded ∈ l.history clock, loaded.patch.uuid = uuid) ↔ uuid ∈ kept.map Patch.uuid :=
      Tree.exists_mem_history_iff.trans keeps.names_iff
    rw [names, List.mem_map]
    simp only [latest]
  · obtain ⟨p, held, content⟩ := keeps.content_of_mem_history
      (fun p held => bounded p (submitted p held)) (mem_history_of_mem_load member)
    exact ⟨p, (latest p).1 held, content⟩

theorem load_shows_last_passed_recovered :
    let setup : Setup := { source := .ofUri "a", target := .ofUri "b" }
    let clock : Nat → Instant := fun _ => .epoch
    let failed : Patch := ⟨"u", .ofUri "a", .ofUri "b", .epoch,
      [.change .create { path := "f" } none .epoch], some "interrupted"⟩
    let again : Patch := { failed with operations := [], error := none }
    let l := (start setup clock .empty).submitAll [failed, again]
    ∃ loaded ∈ l.history clock, loaded.patch.uuid = "u" ∧ loaded.patch.operations = [] ∧
      loaded.patch.error = none := by
  intro setup clock failed again l
  obtain ⟨uuids, shown⟩ := load_shows_last_passed setup clock [failed, again] (by decide)
    (by simp [failed, again, UInt64.size])
  have passes : again.Passes [failed] := Or.inr (Or.inr ⟨failed, rfl, by simp [failed]⟩)
  have last (p : Patch) : p.LastPassed [failed, again] ↔ p = again := by
    rw [show [failed, again] = ([] ++ [failed]) ++ [again] from rfl, Patch.lastPassed_concat,
      Patch.lastPassed_concat]
    constructor
    · rintro (⟨rfl, -⟩ | ⟨⟨rfl, -⟩ | ⟨nothing, -⟩, blocked⟩)
      · rfl
      · exact absurd passes (blocked rfl)
      · exact absurd nothing p.not_lastPassed_nil
    · rintro rfl
      exact Or.inl ⟨rfl, passes⟩
  obtain ⟨loaded, found, uuid⟩ := (uuids clock "u").2 ⟨again, (last again).2 rfl, rfl⟩
  have page : loaded ∈ (l.load clock 0 (l.history clock).length).1 := by
    rw [load, List.drop_zero, List.take_length]
    exact found
  obtain ⟨p, passed, -, error, operations⟩ := shown clock 0 _ loaded page
  rw [(last p).1 passed] at error operations
  exact ⟨loaded, found, uuid, operations, error⟩

/-- A patch that was suppressed leaves what was there under its uuid, and operations that are nested
too deep are not loaded. -/
theorem stale_though_resubmitted :
    let setup : Setup := { source := .ofUri "a", target := .ofUri "b" }
    let clock : Nat → Instant := fun _ => .epoch
    let first := start setup clock .empty
    let op : Operation := .change .create { path := "f" } none .epoch
    let wrap (op : Operation) : Operation :=
      .conflict .pathOperation op.node op (.change .delete op.node none op.stamp) op.stamp
    let old : Patch := ⟨"u", .ofUri "a", .ofUri "b", .epoch, [op], none⟩
    let new : Patch := { old with operations := [] }
    let deep : Patch := { old with operations := [wrap^[126] op] }
    (∃ loaded ∈ ((first.submitAll [old, new]).load clock 0 1).1,
      loaded.patch.uuid = new.uuid ∧ loaded.patch.operations ≠ new.operations) ∧
    ∃ loaded ∈ ((first.submitAll [deep]).load clock 0 1).1,
      loaded.patch.uuid = deep.uuid ∧ loaded.patch.operations ≠ deep.operations := by
  intro setup clock first op wrap old new deep
  have opened : first = ⟨setup, .empty, false, [], []⟩ := start_empty setup clock
  have empty : first.tree = .empty := by rw [opened]
  have unset : ¬ first.lastHasErrors := by simp [opened]
  constructor
  · have keeps : (first.submitAll [old]).tree.Keeps [old] := keeps_submits empty (by decide) (by decide)
    have quiet : ¬ new.Passes [old] := by simp [Patch.Passes, old, new]
    have suppressed : ¬ (first.submitAll [old]).isRelevant new := by
      rwa [isRelevant_submitAll_iff unset (by decide)]
    have same : first.submitAll [old, new] = ((first.submitAll [old]).submit new).2 := rfl
    obtain ⟨loaded, page, uuid, -, operations⟩ := load_one keeps (by decide) clock
    rw [same, submit_of_not_relevant suppressed, page]
    refine ⟨loaded, List.mem_singleton_self loaded, uuid, ?_⟩
    rw [operations]
    simp [old, new, op, Operation.depth]
  · have keeps : (first.submitAll [deep]).tree.Keeps [deep] :=
      keeps_submits empty (by decide) (by decide)
    have depth (n : Nat) : (wrap^[n] op).depth = n := by
      induction n with
      | zero => rfl
      | succ n ih =>
        rw [Function.iterate_succ_apply', Operation.depth, ih, Operation.depth, Nat.max_zero]
    obtain ⟨loaded, page, uuid, -, operations⟩ := load_one keeps (by decide) clock
    rw [page]
    refine ⟨loaded, List.mem_singleton_self loaded, uuid, ?_⟩
    have deeper : ¬ (wrap^[126] op).depth ≤ 125 := by
      rw [depth]
      decide
    have lost : deep.operations.filter (fun op => op.depth ≤ 125) = [] :=
      List.filter_cons_of_neg (fun shallow => deeper (of_decide_eq_true shallow))
    rw [operations, lost]
    exact (List.cons_ne_nil _ _).symm

end Ledger

end PatchLedger
