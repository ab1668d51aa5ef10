import PatchLedger.Proofs.Ledger.Keeping

/-!
Runs of a ledger. The writer submits patches, readers load pages and pruners take
their steps, in any order. Of all this only three things touch the tree or the
pruners (`Ledger.effect_move`): a patch is written, a load leaves its stale
patches to a new pruner, and a pruner deals with its next entry.
-/

namespace PatchLedger.Ledger

inductive Move where
  | submit (p : Patch)
  | load (clock : Nat → Instant) (offset limit : Nat)
  | prune (i : Nat)

def move (l : Ledger) : Move → Ledger
  | .submit p => (l.submit p).2
  | .load clock offset limit => (l.load clock offset limit).2
  | .prune i => l.pruneStep i

def run (l : Ledger) (moves : List Move) : Ledger := moves.foldl move l

def writtenBy (l : Ledger) : Move → Option Patch
  | .submit p => if (l.submit p).1 = .written then some p else none
  | .load _ _ _ | .prune _ => none

def written : Ledger → List Move → List Patch
  | _, [] => []
  | l, m :: moves => (l.writtenBy m).toList ++ (l.move m).written moves

theorem mem_of_writtenBy {l : Ledger} {m : Move} {p : Patch} (h : l.writtenBy m = some p) :
    m = .submit p := by
  cases m with
  | submit q =>
    rw [writtenBy] at h
    split at h
    · rw [Option.some.inj h]
    · cases h
  | load => cases h
  | prune => cases h

theorem submit_mem_of_mem_written {l : Ledger} {moves : List Move} {p : Patch}
    (h : p ∈ l.written moves) : .submit p ∈ moves := by
  induction moves generalizing l with
  | nil => cases h
  | cons m moves ih =>
    rcases List.mem_append.1 h with here | later
    · rw [mem_of_writtenBy (Option.mem_toList.1 here)]
      exact List.mem_cons_self
    · exact List.mem_cons_of_mem m (ih later)

theorem run_append (l : Ledger) (first second : List Move) :
    l.run (first ++ second) = (l.run first).run second :=
  List.foldl_append

theorem written_append (l : Ledger) (first second : List Move) :
    l.written (first ++ second) = l.written first ++ (l.run first).written second := by
  induction first generalizing l with
  | nil => rfl
  | cons m moves ih => rw [List.cons_append, written, written, ih, List.append_assoc]; rfl

theorem submitAll_eq_run (l : Ledger) (patches : List Patch) :
    l.submitAll patches = l.run (patches.map .submit) := by
  rw [run, List.foldl_map]
  rfl

/-- What a move can do to the tree and the pruners, and the patch that it writes. -/
inductive Effect (setup : Setup) (t : Tree) (pruners : List Pruner) :
    Option Patch → Tree → List Pruner → Prop where
  | write {p : Patch} {t' : Tree} (replaced : t.replace p.toRecord = .ok t') :
      Effect setup t pruners (some p) t' pruners
  | scan (clock : Nat → Instant) :
      Effect setup t pruners none t (pruners ++ [stale setup (t.history setup clock)])
  | prune {i : Nat} {entry : String × Option Bytes} {rest : Pruner}
      (next : pruners[i]? = some (entry :: rest)) :
      Effect setup t pruners none (pruneOne t entry) (pruners.set i rest)
  | idle : Effect setup t pruners none t pruners

theorem report_eq (l : Ledger) (failure : Failure) : (l.report failure).setup = l.setup ∧
    (l.report failure).tree = l.tree ∧ (l.report failure).pruners = l.pruners := by
  unfold report
  split <;> exact ⟨rfl, rfl, rfl⟩

theorem submit_of_ok {l : Ledger} {p : Patch} {t : Tree} (relevant : l.isRelevant p)
    (replaced : l.tree.replace p.toRecord = .ok t) :
    l.submit p = (.written, { l with tree := t, lastHasErrors := p.hasErrors }) := by
  rw [submit, if_pos relevant, replaced]

theorem submit_cases (l : Ledger) (p : Patch) :
    (∃ t, l.isRelevant p ∧ l.tree.replace p.toRecord = .ok t) ∨
      (l.submit p).1 ≠ .written ∧ (l.submit p).2.setup = l.setup ∧
        (l.submit p).2.tree = l.tree ∧ (l.submit p).2.pruners = l.pruners := by
  by_cases relevant : l.isRelevant p
  · cases replaced : l.tree.replace p.toRecord with
    | ok t => exact Or.inl ⟨t, relevant, rfl⟩
    | error e =>
      have form : l.submit p = (.rejected e.error, l.report ⟨p.uuid, e.error⟩) := by
        rw [submit, if_pos relevant, replaced]
      rw [form]
      exact Or.inr ⟨Outcome.noConfusion, l.report_eq _⟩
  · have form : l.submit p = (.suppressed, l) := by rw [submit, if_neg relevant]
    rw [form]
    exact Or.inr ⟨Outcome.noConfusion, rfl, rfl, rfl⟩

theorem submit_of_written {l : Ledger} {p : Patch} (wrote : (l.submit p).1 = .written) :
    ∃ t, l.tree.replace p.toRecord = .ok t ∧
      l.submit p = (.written, { l with tree := t, lastHasErrors := p.hasErrors }) := by
  obtain ⟨t, relevant, replaced⟩ := (l.submit_cases p).resolve_right fun h => h.1 wrote
  exact ⟨t, replaced, submit_of_ok relevant replaced⟩

theorem holds_of_written {l : Ledger} {p : Patch} (wrote : (l.submit p).1 = .written) :
    (l.submit p).2.tree.Holds p.toRecord ∧ Tree.AgreeBut p.uuid (l.submit p).2.tree l.tree := by
  obtain ⟨t, replaced, form⟩ := submit_of_written wrote
  rw [form]
  exact (Tree.replace_eq_ok_iff.1 replaced).2

theorem submit_eq_written_iff {l : Ledger} {p : Patch} :
    (l.submit p).1 = .written ↔ l.isRelevant p ∧ Key.validUuid p.uuid := by
  have uuid : p.toRecord.uuid = p.uuid := rfl
  by_cases relevant : l.isRelevant p <;> by_cases valid : Key.validUuid p.uuid <;>
    simp [submit, Tree.replace, uuid, relevant, valid]

theorem writtenBy_submit {l : Ledger} {p : Patch} (relevant : !p.isEmpty || p.hasErrors)
    (valid : Key.validUuid p.uuid) : l.writtenBy (.submit p) = some p := by
  have relevant : l.isRelevant p := by rw [isRelevant, relevant, Bool.true_or]
  rw [writtenBy, if_pos (submit_eq_written_iff.2 ⟨relevant, valid⟩)]

theorem keeps_submitAll {l : Ledger} {kept : List Patch} (h : l.tree.Keeps kept)
    (patches : List Patch) : (l.submitAll patches).tree.Keeps
      (Patch.latest kept (l.written (patches.map .submit))) := by
  induction patches generalizing l kept with
  | nil => exact h
  | cons p rest ih =>
    have step : l.submitAll (p :: rest) = (l.submit p).2.submitAll rest := rfl
    rw [step, List.map_cons, Ledger.written, writtenBy, move]
    rcases l.submit_cases p with ⟨t, relevant, replaced⟩ | ⟨other, -, tree, -⟩
    · rw [submit_of_ok relevant replaced, if_pos rfl]
      exact ih (h.replace replaced)
    · rw [if_neg other]
      exact ih (tree.symm ▸ h)

theorem written_submits {l : Ledger} {patches : List Patch}
    (relevant : ∀ p ∈ patches, !p.isEmpty || p.hasErrors)
    (valid : ∀ p ∈ patches, Key.validUuid p.uuid) : l.written (patches.map .submit) = patches := by
  induction patches generalizing l with
  | nil => rfl
  | cons p rest ih =>
    obtain ⟨relevant, restRelevant⟩ := List.forall_mem_cons.1 relevant
    obtain ⟨valid, restValid⟩ := List.forall_mem_cons.1 valid
    rw [List.map_cons, written, writtenBy_submit relevant valid, ih restRelevant restValid]
    rfl

theorem keeps_submits {l : Ledger} (empty : l.tree = .empty) {patches : List Patch}
    (relevant : ∀ p ∈ patches, !p.isEmpty || p.hasErrors)
    (valid : ∀ p ∈ patches, Key.validUuid p.uuid) :
    (l.submitAll patches).tree.Keeps (Patch.latest [] patches) := by
  have kept := keeps_submitAll (show l.tree.Keeps [] from empty ▸ Tree.keeps_empty) patches
  rwa [written_submits relevant valid] at kept

theorem pruners_submitAll (l : Ledger) (patches : List Patch) :
    (l.submitAll patches).pruners = l.pruners := by
  induction patches generalizing l with
  | nil => rfl
  | cons p rest ih =>
    refine (ih (l.submit p).2).trans ?_
    rcases l.submit_cases p with ⟨t, relevant, replaced⟩ | ⟨-, -, -, pruners⟩
    · rw [submit_of_ok relevant replaced]
    · exact pruners

theorem load_eq (l : Ledger) (clock : Nat → Instant) (offset limit : Nat) :
    (l.load clock offset limit).2 = l ∧ stale l.setup (l.history clock) = [] ∨
      (l.load clock offset limit).2 =
        { l with pruners := l.pruners ++ [stale l.setup (l.history clock)] } := by
  rw [load]
  cases found : stale l.setup (l.history clock) <;> simp

section Load

variable (l : Ledger) (clock : Nat → Instant) (offset limit : Nat)

@[simp] theorem setup_load : (l.load clock offset limit).2.setup = l.setup := by
  rcases l.load_eq clock offset limit with ⟨same, -⟩ | added
  · rw [same]
  · rw [added]

@[simp] theorem tree_load : (l.load clock offset limit).2.tree = l.tree := by
  rcases l.load_eq clock offset limit with ⟨same, -⟩ | added
  · rw [same]
  · rw [added]

@[simp] theorem lastHasErrors_load :
    (l.load clock offset limit).2.lastHasErrors = l.lastHasErrors := by
  rcases l.load_eq clock offset limit with ⟨same, -⟩ | added
  · rw [same]
  · rw [added]

@[simp] theorem history_load (clock' : Nat → Instant) :
    (l.load clock offset limit).2.history clock' = l.history clock' := by
  rw [history, setup_load, tree_load, history]

end Load

theorem effect_move (l : Ledger) (m : Move) :
    Effect l.setup l.tree l.pruners (l.writtenBy m) (l.move m).tree (l.move m).pruners := by
  cases m with
  | submit p =>
    rcases l.submit_cases p with ⟨t, relevant, replaced⟩ | ⟨other, -, tree, pruners⟩
    · rw [writtenBy, move, submit_of_ok relevant replaced]
      exact Effect.write replaced
    · rw [writtenBy, move, if_neg other, tree, pruners]
      exact Effect.idle
  | load clock offset limit =>
    rw [writtenBy, move]
    rcases l.load_eq clock offset limit with ⟨same, -⟩ | added
    · rw [same]
      exact Effect.idle
    · rw [added]
      exact Effect.scan clock
  | prune i =>
    rw [writtenBy, move, pruneStep]
    split
    · next entry rest next => exact Effect.prune next
    · exact Effect.idle

theorem setup_move (l : Ledger) (m : Move) : (l.move m).setup = l.setup := by
  cases m with
  | submit p =>
    rcases l.submit_cases p with ⟨t, relevant, replaced⟩ | ⟨-, setup, -, -⟩
    · rw [move, submit_of_ok relevant replaced]
    · exact setup
  | load clock offset limit => exact l.setup_load clock offset limit
  | prune i =>
    rw [move, pruneStep]
    split <;> rfl

theorem setup_run (l : Ledger) (moves : List Move) : (l.run moves).setup = l.setup := by
  induction moves generalizing l with
  | nil => rfl
  | cons m moves ih => exact (ih (l.move m)).trans (l.setup_move m)

end PatchLedger.Ledger
